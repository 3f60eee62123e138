import FindingLedger.Proofs.Audit.Chronicle
import Mathlib.Algebra.Group.Int.Defs
import Mathlib.Data.String.Basic

/-!
# The encoding of audit records

**Input.**  A log that is empty or ends in a line feed, in a file that keeps what is written to it,
and records with any texts and numbers in them, whose counts have different names.  Numbers have at
most `digitLimit` digits, and the name of the file has no surrogate pair in it.

**Algorithm.**  `Record.object` is the JSON object of a record as it is meant to be read: its nine
fields in the order of their names, the counts in a given order.  `Record.Encodes` says that a line
is printable ASCII and is read as this object, with the counts in the order of their names.

**Results.**
* `tooLong_iff`: which numbers have too many digits.
* `ascending_sortMembers`: different keys come out in increasing order.
* `Record.asRead_json`: a record is read as its object.
* `Record.same_of_object_eq`: records with the same object are the same, but for the order of their
  counts.
* `log_can_be_decoded`: so each record adds one line that can be read, and from the text of the log
  the records can be told.
* `long_number_is_not_written`: a record with too long a number is not written.
-/

namespace FindingLedger

/-- The numbers that have too many digits are those from a power of ten on. -/
theorem tooLong_iff {n : Int} : TooLong n ↔ 10 ^ digitLimit ≤ n.natAbs := by
  rw [TooLong, ← not_le, Nat.length_toDigits_le_iff (by decide) (by decide), not_lt]

namespace Json

section Order

variable {α : Type}

/-- The keys of an object, in the order in which they are written. -/
def Value.keys : Value → List String
  | .object members => members.map Prod.fst
  | _ => []

theorem pairwise_insertMember (m : String × α) {ms : List (String × α)}
    (h : ms.Pairwise fun a b => a.1 ≤ b.1) :
    (insertMember m ms).Pairwise fun a b => a.1 ≤ b.1 := by
  induction ms with
  | nil => simp [insertMember]
  | cons x ms ih =>
      obtain ⟨hx, hms⟩ := List.pairwise_cons.1 h
      unfold insertMember
      split
      · next hlt =>
          refine List.pairwise_cons.2 ⟨fun y hy => ?_, ih hms⟩
          rcases List.mem_cons.1 ((perm_insertMember m ms).mem_iff.1 hy) with rfl | hy
          · exact le_of_lt hlt
          · exact hx y hy
      · next hge =>
          refine List.pairwise_cons.2 ⟨List.forall_mem_cons.2 ⟨not_lt.1 hge, fun y hy => ?_⟩, h⟩
          exact le_trans (not_lt.1 hge) (hx y hy)

theorem pairwise_sortMembers (ms : List (String × α)) :
    (sortMembers ms).Pairwise fun a b => a.1 ≤ b.1 := by
  induction ms with
  | nil => exact List.Pairwise.nil
  | cons m ms ih => exact pairwise_insertMember m ih

/-- Different keys come out in increasing order. -/
theorem ascending_sortMembers {ms : List (String × α)} (hn : (ms.map Prod.fst).Nodup) :
    ((sortMembers ms).map Prod.fst).Pairwise (· < ·) := by
  have hne : ((sortMembers ms).map Prod.fst).Nodup :=
    ((perm_sortMembers ms).map Prod.fst).nodup_iff.2 hn
  rw [List.Nodup, List.pairwise_map] at hne
  rw [List.pairwise_map]
  exact (pairwise_sortMembers ms).imp₂ (fun _ _ hle hne => lt_of_le_of_ne hle hne) hne

end Order

end Json

namespace Audit

open Json (Value)

/-- The JSON object of a record, with its counts in the given order. -/
def Record.object (r : Record) (counts : List (String × Int)) : Value :=
  .object
    [("counts", .object (counts.map (Prod.map id .integer))),
      ("dropped", .integer r.dropped),
      ("duration_ms", .integer r.durationMs),
      ("file", .text r.file),
      ("first_analysis", .boolean r.firstAnalysis),
      ("input_count", .integer r.inputCount),
      ("operation", .text r.operation),
      ("output_count", .integer r.outputCount),
      ("timestamp", .text r.timestamp)]

theorem sortMembers_counts (counts : List (String × Int)) :
    Json.sortMembers (Json.membersAsRead (counts.map fun c => (c.1, .integer c.2))) =
      (Json.sortMembers counts).map (Prod.map id .integer) := by
  rw [Json.membersAsRead_eq_map, List.map_map, ← Json.sortMembers_map]
  rfl

/-- A record is read as its object, if there is no surrogate pair in the name of the file. -/
theorem Record.asRead_json {r : Record} (hfile : r.file.Unpaired) :
    r.json.asRead = r.object (Json.sortMembers r.counts) := by
  have hjoined : r.file.joined = r.file := CodeText.joined_eq_self_iff.2 hfile
  simp only [json, object, Value.asRead, Json.membersAsRead, sortMembers_counts, Json.sortMembers,
    Json.insertMember, String.reduceLT, if_true, if_false, CodeText.joined_ofString, hjoined]

/-- The names of its fields are in order. -/
theorem Record.keys_object (r : Record) (counts : List (String × Int)) :
    (r.object counts).keys.Pairwise (· < ·) := by
  show List.Pairwise (· < ·) ["counts", "dropped", "duration_ms", "file", "first_analysis",
    "input_count", "operation", "output_count", "timestamp"]
  decide

/-- The records are the same, but for the order of their counts. -/
def Record.Same (r r' : Record) : Prop :=
  r.counts.Perm r'.counts ∧ r' = { r with counts := r'.counts }

/-- The object of a record, its counts in any order, tells the record. -/
theorem Record.same_of_object_eq {r r' : Record} {counts counts' : List (String × Int)}
    (hcounts : counts.Perm r.counts) (hcounts' : counts'.Perm r'.counts)
    (h : r.object counts = r'.object counts') : r.Same r' := by
  -- Counts are kept apart by their names and numbers; all other fields stand in the object itself.
  have hinteger : Function.Injective (Prod.map (id : String → String) Value.integer) :=
    Function.injective_id.prodMap fun _ _ hn => Value.integer.inj hn
  simp only [object, Value.object.injEq, Value.integer.injEq, Value.text.injEq,
    Value.boolean.injEq, List.cons.injEq, Prod.mk.injEq, true_and, and_true, CodeText.ofString_inj,
    (List.map_injective_iff.2 hinteger).eq_iff] at h
  obtain ⟨rfl, hdropped, hduration, hfile, hfirst, hinput, hoperation, houtput, htimestamp⟩ := h
  refine ⟨hcounts.symm.trans hcounts', ?_⟩
  rw [hdropped, hduration, hfile, hfirst, hinput, hoperation, houtput, htimestamp]

/-- The line is printable ASCII, and is read as the object of the record with its counts in the
order of their names. -/
structure Record.Encodes (line : String) (r : Record) : Prop where
  printable : ∀ c ∈ line.toList, Json.Printable c
  decodes : ∃ counts : List (String × Int), counts.Perm r.counts ∧
    (counts.map Prod.fst).Pairwise (· < ·) ∧
    (r.object counts).keys.Pairwise (· < ·) ∧ Json.read line.toList = some (r.object counts)

/-- The record can be written, and read as it was: its numbers are below the limit, and there is no
surrogate pair in the name of its file. -/
structure Record.Plain (r : Record) : Prop where
  small : ∀ n ∈ r.json.integers, n.natAbs < 10 ^ digitLimit
  unpaired : r.file.Unpaired

variable {r r' : Record}

theorem Record.Plain.short (h : r.Plain) : r.Short := fun n hn hlong =>
  absurd (tooLong_iff.1 hlong) (not_le.2 (h.small n hn))

theorem Record.Plain.read_written (h : r.Plain) :
    Json.read r.written.toList = some (r.object (Json.sortMembers r.counts)) := by
  rw [written, String.toList_ofList, Json.read_render, asRead_json h.unpaired]

/-- What is written of a record encodes it. -/
theorem Record.Plain.encodes_written (h : r.Plain) (hn : (r.counts.map Prod.fst).Nodup) :
    Encodes r.written r where
  printable := by
    rw [written, String.toList_ofList]
    exact Json.printable_render r.json
  decodes := ⟨_, Json.perm_sortMembers r.counts, Json.ascending_sortMembers hn,
    r.keys_object _, h.read_written⟩

/-- What is written of a record tells it. -/
theorem Record.Plain.same_of_written_eq (h : r.Plain) (h' : r'.Plain)
    (hwritten : r.written = r'.written) : r.Same r' := by
  have hread := h.read_written
  rw [hwritten, h'.read_written] at hread
  exact same_of_object_eq (Json.perm_sortMembers r.counts) (Json.perm_sortMembers r'.counts)
    (Option.some.inj hread).symm

section Logs

variable {l : Log} {records records' : List Record}

/-- The lines of some records. -/
def Record.lines (records : List Record) : String :=
  String.join ((records.map written).map (· ++ "\n"))

/-- A file that keeps what is written to it takes every plain record. -/
theorem Log.append_of_keeping (hw : l.writer = .keeping) (h : r.Plain) :
    (l.append r).fault = none ∧ (l.append r).bytes = l.bytes ++ (r.written ++ "\n").toUTF8 := by
  rw [append, Record.line?_of_short h.short]
  simp only [write, bytes, hw]
  exact ⟨rfl, rfl⟩

/-- Along a list of plain records the log grows by their lines. -/
theorem Log.bytes_foldl_append (hw : l.writer = .keeping) (h : ∀ r ∈ records, r.Plain) :
    (records.foldl append l).bytes = l.bytes ++ (Record.lines records).toUTF8 := by
  induction records generalizing l with
  | nil => simp [Record.lines]
  | cons r records ih =>
      obtain ⟨hr, hrecords⟩ := List.forall_mem_cons.1 h
      rw [List.foldl_cons, ih ((l.append_writer r).trans hw) hrecords,
        (append_of_keeping hw hr).2, Record.lines, Record.lines]
      simp [ByteArray.append_assoc]

/-- **A log can be decoded.**  Let the log be empty or end in a line feed, in a file that keeps what
is written to it.  Records of any content, whose counts have different names, add one line each, if
their numbers are below the limit and there are no surrogate pairs in the names of their files, and
no write fails.  Each line is printable ASCII, has its keys in order on both levels, and is read as
an object of just the nine fields and the counts of its record.  So records that are not the same
make another log. -/
theorem log_can_be_decoded (hw : l.writer = .keeping) {text : String}
    (htext : l.bytes = text.toUTF8) (hwhole : Whole text) (hplain : ∀ r ∈ records, r.Plain)
    (hnames : ∀ r ∈ records, (r.counts.map Prod.fst).Nodup) :
    (∃ (written : List String) (grown : String),
      (records.foldl Log.append l).bytes = grown.toUTF8 ∧
      grown = text ++ String.join (written.map (· ++ "\n")) ∧
      lines grown = lines text ++ written ∧ List.Forall₂ Record.Encodes written records) ∧
    (∀ before r after, records = before ++ r :: after →
      ((before.foldl Log.append l).append r).fault = none) ∧
    ∀ records' : List Record, (∀ r ∈ records', r.Plain) →
      (records'.foldl Log.append l).bytes = (records.foldl Log.append l).bytes →
        List.Forall₂ Record.Same records records' := by
  have hgrown : ∀ {records : List Record}, (∀ r ∈ records, r.Plain) →
      (records.foldl Log.append l).bytes = (text ++ Record.lines records).toUTF8 := by
    intro records h
    rw [Log.bytes_foldl_append hw h, htext]
    simp only [String.toUTF8_eq_toByteArray, String.toByteArray_append]
  have hlines : ∀ records : List Record,
      lines (text ++ Record.lines records) = lines text ++ records.map Record.written :=
    fun records => lines_append hwhole
      (List.forall_mem_map.2 fun record _ => lineFeed_not_mem_written record)
  refine ⟨⟨records.map Record.written, _, hgrown hplain, rfl, hlines records, ?_⟩, ?_, ?_⟩
  · rw [List.forall₂_map_left_iff, List.forall₂_same]
    exact fun r hr => (hplain r hr).encodes_written (hnames r hr)
  · rintro before r after rfl
    have hr : r.Plain := hplain r (List.mem_append_right _ (List.mem_cons_self ..))
    exact (Log.append_of_keeping ((l.writer_foldl_append before).trans hw) hr).1
  · -- The line breaks of the text find the written records, and each of these tells its own.
    intro records' hplain' hsame
    rw [hgrown hplain', hgrown hplain, String.toUTF8_eq_toByteArray, String.toUTF8_eq_toByteArray,
      String.toByteArray_inj] at hsame
    have hwritten := hlines records'
    rw [hsame, hlines records, List.append_cancel_left_eq, ← List.forall₂_eq_eq_eq,
      List.forall₂_map_left_iff, List.forall₂_map_right_iff] at hwritten
    have hleft := (List.forall₂_and_left records records').2 ⟨hplain, hwritten⟩
    have hboth := (List.forall₂_and_left records' records).2 ⟨hplain', List.Forall₂.flip hleft⟩
    refine List.Forall₂.flip (hboth.imp ?_)
    rintro r' r ⟨hr', hr, hwritten⟩
    exact hr.same_of_written_eq hr' hwritten

/-- Quotes, line breaks, a character above U+FFFF, a surrogate that stands alone, a large number and
unsorted counts in one record that is written behind another line. -/
theorem log_can_be_decoded_hostile :
    let r : Record := ⟨"\u2028", "\"\x7d\n\x7b\"", CodeText.ofString "a\\\r\n😀\x7f" ++ ⟨[0xDCFF]⟩,
      true, -7, 123456789012345678901234567890, [("b", -1), ("", 2), ("a\n", 0)], 0, 3⟩
    let l : Log := { Log.off with contents := some "old\n".toUTF8 }
    ∃ line grown, (l.append r).bytes = grown.toUTF8 ∧ lines grown = ["old", line] ∧
      Record.Encodes line r ∧ (l.append r).fault = none ∧
      ∀ r' : Record, r'.Plain → (l.append r').bytes = (l.append r).bytes → r.Same r' := by
  intro r l
  have hplain : ∀ r' ∈ [r], r'.Plain := by
    refine List.forall_mem_singleton.2 ⟨?_, CodeText.joined_eq_self_iff.1 rfl⟩
    intro n hn
    have hshort : ¬ TooLong n := by
      revert n
      show ∀ n ∈ [-7, 123456789012345678901234567890, -1, 2, 0, 0, 3], ¬ TooLong n
      decide
    exact not_le.1 (mt tooLong_iff.2 hshort)
  have hnames : ∀ r' ∈ [r], (r'.counts.map Prod.fst).Nodup := by simp [r]
  have hold : l.bytes = "old\n".toUTF8 := rfl
  obtain ⟨⟨written, grown, hbytes, -, hlines, hencodes⟩, hwritten, hsame⟩ :=
    log_can_be_decoded (l := l) rfl hold (Or.inr ⟨"old", rfl⟩) hplain hnames
  obtain ⟨line, rest, hline, hrest, rfl⟩ := List.forall₂_cons_right_iff.1 hencodes
  cases hrest
  have hfirst : lines "old\n" = ["old"] := rfl
  refine ⟨line, grown, hbytes, hlines.trans (congrArg (· ++ [line]) hfirst), hline,
    hwritten [] r [] rfl, fun r' hr' hr'bytes => ?_⟩
  have hlist := hsame [r'] (List.forall_mem_singleton.2 hr') hr'bytes
  exact (List.forall₂_cons.1 hlist).1

/-- A record with too long a number is not written, and so it leaves no trace; and what is written
is there to be decoded only where it is kept. -/
theorem long_number_is_not_written :
    let r : Record := ⟨"", "", "a.py", true, 10 ^ 4300, 0, [("combined", 0)], 0, 0⟩
    let l : Log := { Log.off with contents := some "old\n".toUTF8 }
    let device : Log :=
      { l with contents := some .empty, writer := fun _ contents _ => ⟨contents, none⟩ }
    (r.counts.map Prod.fst).Nodup ∧ r.file.Unpaired ∧
      (l.append r).contents = l.contents ∧ (l.append r).fault = some .tooManyDigits ∧
      (device.append { r with inputCount := 0 }).contents = device.contents ∧
      (device.append { r with inputCount := 0 }).fault = none := by
  intro r l device
  have hlong : TooLong (10 ^ 4300) := by
    have hten : (10 : ℤ).natAbs = 10 := rfl
    rw [tooLong_iff, Int.natAbs_pow, hten, digitLimit]
  have hmem : (10 ^ 4300 : ℤ) ∈ r.json.integers := List.mem_cons_self ..
  have hline : r.line? = none := Record.line?_of_not_short fun hshort => hshort _ hmem hlong
  have hshort : Record.Short { r with inputCount := 0 } := by
    show ∀ n ∈ [0, 0, 0, 0, 0], ¬ TooLong n
    decide
  refine ⟨List.nodup_singleton _, CodeText.unpaired_ofString _, ?_, ?_, ?_, ?_⟩
  · rw [Log.append, hline]
    exact congrArg some ByteArray.append_empty
  · rw [Log.append, hline]
    rfl
  · rw [Log.append, Record.line?_of_short hshort]
    rfl
  · rw [Log.append, Record.line?_of_short hshort]
    rfl

end Logs

end Audit
end FindingLedger
