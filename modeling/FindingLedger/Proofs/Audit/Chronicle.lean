import FindingLedger.Config.Project
import FindingLedger.Proofs.Audit.Reading
import FindingLedger.Proofs.Ledger.Transcript

/-!
# The audit log as a history

**Input.**  A session that begins with the ledger of a project, and any events: calls that succeed
or fail, and uses of the store past the ledger.  The file of the log may hold any bytes, or it is
missing; what is written to it is appended, unless the system reports an error.

**Algorithm.**  `Audit.lines` cuts a text into the lines that a line feed ends.  A JSON value
`Tells` of a report when it has all its numbers and names.  `Session.successes` lists the calls on
files that succeed, the writing of their records included.

**Results.**
* `Record.tells_ofReport`: what is written of a report can be read, and tells of it.
* `lines_append`: texts of whole lines go on with the lines that are appended.
* `Log.append_cases`: a record is written as a line, or not at all.
* `Session.call_cases`: a call on a file that succeeds adds the line of its report to the log, and
  any other call adds nothing.
* `log_tells_the_history`: so the log grows by one line for each success, which tells of its report.
* `pair_is_told_as_one_point`: of the name of a file, the log does not tell surrogate pairs from
  single code points; and a device need not keep what is written to it.
-/

namespace FindingLedger

namespace Audit

section Lines

/-- The lines of a text, each ended by a line feed. -/
def lines (text : String) : List String :=
  ((text.toList.splitOn '\n').dropLast).map String.ofList

/-- The text is empty or ends in a line feed. -/
def Whole (text : String) : Prop :=
  text = "" ∨ ∃ start, text = start ++ "\n"

theorem splitOn_of_whole {text : String} (h : Whole text) :
    ∃ pieces, ∀ rest : List Char,
      (text.toList ++ rest).splitOn '\n' = pieces ++ rest.splitOn '\n' := by
  rcases h with rfl | ⟨start, rfl⟩
  · exact ⟨[], fun _ => rfl⟩
  · refine ⟨start.toList.splitOn '\n', fun rest => ?_⟩
    have hlist : (start ++ "\n").toList ++ rest = start.toList ++ '\n' :: rest := by
      simp
    rw [hlist, List.splitOn_append_cons_self]

theorem splitOn_join {pieces : List String} (h : ∀ piece ∈ pieces, '\n' ∉ piece.toList) :
    (String.join (pieces.map (· ++ "\n"))).toList.splitOn '\n' =
      pieces.map String.toList ++ [[]] := by
  induction pieces with
  | nil => rfl
  | cons piece pieces ih =>
      obtain ⟨hpiece, hpieces⟩ := List.forall_mem_cons.1 h
      have hlist : (String.join ((piece :: pieces).map (· ++ "\n"))).toList =
          piece.toList ++ '\n' :: (String.join (pieces.map (· ++ "\n"))).toList := by
        simp
      rw [hlist, List.splitOn_append_cons_self_of_not_mem hpiece, ih hpieces]
      rfl

/-- Lines that are appended to whole lines follow these lines. -/
theorem lines_append {text : String} (h : Whole text) {pieces : List String}
    (hpieces : ∀ piece ∈ pieces, '\n' ∉ piece.toList) :
    lines (text ++ String.join (pieces.map (· ++ "\n"))) = lines text ++ pieces := by
  obtain ⟨before, hbefore⟩ := splitOn_of_whole h
  have hold : text.toList.splitOn '\n' = before ++ [[]] := by
    simpa using hbefore []
  rw [lines, lines, String.toList_append, hbefore, splitOn_join hpieces, hold, List.dropLast_concat,
    ← List.append_assoc, List.dropLast_concat]
  simp [Function.comp_def]

end Lines

section Records

open Json (Value)

/-- A JSON value that has all the numbers and names of a report.  The name of the file has its
surrogate pairs joined. -/
structure Tells (v : Value) (r : Report) : Prop where
  operation : v.member? "operation" = some (.text r.operation.name)
  file : v.member? "file" = some (.text r.file.joined)
  firstAnalysis : v.member? "first_analysis" = some (.boolean r.firstAnalysis)
  inputCount : v.member? "input_count" = some (.integer r.inputCount)
  outputCount : v.member? "output_count" = some (.integer r.outputCount)
  dropped : v.member? "dropped" = some (.integer r.dropped)
  counts : ∃ counts, v.member? "counts" = some counts ∧
    ∀ name n, counts.member? name = some n ↔
      ∃ k : OutcomeKind, name = k.name ∧ n = .integer (r.counts.count k)

/-- So the file is told exactly, if there is no surrogate pair in its name. -/
theorem Tells.file_iff {v : Value} {r : Report} (h : Tells v r) :
    v.member? "file" = some (.text r.file) ↔ r.file.Unpaired := by
  rw [h.file, Option.some.injEq, Value.text.injEq, CodeText.joined_eq_self_iff]

/-- A record without the line feed at its end. -/
def Record.written (r : Record) : String :=
  String.ofList (Json.render r.json)

/-- No integer of the record has too many digits. -/
def Record.Short (r : Record) : Prop :=
  ∀ n ∈ r.json.integers, ¬ TooLong n

theorem Record.line?_of_short {r : Record} (h : r.Short) : r.line? = some (r.written ++ "\n") := by
  unfold Short at h
  rw [line?, Json.render?, if_pos h, Option.map_some, String.ofList_append]
  rfl

theorem Record.line?_of_not_short {r : Record} (h : ¬ r.Short) : r.line? = none := by
  unfold Short at h
  rw [line?, Json.render?, if_neg h]
  rfl

theorem lineFeed_not_mem_written (r : Record) : '\n' ∉ r.written.toList := by
  rw [Record.written, String.toList_ofList]
  exact Json.lineFeed_not_mem_render r.json

theorem Record.member?_asRead (r : Record) (key : String) :
    r.json.asRead.member? key = (r.json.member? key).map Value.asRead :=
  Value.member?_asRead (by simp) key

/-- The counts of a record have a member for each kind, and no other. -/
theorem member?_counts_iff (t : Tally) (name : String) (v : Value) :
    (Value.object (t.named.map fun c => (c.1, .integer (c.2 : Int)))).asRead.member? name =
      some v ↔ ∃ k : OutcomeKind, name = k.name ∧ v = .integer (t.count k) := by
  have hkeys : ((t.named.map fun c => (c.1, Value.integer (c.2 : Int))).map Prod.fst).Nodup := by
    simp [Tally.named, OutcomeKind.all, OutcomeKind.name]
  rw [Value.member?_asRead hkeys, Option.map_eq_some_iff]
  simp only [Value.member?_object_eq_some_iff hkeys]
  simp only [Tally.named, List.map_map, List.mem_map, Function.comp_apply, Prod.mk.injEq]
  constructor
  · rintro ⟨-, ⟨k, -, rfl, rfl⟩, rfl⟩
    exact ⟨k, rfl, rfl⟩
  · rintro ⟨k, rfl, rfl⟩
    exact ⟨_, ⟨k, by cases k <;> decide, rfl, rfl⟩, rfl⟩

/-- What is written of a report can be read, and tells of it. -/
theorem Record.tells_ofReport (r : Report) (stamp : Stamp) :
    ∃ v, Json.read (Record.ofReport r stamp).written.toList = some v ∧ Tells v r := by
  have hcounts := member?_counts_iff r.counts
  refine ⟨(Record.ofReport r stamp).json.asRead, ?_, ?_⟩
  · rw [written, String.toList_ofList, Json.read_render]
  · exact {
      operation := (member?_asRead _ _).trans
        (congrArg (fun t => some (Value.text t)) (CodeText.joined_ofString _))
      file := member?_asRead _ _
      firstAnalysis := member?_asRead _ _
      inputCount := member?_asRead _ _
      outputCount := member?_asRead _ _
      dropped := member?_asRead _ _
      counts := ⟨_, member?_asRead _ _, by simpa [ofReport, Function.comp_def] using hcounts⟩ }

end Records

section Logs

/-- What the file of the log holds; a missing file holds nothing. -/
def Log.bytes (l : Log) : ByteArray :=
  l.contents.getD .empty

/-- The file is an ordinary one.  What is written to it is appended, unless the system reports an
error; then the file holds what it did before. -/
def Writer.Ordinary (w : Writer) : Prop :=
  ∀ n contents bytes, w n contents bytes = Writer.keeping n contents bytes ∨
    (w n contents bytes).error ≠ none ∧
      (w n contents bytes).contents.getD .empty = contents.getD .empty

variable {l : Log}

/-- A text is written as it is, or there is a fault and nothing is written. -/
theorem Log.write_cases (hw : l.writer.Ordinary) (text : String) (fault : Option Fault) :
    (l.write text fault).fault = fault ∧ (l.write text fault).bytes = l.bytes ++ text.toUTF8 ∨
      (l.write text fault).fault ≠ none ∧ (l.write text fault).bytes = l.bytes := by
  have hwritten := hw l.made l.contents text.toUTF8
  simp only [write, bytes]
  generalize l.writer l.made l.contents text.toUTF8 = written at hwritten ⊢
  rcases hwritten with rfl | ⟨herror, hsame⟩
  · exact Or.inl ⟨rfl, rfl⟩
  · obtain ⟨e, he⟩ := Option.ne_none_iff_exists'.1 herror
    exact Or.inr ⟨by simp [he], hsame⟩

/-- A record is written as a line, or there is a fault and nothing is written. -/
theorem Log.append_cases (hw : l.writer.Ordinary) (r : Record) :
    (l.append r).fault = none ∧ (l.append r).bytes = l.bytes ++ (r.written ++ "\n").toUTF8 ∨
      (l.append r).fault ≠ none ∧ (l.append r).bytes = l.bytes := by
  by_cases hshort : r.Short
  · rw [append, Record.line?_of_short hshort]
    exact write_cases hw (r.written ++ "\n") none
  · rw [append, Record.line?_of_not_short hshort]
    right
    rcases write_cases hw "" (some .tooManyDigits) with ⟨hfault, hbytes⟩ | hnothing
    · exact ⟨by simp [hfault], by simpa using hbytes⟩
    · exact hnothing

theorem Log.enabled_foldl_append (l : Log) (records : List Record) :
    (records.foldl Log.append l).enabled = l.enabled := by
  induction records generalizing l with
  | nil => rfl
  | cons record records ih => rw [List.foldl_cons, ih, append_enabled]

theorem Log.writer_foldl_append (l : Log) (records : List Record) :
    (records.foldl Log.append l).writer = l.writer := by
  induction records generalizing l with
  | nil => rfl
  | cons record records ih => rw [List.foldl_cons, ih, append_writer]

end Logs

end Audit

/-- The report is about the call. -/
def Report.About {π : Type} (r : Report) : Call (Finding π) → Prop
  | .track file items => r.operation = .track ∧ r.file = file ∧ r.inputCount = items.length
  | .rebase file base => r.operation = .rebase ∧ r.file = file ∧ r.inputCount = base.length
  | _ => False

/-- The call is about a file. -/
def Call.onFile {ι : Type} : Call ι → Bool
  | .track _ _ => true
  | .rebase _ _ => true
  | _ => false

namespace Ledger

variable {π : Type} {L : Ledger π} {file : CodeText} {out : List (Finding π)}

theorem about_track {items : List (Finding π)} (hok : (L.track file items).1 = .ok out) :
    ∃ r, (L.track file items).2.lastReport = some r ∧ r.About (.track file items) := by
  have hends := L.track_ends file items
  generalize L.track file items = ended at hends hok ⊢
  cases hends with
  | first hd hs hslot => exact ⟨_, rfl, rfl, rfl, rfl⟩
  | later hd hs hslot hp => exact ⟨_, rfl, rfl, rfl, rfl⟩
  | _ => simp at hok

theorem about_rebase {base : List (Finding π)} (hok : (L.rebase file base).1 = .ok out) :
    ∃ r, (L.rebase file base).2.lastReport = some r ∧ r.About (.rebase file base) := by
  have hends := L.rebase_ends file base
  generalize L.rebase file base = ended at hends hok ⊢
  cases hends with
  | empty hs hslot hd => exact ⟨_, rfl, rfl, rfl, rfl⟩
  | later hs hslot hd hne hp => exact ⟨_, rfl, rfl, rfl, rfl⟩
  | _ => simp at hok

end Ledger

section Runs

variable {π : Type} {s : Session π}

/-- The call is one on a file, and succeeds. -/
def Session.succeeds (s : Session π) (c : Call (Finding π)) : Bool :=
  c.onFile && (s.call c).1.isOk

/-- The calls on files that succeed among the events, each with the report that it leaves. -/
def Session.successes (s : Session π) : List (Event π) → List (Call (Finding π) × Option Report)
  | [] => []
  | .call c :: es =>
      if s.succeeds c then
        (c, (s.call c).2.ledger.lastReport) :: (s.after (.call c)).successes es
      else (s.after (.call c)).successes es
  | e :: es => (s.after e).successes es

/-- The call is one on a file, and gets as far as the record of its report. -/
structure Session.Reports (s : Session π) (c : Call (Finding π)) (r : Report) : Prop where
  onFile : c.onFile = true
  answers : ∃ reply, (s.perform c).1 = .ok reply
  lastReport : (s.perform c).2.ledger.lastReport = some r
  about : r.About c
  records : ∃ stamp, s.ledger.records c = [.ofReport r stamp]

theorem Session.reports_of_ok (hon : s.ledger.log.enabled = true) {c : Call (Finding π)}
    {out : List (Finding π)} {r : Report} (hfile : c.onFile = true)
    (hok : (s.ledger.perform c).1 = .ok (.findings out))
    (hr : (s.ledger.perform c).2.lastReport = some r) (habout : r.About c) : s.Reports c r where
  onFile := hfile
  answers := ⟨.findings out, by rw [perform_fst, hok]; rfl⟩
  lastReport := by rw [perform_ledger, hr]
  about := habout
  records := by
    refine ⟨s.ledger.log.stamp s.ledger.log.made, ?_⟩
    simp only [Ledger.records, hok, hr, hon]
    rfl

/-- A call that fails before its record makes none. -/
theorem Session.not_succeeds_of_error {c : Call (Finding π)} {e : LedgerError}
    (he : (s.ledger.perform c).1 = .error e) :
    s.succeeds c = false ∧ s.ledger.records c = [] := by
  have hperform : (s.perform c).1 = .error (.ledger e) := by
    rw [perform_fst, he]
    rfl
  constructor
  · rw [succeeds, call_eq_perform (fault?_of_error hperform), hperform]
    exact Bool.and_false _
  · rw [Ledger.records, he]

/-- Each call gets as far as the record of its report, or it makes no record and does not succeed on
a file. -/
theorem Session.reports_cases (hon : s.ledger.log.enabled = true) (c : Call (Finding π)) :
    (∃ r, s.Reports c r) ∨ s.succeeds c = false ∧ s.ledger.records c = [] := by
  cases c with
  | track file items =>
      cases hok : (s.ledger.track file items).1 with
      | error e => exact Or.inr (not_succeeds_of_error (by rw [Ledger.perform, hok]; rfl))
      | ok out =>
          obtain ⟨r, hr, habout⟩ := Ledger.about_track hok
          exact Or.inl ⟨r, reports_of_ok hon rfl (by rw [Ledger.perform, hok]; rfl) hr habout⟩
  | rebase file base =>
      cases hok : (s.ledger.rebase file base).1 with
      | error e => exact Or.inr (not_succeeds_of_error (by rw [Ledger.perform, hok]; rfl))
      | ok out =>
          obtain ⟨r, hr, habout⟩ := Ledger.about_rebase hok
          exact Or.inl ⟨r, reports_of_ok hon rfl (by rw [Ledger.perform, hok]; rfl) hr habout⟩
  | reset => exact Or.inr ⟨rfl, Ledger.records_of_store rfl⟩
  | dispose => exact Or.inr ⟨rfl, Ledger.records_of_store rfl⟩
  | useStore op => exact Or.inr ⟨rfl, Ledger.records_of_store rfl⟩

/-- A call on a file that succeeds adds the line of its report to the log; any other call adds
nothing. -/
theorem Session.call_cases (hon : s.ledger.log.enabled = true) (hw : s.ledger.log.writer.Ordinary)
    (c : Call (Finding π)) :
    (s.succeeds c = true ∧ ∃ r stamp, (s.call c).2.ledger.lastReport = some r ∧ r.About c ∧
        (s.call c).2.ledger.log.bytes =
          s.ledger.log.bytes ++ ((Audit.Record.ofReport r stamp).written ++ "\n").toUTF8) ∨
      s.succeeds c = false ∧ (s.call c).2.ledger.log.bytes = s.ledger.log.bytes := by
  have hlog : (s.perform c).2.ledger.log =
      (s.ledger.records c).foldl Audit.Log.append s.ledger.log := by
    rw [perform_ledger, Ledger.log_perform]
  simp only [call_snd, hlog]
  rcases reports_cases hon c with ⟨r, hreports⟩ | ⟨hno, hrecords⟩
  · obtain ⟨stamp, hrecords⟩ := hreports.records
    have hfault := fault?_of_records hrecords
    rw [hrecords, List.foldl_cons, List.foldl_nil]
    rcases Audit.Log.append_cases hw (.ofReport r stamp) with ⟨hnone, hbytes⟩ | ⟨hsome, hbytes⟩
    · obtain ⟨reply, hreply⟩ := hreports.answers
      refine Or.inl ⟨?_, r, stamp, hreports.lastReport, hreports.about, hbytes⟩
      rw [succeeds, hreports.onFile, call_eq_perform (hfault.trans hnone), hreply]
      rfl
    · obtain ⟨fault, hfault'⟩ := Option.ne_none_iff_exists'.1 hsome
      refine Or.inr ⟨?_, hbytes⟩
      rw [succeeds, (call_of_fault (hfault.trans hfault')).2]
      exact Bool.and_false _
  · rw [hrecords]
    exact Or.inr ⟨hno, rfl⟩

theorem Session.enabled_after (s : Session π) (e : Event π) :
    (s.after e).ledger.log.enabled = s.ledger.log.enabled := by
  rw [log_after, Audit.Log.enabled_foldl_append]

theorem Session.writer_after (s : Session π) (e : Event π) :
    (s.after e).ledger.log.writer = s.ledger.log.writer := by
  rw [log_after, Audit.Log.writer_foldl_append]

/-- The records are those of the reports of some calls. -/
abbrev Recorded (successes : List (Call (Finding π) × Option Report))
    (records : List Audit.Record) : Prop :=
  List.Forall₂ (fun x record => ∃ r stamp, x.2 = some r ∧ r.About x.1 ∧ record = .ofReport r stamp)
    successes records

/-- Along a run the log grows by one line for each call on a file that succeeds. -/
theorem Session.log_grows (hon : s.ledger.log.enabled = true) (hw : s.ledger.log.writer.Ordinary)
    (es : List (Event π)) :
    ∃ records, Recorded (s.successes es) records ∧ (s.afterAll es).ledger.log.bytes =
      s.ledger.log.bytes ++
        (String.join ((records.map Audit.Record.written).map (· ++ "\n"))).toUTF8 := by
  induction es generalizing s with
  | nil => exact ⟨[], .nil, by simp [afterAll]⟩
  | cons e es ih =>
      obtain ⟨records, hrecords, hbytes⟩ :=
        ih (s := s.after e) ((s.enabled_after e).trans hon) ((s.writer_after e).symm ▸ hw)
      have hbytes : (s.afterAll (e :: es)).ledger.log.bytes = _ := hbytes
      cases e with
      | call c =>
          have hafter : s.after (.call c) = (s.call c).2 := (s.call_snd c).symm
          rw [hafter] at hrecords hbytes
          rw [successes, hafter]
          rcases call_cases hon hw c with ⟨hyes, r, stamp, hr, habout, hadded⟩ | ⟨hno, hsame⟩
          · refine ⟨.ofReport r stamp :: records, ?_, ?_⟩
            · rw [if_pos hyes]
              exact .cons ⟨r, stamp, hr, habout, rfl⟩ hrecords
            · rw [hbytes, hadded]
              simp [ByteArray.append_assoc]
          · refine ⟨records, ?_, hbytes.trans (by rw [hsame])⟩
            rwa [if_neg (by simp [hno])]
      | setClock time step =>
          refine ⟨records, hrecords, hbytes.trans ?_⟩
          rw [log_after]
          rfl
      | _ => exact ⟨records, hrecords, hbytes⟩

theorem Ledger.records_of_off {L : Ledger π} (hoff : L.log.enabled = false)
    (c : Call (Finding π)) : L.records c = [] := by
  unfold records
  split
  · simp [hoff]
  · rfl

/-- A log that is switched off stays as it is. -/
theorem Session.log_afterAll_of_off (hoff : s.ledger.log.enabled = false) (es : List (Event π)) :
    (s.afterAll es).ledger.log = s.ledger.log := by
  induction es generalizing s with
  | nil => rfl
  | cons e es ih =>
      have hafter : (s.after e).ledger.log = s.ledger.log := by
        rw [log_after]
        cases e with
        | call c => simp [exchanges, exchange, Ledger.records_of_off hoff c]
        | _ => rfl
      exact (ih (hafter ▸ hoff)).trans hafter

end Runs

section Projects

variable {π : Type}

/-- **The audit log tells the history of a session.**  Whatever is done in a session of a project
whose log is an ordinary file, each call on a file that succeeds adds one line to the log, in the
order of the calls.  Each line can be read and tells of the report of its call, whatever the file is
called, but for surrogate pairs in its name, which are read as one code point each.  Nothing else is
added, and what the log held before stays as it is.  Without auditing nothing is written. -/
theorem log_tells_the_history (c : Config) (files : Files) {writer : Audit.Writer}
    (hw : writer.Ordinary) (clock : Clock) (stamp : Nat → Audit.Stamp) (es : List (Event π)) :
    let s : Session π := .start (Project.ledger c files writer clock stamp)
    let old := (files c.auditPath).getD .empty
    let log := (s.afterAll es).ledger.log
    (c.auditEnabled = true → ∃ written : List String,
      log.bytes = old ++ (String.join (written.map (· ++ "\n"))).toUTF8 ∧
      (∀ text : String, old = text.toUTF8 → Audit.Whole text →
        ∃ grown : String, log.bytes = grown.toUTF8 ∧
          Audit.lines grown = Audit.lines text ++ written) ∧
      List.Forall₂ (fun x line => '\n' ∉ line.toList ∧
          ∃ r v, x.2 = some r ∧ r.About x.1 ∧ Json.read line.toList = some v ∧ Audit.Tells v r ∧
            (v.member? "file" = some (.text r.file) ↔ r.file.Unpaired))
        (s.successes es) written) ∧
      (c.auditEnabled = false → log.contents = files c.auditPath) := by
  intro s old log
  constructor
  · intro hon
    obtain ⟨records, hrecords, hbytes⟩ := Session.log_grows (s := s) hon hw es
    have hbytes : log.bytes = old ++ _ := hbytes
    refine ⟨records.map Audit.Record.written, hbytes, ?_, ?_⟩
    · intro text hold hwhole
      refine ⟨_, ?_, Audit.lines_append hwhole
        (List.forall_mem_map.2 fun record _ => Audit.lineFeed_not_mem_written record)⟩
      rw [hbytes, hold]
      simp only [String.toUTF8_eq_toByteArray, String.toByteArray_append]
    · rw [List.forall₂_map_right_iff]
      refine hrecords.imp ?_
      rintro x _ ⟨r, stamp, hr, habout, rfl⟩
      obtain ⟨v, hread, htells⟩ := Audit.Record.tells_ofReport r stamp
      exact ⟨Audit.lineFeed_not_mem_written _, r, v, hr, habout, hread, htells, htells.file_iff⟩
  · intro hoff
    exact congrArg Audit.Log.contents (Session.log_afterAll_of_off (s := s) hoff es)

/-- The name of the file has a quote, a line break, a backslash, a character above U+FFFF and a
surrogate that stands alone in it.  The second record is not written, and the rebase fails, since
its file is not known; so one line is added to the one that was there. -/
theorem log_tells_the_history_of_one_file :
    let c : Config := { Config.initial Path.root with auditEnabled := true }
    let name : CodeText := CodeText.ofString "a\"\n\\😀" ++ ⟨[0xDCFF]⟩
    let writer : Audit.Writer := fun n contents bytes =>
      if n = 1 then ⟨contents, some ⟨"OSError", "Input/output error"⟩⟩
      else Audit.Writer.keeping n contents bytes
    let es : List (Event Unit) :=
      [.call (.track name []), .call (.track name []), .call (.rebase "b" []), .call .reset]
    let s : Session Unit := .start (Project.ledger c (fun _ => some "old\n".toUTF8) writer
      (.steady 100 1) fun _ => ⟨"now", 7⟩)
    writer.Ordinary ∧ ∃ line grown v, (s.afterAll es).ledger.log.bytes = grown.toUTF8 ∧
      Audit.lines grown = ["old", line] ∧ Json.read line.toList = some v ∧
      v.member? "file" = some (.text name) ∧
      v.member? "operation" = some (.text "track_new_findings") := by
  intro c name writer es s
  have hw : writer.Ordinary := by
    intro n contents bytes
    by_cases hn : n = 1
    · right
      simp [writer, hn]
    · left
      simp [writer, hn]
  obtain ⟨written, -, hlines, htells⟩ := (log_tells_the_history c
    (fun _ => some "old\n".toUTF8) hw (.steady 100 1) (fun _ => ⟨"now", 7⟩) es).1 rfl
  obtain ⟨grown, hgrown, hlines⟩ := hlines "old\n" rfl (Or.inr ⟨"old", rfl⟩)
  have hsuccesses : s.successes es =
      [(.track name [], (s.call (.track name [])).2.ledger.lastReport)] := by
    have hfirst : s.succeeds (.track name []) = true := by decide
    have hsecond : (s.after (.call (.track name []))).succeeds (.track name []) = false := by
      decide
    have hthird : ((s.after (.call (.track name []))).after (.call (.track name []))).succeeds
        (.rebase "b" []) = false := by
      decide
    have hreset : ∀ t : Session Unit, t.succeeds .reset = false := fun _ => rfl
    simp only [es, Session.successes, hfirst, hsecond, hthird, hreset, if_true,
      Bool.false_eq_true, if_false]
  have hold : Audit.lines "old\n" = ["old"] := rfl
  have hname : name.Unpaired := CodeText.joined_eq_self_iff.1 rfl
  rw [hsuccesses] at htells
  cases htells with
  | cons hline hnone =>
      cases hnone
      obtain ⟨-, r, v, -, ⟨hoperation, hfile, -⟩, hread, htells, hexact⟩ := hline
      refine ⟨hw, _, grown, v, hgrown, hlines.trans ?_, hread, ?_, ?_⟩
      · rw [hold]
        rfl
      · rw [← hfile] at hname ⊢
        exact hexact.2 hname
      · rw [htells.operation, hoperation]
        rfl

/-- Of the name of a file, the log does not tell surrogate pairs from single code points.  And it
holds what was written to it only where it is kept; a device may forget it. -/
theorem pair_is_told_as_one_point :
    let c : Config := { Config.initial Path.root with auditEnabled := true }
    let session (old : Option ByteArray) (writer : Audit.Writer) : Session Unit :=
      .start (Project.ledger c (fun _ => old) writer (.steady 100 1) fun _ => ⟨"now", 7⟩)
    let s := session none .keeping
    let device := session (some .empty) fun _ contents _ => ⟨contents, none⟩
    let pair : CodeText := ⟨[0xD83D, 0xDE00]⟩
    s.succeeds (.track pair []) = true ∧ pair ≠ "😀" ∧
      (s.after (.call (.track pair []))).ledger.log.contents =
        (s.after (.call (.track "😀" []))).ledger.log.contents ∧
      (∃ line v, (s.after (.call (.track pair []))).ledger.log.bytes = (line ++ "\n").toUTF8 ∧
        Json.read line.toList = some v ∧ v.member? "file" = some (.text "😀")) ∧
      device.succeeds (.track "a.py" []) = true ∧
      (device.after (.call (.track "a.py" []))).ledger.log.contents = some .empty := by
  intro c session s device pair
  let record (name : CodeText) : Audit.Record :=
    ⟨"now", "track_new_findings", name, true, 0, 0,
      [("combined", 0), ("leaked", 0), ("disconnected", 0), ("passthrough", 0)], 0, 7⟩
  have hs : ∀ name, (s.after (.call (.track name []))).ledger.log =
      s.ledger.log.append (record name) := fun _ => rfl
  have hdevice : (device.after (.call (.track "a.py" []))).ledger.log =
      device.ledger.log.append (record "a.py") := rfl
  have hshort : ∀ name, (record name).Short := by
    intro name
    show ∀ n ∈ [0, 0, 0, 0, 0, 0, 0, 7], ¬ TooLong n
    decide
  have hsame : (record pair).written = (record "😀").written :=
    congrArg String.ofList (rfl : Json.render (record pair).json = Json.render (record "😀").json)
  obtain ⟨v, hread, htells⟩ := Audit.Record.tells_ofReport
    ⟨.track, pair, true, 0, 0, ⟨0, 0, 0, 0⟩, 0⟩ ⟨"now", 7⟩
  refine ⟨by decide, by decide, ?_, ⟨(record pair).written, v, ?_, hread, htells.file⟩,
    by decide, ?_⟩
  · rw [hs, hs, Audit.Log.append, Audit.Log.append, Audit.Record.line?_of_short (hshort _),
      Audit.Record.line?_of_short (hshort _), hsame]
  · rw [hs, Audit.Log.append, Audit.Record.line?_of_short (hshort _)]
    exact ByteArray.empty_append
  · rw [hdevice, Audit.Log.append, Audit.Record.line?_of_short (hshort _)]
    rfl

end Projects
end FindingLedger
