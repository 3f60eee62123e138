import FindingLedger.Digest.Content
import Mathlib.Algebra.GroupWithZero.Nat
import Mathlib.Data.List.Basic

/-!
# Excerpts are slices

**Input.**  A source text, and a range with any integers as its positions.

**Algorithm.**  The lines of the source, joined by line feeds, are the source with its line breaks
unified.  A position in a line is then an offset in this text: the column, and for each line before
its length and one more for the line feed.

**Results.**
* `take_offset`: the text up to a position is made up of the lines before and the start of one line.
* `offset_lt_offset_iff`: the order of positions is that of their offsets.
* `exists_excerpt`: an excerpt lies between the text up to its start and the text up to its end,
  whether it stays in one line or not.
* `unified_iff`: unifying the line breaks leaves one text only, with a line feed for each of them.
* `unifyBreaks_eq`: the joined lines are the source with its line breaks unified, but for a last
  one.
* `range_hash_is_a_slice`: so a range is hashed exactly if its positions exist and are in order, and
  what is hashed is the slice between the offsets.
-/

namespace FindingLedger

/-- A position in a text: a line, counted from one, and a column of it, counted from zero. -/
structure Position where
  line : Int
  column : Int
deriving DecidableEq, Repr

namespace Position

/-- The first position comes before the second one. -/
def Precedes (p q : Position) : Prop :=
  p.line < q.line ∨ p.line = q.line ∧ p.column < q.column

instance (p q : Position) : Decidable (p.Precedes q) :=
  inferInstanceAs (Decidable (_ ∨ _))

/-- The lines have this position; it may be just behind the last character of its line. -/
structure Valid (ls : List (List Char)) (p : Position) : Prop where
  one_le_line : 1 ≤ p.line
  line_le : p.line ≤ ls.length
  column_nonneg : 0 ≤ p.column
  column_le : p.column ≤ (ls.getD (p.line - 1).toNat []).length

instance (ls : List (List Char)) (p : Position) : Decidable (p.Valid ls) :=
  decidable_of_iff (1 ≤ p.line ∧ p.line ≤ ls.length ∧ 0 ≤ p.column ∧
      p.column ≤ (ls.getD (p.line - 1).toNat []).length)
    ⟨fun ⟨h₁, h₂, h₃, h₄⟩ => ⟨h₁, h₂, h₃, h₄⟩, fun ⟨h₁, h₂, h₃, h₄⟩ => ⟨h₁, h₂, h₃, h₄⟩⟩

end Position

/-- The position where a range starts. -/
def TextRange.start (r : TextRange) : Position :=
  ⟨r.startLine, r.startColumn⟩

/-- The position before which a range ends. -/
def TextRange.stop (r : TextRange) : Position :=
  ⟨r.endLine, r.endColumn⟩

/-- The range from one position to another one. -/
def TextRange.between (p q : Position) : TextRange :=
  ⟨p.line, p.column, q.line, q.column⟩

namespace Text

/-- The offset of a position in the joined lines. -/
def offset (ls : List (List Char)) (p : Position) : Nat :=
  p.column.toNat + ((ls.take (p.line - 1).toNat).map fun line => line.length + 1).sum

/-- The characters of a text from one offset up to another one. -/
def slice (text : List Char) (start stop : Nat) : List Char :=
  (text.take stop).drop start

section Joining

variable (sep : Char)

/-- The lines, with the separator behind each of them. -/
def terminated (ls : List (List Char)) : List Char :=
  ls.flatMap fun line => line ++ [sep]

theorem terminated_append (ls ls' : List (List Char)) :
    terminated sep (ls ++ ls') = terminated sep ls ++ terminated sep ls' :=
  List.flatMap_append

theorem terminated_cons (line : List Char) (ls : List (List Char)) :
    terminated sep (line :: ls) = line ++ sep :: terminated sep ls := by
  simp [terminated]

theorem length_terminated (ls : List (List Char)) :
    (terminated sep ls).length = (ls.map fun line => line.length + 1).sum := by
  simp [terminated, List.length_flatMap]

theorem joinWith_append_cons (ls : List (List Char)) (line : List Char) (after : List (List Char)) :
    joinWith sep (ls ++ line :: after) = terminated sep ls ++ joinWith sep (line :: after) := by
  induction ls with
  | nil => rfl
  | cons p ls ih =>
      rw [terminated_cons, List.append_assoc, List.cons_append, List.cons_append, ← ih]
      cases ls <;> rfl

theorem prefix_joinWith_cons (line : List Char) (after : List (List Char)) :
    line <+: joinWith sep (line :: after) := by
  cases after with
  | nil => exact List.prefix_refl line
  | cons q after => exact List.prefix_append line _

theorem exists_cons_dropEmptyLast (p : List Char) (ps : List (List Char)) :
    ∃ q qs, dropEmptyLast (p :: ps) = q :: qs := by
  cases ps with
  | nil => exact ⟨p, [], rfl⟩
  | cons _ _ =>
      rw [dropEmptyLast]
      split <;> exact ⟨_, _, rfl⟩

/-- Without an empty last piece the text ends before its last separator. -/
theorem joinWith_dropEmptyLast (ps : List (List Char)) :
    joinWith sep ps = joinWith sep (dropEmptyLast ps) ∨
      joinWith sep ps = joinWith sep (dropEmptyLast ps) ++ [sep] := by
  induction ps using dropEmptyLast.induct with
  | case1 => exact Or.inl rfl
  | case2 p => exact Or.inl rfl
  | case3 p q ps h =>
      obtain ⟨rfl, rfl⟩ := h
      exact Or.inr (by simp [dropEmptyLast, joinWith])
  | case4 p q ps h ih =>
      obtain ⟨r, rs, hr⟩ := exists_cons_dropEmptyLast q ps
      rw [dropEmptyLast, if_neg h, joinWith]
      rw [hr] at ih ⊢
      rw [joinWith]
      rcases ih with ih | ih
      · exact Or.inl (by rw [ih])
      · exact Or.inr (by rw [ih, List.append_assoc, List.cons_append])

end Joining

section Positions

variable {ls : List (List Char)}

theorem line?_succ (ls : List (List Char)) (k : Nat) : line? ls (k + 1) = ls[k]? := by
  have h : ¬ (k + 1 : Int) < 1 := by omega
  simp [line?, h]

/-- A position that the lines have, by natural numbers. -/
theorem valid_iff {p : Position} : p.Valid ls ↔ ∃ (k c : Nat) (line : List Char),
    p = ⟨k + 1, c⟩ ∧ ls[k]? = some line ∧ c ≤ line.length := by
  obtain ⟨n, c⟩ := p
  constructor
  · rintro ⟨(hn : 1 ≤ n), (hle : n ≤ ls.length), (hc : 0 ≤ c), hlength⟩
    obtain ⟨k, rfl⟩ : ∃ k : Nat, n = k + 1 := ⟨(n - 1).toNat, by omega⟩
    obtain ⟨c, rfl⟩ := Int.eq_ofNat_of_zero_le hc
    have hk : k < ls.length := by omega
    refine ⟨k, c, ls[k], rfl, List.getElem?_eq_getElem hk, ?_⟩
    simpa [hk] using hlength
  · rintro ⟨k, c', line, hp, hline, hc⟩
    obtain ⟨rfl, rfl⟩ := Position.mk.inj hp
    obtain ⟨hk, rfl⟩ := List.getElem?_eq_some_iff.1 hline
    have hle : (k + 1 : Int) ≤ ls.length := by omega
    exact ⟨Int.le_add_of_nonneg_left (Int.natCast_nonneg k), hle, Int.natCast_nonneg c',
      by simpa [hk] using hc⟩

section Indices

variable {k c m d : Nat} {first last : List Char}

theorem offset_eq (ls : List (List Char)) (k c : Nat) :
    offset ls ⟨k + 1, c⟩ = c + (terminated '\n' (ls.take k)).length := by
  simp [offset, length_terminated]

/-- The lines before a later line are those before the first one, this line, and those between. -/
theorem take_eq_append (hfirst : ls[k]? = some first) (hkm : k < m) :
    ls.take m = ls.take k ++ first :: (ls.take m).drop (k + 1) := by
  obtain ⟨hk, rfl⟩ := List.getElem?_eq_some_iff.1 hfirst
  have hk' : k < (ls.take m).length := by simp; omega
  have hsplit := List.take_append_drop k (ls.take m)
  rw [List.take_take, Nat.min_eq_left (Nat.le_of_lt hkm), List.drop_eq_getElem_cons hk'] at hsplit
  simpa using hsplit.symm

/-- The text up to a position: the lines before, and the start of one line. -/
theorem take_offset (hfirst : ls[k]? = some first) (hc : c ≤ first.length) :
    (joinWith '\n' ls).take (offset ls ⟨k + 1, c⟩) =
      terminated '\n' (ls.take k) ++ first.take c := by
  have hk : k < ls.length := (List.getElem?_eq_some_iff.1 hfirst).1
  have hlines := take_eq_append hfirst hk
  rw [List.take_length] at hlines
  obtain ⟨rest, hrest⟩ := prefix_joinWith_cons '\n' first (ls.drop (k + 1))
  have htext : joinWith '\n' ls = terminated '\n' (ls.take k) ++ (first ++ rest) := by
    rw [hrest, ← joinWith_append_cons, ← hlines]
  rw [htext, offset_eq, Nat.add_comm, List.take_length_add_append,
    List.take_append_of_le_length hc]

/-- A position in an earlier line has a smaller offset. -/
theorem offset_lt_of_lt (hfirst : ls[k]? = some first) (hc : c ≤ first.length) (hkm : k < m)
    (d : Nat) : offset ls ⟨k + 1, c⟩ < offset ls ⟨m + 1, d⟩ := by
  rw [offset_eq, offset_eq, take_eq_append hfirst hkm, terminated_append, terminated_cons]
  simp only [List.length_append, List.length_cons]
  omega

theorem excerpt_in_line (hfirst : ls[k]? = some first) (hc : c ≤ first.length)
    (hd : d ≤ first.length) (hcd : c ≤ d) :
    excerpt ls ⟨k + 1, c, k + 1, d⟩ = some ((first.take d).drop c) := by
  simp [excerpt, line?_succ, hfirst, columnFits, withinLine, hc, hd, hcd]

theorem excerpt_across_lines (hfirst : ls[k]? = some first) (hlast : ls[m]? = some last)
    (hc : c ≤ first.length) (hd : d ≤ last.length) (hkm : k < m) :
    excerpt ls ⟨k + 1, c, m + 1, d⟩ =
      some (terminated '\n' (first.drop c :: (ls.take m).drop (k + 1)) ++ last.take d) := by
  have hne : ¬ (k + 1 : Int) = m + 1 := by omega
  have hle : (k + 1 : Int) ≤ m + 1 := by omega
  have hbetween : linesBetween ls (k + 1) (m + 1) = (ls.take m).drop (k + 1) := by
    simp [linesBetween]
  have hjoin := joinWith_append_cons '\n' (first.drop c :: (ls.take m).drop (k + 1))
    (last.take d) []
  simp only [excerpt, line?_succ, hfirst, hlast, columnFits]
  rw [if_pos (by simp [hc, hd, hle]), if_neg hne, hbetween]
  exact congrArg some hjoin

end Indices

section Ranges

variable {p q : Position} {r : TextRange} {e : List Char}

theorem valid_of_line? {n c : Int} {line : List Char} (hline : line? ls n = some line)
    (hc : columnFits c line = true) : Position.Valid ls ⟨n, c⟩ := by
  obtain ⟨hnonneg, hle⟩ := of_decide_eq_true hc
  obtain ⟨c, rfl⟩ := Int.eq_ofNat_of_zero_le hnonneg
  by_cases hn : n < 1
  · simp [line?, hn] at hline
  · obtain ⟨k, rfl⟩ : ∃ k : Nat, n = k + 1 := ⟨(n - 1).toNat, by omega⟩
    rw [line?_succ] at hline
    exact valid_iff.2 ⟨k, c, line, rfl, hline, Int.ofNat_le.1 hle⟩

/-- The offsets of positions are in the order of the positions. -/
theorem offset_lt_offset_iff (hp : p.Valid ls) (hq : q.Valid ls) :
    offset ls p < offset ls q ↔ p.Precedes q := by
  obtain ⟨k, c, first, rfl, hfirst, hc⟩ := valid_iff.1 hp
  obtain ⟨m, d, last, rfl, hlast, hd⟩ := valid_iff.1 hq
  rcases Nat.lt_trichotomy k m with hkm | rfl | hmk
  · exact iff_of_true (offset_lt_of_lt hfirst hc hkm d) (Or.inl (by simpa using hkm))
  · simp [offset_eq, Position.Precedes]
  · refine iff_of_false (Nat.lt_asymm (offset_lt_of_lt hlast hd hmk c)) ?_
    simp only [Position.Precedes]
    omega

/-- **An excerpt lies between the text up to its start and the text up to its end.** -/
theorem exists_excerpt (hp : p.Valid ls) (hq : q.Valid ls) (h : ¬ q.Precedes p) :
    ∃ e, excerpt ls (.between p q) = some e ∧
      (joinWith '\n' ls).take (offset ls p) ++ e = (joinWith '\n' ls).take (offset ls q) := by
  obtain ⟨k, c, first, rfl, hfirst, hc⟩ := valid_iff.1 hp
  obtain ⟨m, d, last, rfl, hlast, hd⟩ := valid_iff.1 hq
  rw [take_offset hfirst hc, take_offset hlast hd]
  rcases Nat.lt_trichotomy k m with hkm | rfl | hmk
  · refine ⟨_, excerpt_across_lines hfirst hlast hc hd hkm, ?_⟩
    conv_rhs => rw [take_eq_append hfirst hkm, terminated_append, terminated_cons]
    rw [terminated_cons]
    simp only [List.append_assoc, List.cons_append]
    rw [← List.append_assoc (first.take c), List.take_append_drop]
  · obtain rfl := Option.some.inj (hfirst.symm.trans hlast)
    have hcd : c ≤ d := by
      by_contra hdc
      exact h (Or.inr ⟨rfl, by simpa using hdc⟩)
    refine ⟨_, excerpt_in_line hfirst hc hd hcd, ?_⟩
    have hsplit := List.take_append_drop c (first.take d)
    rw [List.take_take, Nat.min_eq_left hcd] at hsplit
    rw [List.append_assoc, hsplit]
  · refine absurd (Or.inl ?_) h
    simpa using hmk

theorem valid_of_excerpt (h : excerpt ls r = some e) :
    r.start.Valid ls ∧ r.stop.Valid ls ∧ ¬ r.stop.Precedes r.start := by
  unfold excerpt at h
  split at h
  · rename_i first last hfirst hlast
    split at h
    · rename_i hfits
      obtain ⟨hlines, hstart, hstop⟩ := hfits
      refine ⟨valid_of_line? hfirst hstart, valid_of_line? hlast hstop, ?_⟩
      rintro (hbefore | ⟨hsame, hbefore⟩)
      · exact absurd hbefore (Int.not_lt.2 hlines)
      · have hbefore : r.endColumn < r.startColumn := hbefore
        have hsame : r.startLine = r.endLine := hsame.symm
        simp [hsame, withinLine, hbefore] at h
    · simp at h
  · simp at h

/-- A range has no excerpt exactly if one of its positions is not there or it ends before it
starts. -/
theorem excerpt_eq_none_iff : excerpt ls r = none ↔
    ¬ r.start.Valid ls ∨ ¬ r.stop.Valid ls ∨ r.stop.Precedes r.start := by
  constructor
  · intro h
    by_contra hnot
    simp only [not_or, not_not] at hnot
    obtain ⟨e, he, -⟩ := exists_excerpt hnot.1 hnot.2.1 hnot.2.2
    rw [show excerpt ls r = some e from he] at h
    simp at h
  · intro h
    cases he : excerpt ls r with
    | none => rfl
    | some e =>
        obtain ⟨hstart, hstop, horder⟩ := valid_of_excerpt he
        simp [hstart, hstop, horder] at h

theorem offset_le_length (hp : p.Valid ls) : offset ls p ≤ (joinWith '\n' ls).length := by
  obtain ⟨k, c, first, rfl, hfirst, hc⟩ := valid_iff.1 hp
  have hlength := congrArg List.length (take_offset hfirst hc)
  rw [List.length_take, List.length_append, List.length_take_of_le hc] at hlength
  rw [offset_eq] at hlength ⊢
  omega

/-- What comes between two offsets is the slice between them. -/
theorem slice_eq {text : List Char} {start stop : Nat} (hstart : start ≤ text.length)
    (h : text.take start ++ e = text.take stop) : slice text start stop = e := by
  rw [slice, ← h, List.drop_left' (List.length_take_of_le hstart)]

/-- An excerpt is a slice of the joined lines. -/
theorem excerpt_eq_slice (hp : p.Valid ls) (hq : q.Valid ls) (h : ¬ q.Precedes p) :
    excerpt ls (.between p q) =
      some (slice (joinWith '\n' ls) (offset ls p) (offset ls q)) := by
  obtain ⟨e, he, htake⟩ := exists_excerpt hp hq h
  rw [he, slice_eq (offset_le_length hp) htake]

/-- Excerpts that meet make up the excerpt of the whole. -/
theorem excerpt_append {a b c : Position} (ha : a.Valid ls) (hb : b.Valid ls) (hc : c.Valid ls)
    (hab : ¬ b.Precedes a) (hbc : ¬ c.Precedes b) :
    ∃ e e', excerpt ls (.between a b) = some e ∧ excerpt ls (.between b c) = some e' ∧
      excerpt ls (.between a c) = some (e ++ e') := by
  have hac : ¬ c.Precedes a := by
    rw [← offset_lt_offset_iff hb ha] at hab
    rw [← offset_lt_offset_iff hc hb] at hbc
    rw [← offset_lt_offset_iff hc ha]
    omega
  obtain ⟨e, he, htake⟩ := exists_excerpt ha hb hab
  obtain ⟨e', he', htake'⟩ := exists_excerpt hb hc hbc
  rw [← htake, List.append_assoc] at htake'
  refine ⟨e, e', he, he', ?_⟩
  rw [excerpt_eq_slice ha hc hac, slice_eq (offset_le_length ha) htake']

/-- The excerpt of a whole line is the line. -/
theorem excerpt_line (ls : List (List Char)) (n : Int) :
    excerpt ls ⟨n, 0, n, ((line? ls n).getD []).length⟩ = line? ls n := by
  cases h : line? ls n with
  | none => simp [excerpt, h]
  | some line => simp [excerpt, h, columnFits, withinLine]

end Ranges
end Positions

section Breaks

/-- The second text is the first one with a line feed for each of its line breaks, and with all else
as it is.  A carriage return that a line feed follows at once is one line break with it. -/
inductive Unified : List Char → List Char → Prop
  | nil : Unified [] []
  | plain {c : Char} {cs ds : List Char} (hreturn : c ≠ '\r') (hfeed : c ≠ '\n') :
      Unified cs ds → Unified (c :: cs) (c :: ds)
  | feed {cs ds : List Char} : Unified cs ds → Unified ('\n' :: cs) ('\n' :: ds)
  | carriage {cs ds : List Char} (hnext : cs.head? ≠ some '\n') :
      Unified cs ds → Unified ('\r' :: cs) ('\n' :: ds)
  | pair {cs ds : List Char} : Unified cs ds → Unified ('\r' :: '\n' :: cs) ('\n' :: ds)

/-- A character in front of a text that makes no pair with it. -/
theorem Unified.cons {c : Char} {cs ds : List Char} (h : Unified cs ds)
    (hpair : ¬ (c = '\r' ∧ cs.head? = some '\n')) : Unified (c :: cs) (feedOfReturn c :: ds) := by
  by_cases hreturn : c = '\r'
  · subst hreturn
    exact .carriage (fun hnext => hpair ⟨rfl, hnext⟩) h
  · rw [feedOfReturn, if_neg hreturn]
    by_cases hfeed : c = '\n'
    · subst hfeed
      exact .feed h
    · exact .plain hreturn hfeed h

theorem unified_unifyBreaks (cs : List Char) : Unified cs (unifyBreaks cs) := by
  unfold unifyBreaks
  induction cs using joinPairs.induct with
  | case1 => exact .nil
  | case2 c => exact Unified.nil.cons (by simp)
  | case3 c d cs hpair ih =>
      obtain ⟨rfl, rfl⟩ := hpair
      exact .pair ih
  | case4 c d cs hpair ih =>
      rw [joinPairs, if_neg hpair]
      exact ih.cons (by simpa using hpair)

theorem Unified.unique {cs ds es : List Char} (h : Unified cs ds) (h' : Unified cs es) :
    ds = es := by
  induction h generalizing es with
  | nil =>
      cases h'
      rfl
  | plain hreturn hfeed _ ih =>
      cases h' with
      | plain _ _ h' => rw [ih h']
      | feed _ => exact absurd rfl hfeed
      | carriage _ _ => exact absurd rfl hreturn
      | pair _ => exact absurd rfl hreturn
  | feed _ ih =>
      cases h' with
      | plain _ hfeed _ => exact absurd rfl hfeed
      | feed h' => rw [ih h']
  | carriage hnext _ ih =>
      cases h' with
      | plain hreturn _ _ => exact absurd rfl hreturn
      | carriage _ h' => rw [ih h']
      | pair _ => exact absurd rfl hnext
  | pair _ ih =>
      cases h' with
      | plain hreturn _ _ => exact absurd rfl hreturn
      | carriage hnext _ => exact absurd rfl hnext
      | pair h' => rw [ih h']

/-- Unifying the line breaks of a text leaves one text only. -/
theorem unified_iff {cs ds : List Char} : Unified cs ds ↔ ds = unifyBreaks cs := by
  constructor
  · exact fun h => h.unique (unified_unifyBreaks cs)
  · rintro rfl
    exact unified_unifyBreaks cs

end Breaks

/-- The joined lines are the source with its line breaks unified, but for a last line break. -/
theorem unifyBreaks_eq (cs : List Char) :
    unifyBreaks cs = joinWith '\n' (lines cs) ∨
      unifyBreaks cs = joinWith '\n' (lines cs) ++ ['\n'] := by
  have h := joinWith_dropEmptyLast '\n' (pieces '\n' (unifyBreaks cs))
  rwa [joinWith_pieces] at h

end Text

section Theorem

open Text Digest

/-- **A range is hashed as a slice of the source.**  The lines, joined by line feeds, are the source
with a line feed for each of its line breaks, but for a last line break.  Positions that exist have
offsets in this text, and are in the order of these.  A range has no hash exactly if one of its
positions does not exist or its end comes before its start; otherwise its excerpt is the slice
between the offsets, and its hash is that of the slice.  So excerpts that meet make up the excerpt
of the whole, and a whole line is hashed as the line. -/
theorem range_hash_is_a_slice {source : String} {ls : List (List Char)} {text : List Char}
    (hls : lines source.toList = ls) (htext : joinWith '\n' ls = text) :
    (∀ unified, Unified source.toList unified ↔ unified = unifyBreaks source.toList) ∧
    (unifyBreaks source.toList = text ∨ unifyBreaks source.toList = text ++ ['\n']) ∧
    (∀ p : Position, p.Valid ls → offset ls p ≤ text.length) ∧
    (∀ p q : Position, p.Valid ls → q.Valid ls → (offset ls p < offset ls q ↔ p.Precedes q)) ∧
    (∀ r, textRangeHash source r = none ↔
      ¬ r.start.Valid ls ∨ ¬ r.stop.Valid ls ∨ r.stop.Precedes r.start) ∧
    (∀ r : TextRange, r.start.Valid ls → r.stop.Valid ls → ¬ r.stop.Precedes r.start →
      excerpt ls r = some (slice text (offset ls r.start) (offset ls r.stop))) ∧
    (∀ r : TextRange, r.start.Valid ls → r.stop.Valid ls → ¬ r.stop.Precedes r.start →
      textRangeHash source r =
        some (contentHash (slice text (offset ls r.start) (offset ls r.stop)))) ∧
    (∀ a b c : Position, a.Valid ls → b.Valid ls → c.Valid ls → ¬ b.Precedes a →
      ¬ c.Precedes b → ∃ e e', excerpt ls (.between a b) = some e ∧
        excerpt ls (.between b c) = some e' ∧ excerpt ls (.between a c) = some (e ++ e')) ∧
    ∀ n, textRangeHash source ⟨n, 0, n, ((line? ls n).getD []).length⟩ = lineHash source n := by
  subst hls htext
  refine ⟨fun unified => unified_iff, unifyBreaks_eq _, fun p => offset_le_length,
    fun p q => offset_lt_offset_iff, fun r => ?_, fun r => excerpt_eq_slice,
    fun r hstart hstop h => ?_, fun a b c => excerpt_append, fun n => ?_⟩
  · rw [textRangeHash, Option.map_eq_none_iff]
    exact excerpt_eq_none_iff
  · have hexcerpt : excerpt (lines source.toList) r = some _ := excerpt_eq_slice hstart hstop h
    rw [textRangeHash, hexcerpt, Option.map_some]
  · rw [textRangeHash, excerpt_line, lineHash]

/-- A range that crosses a line break, the same range the wrong way round, and a whole line. -/
theorem range_hash_is_a_slice_crossing :
    let source := "ab\r\ncde\r"
    let ls := lines source.toList
    let r : TextRange := ⟨1, 1, 2, 2⟩
    r.start.Valid ls ∧ r.stop.Valid ls ∧ ¬ r.stop.Precedes r.start ∧
      textRangeHash source r = some (contentHash "b\ncd".toList) ∧
      textRangeHash source ⟨2, 2, 1, 1⟩ = none ∧
      textRangeHash source ⟨2, 0, 2, 3⟩ = lineHash source 2 := by
  intro source ls r
  have hstart : r.start.Valid ls := by decide
  have hstop : r.stop.Valid ls := by decide
  have horder : ¬ r.stop.Precedes r.start := by decide
  have hlength : ((line? ls 2).getD []).length = 3 := by decide
  obtain ⟨-, -, -, -, hnone, -, hslice, -, hline⟩ :=
    range_hash_is_a_slice (rfl : lines source.toList = ls) rfl
  have hwhole := hline 2
  rw [hlength] at hwhole
  refine ⟨hstart, hstop, horder, ?_, ?_, hwhole⟩
  · rw [hslice r hstart hstop horder]
    exact congrArg (fun text => some (contentHash text)) (by decide)
  · exact (hnone _).2 (Or.inr (Or.inr (by decide)))

end Theorem
end FindingLedger
