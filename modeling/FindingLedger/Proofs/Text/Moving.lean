import FindingLedger.Proofs.Text.Layout
import Mathlib.Data.List.Induction
import Mathlib.Logic.Relation

/-!
# Moved and reindented code

**Input.**  A source text that is put behind a text of whole lines, or into which blank characters
are inserted.

**Algorithm.**  The layout of a text is scanned line by line, so a break that is whole cuts it in
two: the lines of both parts are the lines of the text.  A blank that breaks no line only makes its
line longer, and hashing does not see it.  Both can only fail where a carriage return meets a line
feed, and at the very end, where nothing behind the last break is a line.

**Results.**
* `lines_append`: the lines of two texts, one put behind the other.
* `excerpt_down`: lines put in front move each excerpt down.
* `compact_lines_insert`: inserted blanks change no line but for its blanks.
* `hashes_follow_moved_code`: so the hashes of lines and ranges stay the same.
-/

namespace FindingLedger

/-- The range some lines further down. -/
def TextRange.down (r : TextRange) (k : Nat) : TextRange :=
  { r with startLine := r.startLine + k, endLine := r.endLine + k }

namespace Text

/-- The text ends with a line break. -/
def EndsInBreak (cs : List Char) : Prop :=
  cs.getLast? = some '\r' ∨ cs.getLast? = some '\n'

instance (cs : List Char) : Decidable (EndsInBreak cs) :=
  inferInstanceAs (Decidable (_ ∨ _))

/-- A carriage return and its line feed lie on both sides of the place between two texts. -/
def SplitsPair (before after : List Char) : Prop :=
  before.getLast? = some '\r' ∧ after.head? = some '\n'

instance (before after : List Char) : Decidable (SplitsPair before after) :=
  inferInstanceAs (Decidable (_ ∧ _))

/-- Blanks that break no line are inserted at one place, which is not between a carriage return and
its line feed and not behind a last line break. -/
inductive Respaced : List Char → List Char → Prop
  | insert (before blanks after : List Char) (hblanks : ∀ c ∈ blanks, isBlank c = true)
      (hplain : Plain blanks) (hpair : ¬ SplitsPair before after)
      (hend : after = [] → ¬ EndsInBreak before) :
      Respaced (before ++ after) (before ++ (blanks ++ after))

section Appending

variable {line p s cs : List Char} {b : LineBreak}

theorem lines_ended_scan (line : List Char) (b : LineBreak) (h : cs ≠ []) :
    (Layout.ended line b (scan [] cs)).lines = line :: (scan [] cs).lines := by
  rw [Layout.lines, if_neg (scan_eq_last_nil_iff.not.2 h)]

/-- The text behind a break can be taken apart if the rest of the first part can. -/
theorem lines_ended_append (line : List Char) (b : LineBreak) (hs : s ≠ [])
    (h : cs ≠ [] → (scan [] (cs ++ s)).lines = (scan [] cs).lines ++ (scan [] s).lines) :
    (Layout.ended line b (scan [] (cs ++ s))).lines =
      (Layout.ended line b (scan [] cs)).lines ++ (scan [] s).lines := by
  rw [lines_ended_scan line b (by simp [hs])]
  by_cases hcs : cs = []
  · subst hcs
    rfl
  · rw [h hcs, lines_ended_scan line b hcs, List.cons_append]

/-- The end of a text and what comes behind it do not depend on how it begins. -/
theorem seam_tail (start : List Char) (hcs : cs ≠ []) (hp : EndsInBreak (start ++ cs))
    (hseam : ¬ SplitsPair (start ++ cs) s) : EndsInBreak cs ∧ ¬ SplitsPair cs s := by
  rw [EndsInBreak, List.getLast?_append_of_ne_nil start hcs] at hp
  rw [SplitsPair, List.getLast?_append_of_ne_nil start hcs] at hseam
  exact ⟨hp, hseam⟩

/-- **A break that is whole cuts the text in two.** -/
theorem lines_scan_append (hp : EndsInBreak p) (hs : s ≠ []) (hseam : ¬ SplitsPair p s)
    (line : List Char) :
    (scan line (p ++ s)).lines = (scan line p).lines ++ (scan [] s).lines := by
  induction p using breakInduction generalizing line with
  | nil => simp [EndsInBreak] at hp
  | plain c cs hc ih =>
      have hcs : cs ≠ [] := by
        rintro rfl
        simp only [EndsInBreak, List.getLast?_singleton, Option.some.injEq] at hp
        exact hp.elim (plain_cons_iff.1 hc).1.1 (plain_cons_iff.1 hc).1.2
      obtain ⟨hp, hseam⟩ := seam_tail [c] hcs hp hseam
      rw [← List.singleton_append, List.append_assoc, scan_plain hc, scan_plain hc,
        ih hp hseam]
  | broken b cs hb ih =>
      have hwhole : b.Whole (cs ++ s) := by
        rintro rfl hhead
        cases cs with
        | nil => exact hseam ⟨rfl, hhead⟩
        | cons c cs => exact hb rfl hhead
      rw [List.append_assoc, scan_break line hwhole, scan_break line hb]
      refine lines_ended_append line b hs fun hcs => ?_
      obtain ⟨hp, hseam⟩ := seam_tail b.chars hcs hp hseam
      exact ih hp hseam []

theorem lines_append (hp : EndsInBreak p) (hs : s ≠ []) (hseam : ¬ SplitsPair p s) :
    lines (p ++ s) = lines p ++ lines s := by
  rw [lines_eq, lines_eq, lines_eq, lines_scan_append hp hs hseam]

theorem line?_append (ls ls' : List (List Char)) {n : Int} (hn : 1 ≤ n) :
    line? (ls ++ ls') (n + ls.length) = line? ls' n := by
  have h : ¬ n < 1 := by omega
  have h' : ¬ n + ls.length < 1 := by omega
  have hindex : (n + ls.length - 1).toNat = ls.length + (n - 1).toNat := by omega
  rw [line?, line?, if_neg h, if_neg h', hindex, List.getElem?_append_right (by omega),
    Nat.add_sub_cancel_left]

theorem linesBetween_append (ls ls' : List (List Char)) {m n : Int} (hm : 1 ≤ m) (hn : 1 ≤ n) :
    linesBetween (ls ++ ls') (m + ls.length) (n + ls.length) = linesBetween ls' m n := by
  have hstart : (m + ls.length).toNat = ls.length + m.toNat := by omega
  have hstop : (n + ls.length - 1).toNat = ls.length + (n - 1).toNat := by omega
  rw [linesBetween, linesBetween, hstart, hstop, List.take_length_add_append,
    List.drop_length_add_append]

/-- Lines in front move an excerpt down. -/
theorem excerpt_down (ls ls' : List (List Char)) {r : TextRange} (hr : 1 ≤ r.startLine) :
    excerpt (ls ++ ls') (r.down ls.length) = excerpt ls' r := by
  by_cases hend : 1 ≤ r.endLine
  · simp only [excerpt, TextRange.down, line?_append ls ls' hr, line?_append ls ls' hend,
      linesBetween_append ls ls' hr hend, Int.add_le_add_iff_right, Int.add_left_inj]
  · have hnone : excerpt ls' r = none :=
      excerpt_eq_none_iff.2 (Or.inr (Or.inl fun h => hend h.one_le_line))
    rw [hnone, excerpt_eq_none_iff]
    refine Or.inr (Or.inr (Or.inl ?_))
    simp only [TextRange.down, TextRange.start, TextRange.stop]
    omega

end Appending

section Inserting

variable {before blanks after cs : List Char}

theorem compact_insert (h : ∀ c ∈ blanks, isBlank c = true) (before after : List Char) :
    compact (before ++ (blanks ++ after)) = compact (before ++ after) := by
  have hnone : blanks.filter (fun c => !isBlank c) = [] := by simpa using h
  simp [compact_eq_filter, hnone]

/-- What comes in front of a text goes to its first line. -/
theorem exists_lines_scan (cs : List Char) :
    ∃ first after, ∀ line, (scan line cs).lines = (line ++ first) :: after := by
  induction cs using breakInduction with
  | nil => exact ⟨[], [], fun line => by simp [scan, Layout.lines]⟩
  | plain c cs hc ih =>
      obtain ⟨first, after, h⟩ := ih
      refine ⟨c :: first, after, fun line => ?_⟩
      rw [← List.singleton_append, scan_plain hc, h, List.append_assoc, List.singleton_append]
  | broken b cs hb _ =>
      simp only [scan_break _ hb, Layout.lines]
      split
      · exact ⟨[], [], fun line => by simp⟩
      · exact ⟨[], _, fun line => by rw [List.append_nil]⟩

/-- Blanks behind the start of a line only make this line longer. -/
theorem compact_lines_insert_plain (hbefore : Plain before)
    (hblanks : ∀ c ∈ blanks, isBlank c = true) (hplain : Plain blanks) (after : List Char) :
    (lines (before ++ (blanks ++ after))).map compact =
      (lines (before ++ after)).map compact := by
  obtain ⟨first, rest, h⟩ := exists_lines_scan after
  rw [lines_eq, lines_eq, scan_plain hbefore, scan_plain hbefore, scan_plain hplain, h, h,
    List.map_cons, List.map_cons, List.nil_append, List.append_assoc, compact_insert hblanks]

/-- A text is made up of whole lines and the start of a line. -/
theorem exists_eq_append_plain (cs : List Char) :
    ∃ whole start, cs = whole ++ start ∧ Plain start ∧ (whole = [] ∨ EndsInBreak whole) := by
  induction cs using List.reverseRecOn with
  | nil => exact ⟨[], [], rfl, plain_nil, Or.inl rfl⟩
  | append_singleton cs c ih =>
      by_cases hc : Plain [c]
      · obtain ⟨whole, start, rfl, hstart, hwhole⟩ := ih
        exact ⟨whole, start ++ [c], by simp, plain_append_iff.2 ⟨hstart, hc⟩, hwhole⟩
      · refine ⟨cs ++ [c], [], by simp, plain_nil, Or.inr ?_⟩
        simp only [plain_cons_iff, plain_nil, and_true, not_and_or, not_not] at hc
        simpa [EndsInBreak] using hc

/-- A line feed behind characters that break no line has none of them in front of it. -/
theorem head?_plain_append {p : List Char} (hp : Plain p) (h : (p ++ cs).head? = some '\n') :
    p = [] ∧ cs.head? = some '\n' := by
  cases p with
  | nil => exact ⟨rfl, h⟩
  | cons c p => exact absurd (Option.some.inj h) (plain_cons_iff.1 hp).1.2

/-- **Inserted blanks change no line but for its blanks.** -/
theorem compact_lines_insert {cs cs' : List Char} (h : Respaced cs cs') :
    (lines cs').map compact = (lines cs).map compact := by
  obtain ⟨before, blanks, after, hblanks, hplain, hpair, hend⟩ := h
  -- Only the line in which the blanks come matters; whole lines in front of it stay as they are.
  obtain ⟨whole, start, rfl, hstart, hwhole⟩ := exists_eq_append_plain before
  have hline := compact_lines_insert_plain hstart hblanks hplain after
  rcases hwhole with rfl | hwhole
  · exact hline
  · have hne : start ++ after ≠ [] := by
      intro hnil
      obtain ⟨rfl, rfl⟩ := List.append_eq_nil_iff.1 hnil
      exact hend rfl (by rwa [List.append_nil])
    have hseam : ∀ {p}, Plain p → ¬ SplitsPair whole (start ++ (p ++ after)) := by
      rintro p hp ⟨hreturn, hfeed⟩
      obtain ⟨rfl, hfeed⟩ := head?_plain_append hstart hfeed
      obtain ⟨rfl, hfeed⟩ := head?_plain_append hp hfeed
      exact hpair ⟨by rwa [List.append_nil], hfeed⟩
    rw [List.append_assoc, List.append_assoc, lines_append hwhole hne (hseam plain_nil),
      lines_append hwhole (by simp_all) (hseam hplain), List.map_append, List.map_append, hline]

theorem compact_lines_insertAll {cs cs' : List Char} (h : Relation.ReflTransGen Respaced cs cs') :
    (lines cs').map compact = (lines cs).map compact := by
  induction h with
  | refl => rfl
  | tail _ hstep ih => rw [compact_lines_insert hstep, ih]

end Inserting

end Text

section Theorem

open Text Digest

/-- A hash only depends on the characters that are not blank. -/
theorem contentHash_eq_of_compact {text text' : List Char} (h : compact text' = compact text) :
    contentHash text' = contentHash text := by
  rw [contentHash, contentHash, hashedBytes, hashedBytes, h]

theorem map_line? {α : Type} (f : List Char → α) (ls : List (List Char)) (n : Int) :
    (line? ls n).map f = if n < 1 then none else (ls.map f)[(n - 1).toNat]? := by
  rw [line?, List.getElem?_map]
  split <;> rfl

/-- Lines that only differ in their blanks have the same hashes. -/
theorem lineHash_eq_of_compact {source source' : String}
    (h : (lines source'.toList).map compact = (lines source.toList).map compact) (n : Int) :
    lineHash source' n = lineHash source n := by
  have hline : (line? (lines source'.toList) n).map compact =
      (line? (lines source.toList) n).map compact := by
    rw [map_line?, map_line?, h]
  rw [lineHash, lineHash]
  generalize line? (lines source'.toList) n = line' at hline ⊢
  generalize line? (lines source.toList) n = line at hline ⊢
  cases line' with
  | none =>
      rw [Option.map_eq_none_iff.1 hline.symm]
  | some line' =>
      obtain ⟨line, rfl, hcompact⟩ := Option.map_eq_some_iff.1 hline.symm
      rw [Option.map_some, Option.map_some, contentHash_eq_of_compact hcompact.symm]

/-- **Fingerprints follow the code.**  Whole lines that are put in front of a source move the hashes
of its lines and ranges down by their number, unless a carriage return and a line feed meet there.
And blanks that break no line can be inserted anywhere, but not between a carriage return and its
line feed and not behind a last line break, without a change to the hash of any line. -/
theorem hashes_follow_moved_code :
    (∀ p s : String, s ≠ "" → EndsInBreak p.toList → ¬ SplitsPair p.toList s.toList →
      (∀ n : Int, 1 ≤ n →
        lineHash (p ++ s) (n + (lines p.toList).length) = lineHash s n) ∧
      ∀ r : TextRange, 1 ≤ r.startLine →
        textRangeHash (p ++ s) (r.down (lines p.toList).length) = textRangeHash s r) ∧
    ∀ source source' : String, Relation.ReflTransGen Respaced source.toList source'.toList →
      ∀ n, lineHash source' n = lineHash source n := by
  constructor
  · intro p s hs hp hseam
    have hlines : lines (p ++ s).toList = lines p.toList ++ lines s.toList := by
      rw [String.toList_append, lines_append hp (by simpa using hs) hseam]
    exact ⟨fun n hn => by rw [lineHash, hlines, line?_append _ _ hn, lineHash],
      fun r hr => by rw [textRangeHash, hlines, excerpt_down _ _ hr, textRangeHash]⟩
  · exact fun source source' h n => lineHash_eq_of_compact (compact_lines_insertAll h) n

/-- Two lines in front, the second one empty; then one blank in the middle of a line and a form feed
at the very end.  The hashes are those of the text of the source. -/
theorem hashes_follow_moved_code_reindented :
    let front := "# x\r\n\n"
    let source := "if a:\n\tb"
    let respaced := "if  a:\n\tb\x0C"
    (EndsInBreak front.toList ∧ ¬ SplitsPair front.toList source.toList ∧
      lineHash (front ++ source) 4 = lineHash source 2 ∧
      lineHash source 2 = some (contentHash "\tb".toList) ∧
      textRangeHash (front ++ source) ⟨3, 3, 4, 2⟩ = textRangeHash source ⟨1, 3, 2, 2⟩ ∧
      textRangeHash source ⟨1, 3, 2, 2⟩ = some (contentHash "a:\n\tb".toList)) ∧
    Relation.ReflTransGen Respaced source.toList respaced.toList ∧
      lineHash respaced 1 = lineHash source 1 ∧ lineHash respaced 2 = lineHash source 2 ∧
      lineHash source 1 = some (contentHash "if a:".toList) := by
  intro front source respaced
  obtain ⟨hmoved, hrespaced⟩ := hashes_follow_moved_code
  have hend : EndsInBreak front.toList := by decide
  have hseam : ¬ SplitsPair front.toList source.toList := by decide
  have hcount : (lines front.toList).length = 2 := by decide
  obtain ⟨hline, hrange⟩ := hmoved front source (by decide) hend hseam
  rw [hcount] at hline hrange
  have hfirst : Respaced source.toList "if  a:\n\tb".toList := by
    simpa [source] using Respaced.insert "if".toList [' '] " a:\n\tb".toList
      (List.forall_mem_singleton.2 (by decide)) (by decide) (by decide) (by decide)
  have hsecond : Respaced "if  a:\n\tb".toList respaced.toList := by
    simpa [respaced] using Respaced.insert "if  a:\n\tb".toList ['\x0C'] []
      (List.forall_mem_singleton.2 (by decide)) (by decide) (by decide) (by decide)
  have hboth := (Relation.ReflTransGen.single hfirst).tail hsecond
  have hhash := hrespaced source respaced hboth
  have hone : line? (lines source.toList) 1 = some "if a:".toList := by decide
  have htwo : line? (lines source.toList) 2 = some "\tb".toList := by decide
  have hexcerpt : excerpt (lines source.toList) ⟨1, 3, 2, 2⟩ = some "a:\n\tb".toList := by decide
  have hhashed : ∀ {n line}, line? (lines source.toList) n = some line →
      lineHash source n = some (contentHash line) := by
    intro n line h
    rw [lineHash, h, Option.map_some]
  refine ⟨⟨hend, hseam, hline 2 (by decide), hhashed htwo, hrange ⟨1, 3, 2, 2⟩ (by decide), ?_⟩,
    hboth, hhash 1, hhash 2, hhashed hone⟩
  rw [textRangeHash, hexcerpt, Option.map_some]

end Theorem
end FindingLedger
