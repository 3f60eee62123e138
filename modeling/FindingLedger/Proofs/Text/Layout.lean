import FindingLedger.Digest.Content
import FindingLedger.Proofs.Text.Slices

/-!
# The layout of a source text

**Input.**  A source text.

**Algorithm.**  `scan` goes through the text once, from left to right, with the line so far in hand.
A carriage return that a line feed follows at once is one break with it; every other carriage return
and every other line feed is a break of its own.  What comes out is a `Layout`: each line with the
break that ends it, and what follows the last break.

**Results.**
* `breakInduction`: texts are built up from whole breaks and from characters that break no line.
* `text_scan`, `proper_scan`: a scan loses nothing, and cuts at each break and nowhere else.
* `scan_text`: no other layout of a text does that.
* `Layout.lines_text`: so unifying the breaks and cutting at line feeds gives the scanned lines.
* `lines_are_scanned`: this holds of every source; its hashes are those of the scanned lines, and
  stay the same when all its breaks are spelled alike.
-/

namespace FindingLedger
namespace Text

/-- What ends a line: a line feed, a carriage return, or a carriage return with a line feed. -/
inductive LineBreak
  | feed
  | carriage
  | pair
deriving DecidableEq, Repr

/-- The characters of a break. -/
def LineBreak.chars : LineBreak → List Char
  | .feed => ['\n']
  | .carriage => ['\r']
  | .pair => ['\r', '\n']

/-- A text by its lines: each line that a break ends, and what follows the last break. -/
inductive Layout
  | last (line : List Char)
  | ended (line : List Char) (b : LineBreak) (rest : Layout)
deriving DecidableEq, Repr

/-- The layout of a text that goes on behind the start of a line. -/
def scan (line : List Char) : List Char → Layout
  | [] => .last line
  | '\r' :: '\n' :: cs => .ended line .pair (scan [] cs)
  | '\r' :: cs => .ended line .carriage (scan [] cs)
  | '\n' :: cs => .ended line .feed (scan [] cs)
  | c :: cs => scan (line ++ [c]) cs

/-- No character of the text breaks a line. -/
def Plain (cs : List Char) : Prop :=
  '\r' ∉ cs ∧ '\n' ∉ cs

instance (cs : List Char) : Decidable (Plain cs) :=
  inferInstanceAs (Decidable (_ ∧ _))

/-- The break is whole: a carriage return does not leave a line feed behind. -/
def LineBreak.Whole (b : LineBreak) (after : List Char) : Prop :=
  b = .carriage → after.head? ≠ some '\n'

namespace Layout

/-- The text that is laid out. -/
def text : Layout → List Char
  | last line => line
  | ended line b rest => line ++ (b.chars ++ rest.text)

/-- The lines, and what follows the last break even if it is empty. -/
def pieces : Layout → List (List Char)
  | last line => [line]
  | ended line _ rest => line :: rest.pieces

/-- The lines; nothing behind a final break is no line. -/
def lines : Layout → List (List Char)
  | last line => [line]
  | ended line _ rest => if rest = last [] then [line] else line :: rest.lines

/-- The layout with the same break behind every line. -/
def respelled (b : LineBreak) : Layout → Layout
  | last line => last line
  | ended line _ rest => ended line b (rest.respelled b)

/-- Every break of the text is a break of the layout, and is whole. -/
def Proper : Layout → Prop
  | last line => Plain line
  | ended line b rest => Plain line ∧ b.Whole rest.text ∧ rest.Proper

end Layout

section Scanning

variable {line p cs : List Char} {b : LineBreak}

theorem plain_nil : Plain [] := by
  simp [Plain]

theorem plain_append_iff {cs ds : List Char} : Plain (cs ++ ds) ↔ Plain cs ∧ Plain ds := by
  simp only [Plain, List.mem_append, not_or]
  exact and_and_and_comm

theorem plain_cons_iff {c : Char} : Plain (c :: cs) ↔ (c ≠ '\r' ∧ c ≠ '\n') ∧ Plain cs := by
  rw [← List.singleton_append, plain_append_iff]
  simp [Plain, eq_comm]

/-- A break ends the line in hand. -/
theorem scan_break (line : List Char) (h : b.Whole cs) :
    scan line (b.chars ++ cs) = .ended line b (scan [] cs) := by
  cases b with
  | feed => rfl
  | pair => rfl
  | carriage =>
      -- The scan takes a following line feed along; `h` says that there is none.
      show scan line ('\r' :: cs) = _
      rw [scan]
      rintro cs' rfl
      exact h rfl rfl

/-- Characters that break no line belong to the line in hand. -/
theorem scan_plain (hp : Plain p) (line cs : List Char) :
    scan line (p ++ cs) = scan (line ++ p) cs := by
  induction p generalizing line with
  | nil => simp
  | cons c p ih =>
      obtain ⟨⟨hreturn, hfeed⟩, hp⟩ := plain_cons_iff.1 hp
      rw [List.cons_append, scan, ih hp, List.append_assoc, List.singleton_append]
      · exact fun _ h _ => hreturn h
      · exact hreturn
      · exact hfeed

/-- A text is empty, or it begins with a character that breaks no line, or with a whole break. -/
@[elab_as_elim]
theorem breakInduction {motive : List Char → Prop} (nil : motive [])
    (plain : ∀ c cs, Plain [c] → motive cs → motive (c :: cs))
    (broken : ∀ (b : LineBreak) cs, b.Whole cs → motive cs → motive (b.chars ++ cs))
    (cs : List Char) : motive cs := by
  -- The cases are those of the scan, so the induction follows one with any line in hand.
  suffices h : ∀ line : List Char, motive cs from h []
  intro line
  fun_induction scan line cs with
  | case1 line => exact nil
  | case2 line cs ih => exact broken .pair cs nofun ih
  | case3 line cs hfeed ih =>
      refine broken .carriage cs (fun _ hhead => ?_) ih
      obtain ⟨cs', rfl⟩ := List.head?_eq_some_iff.1 hhead
      exact hfeed cs' rfl
  | case4 line cs ih => exact broken .feed cs nofun ih
  | case5 line c cs _ hreturn hfeed ih =>
      exact plain c cs (plain_cons_iff.2 ⟨⟨hreturn, hfeed⟩, plain_nil⟩) ih

/-- A scan loses nothing. -/
theorem text_scan (line cs : List Char) : (scan line cs).text = line ++ cs := by
  induction cs using breakInduction generalizing line with
  | nil => simp [scan, Layout.text]
  | plain c cs hc ih => rw [← List.singleton_append, scan_plain hc, ih, List.append_assoc]
  | broken b cs hb ih => rw [scan_break line hb, Layout.text, ih, List.nil_append]

/-- A scan cuts at each break and nowhere else. -/
theorem proper_scan (hline : Plain line) (cs : List Char) : (scan line cs).Proper := by
  induction cs using breakInduction generalizing line with
  | nil => exact hline
  | plain c cs hc ih =>
      rw [← List.singleton_append, scan_plain hc]
      exact ih (plain_append_iff.2 ⟨hline, hc⟩)
  | broken b cs hb ih =>
      rw [scan_break line hb]
      exact ⟨hline, by rwa [text_scan], ih plain_nil⟩

/-- **A text has one proper layout**, and a scan finds it. -/
theorem scan_text {l : Layout} (hl : l.Proper) : scan [] l.text = l := by
  induction l with
  | last line => simpa [scan, Layout.text] using scan_plain hl [] []
  | ended line b rest ih =>
      obtain ⟨hline, hb, hrest⟩ := hl
      rw [Layout.text, scan_plain hline, List.nil_append, scan_break line hb, ih hrest]

theorem scan_eq_last_nil_iff : scan [] cs = .last [] ↔ cs = [] := by
  constructor
  · intro h
    simpa [Layout.text, h] using (text_scan [] cs).symm
  · rintro rfl
    rfl

end Scanning

section Unifying

variable {p cs : List Char} {b : LineBreak}

theorem joinPairs_cons_of_ne {c : Char} (hc : c ≠ '\r') (cs : List Char) :
    joinPairs (c :: cs) = c :: joinPairs cs := by
  cases cs <;> simp [joinPairs, hc]

/-- Unifying the breaks leaves all other characters as they are. -/
theorem unifyBreaks_plain (hp : Plain p) (cs : List Char) :
    unifyBreaks (p ++ cs) = p ++ unifyBreaks cs := by
  induction p with
  | nil => rfl
  | cons c p ih =>
      obtain ⟨⟨hreturn, -⟩, hp⟩ := plain_cons_iff.1 hp
      have hrest := ih hp
      rw [unifyBreaks] at hrest ⊢
      rw [List.cons_append, joinPairs_cons_of_ne hreturn, List.map_cons, hrest, feedOfReturn,
        if_neg hreturn, List.cons_append]

/-- Each break becomes one line feed. -/
theorem unifyBreaks_break (h : b.Whole cs) :
    unifyBreaks (b.chars ++ cs) = '\n' :: unifyBreaks cs := by
  cases b with
  | feed => simp [unifyBreaks, LineBreak.chars, joinPairs_cons_of_ne, feedOfReturn]
  | pair => simp [unifyBreaks, LineBreak.chars, joinPairs, feedOfReturn]
  | carriage =>
      cases cs with
      | nil => rfl
      | cons c cs =>
          have hc : c ≠ '\n' := fun hc => h rfl (by simp [hc])
          simp [unifyBreaks, LineBreak.chars, joinPairs, feedOfReturn, hc]

namespace Layout

theorem pieces_text {l : Layout} (hl : l.Proper) :
    Text.pieces '\n' (unifyBreaks l.text) = l.pieces := by
  induction l with
  | last line =>
      have hline : unifyBreaks line = line := by
        simpa [unifyBreaks, joinPairs] using unifyBreaks_plain hl []
      rw [text, hline, pieces, pieces_of_not_mem '\n' hl.2]
  | ended line b rest ih =>
      obtain ⟨hline, hb, hrest⟩ := hl
      rw [text, unifyBreaks_plain hline, unifyBreaks_break hb, pieces_append '\n' hline.2,
        ih hrest, pieces]

theorem dropEmptyLast_pieces (l : Layout) : dropEmptyLast l.pieces = l.lines := by
  induction l with
  | last line => rfl
  | ended line b rest ih =>
      cases rest with
      | last line' => by_cases h : line' = [] <;> simp [pieces, lines, dropEmptyLast, h]
      | ended line' b' rest' =>
          -- Pieces follow the second break, so what is in front of it is not the last one.
          have hne : rest'.pieces ≠ [] := by cases rest' <;> simp [pieces]
          rw [pieces] at ih
          simp [pieces, dropEmptyLast, hne, ih, lines]

/-- **Unifying the breaks and cutting at line feeds gives the lines of the layout.** -/
theorem lines_text {l : Layout} (hl : l.Proper) : Text.lines l.text = l.lines := by
  rw [Text.lines, pieces_text hl, dropEmptyLast_pieces]

theorem lines_respelled (b : LineBreak) (l : Layout) : (l.respelled b).lines = l.lines := by
  have hlast : ∀ l : Layout, l.respelled b = last [] ↔ l = last [] := by
    rintro (_ | _) <;> simp [respelled]
  induction l with
  | last line => rfl
  | ended line b' rest ih => simp only [respelled, lines, hlast, ih]

theorem head?_text_respelled {b : LineBreak} (hb : b ≠ .feed) {l : Layout} (hl : l.Proper) :
    (l.respelled b).text.head? ≠ some '\n' := by
  have hplain : ∀ line : List Char, Plain line → line.head? ≠ some '\n' := fun line h hhead =>
    h.2 (List.mem_of_mem_head? hhead)
  cases l with
  | last line => exact hplain line hl
  | ended line b' rest =>
      cases line with
      | nil => cases b <;> simp [respelled, text, LineBreak.chars] at hb ⊢
      | cons c line => exact hplain (c :: line) hl.1

/-- Breaks that are all spelled alike are whole. -/
theorem proper_respelled (b : LineBreak) {l : Layout} (hl : l.Proper) :
    (l.respelled b).Proper := by
  induction l with
  | last line => exact hl
  | ended line b' rest ih =>
      exact ⟨hl.1, fun hb => head?_text_respelled (by simp [hb]) hl.2.2, ih hl.2.2⟩

end Layout

/-- The lines of a text are the scanned ones. -/
theorem lines_eq (cs : List Char) : lines cs = (scan [] cs).lines := by
  have h := Layout.lines_text (proper_scan plain_nil cs)
  rwa [text_scan, List.nil_append] at h

/-- Spelling all breaks alike leaves the lines as they are. -/
theorem lines_respell (b : LineBreak) (cs : List Char) :
    lines ((scan [] cs).respelled b).text = lines cs := by
  have h := Layout.lines_text (Layout.proper_respelled b (proper_scan plain_nil cs))
  rw [h, Layout.lines_respelled, lines_eq]

end Unifying

end Text

section Theorem

open Text Digest

theorem lineHash_eq_none_iff (source : String) (n : Int) :
    lineHash source n = none ↔ n < 1 ∨ (lines source.toList).length < n := by
  rw [lineHash, Option.map_eq_none_iff, line?]
  split
  · simp_all
  · rw [List.getElem?_eq_none_iff]
    omega

/-- **The lines of a source are found in one scan.**  The scan gives the one layout of the source
that has a line end at each break and nowhere else, and its lines are the lines of the source.  Each
of them is hashed under its number, and there is no hash for any other number.  If every break is
spelled as a line feed, as a carriage return, or as both, all lines and all hashes stay the same. -/
theorem lines_are_scanned (source : String) :
    ((scan [] source.toList).Proper ∧ (scan [] source.toList).text = source.toList ∧
      ∀ l : Layout, l.Proper → l.text = source.toList → l = scan [] source.toList) ∧
    lines source.toList = (scan [] source.toList).lines ∧
    (∀ (k : Nat) (line : List Char), (scan [] source.toList).lines[k]? = some line →
      lineHash source (k + 1) = some (contentHash line)) ∧
    (∀ n, lineHash source n = none ↔ n < 1 ∨ (scan [] source.toList).lines.length < n) ∧
    ∀ (b : LineBreak) (source' : String),
      source'.toList = ((scan [] source.toList).respelled b).text →
        lines source'.toList = lines source.toList ∧
        (∀ n, lineHash source' n = lineHash source n) ∧
        ∀ r, textRangeHash source' r = textRangeHash source r := by
  refine ⟨⟨proper_scan plain_nil _, text_scan [] _, ?_⟩, lines_eq _, ?_, ?_, ?_⟩
  · rintro l hl htext
    rw [← htext, scan_text hl]
  · intro k line hline
    rw [lineHash, line?_succ, lines_eq, hline, Option.map_some]
  · intro n
    rw [lineHash_eq_none_iff, lines_eq]
  · intro b source' hsource
    have hlines : lines source'.toList = lines source.toList := by rw [hsource, lines_respell]
    exact ⟨hlines, fun n => by rw [lineHash, hlines, lineHash],
      fun r => by rw [textRangeHash, hlines, textRangeHash]⟩

/-- Breaks of all kinds, also next to each other, and a form feed, which is none; then the same with
carriage returns only. -/
theorem lines_are_scanned_mixed :
    let source := "a\r\r\n\x0Cb\n\rc\n"
    scan [] source.toList = .ended ['a'] .carriage (.ended [] .pair (.ended ['\x0C', 'b'] .feed
      (.ended [] .carriage (.ended ['c'] .feed (.last []))))) ∧
    lines source.toList = [['a'], [], ['\x0C', 'b'], [], ['c']] ∧
    lineHash source 5 = some (contentHash ['c']) ∧ lineHash source 6 = none ∧
    lineHash "a\r\r\x0Cb\r\rc\r" 3 = lineHash source 3 ∧
    textRangeHash "a\r\r\x0Cb\r\rc\r" ⟨1, 0, 3, 1⟩ = textRangeHash source ⟨1, 0, 3, 1⟩ := by
  intro source
  obtain ⟨-, hlines, hhash, hnone, hspelled⟩ := lines_are_scanned source
  obtain ⟨-, hline, hrange⟩ := hspelled .carriage "a\r\r\x0Cb\r\rc\r" (by decide)
  exact ⟨by decide, hlines.trans (by decide), hhash 4 ['c'] (by decide),
    (hnone 6).2 (Or.inr (by decide)), hline 3, hrange _⟩

end Theorem
end FindingLedger
