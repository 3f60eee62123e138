/-!
# Blank characters

A fingerprint must not change when code is reindented, and a path setting must not consist of
white space alone.  Both rest on one class of characters.

**Input.**  A text, as a list of characters.

**Algorithm.**
* `isBlank` looks a character up in the table `blankRanges`.
* `words` cuts a text into its maximal runs of characters that are not blank.
* `compact` writes these runs without anything between them.

**Results.**
* `compact_eq_filter`: joining the words of a text deletes its blanks, wherever they stand.
-/

namespace FindingLedger
namespace Text

/-- The blank characters as ranges of code points, both ends included, in increasing order. -/
def blankRanges : List (Nat × Nat) :=
  [(0x09, 0x0D), (0x1C, 0x1F), (0x20, 0x20), (0x85, 0x85), (0xA0, 0xA0), (0x1680, 0x1680),
    (0x2000, 0x200A), (0x2028, 0x2029), (0x202F, 0x202F), (0x205F, 0x205F), (0x3000, 0x3000)]

/-- A character is blank when its code point lies in one of `blankRanges`. -/
def isBlank (c : Char) : Bool :=
  blankRanges.any fun r => decide (r.1 ≤ c.toNat ∧ c.toNat ≤ r.2)

/-- Puts a run in front of a list of words; an empty run is no word. -/
def addWord : List Char → List (List Char) → List (List Char)
  | [], ws => ws
  | c :: w, ws => (c :: w) :: ws

/-- The run of characters before the first blank, and the words that follow it. -/
def leadingRun : List Char → List Char × List (List Char)
  | [] => ([], [])
  | c :: cs =>
      if isBlank c then ([], addWord (leadingRun cs).1 (leadingRun cs).2)
      else (c :: (leadingRun cs).1, (leadingRun cs).2)

/-- The maximal runs of characters that are not blank, in text order. -/
def words (cs : List Char) : List (List Char) :=
  addWord (leadingRun cs).1 (leadingRun cs).2

/-- The words of a text written one after the other. -/
def compact (cs : List Char) : List Char :=
  (words cs).flatten

theorem flatten_addWord (w : List Char) (ws : List (List Char)) :
    (addWord w ws).flatten = w ++ ws.flatten := by
  cases w <;> simp [addWord]

/-- Joining the words of a text deletes its blanks. -/
theorem compact_eq_filter (cs : List Char) : compact cs = cs.filter fun c => !isBlank c := by
  rw [compact, words, flatten_addWord]
  induction cs with
  | nil => rfl
  | cons c cs ih => by_cases hc : isBlank c = true <;> simp [leadingRun, hc, flatten_addWord, ih]

/-- A text is blank when it has no word. -/
def isBlankText (cs : List Char) : Bool :=
  cs.all isBlank

end Text
end FindingLedger
