/-!
# Splitting at a separator

**Input.**  A text, and a separator character.

**Algorithm.**  `pieces` cuts the text at every separator, so there is always one more piece than
separators; `joinWith` puts the separator back between each two pieces.

**Results.**
* `pieces_append`: a separator cuts a text into what comes before and what comes after it.
* `joinWith_pieces`: joining undoes splitting.
-/

namespace FindingLedger
namespace Text

/-- Puts a character in front of the first piece. -/
def extendFirst (c : Char) : List (List Char) → List (List Char)
  | [] => [[c]]
  | p :: ps => (c :: p) :: ps

/-- The pieces between the separators of a text. -/
def pieces (sep : Char) : List Char → List (List Char)
  | [] => [[]]
  | c :: cs => if c = sep then [] :: pieces sep cs else extendFirst c (pieces sep cs)

/-- Pieces with a separator between each two of them. -/
def joinWith (sep : Char) : List (List Char) → List Char
  | [] => []
  | [p] => p
  | p :: q :: ps => p ++ sep :: joinWith sep (q :: ps)

section Laws

variable (sep : Char)

theorem pieces_ne_nil (cs : List Char) : pieces sep cs ≠ [] := by
  induction cs with
  | nil => simp [pieces]
  | cons c cs _ =>
      by_cases hc : c = sep
      · simp [pieces, hc]
      · simp only [pieces, hc, if_false]
        cases pieces sep cs <;> simp [extendFirst]

theorem pieces_of_not_mem {cs : List Char} (h : sep ∉ cs) : pieces sep cs = [cs] := by
  induction cs with
  | nil => rfl
  | cons c cs ih =>
      have hc : c ≠ sep := fun e => h (by simp [e])
      have hcs : sep ∉ cs := fun e => h (by simp [e])
      simp [pieces, hc, ih hcs, extendFirst]

/-- A text without the separator in front of one is a piece of its own. -/
theorem pieces_append {cs : List Char} (h : sep ∉ cs) (rest : List Char) :
    pieces sep (cs ++ sep :: rest) = cs :: pieces sep rest := by
  induction cs with
  | nil => simp [pieces]
  | cons c cs ih =>
      have hc : c ≠ sep := fun e => h (by simp [e])
      have hcs : sep ∉ cs := fun e => h (by simp [e])
      simp [pieces, hc, ih hcs, extendFirst]

theorem joinWith_extendFirst (c : Char) {ps : List (List Char)} (h : ps ≠ []) :
    joinWith sep (extendFirst c ps) = c :: joinWith sep ps := by
  cases ps with
  | nil => exact absurd rfl h
  | cons p ps => cases ps <;> simp [extendFirst, joinWith]

/-- Joining the pieces of a text gives the text back. -/
theorem joinWith_pieces (cs : List Char) : joinWith sep (pieces sep cs) = cs := by
  induction cs with
  | nil => rfl
  | cons c cs ih =>
      by_cases hc : c = sep
      · cases hp : pieces sep cs with
        | nil => exact absurd hp (pieces_ne_nil sep cs)
        | cons q qs =>
            rw [hp] at ih
            simp [pieces, hc, hp, joinWith, ih]
      · simp only [pieces, hc, if_false]
        rw [joinWith_extendFirst sep c (pieces_ne_nil sep cs), ih]

end Laws
end Text
end FindingLedger
