/-!
# Texts of code points

Files are known by names that come from outside.  Such a name is a sequence of code points of any
kind: a surrogate is a code point, but no character, and a name may hold surrogates that stand
alone.

**Algorithm.**  A `CodeText` is a list of code points.  Every string is a text of code points;
`toString?` is the way back for the texts without surrogates.

**Results.**
* `toString?_ofString`, `ofString_inj`: a string can be told from its code points.
-/

namespace FindingLedger

/-- A code point, which may be a surrogate. -/
abbrev CodePoint := Fin 0x110000

namespace CodePoint

/-- The code point of a character. -/
def ofChar (c : Char) : CodePoint :=
  ⟨c.toNat, by
    rcases c.valid with hlow | ⟨-, hhigh⟩
    · exact Nat.lt_trans hlow (by decide)
    · exact hhigh⟩

/-- The character of a code point; a surrogate has none. -/
def toChar? (p : CodePoint) : Option Char :=
  if p.val < 0xD800 ∨ 0xDFFF < p.val then some (Char.ofNat p.val) else none

/-- The first surrogate of a pair. -/
def isHighSurrogate (p : CodePoint) : Bool :=
  decide (0xD800 ≤ p.val ∧ p.val < 0xDC00)

/-- The second surrogate of a pair. -/
def isLowSurrogate (p : CodePoint) : Bool :=
  decide (0xDC00 ≤ p.val ∧ p.val < 0xE000)

@[simp] theorem toChar?_ofChar (c : Char) : (ofChar c).toChar? = some c := by
  have hvalid : c.toNat < 0xD800 ∨ 0xDFFF < c.toNat := c.valid.imp_right And.left
  rw [toChar?, ofChar, if_pos hvalid, Char.ofNat_toNat]

end CodePoint

/-- A text of code points. -/
structure CodeText where
  points : List CodePoint
deriving DecidableEq, Repr

namespace CodeText

/-- The code points of a string. -/
def ofString (s : String) : CodeText :=
  ⟨s.toList.map CodePoint.ofChar⟩

instance : Coe String CodeText :=
  ⟨ofString⟩

/-- The string that a text is, if there are no surrogates in it. -/
def toString? (t : CodeText) : Option String :=
  (t.points.mapM CodePoint.toChar?).map String.ofList

instance : Append CodeText :=
  ⟨fun s t => ⟨s.points ++ t.points⟩⟩

/-- A string can be told from its code points. -/
theorem toString?_ofString (s : String) : (ofString s).toString? = some s := by
  have hpoints : ∀ cs : List Char,
      (cs.map CodePoint.ofChar).mapM CodePoint.toChar? = some cs := by
    intro cs
    induction cs with
    | nil => rfl
    | cons c cs ih => simp [ih]
  rw [toString?, ofString, hpoints, Option.map_some, String.ofList_toList]

@[simp] theorem ofString_inj {s t : String} : ofString s = ofString t ↔ s = t := by
  constructor
  · intro h
    have hstring := toString?_ofString s
    rw [h, toString?_ofString t] at hstring
    exact (Option.some.inj hstring).symm
  · rintro rfl
    rfl

end CodeText
end FindingLedger
