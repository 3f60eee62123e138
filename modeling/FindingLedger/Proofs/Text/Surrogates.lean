import FindingLedger.CodeText

/-!
# Surrogate pairs

**Input.**  A text of code points, in which surrogates may stand alone or in pairs.

**Algorithm.**  In 16-bit units, a code point above U+FFFF is a high surrogate and a low one.  So a
high surrogate and the low one directly behind it cannot be told from the code point that they stand
for: `joined` puts such pairs together, from the left to the right.

**Results.**
* `joinPairs_flatMap_units`: of a text in units, joining finds what it finds of the text itself.
* `joined_eq_self_iff`: it changes nothing just if no high surrogate stands before a low one.
* `joined_ofString`: so it never changes a string.
-/

namespace FindingLedger

namespace CodePoint

/-- The code point with the given number, which must be small enough. -/
def ofNat (n : Nat) : CodePoint :=
  ⟨n % 0x110000, Nat.mod_lt n (by decide)⟩

theorem val_ofNat {n : Nat} (h : n < 0x110000) : (ofNat n).val = n :=
  Nat.mod_eq_of_lt h

theorem ofNat_val (p : CodePoint) : ofNat p.val = p :=
  Fin.ext (val_ofNat p.isLt)

/-- The code point that a high surrogate and a low one stand for. -/
def join (high low : CodePoint) : CodePoint :=
  ofNat (0x10000 + (high.val - 0xD800) * 0x400 + (low.val - 0xDC00))

/-- The code point in 16-bit units: itself, or two surrogates. -/
def units (p : CodePoint) : List CodePoint :=
  if p.val < 0x10000 then [p]
  else
    [ofNat (0xD800 + (p.val - 0x10000) / 0x400), ofNat (0xDC00 + (p.val - 0x10000) % 0x400)]

theorem units_of_lt {p : CodePoint} (h : p.val < 0x10000) : p.units = [p] :=
  if_pos h

/-- Above U+FFFF, the units are two surrogates that stand for the code point. -/
theorem exists_units_of_le {p : CodePoint} (h : 0x10000 ≤ p.val) :
    ∃ high low : CodePoint, p.units = [high, low] ∧ high.isHighSurrogate = true ∧
      low.isLowSurrogate = true ∧ join high low = p := by
  have hp := p.isLt
  have hhigh : (ofNat (0xD800 + (p.val - 0x10000) / 0x400)).val =
      0xD800 + (p.val - 0x10000) / 0x400 := val_ofNat (by omega)
  have hlow : (ofNat (0xDC00 + (p.val - 0x10000) % 0x400)).val =
      0xDC00 + (p.val - 0x10000) % 0x400 := val_ofNat (by omega)
  refine ⟨_, _, if_neg (Nat.not_lt.2 h), ?_, ?_, ?_⟩
  · rw [isHighSurrogate, hhigh, decide_eq_true_iff]
    omega
  · rw [isLowSurrogate, hlow, decide_eq_true_iff]
    omega
  · apply Fin.ext
    rw [join, hhigh, hlow, val_ofNat (by omega)]
    omega

theorem isHighSurrogate_of_le {p : CodePoint} (h : 0x10000 ≤ p.val) :
    p.isHighSurrogate = false := by
  rw [isHighSurrogate, decide_eq_false_iff_not]
  omega

theorem isLowSurrogate_of_isHighSurrogate {p : CodePoint} (h : p.isHighSurrogate = true) :
    p.isLowSurrogate = false := by
  rw [isHighSurrogate, decide_eq_true_iff] at h
  rw [isLowSurrogate, decide_eq_false_iff_not]
  omega

theorem isHighSurrogate_ofChar (c : Char) : (ofChar c).isHighSurrogate = false := by
  have hvalid : c.toNat < 0xD800 ∨ 0xDFFF < c.toNat := c.valid.imp_right And.left
  rw [isHighSurrogate, decide_eq_false_iff_not]
  show ¬ (0xD800 ≤ c.toNat ∧ c.toNat < 0xDC00)
  omega

end CodePoint

namespace CodeText

open CodePoint

/-- Puts each high surrogate and the low one directly behind it together. -/
def joinPairs : List CodePoint → List CodePoint
  | p :: q :: rest =>
      if p.isHighSurrogate ∧ q.isLowSurrogate then join p q :: joinPairs rest
      else p :: joinPairs (q :: rest)
  | ps => ps

/-- The text with its surrogate pairs put together. -/
def joined (t : CodeText) : CodeText :=
  ⟨joinPairs t.points⟩

/-- No high surrogate stands directly before a low one. -/
def Unpaired (t : CodeText) : Prop :=
  ∀ p q, [p, q] <:+: t.points → ¬ (p.isHighSurrogate ∧ q.isLowSurrogate)

section Units

theorem joinPairs_cons_of_not_high {p : CodePoint} (h : p.isHighSurrogate = false)
    (ps : List CodePoint) : joinPairs (p :: ps) = p :: joinPairs ps := by
  cases ps with
  | nil => rfl
  | cons q rest => simp [joinPairs, h]

theorem joinPairs_cons_of_not_low {q : CodePoint} (h : q.isLowSurrogate = false)
    (p : CodePoint) (rest : List CodePoint) :
    joinPairs (p :: q :: rest) = p :: joinPairs (q :: rest) := by
  simp [joinPairs, h]

/-- The units of a code point above U+FFFF are put together again. -/
theorem joinPairs_units_of_le {p : CodePoint} (h : 0x10000 ≤ p.val) (ps : List CodePoint) :
    joinPairs (p.units ++ ps) = p :: joinPairs ps := by
  obtain ⟨high, low, hunits, hhigh, hlow, hjoin⟩ := exists_units_of_le h
  simp [hunits, joinPairs, hhigh, hlow, hjoin]

theorem lt_of_isLowSurrogate {p : CodePoint} (h : p.isLowSurrogate = true) : p.val < 0x10000 := by
  rw [isLowSurrogate, decide_eq_true_iff] at h
  omega

/-- A code point that makes no pair with the next one makes none with its first unit. -/
theorem joinPairs_cons_flatMap_units {p q : CodePoint}
    (h : ¬ (p.isHighSurrogate ∧ q.isLowSurrogate)) (ps : List CodePoint) :
    joinPairs (p :: (q :: ps).flatMap units) = p :: joinPairs ((q :: ps).flatMap units) := by
  cases hhigh : p.isHighSurrogate with
  | false => exact joinPairs_cons_of_not_high hhigh _
  | true =>
      rw [List.flatMap_cons]
      by_cases hq : q.val < 0x10000
      · have hlow : q.isLowSurrogate = false := by simpa [hhigh] using h
        rw [units_of_lt hq]
        exact joinPairs_cons_of_not_low hlow p _
      · obtain ⟨high, low, hunits, hfirst, -, -⟩ := exists_units_of_le (Nat.le_of_not_lt hq)
        rw [hunits]
        exact joinPairs_cons_of_not_low (isLowSurrogate_of_isHighSurrogate hfirst) p _

/-- Of a text in units, joining finds what it finds of the text itself. -/
theorem joinPairs_flatMap_units (ps : List CodePoint) :
    joinPairs (ps.flatMap units) = joinPairs ps := by
  fun_induction joinPairs ps with
  | case1 p q rest h ih =>
      have hp : p.val < 0x10000 := by
        rcases Nat.lt_or_ge p.val 0x10000 with hp | hp
        · exact hp
        · simp [isHighSurrogate_of_le hp] at h
      rw [List.flatMap_cons, List.flatMap_cons, units_of_lt hp,
        units_of_lt (lt_of_isLowSurrogate h.2), ← ih]
      exact if_pos h
  | case2 p q rest h ih =>
      rw [← ih, List.flatMap_cons]
      rcases Nat.lt_or_ge p.val 0x10000 with hp | hp
      · rw [units_of_lt hp]
        exact joinPairs_cons_flatMap_units h rest
      · exact joinPairs_units_of_le hp _
  | case3 ps hshort =>
      cases ps with
      | nil => rfl
      | cons p ps =>
          cases ps with
          | cons q rest => exact absurd rfl (hshort p q rest)
          | nil =>
              rcases Nat.lt_or_ge p.val 0x10000 with hp | hp
              · rw [List.flatMap_cons, units_of_lt hp]
                rfl
              · exact joinPairs_units_of_le hp []

end Units

section Unpaired

theorem length_joinPairs_le (ps : List CodePoint) : (joinPairs ps).length ≤ ps.length := by
  fun_induction joinPairs ps with
  | case1 p q rest h ih =>
      simp only [List.length_cons]
      omega
  | case2 p q rest h ih => simpa using ih
  | case3 ps => exact Nat.le_refl _

theorem joinPairs_eq_self_iff (ps : List CodePoint) :
    joinPairs ps = ps ↔ ∀ p q, [p, q] <:+: ps → ¬ (p.isHighSurrogate ∧ q.isLowSurrogate) := by
  fun_induction joinPairs ps with
  | case1 p q rest h ih =>
      constructor
      · intro hsame
        have hlength := congrArg List.length hsame
        have hle := length_joinPairs_le rest
        simp only [List.length_cons] at hlength
        omega
      · intro hunpaired
        exact absurd h (hunpaired p q ⟨[], rest, rfl⟩)
  | case2 p q rest h ih =>
      rw [List.cons_inj_right, ih]
      constructor
      · intro hrest p' q' hinfix
        rcases List.infix_cons_iff.1 hinfix with hprefix | hinfix
        · obtain ⟨rfl, rfl⟩ : p' = p ∧ q' = q := by simpa using hprefix
          exact h
        · exact hrest p' q' hinfix
      · exact fun hall p' q' hinfix => hall p' q' (List.infix_cons hinfix)
  | case3 ps hshort =>
      refine iff_of_true rfl fun p q hinfix => ?_
      obtain ⟨before, after, rfl⟩ := hinfix
      cases before with
      | nil => exact absurd rfl (hshort p q after)
      | cons x before => cases before <;> exact absurd rfl (hshort _ _ _)

/-- Joining changes nothing just if no high surrogate stands directly before a low one. -/
theorem joined_eq_self_iff {t : CodeText} : t.joined = t ↔ t.Unpaired := by
  obtain ⟨ps⟩ := t
  rw [joined, mk.injEq]
  exact joinPairs_eq_self_iff ps

/-- There are no surrogates in a string. -/
theorem unpaired_ofString (s : String) : (ofString s).Unpaired := by
  intro p q hinfix hpair
  have hmem : p ∈ s.toList.map ofChar := hinfix.subset (List.mem_cons_self ..)
  obtain ⟨c, -, rfl⟩ := List.mem_map.1 hmem
  simp [isHighSurrogate_ofChar] at hpair

@[simp] theorem joined_ofString (s : String) : (ofString s).joined = ofString s :=
  joined_eq_self_iff.2 (unpaired_ofString s)

end Unpaired

end CodeText
end FindingLedger
