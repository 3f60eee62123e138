import FindingLedger.Proofs.Pairing.Clash

/-!
# Recording pairs by hand

A pairing can also be filled without a cascade, by attempts to record any pair of any items.

**Input.**  Two lists that may name items any number of times, and attempts.  The items of an
attempt need not be listed at all.

**Algorithm.**  An attempt is accepted or clashes, and one that clashes leaves the pairing as it
was.  `accepted` lists the attempts that were accepted, oldest first.

**Results.**
* `attempt_cases`: how an attempt ends; the left item is looked at first.
* `attemptAll_eq_extend`: attempts add to the pairing just those of them that were accepted.
* `Apart.attemptAll`: so no item ever gets two partners.
* `gives_iff`: the two partner functions are inverse to each other.
* `interleaves_unmatchedLefts`: the lefts with a partner and those without make up the list.
* `attempts_keep_a_matching`: all of this after any attempts.
-/

namespace FindingLedger

open Identified

/-- The third list is made up of the first two, each of them in its order. -/
inductive Interleaves {γ : Type} : List γ → List γ → List γ → Prop
  | nil : Interleaves [] [] []
  | left {xs ys zs : List γ} (x : γ) (h : Interleaves xs ys zs) : Interleaves (x :: xs) ys (x :: zs)
  | right {xs ys zs : List γ} (y : γ) (h : Interleaves xs ys zs) :
      Interleaves xs (y :: ys) (y :: zs)

/-- The answer to a question for an item is the given item. -/
def Gives {γ : Type} [Identified γ] (answer : Option γ) (item : γ) : Prop :=
  ∃ x, answer = some x ∧ handle x = handle item

namespace Pairing

variable {α β : Type} [Identified α] [Identified β]

/-- Attempts to record a pair.  Gives the clash if there is one, and the pairing afterwards. -/
def attempt (p : Pairing α β) (z : α × β) : Option Clash × Pairing α β :=
  match p.record z.1 z.2 with
  | .ok q => (none, q)
  | .error cause => (some cause, p)

/-- The pairing after a list of attempts. -/
def attemptAll : List (α × β) → Pairing α β → Pairing α β
  | [], p => p
  | z :: zs, p => attemptAll zs (p.attempt z).2

/-- The attempts of a list that are accepted, one after the other. -/
def accepted : List (α × β) → Pairing α β → List (α × β)
  | [], _ => []
  | z :: zs, p =>
      match p.attempt z with
      | (none, q) => z :: accepted zs q
      | (some _, q) => accepted zs q

section Attempts

variable {p : Pairing α β}

/-- How an attempt ends. -/
theorem attempt_cases (p : Pairing α β) (z : α × β) :
    p.rightFor z.1 = none ∧ p.leftFor z.2 = none ∧ p.attempt z = (none, p.push z.1 z.2) ∨
      p.rightFor z.1 ≠ none ∧ p.attempt z = (some .leftTaken, p) ∨
      p.rightFor z.1 = none ∧ p.leftFor z.2 ≠ none ∧ p.attempt z = (some .rightTaken, p) := by
  rw [attempt, record]
  cases hl : p.rightFor z.1 with
  | some right => exact Or.inr (Or.inl ⟨by simp, rfl⟩)
  | none =>
      cases hr : p.leftFor z.2 with
      | some left => exact Or.inr (Or.inr ⟨rfl, by simp, rfl⟩)
      | none => exact Or.inl ⟨rfl, rfl, rfl⟩

/-- Attempts add those of them that are accepted, in their order. -/
theorem attemptAll_eq_extend (zs : List (α × β)) (p : Pairing α β) :
    attemptAll zs p = p.extend (accepted zs p) := by
  induction zs generalizing p with
  | nil => exact p.extend_nil.symm
  | cons z zs ih =>
      rw [attemptAll, accepted]
      rcases p.attempt_cases z with ⟨-, -, hz⟩ | ⟨-, hz⟩ | ⟨-, -, hz⟩
      · rw [hz, ih]
        simp [push, extend]
      · rw [hz, ih]
      · rw [hz, ih]

theorem Apart.attempt (h : Apart p.pairs) (z : α × β) : Apart (p.attempt z).2.pairs := by
  rcases p.attempt_cases z with ⟨hl, hr, hz⟩ | ⟨-, hz⟩ | ⟨-, -, hz⟩
  · rw [hz]
    exact h.concat (rightFor_eq_none_iff_notMem.1 hl) (leftFor_eq_none_iff_notMem.1 hr)
  · rwa [hz]
  · rwa [hz]

/-- However pairs are recorded, no item gets two partners. -/
theorem Apart.attemptAll (h : Apart p.pairs) (zs : List (α × β)) :
    Apart (Pairing.attemptAll zs p).pairs := by
  induction zs generalizing p with
  | nil => exact h
  | cons z zs ih => exact ih (h.attempt z)

end Attempts

section Views

variable {p : Pairing α β}

/-- **The two partner functions are inverse to each other.** -/
theorem gives_iff (h : Apart p.pairs) (left : α) (right : β) :
    Gives (p.rightFor left) right ↔ Gives (p.leftFor right) left := by
  simp only [Gives, rightFor_eq_some_iff_exists h.lefts_nodup,
    leftFor_eq_some_iff_exists h.rights_nodup]
  constructor
  · rintro ⟨r, ⟨l, hmem, hl⟩, hr⟩
    exact ⟨l, ⟨r, hmem, hr⟩, hl⟩
  · rintro ⟨l, ⟨r, hmem, hr⟩, hl⟩
    exact ⟨r, ⟨l, hmem, hl⟩, hr⟩

omit [Identified β] in
/-- The lefts with a partner and the lefts without one make up the list. -/
theorem interleaves_unmatchedLefts (p : Pairing α β) :
    Interleaves (p.matchedLefts.map Prod.fst) p.unmatchedLefts p.lefts := by
  rw [matchedLefts, unmatchedLefts]
  induction p.lefts with
  | nil => exact .nil
  | cons left lefts ih =>
      cases h : p.rightFor left with
      | some right => simpa [h] using ih.left left
      | none => simpa [h] using ih.right left

omit [Identified β] in
theorem rightFor_of_mem_matchedLefts {z : α × β} (h : z ∈ p.matchedLefts) :
    p.rightFor z.1 = some z.2 := by
  obtain ⟨left, -, hz⟩ := List.mem_filterMap.1 h
  obtain ⟨right, hright, rfl⟩ := Option.map_eq_some_iff.1 hz
  exact hright

end Views
end Pairing

section Theorem

open Pairing

variable {α β : Type} [Identified α] [Identified β]

/-- **A pairing is a partial injective matching, however it is filled.**  After any attempts the two
partner functions are inverse to each other, and a partner is what an accepted attempt gave.  The
next attempt clashes exactly if one of its items has a partner, about the left item if that has one,
and then changes nothing.  As many pairs are counted as attempts were accepted; the lefts with a
partner, each with its own, and those without make up the lefts; the rights that no accepted attempt
named are left.  If the lefts differ and accepted attempts were about them, the pairing counts as
complete exactly if no left item is without a partner. -/
theorem attempts_keep_a_matching {lefts : List α} {rights : List β} {attempts : List (α × β)}
    {p : Pairing α β} (hp : attemptAll attempts (start lefts rights) = p)
    {pairs : List (α × β)} (haccepted : accepted attempts (start lefts rights) = pairs) :
    (∀ left right, Gives (p.rightFor left) right ↔ Gives (p.leftFor right) left) ∧
    (∀ left right, p.rightFor left = some right ↔
      ∃ l, (l, right) ∈ pairs ∧ handle l = handle left) ∧
    (∀ left right, p.leftFor right = some left ↔
      ∃ r, (left, r) ∈ pairs ∧ handle r = handle right) ∧
    (∀ z, ((p.attempt z).1 = some .leftTaken ↔ p.rightFor z.1 ≠ none) ∧
      ((p.attempt z).1 = some .rightTaken ↔ p.rightFor z.1 = none ∧ p.leftFor z.2 ≠ none) ∧
      ((p.attempt z).1 ≠ none → (p.attempt z).2 = p)) ∧
    p.matchedCount = pairs.length ∧
    Interleaves (p.matchedLefts.map Prod.fst) p.unmatchedLefts lefts ∧
    (∀ z ∈ p.matchedLefts, p.rightFor z.1 = some z.2) ∧
    p.unmatchedRights =
      rights.filter (fun right => decide (∀ z ∈ pairs, handle z.2 ≠ handle right)) ∧
    ((lefts.map handle).Nodup → (∀ z ∈ pairs, handle z.1 ∈ lefts.map handle) →
      (p.isComplete = true ↔ p.unmatchedLefts = [])) := by
  have hextend := attemptAll_eq_extend attempts (start lefts rights)
  rw [hp, haccepted] at hextend
  have hlefts : p.lefts = lefts := congrArg Pairing.lefts hextend
  have hrights : p.rights = rights := congrArg Pairing.rights hextend
  have hpairs : p.pairs = pairs := congrArg Pairing.pairs hextend
  have hnone : Apart (start lefts rights).pairs := ⟨List.nodup_nil, List.nodup_nil⟩
  have hapart : Apart p.pairs := hp ▸ hnone.attemptAll attempts
  refine ⟨gives_iff hapart, ?_, ?_, ?_, ?_, ?_, fun z => rightFor_of_mem_matchedLefts, ?_, ?_⟩
  · intro left right
    rw [rightFor_eq_some_iff_exists hapart.lefts_nodup, hpairs]
  · intro left right
    rw [leftFor_eq_some_iff_exists hapart.rights_nodup, hpairs]
  · intro z
    rcases p.attempt_cases z with ⟨hl, hr, hz⟩ | ⟨hl, hz⟩ | ⟨hl, hr, hz⟩
    · simp [hl, hr, hz]
    · simp [hl, hz]
    · simp [hl, hr, hz]
  · rw [matchedCount, hpairs]
  · exact hlefts ▸ p.interleaves_unmatchedLefts
  · rw [unmatchedRights, hrights]
    apply List.filter_congr
    intro right _
    rw [Bool.eq_iff_iff, Option.isNone_iff_eq_none, leftFor_eq_none_iff_notMem, hpairs]
    simp
  · intro hn hmem
    rw [← hlefts] at hn hmem
    exact isComplete_iff hn hapart.lefts_nodup (hpairs ▸ hmem)

/-- Two of five attempts clash.  An item is paired with itself, though it is not among the rights,
and a right item that is listed twice gets one partner. -/
theorem attempts_keep_a_matching_numbers :
    let attempts := [(2, 5), (2, 4), (1, 5), (1, 1), (3, 4)]
    let pairs := accepted attempts (start [1, 2, 3] [4, 5, 5])
    let p := attemptAll attempts (start [1, 2, 3] [4, 5, 5])
    pairs = [(2, 5), (1, 1), (3, 4)] ∧ (([1, 2, 3] : List Nat).map handle).Nodup ∧
      (∀ z ∈ pairs, handle z.1 ∈ ([1, 2, 3] : List Nat).map handle) ∧
      Gives (p.rightFor 1) 1 ∧ Gives (p.leftFor 1) 1 ∧ p.matchedCount = 3 ∧
      p.unmatchedRights = [] ∧ p.isComplete = true ∧ p.unmatchedLefts = [] := by
  intro attempts pairs p
  have hmem : ∀ z ∈ pairs, handle z.1 ∈ ([1, 2, 3] : List Nat).map handle := by decide
  obtain ⟨hinverse, -, -, -, hcount, -, -, hrights, hcomplete⟩ :=
    attempts_keep_a_matching (rfl : attemptAll attempts (start [1, 2, 3] [4, 5, 5]) = p)
      (rfl : accepted attempts (start [1, 2, 3] [4, 5, 5]) = pairs)
  have hself : Gives (p.rightFor 1) 1 := ⟨1, by decide, rfl⟩
  have hdone : p.isComplete = true := by decide
  exact ⟨by decide, by decide, hmem, hself, (hinverse 1 1).1 hself, hcount,
    hrights.trans (by decide), hdone, (hcomplete (by decide) hmem).1 hdone⟩

end Theorem
end FindingLedger
