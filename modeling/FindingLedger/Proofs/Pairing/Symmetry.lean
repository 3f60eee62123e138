import FindingLedger.Proofs.Pairing.Stability
import Mathlib.Data.List.Zip
import Mathlib.Data.Prod.Basic

/-!
# The two sides of a cascade

A cascade walks through its lefts, fills buckets with its rights, and stops when the lefts are
complete.  Nothing of this can be seen in what it pairs: exchanging the two sides only turns each
pair around.

**Input.**  Two lists that name no item twice, and passes.

**Algorithm.**  `Pass.flip` exchanges the two ways to read keys in a pass.  Two pairings are
`Converse` when they pair the same items from opposite sides, in whatever order.

**Results.**
* `Converse.rightFor_eq`, `Converse.unmatchedLefts_eq`: what one of them shows of its lefts, the
  other one shows of its rights.
* `meets_flip_iff`: from both sides the same items meet in a pass, because under each key they are
  paired off one by one; `Converse.run`: so converse pairings stay converse.
* `Proper.countP_rights`: the rights that have a partner are as many as the pairs, like the lefts.
* `cascade_is_symmetric`: the cascade of the exchanged sides records the converse pairs.
-/

namespace FindingLedger

open Identified

/-- The pass with its two sides exchanged. -/
def Pass.flip {α β κ : Type} (pass : Pass α β κ) : Pass β α κ where
  name := pass.name
  leftKey := pass.rightKey
  rightKey := pass.leftKey

namespace Pairing

variable {α β : Type}

/-- The pairing with its two sides exchanged. -/
def flip (p : Pairing α β) : Pairing β α where
  lefts := p.rights
  rights := p.lefts
  pairs := p.pairs.map Prod.swap

variable [Identified α] [Identified β] {p : Pairing α β} {q : Pairing β α}

/-- The two pairings pair the same items from opposite sides. -/
structure Converse (p : Pairing α β) (q : Pairing β α) : Prop where
  proper : p.Proper
  proper' : q.Proper
  lefts_eq : q.lefts = p.rights
  rights_eq : q.rights = p.lefts
  mem_iff : ∀ left right, (right, left) ∈ q.pairs ↔ (left, right) ∈ p.pairs

theorem Converse.symm (h : Converse p q) : Converse q p :=
  ⟨h.proper', h.proper, h.rights_eq.symm, h.lefts_eq.symm, fun l r => (h.mem_iff r l).symm⟩

theorem Proper.converse_flip (hp : p.Proper) : Converse p p.flip where
  proper := hp
  proper' := by
    refine ⟨hp.rights_nodup, hp.lefts_nodup, ?_, ?_, ?_, ?_⟩
    · intro q hq
      obtain ⟨z, hz, rfl⟩ := List.mem_map.1 hq
      exact hp.right_mem z hz
    · intro q hq
      obtain ⟨z, hz, rfl⟩ := List.mem_map.1 hq
      exact hp.left_mem z hz
    · rw [flip, List.map_map]
      exact hp.pairs_right_nodup
    · rw [flip, List.map_map]
      exact hp.pairs_left_nodup
  lefts_eq := rfl
  rights_eq := rfl
  mem_iff := by simp [flip]

section Views

variable (h : Converse p q)
include h

theorem Converse.rightFor_eq (right : β) : q.rightFor right = p.leftFor right := by
  apply Option.ext
  intro left
  rw [h.proper'.rightFor_eq_some_iff_exists, h.proper.leftFor_eq_some_iff_exists]
  simp only [h.mem_iff]

theorem Converse.leftFor_eq (left : α) : q.leftFor left = p.rightFor left :=
  (h.symm.rightFor_eq left).symm

theorem Converse.unmatchedLefts_eq : q.unmatchedLefts = p.unmatchedRights := by
  simp only [unmatchedLefts, unmatchedRights, h.lefts_eq, h.rightFor_eq]

theorem Converse.unmatchedRights_eq : q.unmatchedRights = p.unmatchedLefts :=
  h.symm.unmatchedLefts_eq.symm

/-- Each pair is recorded by both pairings, but perhaps at another time. -/
theorem Converse.pairs_perm : q.pairs.Perm (p.pairs.map Prod.swap) := by
  rw [List.perm_ext_iff_of_nodup h.proper'.pairs_nodup
    (h.proper.pairs_nodup.map Prod.swap_injective)]
  rintro ⟨right, left⟩
  simp [h.mem_iff]

theorem Converse.matchedCount_eq : q.matchedCount = p.matchedCount := by
  simpa [matchedCount] using h.pairs_perm.length_eq

end Views

/-- The rights that have a partner are as many as the pairs. -/
theorem Proper.countP_rights (hp : p.Proper) :
    (p.rights.countP fun right => (p.leftFor right).isSome) = p.matchedCount := by
  have h := hp.converse_flip
  have hcount := h.proper'.countP_lefts
  simpa only [h.matchedCount_eq, h.rightFor_eq, h.lefts_eq] using hcount

theorem Proper.length_unmatchedRights (hp : p.Proper) :
    p.matchedCount + p.unmatchedRights.length = p.rights.length := by
  have h := hp.converse_flip
  have hlength := h.proper'.length_unmatchedLefts
  rwa [h.matchedCount_eq, h.unmatchedLefts_eq, h.lefts_eq] at hlength

end Pairing

namespace Plain

open Pairing

variable {α β κ : Type} [Identified α] [Identified β] [DecidableEq κ]
variable {pass : Pass α β κ} {p : Pairing α β} {q : Pairing β α}

/-- From both sides the same items meet: what waits under a key on one side is offered with it on
the other side. -/
theorem meets_flip_iff (h : Converse p q) {left : α} {right : β} :
    Meets pass.flip q right left ↔ Meets pass p left right := by
  apply exists_congr
  intro k
  have hoffering : offering pass.flip q k = waiting pass p k := by
    rw [offering, waiting, h.unmatchedLefts_eq]
    rfl
  have hwaiting : waiting pass.flip q k = offering pass p k := by
    rw [waiting, offering, h.unmatchedRights_eq]
    rfl
  rw [hoffering, hwaiting, ← List.zip_swap, ← Prod.swap_prod_mk,
    List.mem_map_of_injective Prod.swap_injective]

/-- A sweep from each side keeps two pairings converse. -/
theorem converse_sweep (h : Converse p q) (pass : Pass α β κ) :
    Converse (sweep p pass) (sweep q pass.flip) where
  proper := proper_sweep h.proper pass
  proper' := proper_sweep h.proper' pass.flip
  lefts_eq := by
    rw [(grows_sweep pass.flip q).lefts_eq, (grows_sweep pass p).rights_eq, h.lefts_eq]
  rights_eq := by
    rw [(grows_sweep pass.flip q).rights_eq, (grows_sweep pass p).lefts_eq, h.rights_eq]
  mem_iff := by
    intro left right
    rw [mem_pairs_sweep h.proper', mem_pairs_sweep h.proper, h.mem_iff, meets_flip_iff h]

/-- So does a run. -/
theorem converse_run (h : Converse p q) (passes : List (Pass α β κ)) :
    Converse (run passes p) (run (passes.map Pass.flip) q) := by
  induction passes generalizing p q with
  | nil => exact h
  | cons pass passes ih => exact ih (converse_sweep h pass)

end Plain

section Theorem

variable {α β κ : Type} [Identified α] [Identified β] [DecidableEq κ]

/-- **A cascade is symmetric in its two sides.**  When lists and keys are exchanged, the cascade
records exactly the converse pairs; partners and leftovers of one side are those of the other. -/
theorem cascade_is_symmetric (passes : List (Pass α β κ)) {lefts : List α} {rights : List β}
    (hl : (lefts.map handle).Nodup) (hr : (rights.map handle).Nodup) :
    ∃ p q, Cascade.pair passes lefts rights = .ok p ∧
      Cascade.pair (passes.map Pass.flip) rights lefts = .ok q ∧
      q.pairs.Perm (p.pairs.map Prod.swap) ∧
      (∀ right, q.rightFor right = p.leftFor right) ∧
      (∀ left, q.leftFor left = p.rightFor left) ∧
      q.unmatchedLefts = p.unmatchedRights ∧ q.unmatchedRights = p.unmatchedLefts := by
  have hstart := (Pairing.proper_start hl hr).converse_flip
  have h := Plain.converse_run hstart passes
  exact ⟨_, _, (Plain.pair_proper passes hl hr).1,
    (Plain.pair_proper (passes.map Pass.flip) hr hl).1, h.pairs_perm, h.rightFor_eq,
    h.leftFor_eq, h.unmatchedLefts_eq, h.unmatchedRights_eq⟩

/-- One run is complete after the first pass, and the other one reaches the second. -/
theorem cascade_is_symmetric_numbers :
    (([1, 4, 3] : List Nat).map handle).Nodup ∧
      (([34, 13, 6, 21, 33] : List Nat).map handle).Nodup ∧
      ∃ p q, Cascade.pair Plain.numberPasses [1, 4, 3] [34, 13, 6, 21, 33] = .ok p ∧
        Cascade.pair (Plain.numberPasses.map Pass.flip) [34, 13, 6, 21, 33] [1, 4, 3] = .ok q ∧
        p.pairs = [(1, 21), (4, 34), (3, 13)] ∧ q.pairs = [(34, 4), (13, 3), (21, 1)] ∧
        q.pairs.Perm (p.pairs.map Prod.swap) ∧ q.unmatchedLefts = p.unmatchedRights := by
  refine ⟨by decide, by decide, ?_⟩
  obtain ⟨p, q, hp, hq, hperm, -, -, hleft, -⟩ :=
    @cascade_is_symmetric Nat Nat Nat _ _ _ Plain.numberPasses [1, 4, 3] [34, 13, 6, 21, 33]
      (by decide) (by decide)
  have hpairs : (Cascade.pair Plain.numberPasses [1, 4, 3] [34, 13, 6, 21, 33]).map
      Pairing.pairs = .ok [(1, 21), (4, 34), (3, 13)] := by
    decide
  have hpairs' : (Cascade.pair (Plain.numberPasses.map Pass.flip) [34, 13, 6, 21, 33]
      [1, 4, 3]).map Pairing.pairs = .ok [(34, 4), (13, 3), (21, 1)] := by
    decide
  rw [hp] at hpairs
  rw [hq] at hpairs'
  exact ⟨p, q, hp, hq, Except.ok.inj hpairs, Except.ok.inj hpairs', hperm, hleft⟩

end Theorem
end FindingLedger
