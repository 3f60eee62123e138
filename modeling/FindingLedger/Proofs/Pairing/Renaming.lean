import FindingLedger.Proofs.Pairing.Compatibility
import Mathlib.Data.List.Find

/-!
# What a cascade sees of its items

A cascade asks of its items only which of them are the same and which of them agree in which pass.

**Input.**  Two lists that name no item twice, and an image of each item.  Different items have
different images, and two images agree in a pass exactly if their items do.  The images may be of
other types, and have other handles and other keys.

**Results.**
* `Faithful.rightFor_map`, `Faithful.leftFor_map`: partners of images are images of partners.
* `Plain.visit_map`, `Plain.sweep_map`: one visit, and one pass, of the images.
* `Plain.pair_map`: the cascade of the images records the images of the pairs, in the same order.
* `Plain.pair_pass_map`: so does a cascade of criteria, if the images share the traits that their
  items share.
-/

namespace FindingLedger

open Identified

namespace Pairing

variable {α β α' β' : Type}

/-- The pairing of the images of all items. -/
def map (d : α → α') (e : β → β') (p : Pairing α β) : Pairing α' β' where
  lefts := p.lefts.map d
  rights := p.rights.map e
  pairs := p.pairs.map (Prod.map d e)

theorem map_push (d : α → α') (e : β → β') (p : Pairing α β) (left : α) (right : β) :
    (p.push left right).map d e = (p.map d e).push (d left) (e right) := by
  simp [map, push]

variable [Identified α] [Identified β] [Identified α'] [Identified β']
variable {d : α → α'} {e : β → β'} {p : Pairing α β} {left : α} {right : β}

/-- Different items of a proper pairing have different images. -/
structure Faithful (d : α → α') (e : β → β') (p : Pairing α β) : Prop where
  proper : p.Proper
  lefts_nodup : (p.lefts.map fun l => handle (d l)).Nodup
  rights_nodup : (p.rights.map fun r => handle (e r)).Nodup

theorem Faithful.left_iff (h : Faithful d e p) {l : α} (hl : l ∈ p.lefts)
    (hleft : left ∈ p.lefts) : handle (d l) = handle (d left) ↔ handle l = handle left := by
  constructor
  · intro heq
    rw [List.inj_on_of_nodup_map h.lefts_nodup hl hleft heq]
  · intro heq
    rw [List.inj_on_of_nodup_map h.proper.lefts_nodup hl hleft heq]

theorem Faithful.right_iff (h : Faithful d e p) {r : β} (hr : r ∈ p.rights)
    (hright : right ∈ p.rights) : handle (e r) = handle (e right) ↔ handle r = handle right := by
  constructor
  · intro heq
    rw [List.inj_on_of_nodup_map h.rights_nodup hr hright heq]
  · intro heq
    rw [List.inj_on_of_nodup_map h.proper.rights_nodup hr hright heq]

/-- The image of a left item has the image of its partner. -/
theorem Faithful.rightFor_map (h : Faithful d e p) (hl : left ∈ p.lefts) :
    (p.map d e).rightFor (d left) = (p.rightFor left).map e := by
  have hfind : (p.pairs.find? fun q => decide (handle (d q.1) = handle (d left))) =
      p.pairs.find? fun q => decide (handle q.1 = handle left) :=
    List.find?_congr fun q hq => decide_eq_decide.2 (h.left_iff (h.proper.left_mem q hq) hl)
  rw [rightFor, map, List.find?_map, rightFor, ← hfind, Option.map_map, Option.map_map]
  rfl

/-- The image of a right item has the image of its partner. -/
theorem Faithful.leftFor_map (h : Faithful d e p) (hr : right ∈ p.rights) :
    (p.map d e).leftFor (e right) = (p.leftFor right).map d := by
  have hfind : (p.pairs.find? fun q => decide (handle (e q.2) = handle (e right))) =
      p.pairs.find? fun q => decide (handle q.2 = handle right) :=
    List.find?_congr fun q hq => decide_eq_decide.2 (h.right_iff (h.proper.right_mem q hq) hr)
  rw [leftFor, map, List.find?_map, leftFor, ← hfind, Option.map_map, Option.map_map]
  rfl

theorem Faithful.unmatchedLefts_map (h : Faithful d e p) :
    (p.map d e).unmatchedLefts = p.unmatchedLefts.map d := by
  rw [unmatchedLefts, unmatchedLefts, show (p.map d e).lefts = p.lefts.map d from rfl,
    List.filter_map]
  congr 1
  apply List.filter_congr
  intro l hl
  rw [Function.comp_apply, h.rightFor_map hl, Option.isNone_map]

theorem Faithful.unmatchedRights_map (h : Faithful d e p) :
    (p.map d e).unmatchedRights = p.unmatchedRights.map e := by
  rw [unmatchedRights, unmatchedRights, show (p.map d e).rights = p.rights.map e from rfl,
    List.filter_map]
  congr 1
  apply List.filter_congr
  intro r hr
  rw [Function.comp_apply, h.leftFor_map hr, Option.isNone_map]

/-- More pairs between the same lists change nothing. -/
theorem Faithful.mono {q : Pairing α β} (h : Faithful d e p) (hgrows : p.Grows q)
    (hq : q.Proper) : Faithful d e q where
  proper := hq
  lefts_nodup := hgrows.lefts_eq ▸ h.lefts_nodup
  rights_nodup := hgrows.rights_eq ▸ h.rights_nodup

end Pairing

namespace Plain

open Pairing

section Visiting

variable {α β κ : Type} [Identified α] [Identified β] [DecidableEq κ]

/-- A visit pairs a free left item with the first free right item with which it agrees. -/
theorem visit_eq (pass : Pass α β κ) (p : Pairing α β) (left : α) :
    visit pass p left =
      if p.rightFor left = none then
        match p.unmatchedRights.find? fun right => decide (pass.Agrees left right) with
        | some right => p.push left right
        | none => p
      else p := by
  have hagrees : ∀ k, pass.leftKey left = some k → ∀ right,
      (pass.Agrees left right ↔ pass.rightKey right = some k) := by
    intro k hk right
    simp [Pass.Agrees, hk, eq_comm]
  cases hright : p.rightFor left with
  | some right => simp [visit, hright]
  | none =>
      cases hk : pass.leftKey left with
      | none =>
          have hnone : (p.unmatchedRights.find? fun right => decide (pass.Agrees left right)) =
              none := List.find?_eq_none.2 fun right _ => by simp [Pass.Agrees, hk]
          rw [if_pos rfl, hnone, visit, hright, hk]
      | some k =>
          have hfind : (p.unmatchedRights.find? fun right => decide (pass.Agrees left right)) =
              p.unmatchedRights.find? fun right => decide (pass.rightKey right = some k) :=
            List.find?_congr fun right _ => decide_eq_decide.2 (hagrees k hk right)
          cases hfound : p.unmatchedRights.find? fun right => decide (pass.rightKey right = some k)
          with
          | none => simp [visit, hright, hk, hfind, hfound]
          | some right => simp [visit, hright, hk, hfind, hfound]

end Visiting

section Images

variable {α β κ α' β' κ' : Type} [Identified α] [Identified β] [DecidableEq κ]
variable [Identified α'] [Identified β'] [DecidableEq κ']
variable {d : α → α'} {e : β → β'} {p : Pairing α β}

/-- In the two passes the same items of the pairing agree. -/
def SameAgreements (d : α → α') (e : β → β') (p : Pairing α β) (pass : Pass α β κ)
    (pass' : Pass α' β' κ') : Prop :=
  ∀ l ∈ p.lefts, ∀ r ∈ p.rights, pass'.Agrees (d l) (e r) ↔ pass.Agrees l r

variable {pass : Pass α β κ} {pass' : Pass α' β' κ'}

theorem visit_map (h : Faithful d e p) (hagree : SameAgreements d e p pass pass') {left : α}
    (hl : left ∈ p.lefts) : visit pass' (p.map d e) (d left) = (visit pass p left).map d e := by
  have hfind : (p.unmatchedRights.find? fun r => decide (pass'.Agrees (d left) (e r))) =
      p.unmatchedRights.find? fun r => decide (pass.Agrees left r) :=
    List.find?_congr fun r hr =>
      decide_eq_decide.2 (hagree left hl r (List.mem_filter.1 hr).1)
  rw [visit_eq, visit_eq, h.rightFor_map hl, h.unmatchedRights_map, List.find?_map,
    Function.comp_def, hfind]
  by_cases hfree : p.rightFor left = none
  · rw [if_pos hfree, if_pos (Option.map_eq_none_iff.2 hfree)]
    cases p.unmatchedRights.find? fun r => decide (pass.Agrees left r) with
    | none => rfl
    | some right => exact (map_push d e p left right).symm
  · rw [if_neg hfree, if_neg (mt Option.map_eq_none_iff.1 hfree)]

/-- Visiting the images gives the image of the visits. -/
theorem foldl_visit_map (h : Faithful d e p) (hagree : SameAgreements d e p pass pass')
    (lefts : List α) (hl : lefts ⊆ p.lefts) :
    (lefts.map d).foldl (visit pass') (p.map d e) = (lefts.foldl (visit pass) p).map d e := by
  induction lefts generalizing p with
  | nil => rfl
  | cons left lefts ih =>
      obtain ⟨hleft, htail⟩ := List.cons_subset.1 hl
      have hgrows := grows_visit pass p left
      rw [List.map_cons, List.foldl_cons, List.foldl_cons, visit_map h hagree hleft]
      refine ih (h.mono hgrows (proper_visit h.proper hleft)) ?_ ?_
      · rwa [SameAgreements, hgrows.lefts_eq, hgrows.rights_eq]
      · rwa [hgrows.lefts_eq]

theorem sweep_map (h : Faithful d e p) (hagree : SameAgreements d e p pass pass') :
    sweep (p.map d e) pass' = (sweep p pass).map d e :=
  foldl_visit_map h hagree p.lefts (List.Subset.refl _)

/-- A run over the images gives the image of the run, pass by pass. -/
theorem run_map {ι : Type} {toPass : ι → Pass α β κ} {toPass' : ι → Pass α' β' κ'} (is : List ι)
    (h : Faithful d e p) (hagree : ∀ i ∈ is, SameAgreements d e p (toPass i) (toPass' i)) :
    run (is.map toPass') (p.map d e) = (run (is.map toPass) p).map d e := by
  induction is generalizing p with
  | nil => rfl
  | cons i is ih =>
      obtain ⟨hfirst, hrest⟩ := List.forall_mem_cons.1 hagree
      have hgrows := grows_sweep (toPass i) p
      have hnext := ih (h.mono hgrows (proper_sweep h.proper (toPass i))) fun j hj => by
        rw [SameAgreements, hgrows.lefts_eq, hgrows.rights_eq]
        exact hrest j hj
      rw [← sweep_map h hfirst] at hnext
      exact hnext

/-- **The cascade of the images of two lists records the images of the pairs.** -/
theorem pair_map {ι : Type} {toPass : ι → Pass α β κ} {toPass' : ι → Pass α' β' κ'}
    (is : List ι) {lefts : List α} {rights : List β} (hl : (lefts.map handle).Nodup)
    (hr : (rights.map handle).Nodup) (hl' : ((lefts.map d).map handle).Nodup)
    (hr' : ((rights.map e).map handle).Nodup)
    (hagree : ∀ i ∈ is, ∀ l ∈ lefts, ∀ r ∈ rights,
      (toPass' i).Agrees (d l) (e r) ↔ (toPass i).Agrees l r) :
    pair (is.map toPass') (lefts.map d) (rights.map e) =
      (pair (is.map toPass) lefts rights).map d e := by
  rw [List.map_map] at hl' hr'
  exact run_map is ⟨proper_start hl hr, hl', hr'⟩ hagree

end Images

section Criteria

variable {α β α' β' : Type} [Matchable α] [Matchable β] [Matchable α'] [Matchable β']

/-- The cascade of criteria on two lists of images, if the criteria join the images of the items
that they join. -/
theorem pair_pass_map (criteria : List Criterion) {d : α → α'} {e : β → β'} {lefts : List α}
    {rights : List β} (hl : (lefts.map handle).Nodup) (hr : (rights.map handle).Nodup)
    (hl' : ((lefts.map d).map handle).Nodup) (hr' : ((rights.map e).map handle).Nodup)
    (hjoins : ∀ c : Criterion, ∀ l ∈ lefts, ∀ r ∈ rights,
      c.Joins (Matchable.traits (d l)) (Matchable.traits (e r)) ↔
        c.Joins (Matchable.traits l) (Matchable.traits r)) :
    pair (criteria.map Criterion.pass) (lefts.map d) (rights.map e) =
      (pair (criteria.map Criterion.pass) lefts rights).map d e := by
  refine pair_map criteria hl hr hl' hr' fun c _ l hlm r hrm => ?_
  rw [Criterion.agrees_pass_iff, Criterion.agrees_pass_iff]
  exact hjoins c l hlm r hrm

end Criteria
end Plain
end FindingLedger
