import FindingLedger.Proofs.Pairing.Stability

/-!
# Ties

Where several items of a list share a key, their order in the list says which of them is paired.
Nothing else about a pairing depends on the order of the lists.

**Input.**  Two lists that name no item twice, the same items in other orders, and passes.

**Algorithm.**  A pass is `Unambiguous` when no item agrees with two items of the other list, which
holds when no two items of a list share a key.  Two pairings are `Rearranged` when they are about
the same items and pair the same ones, whatever the order of lists and pairs.

**Results.**
* `mem_pairs_sweep_of_unambiguous`: an unambiguous pass pairs all free items that agree.
* `rearranged_sweep`, `rearranged_run`: so rearranged pairings stay rearranged, pass by pass.
* `Rearranged.rightFor_eq`, `Rearranged.unmatchedLefts_perm`: every observation of two rearranged
  pairings is the same, up to the order of lists.
* `only_ties_see_the_order`: without ties a cascade pairs the same items, in whatever order they
  come.
-/

namespace FindingLedger

open Identified

/-- No two items have a key in common. -/
def Untied {γ κ : Type} (key : γ → Option κ) (items : List γ) : Prop :=
  ∀ x ∈ items, ∀ y ∈ items, x ≠ y → key x ≠ none → key x ≠ key y

instance {γ κ : Type} [DecidableEq γ] [DecidableEq κ] (key : γ → Option κ) (items : List γ) :
    Decidable (Untied key items) :=
  inferInstanceAs (Decidable (∀ x ∈ items, ∀ y ∈ items, x ≠ y → key x ≠ none → key x ≠ key y))

theorem Untied.eq_of_key_eq {γ κ : Type} {key : γ → Option κ} {items : List γ}
    (h : Untied key items) {x y : γ} (hx : x ∈ items) (hy : y ∈ items) (hk : key x ≠ none)
    (heq : key x = key y) : x = y := by
  by_contra hne
  exact h x hx y hy hne hk heq

section Unambiguous

variable {α β κ : Type}

/-- No item of one list agrees with two items of the other one. -/
structure Unambiguous (pass : Pass α β κ) (lefts : List α) (rights : List β) : Prop where
  right_unique : ∀ l ∈ lefts, ∀ r ∈ rights, ∀ r' ∈ rights,
    pass.Agrees l r → pass.Agrees l r' → r = r'
  left_unique : ∀ r ∈ rights, ∀ l ∈ lefts, ∀ l' ∈ lefts,
    pass.Agrees l r → pass.Agrees l' r → l = l'

/-- Where no key occurs twice, nothing is ambiguous. -/
theorem unambiguous_of_untied {pass : Pass α β κ} {lefts : List α} {rights : List β}
    (hl : Untied pass.leftKey lefts) (hr : Untied pass.rightKey rights) :
    Unambiguous pass lefts rights where
  right_unique := by
    intro l _ r hrm r' hrm' h h'
    have hkey : pass.rightKey r ≠ none := h.1 ▸ h.2
    exact hr.eq_of_key_eq hrm hrm' hkey (h.1.symm.trans h'.1)
  left_unique := by
    intro r _ l hlm l' hlm' h h'
    exact hl.eq_of_key_eq hlm hlm' h.2 (h.1.trans h'.1.symm)

theorem Unambiguous.subset {pass : Pass α β κ} {lefts lefts' : List α} {rights rights' : List β}
    (h : Unambiguous pass lefts rights) (hl : lefts' ⊆ lefts) (hr : rights' ⊆ rights) :
    Unambiguous pass lefts' rights' where
  right_unique l hlm r hrm r' hrm' := h.right_unique l (hl hlm) r (hr hrm) r' (hr hrm')
  left_unique r hrm l hlm l' hlm' := h.left_unique r (hr hrm) l (hl hlm) l' (hl hlm')

end Unambiguous

namespace Plain

variable {α β κ : Type} [Identified α] [Identified β] [DecidableEq κ]
variable {pass : Pass α β κ} {p : Pairing α β} {left : α} {right : β}

/-- **An unambiguous pass pairs all free items that agree.** -/
theorem mem_pairs_sweep_of_unambiguous (hp : p.Proper) (h : Unambiguous pass p.lefts p.rights) :
    (left, right) ∈ (sweep p pass).pairs ↔
      (left, right) ∈ p.pairs ∨
        left ∈ p.unmatchedLefts ∧ right ∈ p.unmatchedRights ∧ pass.Agrees left right := by
  rw [mem_pairs_sweep hp]
  apply or_congr_right
  constructor
  · exact fun hmeets => ⟨hmeets.free.1, hmeets.free.2, hmeets.agrees⟩
  · rintro ⟨hlfree, hrfree, hagree⟩
    obtain ⟨hl, hlnone⟩ := hp.mem_unmatchedLefts.1 hlfree
    obtain ⟨hr, hrnone⟩ := hp.mem_unmatchedRights.1 hrfree
    -- one of the two gets a partner in the pass, and there is nobody else for it to agree with
    rcases agree_or_matched hp hl hr hagree with ⟨r, hmem⟩ | ⟨l, hmem⟩
    · rcases (mem_pairs_sweep hp).1 hmem with hold | hmeets
      · exact absurd hold (hlnone r)
      · have hr' := (List.mem_filter.1 hmeets.free.2).1
        rwa [h.right_unique left hl right hr r hr' hagree hmeets.agrees]
    · rcases (mem_pairs_sweep hp).1 hmem with hold | hmeets
      · exact absurd hold (hrnone l)
      · have hl' := (List.mem_filter.1 hmeets.free.1).1
        rwa [h.left_unique right hr left hl l hl' hagree hmeets.agrees]

end Plain

namespace Pairing

variable {α β : Type} [Identified α] [Identified β] {p q : Pairing α β}

/-- The two pairings are about the same items and pair the same ones. -/
structure Rearranged (p q : Pairing α β) : Prop where
  proper : p.Proper
  proper' : q.Proper
  lefts_perm : q.lefts.Perm p.lefts
  rights_perm : q.rights.Perm p.rights
  mem_iff : ∀ left right, (left, right) ∈ q.pairs ↔ (left, right) ∈ p.pairs

theorem rearranged_start {lefts lefts' : List α} {rights rights' : List β}
    (hl : (lefts.map handle).Nodup) (hr : (rights.map handle).Nodup)
    (hlefts : lefts'.Perm lefts) (hrights : rights'.Perm rights) :
    Rearranged (start lefts rights) (start lefts' rights') where
  proper := proper_start hl hr
  proper' := proper_start ((hlefts.map handle).nodup_iff.2 hl) ((hrights.map handle).nodup_iff.2 hr)
  lefts_perm := hlefts
  rights_perm := hrights
  mem_iff := by simp [start]

section Views

variable (h : Rearranged p q)
include h

theorem Rearranged.pairs_perm : q.pairs.Perm p.pairs :=
  (List.perm_ext_iff_of_nodup h.proper'.pairs_nodup h.proper.pairs_nodup).2 fun z =>
    h.mem_iff z.1 z.2

theorem Rearranged.rightFor_eq (left : α) : q.rightFor left = p.rightFor left := by
  apply Option.ext
  intro right
  rw [rightFor_eq_some_iff_exists h.proper'.pairs_left_nodup,
    rightFor_eq_some_iff_exists h.proper.pairs_left_nodup]
  simp only [h.mem_iff]

theorem Rearranged.leftFor_eq (right : β) : q.leftFor right = p.leftFor right := by
  apply Option.ext
  intro left
  rw [leftFor_eq_some_iff_exists h.proper'.pairs_right_nodup,
    leftFor_eq_some_iff_exists h.proper.pairs_right_nodup]
  simp only [h.mem_iff]

theorem Rearranged.unmatchedLefts_perm : q.unmatchedLefts.Perm p.unmatchedLefts := by
  simp only [unmatchedLefts, h.rightFor_eq]
  exact h.lefts_perm.filter _

theorem Rearranged.unmatchedRights_perm : q.unmatchedRights.Perm p.unmatchedRights := by
  simp only [unmatchedRights, h.leftFor_eq]
  exact h.rights_perm.filter _

end Views
end Pairing

namespace Plain

open Pairing

variable {α β κ : Type} [Identified α] [Identified β] [DecidableEq κ] {p q : Pairing α β}

/-- An unambiguous sweep keeps two pairings rearranged. -/
theorem rearranged_sweep (h : Rearranged p q) {pass : Pass α β κ}
    (hpass : Unambiguous pass p.lefts p.rights) :
    Rearranged (sweep p pass) (sweep q pass) where
  proper := proper_sweep h.proper pass
  proper' := proper_sweep h.proper' pass
  lefts_perm := by
    rw [(grows_sweep pass q).lefts_eq, (grows_sweep pass p).lefts_eq]
    exact h.lefts_perm
  rights_perm := by
    rw [(grows_sweep pass q).rights_eq, (grows_sweep pass p).rights_eq]
    exact h.rights_perm
  mem_iff := by
    intro left right
    have hpass' := hpass.subset h.lefts_perm.subset h.rights_perm.subset
    rw [mem_pairs_sweep_of_unambiguous h.proper' hpass',
      mem_pairs_sweep_of_unambiguous h.proper hpass, h.mem_iff, h.unmatchedLefts_perm.mem_iff,
      h.unmatchedRights_perm.mem_iff]

/-- So does a run of such passes. -/
theorem rearranged_run (h : Rearranged p q) {passes : List (Pass α β κ)}
    (hpasses : ∀ pass ∈ passes, Unambiguous pass p.lefts p.rights) :
    Rearranged (run passes p) (run passes q) := by
  induction passes generalizing p q with
  | nil => exact h
  | cons pass passes ih =>
      obtain ⟨hfirst, hrest⟩ := List.forall_mem_cons.1 hpasses
      apply ih (rearranged_sweep h hfirst)
      rwa [(grows_sweep pass p).lefts_eq, (grows_sweep pass p).rights_eq]

end Plain

section Theorem

variable {α β κ : Type} [Identified α] [Identified β] [DecidableEq κ]

/-- **Only ties see the order of the input.**  If no two lefts and no two rights share a key in any
pass, then the same items in other orders are paired in the same way: the pairs are the same, every
item has the same partner, and the same items are left over. -/
theorem only_ties_see_the_order (passes : List (Pass α β κ)) {lefts lefts' : List α}
    {rights rights' : List β} (hl : (lefts.map handle).Nodup) (hr : (rights.map handle).Nodup)
    (hties : ∀ pass ∈ passes, Untied pass.leftKey lefts ∧ Untied pass.rightKey rights)
    (hlefts : lefts'.Perm lefts) (hrights : rights'.Perm rights) :
    ∃ p q, Cascade.pair passes lefts rights = .ok p ∧
      Cascade.pair passes lefts' rights' = .ok q ∧ q.pairs.Perm p.pairs ∧
      (∀ left, q.rightFor left = p.rightFor left) ∧
      (∀ right, q.leftFor right = p.leftFor right) ∧
      q.unmatchedLefts.Perm p.unmatchedLefts ∧ q.unmatchedRights.Perm p.unmatchedRights := by
  have hstart := Pairing.rearranged_start hl hr hlefts hrights
  have h := Plain.rearranged_run hstart fun pass hpass =>
    unambiguous_of_untied (hties pass hpass).1 (hties pass hpass).2
  exact ⟨_, _, (Plain.pair_proper passes hl hr).1,
    (Plain.pair_proper passes hstart.proper'.lefts_nodup hstart.proper'.rights_nodup).1,
    h.pairs_perm, h.rightFor_eq, h.leftFor_eq, h.unmatchedLefts_perm, h.unmatchedRights_perm⟩

/-- Passes that compare the last and the second but last digit of two numbers. -/
def digitPasses : List (Pass Nat Nat Nat) :=
  let digit n := if n % 10 = 0 then none else some (n % 10)
  [⟨"last", digit, digit⟩, ⟨"tens", fun n => digit (n / 10), fun n => digit (n / 10)⟩]

/-- Two pairs agree in the last digit, and the third one in the digit before. -/
theorem only_ties_see_the_order_numbers :
    (([12, 31, 45] : List Nat).map handle).Nodup ∧
      (([52, 61, 47, 20] : List Nat).map handle).Nodup ∧
      (∀ pass ∈ digitPasses, Untied pass.leftKey [12, 31, 45] ∧
        Untied pass.rightKey [52, 61, 47, 20]) ∧
      [45, 31, 12].Perm [12, 31, 45] ∧ [20, 47, 61, 52].Perm [52, 61, 47, 20] ∧
      ∃ p q, Cascade.pair digitPasses [12, 31, 45] [52, 61, 47, 20] = .ok p ∧
        Cascade.pair digitPasses [45, 31, 12] [20, 47, 61, 52] = .ok q ∧
        p.pairs = [(12, 52), (31, 61), (45, 47)] ∧ q.pairs.Perm p.pairs ∧
        q.unmatchedRights.Perm p.unmatchedRights := by
  have hties : ∀ pass ∈ digitPasses, Untied pass.leftKey [12, 31, 45] ∧
      Untied pass.rightKey [52, 61, 47, 20] := by
    decide
  have hlefts : [45, 31, 12].Perm [12, 31, 45] := by decide
  have hrights : [20, 47, 61, 52].Perm [52, 61, 47, 20] := by decide
  refine ⟨by decide, by decide, hties, hlefts, hrights, ?_⟩
  obtain ⟨p, q, hp, hq, hperm, -, -, -, hleft⟩ :=
    @only_ties_see_the_order Nat Nat Nat _ _ _ digitPasses _ _ _ _ (by decide) (by decide) hties
      hlefts hrights
  have hpairs : (Cascade.pair digitPasses [12, 31, 45] [52, 61, 47, 20]).map Pairing.pairs =
      .ok [(12, 52), (31, 61), (45, 47)] := by
    decide
  rw [hp] at hpairs
  exact ⟨p, q, hp, hq, Except.ok.inj hpairs, hperm, hleft⟩

/-- With a tie the first of the tied items is taken. -/
example : (Cascade.pair digitPasses [1] [11, 21]).map Pairing.pairs = .ok [(1, 11)] ∧
    (Cascade.pair digitPasses [1] [21, 11]).map Pairing.pairs = .ok [(1, 21)] := by
  decide

end Theorem
end FindingLedger
