import FindingLedger.Pairing.Cascade
import Mathlib.Data.List.Nodup
import Mathlib.Data.List.Perm.Basic

/-!
# The plain cascade

The cascade of `Cascade.pair` fills buckets once per pass, passes over the lefts when no right has
a key, and stops as soon as the pairing is complete.  The plain cascade does nothing of the kind.

**Input.**  Two lists that name no item twice, and passes.

**Algorithm.**  For each pass in order, and for each left item in order that has no partner and
has a key: the first right item in order that has no partner and has the same key is its partner.

**Results.**
* `Proper`: a pairing between two lists without repetition, in which no item has two partners;
  `record_eq_ok` and `Proper.push` keep it.
* `run_eq_plain`: from any proper pairing the cascade never clashes and ends where the plain
  cascade ends.
* `pair_eq_plain`: so both record the same pairs in the same order.
-/

namespace FindingLedger

open Identified

/-- Looking up a key that no two items share finds the item with that key. -/
theorem find?_key_eq_some_iff {γ : Type} {key : γ → Nat} {items : List γ}
    (hn : (items.map key).Nodup) {k : Nat} {c : γ} :
    (items.find? fun x => decide (key x = k)) = some c ↔ c ∈ items ∧ key c = k := by
  constructor
  · intro h
    have hk : key c = k := by simpa using List.find?_some h
    exact ⟨List.mem_of_find?_eq_some h, hk⟩
  · rintro ⟨hc, rfl⟩
    cases hfind : items.find? fun x => decide (key x = key c) with
    | none =>
        have := List.find?_eq_none.1 hfind c hc
        simp at this
    | some d =>
        have hd : key d = key c := by simpa using List.find?_some hfind
        rw [List.inj_on_of_nodup_map hn (List.mem_of_find?_eq_some hfind) hc hd]

namespace Pairing

variable {α β : Type} [Identified α] [Identified β]

/-- A pairing of items of its own lists in which nothing is listed or paired twice. -/
structure Proper (p : Pairing α β) : Prop where
  lefts_nodup : (p.lefts.map handle).Nodup
  rights_nodup : (p.rights.map handle).Nodup
  left_mem : ∀ q ∈ p.pairs, q.1 ∈ p.lefts
  right_mem : ∀ q ∈ p.pairs, q.2 ∈ p.rights
  pairs_left_nodup : (p.pairs.map fun q => handle q.1).Nodup
  pairs_right_nodup : (p.pairs.map fun q => handle q.2).Nodup

theorem proper_start {lefts : List α} {rights : List β} (hl : (lefts.map handle).Nodup)
    (hr : (rights.map handle).Nodup) : (start lefts rights).Proper where
  lefts_nodup := hl
  rights_nodup := hr
  left_mem := by simp [start]
  right_mem := by simp [start]
  pairs_left_nodup := by simp [start]
  pairs_right_nodup := by simp [start]

/-- The second pairing is the first one with pairs added. -/
structure Grows (p q : Pairing α β) : Prop where
  lefts_eq : q.lefts = p.lefts
  rights_eq : q.rights = p.rights
  pairs_subset : p.pairs ⊆ q.pairs

omit [Identified α] [Identified β] in
theorem Grows.refl (p : Pairing α β) : Grows p p :=
  ⟨rfl, rfl, List.Subset.refl _⟩

omit [Identified α] [Identified β] in
theorem Grows.trans {p q r : Pairing α β} (h₁ : Grows p q) (h₂ : Grows q r) : Grows p r :=
  ⟨h₂.lefts_eq.trans h₁.lefts_eq, h₂.rights_eq.trans h₁.rights_eq,
    List.Subset.trans h₁.pairs_subset h₂.pairs_subset⟩

section Handles

variable {p : Pairing α β} {left : α} {right : β}

omit [Identified β] in
theorem rightFor_eq_none_iff_notMem :
    p.rightFor left = none ↔ handle left ∉ p.pairs.map fun q => handle q.1 := by
  simp [rightFor, List.find?_eq_none]

omit [Identified α] in
theorem leftFor_eq_none_iff_notMem :
    p.leftFor right = none ↔ handle right ∉ p.pairs.map fun q => handle q.2 := by
  simp [leftFor, List.find?_eq_none]

omit [Identified β] in
/-- The partner of any item, listed or not, is the one that is recorded under its handle. -/
theorem rightFor_eq_some_iff_exists (hn : (p.pairs.map fun q => handle q.1).Nodup) :
    p.rightFor left = some right ↔ ∃ l, (l, right) ∈ p.pairs ∧ handle l = handle left := by
  rw [rightFor, Option.map_eq_some_iff]
  simp only [find?_key_eq_some_iff hn]
  constructor
  · rintro ⟨⟨l, r⟩, ⟨hmem, h⟩, rfl⟩
    exact ⟨l, hmem, h⟩
  · rintro ⟨l, hmem, h⟩
    exact ⟨(l, right), ⟨hmem, h⟩, rfl⟩

omit [Identified α] in
theorem leftFor_eq_some_iff_exists (hn : (p.pairs.map fun q => handle q.2).Nodup) :
    p.leftFor right = some left ↔ ∃ r, (left, r) ∈ p.pairs ∧ handle r = handle right := by
  rw [leftFor, Option.map_eq_some_iff]
  simp only [find?_key_eq_some_iff hn]
  constructor
  · rintro ⟨⟨l, r⟩, ⟨hmem, h⟩, rfl⟩
    exact ⟨r, hmem, h⟩
  · rintro ⟨r, hmem, h⟩
    exact ⟨(left, r), ⟨hmem, h⟩, rfl⟩

section Counting

variable (hl : (p.lefts.map handle).Nodup) (hn : (p.pairs.map fun q => handle q.1).Nodup)
variable (hmem : ∀ q ∈ p.pairs, handle q.1 ∈ p.lefts.map handle)
include hl hn hmem

omit [Identified β] in
/-- Of lefts that differ, as many have a partner as there are pairs, if the pairs are about them. -/
theorem countP_lefts :
    (p.lefts.countP fun left => (p.rightFor left).isSome) = p.matchedCount := by
  have hperm : ((p.lefts.filter fun left => (p.rightFor left).isSome).map handle).Perm
      (p.pairs.map fun q => handle q.1) := by
    rw [List.perm_ext_iff_of_nodup (hl.sublist (List.filter_sublist.map handle)) hn]
    intro k
    constructor
    · intro hk
      obtain ⟨left, hleft, rfl⟩ := List.mem_map.1 hk
      by_contra hnot
      simp [rightFor_eq_none_iff_notMem.2 hnot] at hleft
    · intro hk
      obtain ⟨q, hq, rfl⟩ := List.mem_map.1 hk
      obtain ⟨left, hleft, heq⟩ := List.mem_map.1 (hmem q hq)
      refine List.mem_map.2 ⟨left, List.mem_filter.2 ⟨hleft, ?_⟩, heq⟩
      rw [Option.isSome_iff_ne_none, ne_eq, rightFor_eq_none_iff_notMem, not_not, heq]
      exact hk
  have hlength := hperm.length_eq
  rwa [List.length_map, List.length_map, ← List.countP_eq_length_filter] at hlength

omit [Identified β] in
theorem length_unmatchedLefts : p.matchedCount + p.unmatchedLefts.length = p.lefts.length := by
  rw [← countP_lefts hl hn hmem, unmatchedLefts, ← List.countP_eq_length_filter,
    List.length_eq_countP_add_countP fun left => (p.rightFor left).isSome, Nat.add_left_cancel_iff]
  exact List.countP_congr fun left _ => by simp

omit [Identified β] in
/-- There are as many pairs as lefts exactly if no left item is without a partner. -/
theorem isComplete_iff : p.isComplete = true ↔ p.unmatchedLefts = [] := by
  have hlength := length_unmatchedLefts hl hn hmem
  rw [isComplete, decide_eq_true_eq, ← List.length_eq_zero_iff]
  omega

end Counting
end Handles

section Partners

variable {p : Pairing α β} (hp : p.Proper)
include hp

theorem Proper.rightFor_eq_some_iff_exists {left : α} {right : β} :
    p.rightFor left = some right ↔ ∃ l, (l, right) ∈ p.pairs ∧ handle l = handle left :=
  Pairing.rightFor_eq_some_iff_exists hp.pairs_left_nodup

theorem Proper.leftFor_eq_some_iff_exists {left : α} {right : β} :
    p.leftFor right = some left ↔ ∃ r, (left, r) ∈ p.pairs ∧ handle r = handle right :=
  Pairing.leftFor_eq_some_iff_exists hp.pairs_right_nodup

theorem Proper.rightFor_eq_some_iff {left : α} (hl : left ∈ p.lefts) {right : β} :
    p.rightFor left = some right ↔ (left, right) ∈ p.pairs := by
  rw [hp.rightFor_eq_some_iff_exists]
  constructor
  · rintro ⟨l, hmem, h⟩
    have : l = left := List.inj_on_of_nodup_map hp.lefts_nodup (hp.left_mem _ hmem) hl h
    rwa [← this]
  · exact fun hmem => ⟨left, hmem, rfl⟩

theorem Proper.leftFor_eq_some_iff {right : β} (hr : right ∈ p.rights) {left : α} :
    p.leftFor right = some left ↔ (left, right) ∈ p.pairs := by
  rw [hp.leftFor_eq_some_iff_exists]
  constructor
  · rintro ⟨r, hmem, h⟩
    have : r = right := List.inj_on_of_nodup_map hp.rights_nodup (hp.right_mem _ hmem) hr h
    rwa [← this]
  · exact fun hmem => ⟨right, hmem, rfl⟩

theorem Proper.rightFor_eq_none_iff {left : α} (hl : left ∈ p.lefts) :
    p.rightFor left = none ↔ ∀ right, (left, right) ∉ p.pairs := by
  simp only [← hp.rightFor_eq_some_iff hl, Option.eq_none_iff_forall_ne_some]

theorem Proper.leftFor_eq_none_iff {right : β} (hr : right ∈ p.rights) :
    p.leftFor right = none ↔ ∀ left, (left, right) ∉ p.pairs := by
  simp only [← hp.leftFor_eq_some_iff hr, Option.eq_none_iff_forall_ne_some]

theorem Proper.mem_unmatchedLefts {left : α} :
    left ∈ p.unmatchedLefts ↔ left ∈ p.lefts ∧ ∀ right, (left, right) ∉ p.pairs := by
  simp only [unmatchedLefts, List.mem_filter, Option.isNone_iff_eq_none]
  exact and_congr_right fun hl => hp.rightFor_eq_none_iff hl

theorem Proper.mem_unmatchedRights {right : β} :
    right ∈ p.unmatchedRights ↔ right ∈ p.rights ∧ ∀ left, (left, right) ∉ p.pairs := by
  simp only [unmatchedRights, List.mem_filter, Option.isNone_iff_eq_none]
  exact and_congr_right fun hr => hp.leftFor_eq_none_iff hr

theorem Proper.left_free_or_matched {left : α} (hl : left ∈ p.lefts) :
    left ∈ p.unmatchedLefts ∨ ∃ right, (left, right) ∈ p.pairs := by
  by_cases h : ∃ right, (left, right) ∈ p.pairs
  · exact Or.inr h
  · exact Or.inl (hp.mem_unmatchedLefts.2 ⟨hl, not_exists.1 h⟩)

theorem Proper.right_free_or_matched {right : β} (hr : right ∈ p.rights) :
    right ∈ p.unmatchedRights ∨ ∃ left, (left, right) ∈ p.pairs := by
  by_cases h : ∃ left, (left, right) ∈ p.pairs
  · exact Or.inr h
  · exact Or.inl (hp.mem_unmatchedRights.2 ⟨hr, not_exists.1 h⟩)

/-- A left item has one partner at most. -/
theorem Proper.right_unique {left : α} {r₁ r₂ : β} (h₁ : (left, r₁) ∈ p.pairs)
    (h₂ : (left, r₂) ∈ p.pairs) : r₁ = r₂ :=
  congrArg Prod.snd (List.inj_on_of_nodup_map hp.pairs_left_nodup h₁ h₂ rfl)

/-- A right item has one partner at most. -/
theorem Proper.left_unique {right : β} {l₁ l₂ : α} (h₁ : (l₁, right) ∈ p.pairs)
    (h₂ : (l₂, right) ∈ p.pairs) : l₁ = l₂ :=
  congrArg Prod.fst (List.inj_on_of_nodup_map hp.pairs_right_nodup h₁ h₂ rfl)

/-- Two free items can be paired. -/
theorem Proper.push {left : α} {right : β} (hl : left ∈ p.unmatchedLefts)
    (hr : right ∈ p.unmatchedRights) : (p.push left right).Proper := by
  obtain ⟨hlm, hlfree⟩ := hp.mem_unmatchedLefts.1 hl
  obtain ⟨hrm, hrfree⟩ := hp.mem_unmatchedRights.1 hr
  have hlnew : ∀ q ∈ p.pairs, handle q.1 ≠ handle left := by
    rintro ⟨l, r⟩ hq h
    have : l = left := List.inj_on_of_nodup_map hp.lefts_nodup (hp.left_mem _ hq) hlm h
    subst this
    exact hlfree r hq
  have hrnew : ∀ q ∈ p.pairs, handle q.2 ≠ handle right := by
    rintro ⟨l, r⟩ hq h
    have : r = right := List.inj_on_of_nodup_map hp.rights_nodup (hp.right_mem _ hq) hrm h
    subst this
    exact hrfree l hq
  refine ⟨hp.lefts_nodup, hp.rights_nodup, ?_, ?_, ?_, ?_⟩
  · intro q hq
    rcases List.mem_append.1 hq with hq | hq
    · exact hp.left_mem q hq
    · rw [List.mem_singleton.1 hq]
      exact hlm
  · intro q hq
    rcases List.mem_append.1 hq with hq | hq
    · exact hp.right_mem q hq
    · rw [List.mem_singleton.1 hq]
      exact hrm
  · rw [Pairing.push, List.map_append]
    refine List.Nodup.append hp.pairs_left_nodup (by simp) ?_
    simpa using hlnew
  · rw [Pairing.push, List.map_append]
    refine List.Nodup.append hp.pairs_right_nodup (by simp) ?_
    simpa using hrnew

theorem Proper.pairs_nodup : p.pairs.Nodup :=
  hp.pairs_left_nodup.of_map _

theorem Proper.unmatchedLefts_nodup : (p.unmatchedLefts.map handle).Nodup :=
  hp.lefts_nodup.sublist (List.filter_sublist.map _)

theorem Proper.unmatchedRights_nodup : (p.unmatchedRights.map handle).Nodup :=
  hp.rights_nodup.sublist (List.filter_sublist.map _)

/-- The lefts that have a partner are as many as the pairs. -/
theorem Proper.countP_lefts :
    (p.lefts.countP fun left => (p.rightFor left).isSome) = p.matchedCount :=
  Pairing.countP_lefts hp.lefts_nodup hp.pairs_left_nodup fun q hq =>
    List.mem_map_of_mem (hp.left_mem q hq)

theorem Proper.length_unmatchedLefts :
    p.matchedCount + p.unmatchedLefts.length = p.lefts.length :=
  Pairing.length_unmatchedLefts hp.lefts_nodup hp.pairs_left_nodup fun q hq =>
    List.mem_map_of_mem (hp.left_mem q hq)

/-- As many pairs as lefts leave no left item without a partner. -/
theorem Proper.unmatchedLefts_eq_nil (hc : p.isComplete = true) : p.unmatchedLefts = [] :=
  (isComplete_iff hp.lefts_nodup hp.pairs_left_nodup fun q hq =>
    List.mem_map_of_mem (hp.left_mem q hq)).1 hc

end Partners

theorem Grows.unmatchedLefts_subset {p q : Pairing α β} (h : Grows p q) (hp : p.Proper)
    (hq : q.Proper) : q.unmatchedLefts ⊆ p.unmatchedLefts := by
  intro left hleft
  obtain ⟨hl, hfree⟩ := hq.mem_unmatchedLefts.1 hleft
  exact hp.mem_unmatchedLefts.2
    ⟨by rwa [h.lefts_eq] at hl, fun right hmem => hfree right (h.pairs_subset hmem)⟩

theorem Grows.unmatchedRights_subset {p q : Pairing α β} (h : Grows p q) (hp : p.Proper)
    (hq : q.Proper) : q.unmatchedRights ⊆ p.unmatchedRights := by
  intro right hright
  obtain ⟨hr, hfree⟩ := hq.mem_unmatchedRights.1 hright
  exact hp.mem_unmatchedRights.2
    ⟨by rwa [h.rights_eq] at hr, fun left hmem => hfree left (h.pairs_subset hmem)⟩

section Recording

variable {p : Pairing α β} {left : α} {right : β}

omit [Identified α] [Identified β] in
theorem mem_pairs_push {q : α × β} :
    q ∈ (p.push left right).pairs ↔ q ∈ p.pairs ∨ q = (left, right) := by
  simp [push]

omit [Identified β] in
theorem rightFor_eq_none_of_mem (hl : left ∈ p.unmatchedLefts) : p.rightFor left = none := by
  simpa using (List.mem_filter.1 hl).2

omit [Identified α] in
theorem leftFor_eq_none_of_mem (hr : right ∈ p.unmatchedRights) : p.leftFor right = none := by
  simpa using (List.mem_filter.1 hr).2

/-- Two free items are recorded as a pair. -/
theorem record_eq_ok (hl : left ∈ p.unmatchedLefts)
    (hr : right ∈ p.unmatchedRights) : p.record left right = .ok (p.push left right) :=
  record_eq_ok_iff.2 ⟨rightFor_eq_none_of_mem hl, leftFor_eq_none_of_mem hr, rfl⟩

omit [Identified β] in
/-- A pair takes its left item, and nothing else, from the free lefts. -/
theorem unmatchedLefts_push (hl : left ∈ p.unmatchedLefts) :
    (p.push left right).unmatchedLefts =
      p.unmatchedLefts.filter fun l => decide (handle l ≠ handle left) := by
  have hfree := rightFor_eq_none_of_mem hl
  simp only [unmatchedLefts, List.filter_filter]
  apply List.filter_congr
  intro l _
  rw [rightFor_push p left l right hfree]
  by_cases h : handle l = handle left <;> simp [h]

omit [Identified β] in
/-- A pair leaves the later ones of a list of different lefts free. -/
theorem subset_unmatchedLefts_push {lefts : List α} (hl : left :: lefts ⊆ p.unmatchedLefts)
    (hn : ((left :: lefts).map handle).Nodup) (right : β) :
    lefts ⊆ (p.push left right).unmatchedLefts := by
  obtain ⟨hleft, htail⟩ := List.cons_subset.1 hl
  intro l hmem
  have hne : handle l ≠ handle left := by
    intro h
    exact (List.nodup_cons.1 hn).1 (h ▸ List.mem_map_of_mem hmem)
  rw [unmatchedLefts_push hleft]
  simpa [hne] using htail hmem

omit [Identified α] in
/-- A pair takes its right item, and nothing else, from the free rights. -/
theorem unmatchedRights_push (hr : right ∈ p.unmatchedRights) :
    (p.push left right).unmatchedRights =
      p.unmatchedRights.filter fun r => decide (handle r ≠ handle right) := by
  have hfree := leftFor_eq_none_of_mem hr
  simp only [unmatchedRights, List.filter_filter]
  apply List.filter_congr
  intro r _
  rw [leftFor_push p left right r hfree]
  by_cases h : handle r = handle right <;> simp [h]

end Recording
end Pairing

namespace Plain

section Defs

variable {α β κ : Type} [Identified α] [Identified β] [DecidableEq κ]

/-- The free rights that wait under a key, in list order. -/
def waiting (pass : Pass α β κ) (p : Pairing α β) (k : κ) : List β :=
  p.unmatchedRights.filter fun right => decide (pass.rightKey right = some k)

/-- Pairs a left item, if it is free and has a key, with the first free right of the same key. -/
def visit (pass : Pass α β κ) (p : Pairing α β) (left : α) : Pairing α β :=
  match p.rightFor left, pass.leftKey left with
  | none, some k =>
      match p.unmatchedRights.find? fun right => decide (pass.rightKey right = some k) with
      | some right => p.push left right
      | none => p
  | _, _ => p

/-- Visits all left items in order. -/
def sweep (p : Pairing α β) (pass : Pass α β κ) : Pairing α β :=
  p.lefts.foldl (visit pass) p

/-- Sweeps once for each pass, in order. -/
def run (passes : List (Pass α β κ)) (p : Pairing α β) : Pairing α β :=
  passes.foldl sweep p

/-- The pairing of two lists by the plain cascade. -/
def pair (passes : List (Pass α β κ)) (lefts : List α) (rights : List β) : Pairing α β :=
  run passes (Pairing.start lefts rights)

end Defs

section Visits

variable {α β κ : Type} [Identified α] [Identified β] [DecidableEq κ]
variable {pass : Pass α β κ} {p : Pairing α β} {left : α}

theorem visit_of_matched (h : left ∉ p.unmatchedLefts) (hl : left ∈ p.lefts) :
    visit pass p left = p := by
  cases hright : p.rightFor left with
  | none => exact absurd (List.mem_filter.2 ⟨hl, by simp [hright]⟩) h
  | some right => simp [visit, hright]

theorem visit_of_no_key (h : pass.leftKey left = none) : visit pass p left = p := by
  unfold visit
  split
  · simp_all
  · rfl

theorem visit_of_waiting_nil {k : κ} (hk : pass.leftKey left = some k)
    (hw : waiting pass p k = []) : visit pass p left = p := by
  have hfind : (p.unmatchedRights.find? fun r => decide (pass.rightKey r = some k)) = none := by
    rw [← List.head?_filter, ← waiting, hw, List.head?_nil]
  unfold visit
  split
  · rename_i hk'
    obtain rfl := Option.some.inj (hk.symm.trans hk')
    rw [hfind]
  · rfl

theorem visit_of_waiting_cons {k : κ} {right : β} {rest : List β} (hl : left ∈ p.unmatchedLefts)
    (hk : pass.leftKey left = some k) (hw : waiting pass p k = right :: rest) :
    visit pass p left = p.push left right := by
  have hfree := Pairing.rightFor_eq_none_of_mem hl
  have hfind : (p.unmatchedRights.find? fun r => decide (pass.rightKey r = some k)) =
      some right := by
    rw [← List.head?_filter, ← waiting, hw, List.head?_cons]
  simp [visit, hfree, hk, hfind]

omit [Identified α] in
theorem mem_of_waiting_cons {k : κ} {right : β} {rest : List β}
    (hw : waiting pass p k = right :: rest) :
    right ∈ p.unmatchedRights ∧ pass.rightKey right = some k := by
  have : right ∈ waiting pass p k := by simp [hw]
  simpa [waiting] using this

/-- Pairing the first right that waits under a key touches no other queue. -/
theorem waiting_push (hp : p.Proper) {k : κ} {right : β} {rest : List β}
    (hw : waiting pass p k = right :: rest) (k' : κ) :
    waiting pass (p.push left right) k' = if k' = k then rest else waiting pass p k' := by
  obtain ⟨hright, hkey⟩ := mem_of_waiting_cons hw
  have hcut : waiting pass (p.push left right) k' =
      (waiting pass p k').filter fun r => decide (handle r ≠ handle right) := by
    simp only [waiting, Pairing.unmatchedRights_push hright, List.filter_filter, Bool.and_comm]
  have hnodup : ((waiting pass p k').map handle).Nodup :=
    hp.unmatchedRights_nodup.sublist (List.filter_sublist.map _)
  by_cases hk : k' = k
  · subst hk
    rw [hw, List.map_cons, List.nodup_cons] at hnodup
    rw [hcut, hw, if_pos rfl, List.filter_cons_of_neg (by simp), List.filter_eq_self]
    intro r hr
    have : handle r ≠ handle right := by
      intro h
      exact hnodup.1 (h ▸ List.mem_map_of_mem hr)
    simpa using this
  · rw [hcut, if_neg hk, List.filter_eq_self]
    intro r hr
    obtain ⟨hrfree, hrkey⟩ : r ∈ p.unmatchedRights ∧ pass.rightKey r = some k' := by
      simpa [waiting] using hr
    have : handle r ≠ handle right := by
      intro h
      have hsame : r = right := List.inj_on_of_nodup_map hp.rights_nodup
        (List.mem_filter.1 hrfree).1 (List.mem_filter.1 hright).1 h
      rw [hsame, hkey] at hrkey
      exact hk (Option.some.inj hrkey).symm
    simpa using this

/-- What a visit can do. -/
theorem visit_cases (pass : Pass α β κ) (hl : left ∈ p.lefts) :
    visit pass p left = p ∧ (left ∈ p.unmatchedLefts → ∀ k, pass.leftKey left = some k →
        waiting pass p k = []) ∨
      ∃ k right rest, left ∈ p.unmatchedLefts ∧ pass.leftKey left = some k ∧
        waiting pass p k = right :: rest ∧ visit pass p left = p.push left right := by
  by_cases hfree : left ∈ p.unmatchedLefts
  · cases hk : pass.leftKey left with
    | none => exact Or.inl ⟨visit_of_no_key hk, by simp⟩
    | some k =>
        cases hw : waiting pass p k with
        | nil =>
            refine Or.inl ⟨visit_of_waiting_nil hk hw, ?_⟩
            rintro - k' ⟨⟩
            exact hw
        | cons right rest =>
            exact Or.inr ⟨k, right, rest, hfree, rfl, hw, visit_of_waiting_cons hfree hk hw⟩
  · exact Or.inl ⟨visit_of_matched hfree hl, fun h => absurd h hfree⟩

theorem grows_visit (pass : Pass α β κ) (p : Pairing α β) (left : α) :
    p.Grows (visit pass p left) := by
  unfold visit
  split
  · split
    · exact ⟨rfl, rfl, List.subset_append_left _ _⟩
    · exact Pairing.Grows.refl p
  · exact Pairing.Grows.refl p

theorem proper_visit (hp : p.Proper) (hl : left ∈ p.lefts) : (visit pass p left).Proper := by
  rcases visit_cases pass hl with ⟨hv, -⟩ | ⟨k, right, rest, hfree, -, hw, hv⟩
  · rwa [hv]
  · rw [hv]
    exact hp.push hfree (mem_of_waiting_cons hw).1

end Visits

section Sweeps

variable {α β κ : Type} [Identified α] [Identified β] [DecidableEq κ]
variable {pass : Pass α β κ} {p : Pairing α β}

theorem grows_foldl_visit (pass : Pass α β κ) (lefts : List α) (p : Pairing α β) :
    p.Grows (lefts.foldl (visit pass) p) :=
  List.foldlRecOn lefts (visit pass) (Pairing.Grows.refl p)
    fun q hq left _ => hq.trans (grows_visit pass q left)

theorem proper_foldl_visit (hp : p.Proper) {lefts : List α} (hl : lefts ⊆ p.lefts) :
    (lefts.foldl (visit pass) p).Proper := by
  have hboth : p.Grows (lefts.foldl (visit pass) p) ∧ (lefts.foldl (visit pass) p).Proper := by
    apply List.foldlRecOn lefts (visit pass) (motive := fun q => p.Grows q ∧ q.Proper)
    · exact ⟨Pairing.Grows.refl p, hp⟩
    · rintro q ⟨hgrows, hq⟩ left hleft
      exact ⟨hgrows.trans (grows_visit pass q left),
        proper_visit hq (by rw [hgrows.lefts_eq]; exact hl hleft)⟩
  exact hboth.2

theorem grows_sweep (pass : Pass α β κ) (p : Pairing α β) : p.Grows (sweep p pass) :=
  grows_foldl_visit pass p.lefts p

theorem proper_sweep (hp : p.Proper) (pass : Pass α β κ) : (sweep p pass).Proper :=
  proper_foldl_visit hp (List.Subset.refl _)

theorem grows_run (passes : List (Pass α β κ)) (p : Pairing α β) : p.Grows (run passes p) :=
  List.foldlRecOn passes sweep (Pairing.Grows.refl p)
    fun q hq pass _ => hq.trans (grows_sweep pass q)

theorem proper_run (hp : p.Proper) (passes : List (Pass α β κ)) : (run passes p).Proper :=
  List.foldlRecOn passes sweep hp fun _ hq pass _ => proper_sweep hq pass

/-- Visits to items that had a partner before can be left out. -/
theorem foldl_visit_filter (hp : p.Proper) (lefts : List α) {q : Pairing α β} (hq : q.Proper)
    (hgrows : p.Grows q) (hl : lefts ⊆ p.lefts) :
    lefts.foldl (visit pass) q =
      (lefts.filter fun left => (p.rightFor left).isNone).foldl (visit pass) q := by
  induction lefts generalizing q with
  | nil => rfl
  | cons left lefts ih =>
      obtain ⟨hleft, htail⟩ := List.cons_subset.1 hl
      have hleft' : left ∈ q.lefts := by rwa [hgrows.lefts_eq]
      rw [List.foldl_cons, ih (proper_visit hq hleft') (hgrows.trans (grows_visit pass q left))
        htail]
      cases hright : p.rightFor left with
      | none => simp [hright]
      | some right =>
          have hmatched : left ∉ q.unmatchedLefts := by
            intro h
            have := (List.mem_filter.1 (hgrows.unmatchedLefts_subset hp hq h)).2
            simp [hright] at this
          simp [hright, visit_of_matched hmatched hleft']

/-- A sweep over free items only. -/
theorem sweep_eq_foldl_unmatchedLefts (hp : p.Proper) (pass : Pass α β κ) :
    sweep p pass = p.unmatchedLefts.foldl (visit pass) p :=
  foldl_visit_filter hp p.lefts hp (Pairing.Grows.refl p) (List.Subset.refl _)

end Sweeps

section Buckets

variable {α β κ : Type} [Identified α] [Identified β] [DecidableEq κ]
variable {pass : Pass α β κ} {p : Pairing α β}

/-- As long as each bucket holds the free rights of its key, walking through the lefts takes them
out exactly as the plain cascade finds them. -/
theorem pairLefts_eq_foldl (hp : p.Proper) (lefts : List α) (hl : lefts ⊆ p.unmatchedLefts)
    (hn : (lefts.map handle).Nodup) {buckets : Buckets κ β}
    (hq : ∀ k, Buckets.queue k buckets = waiting pass p k) :
    Cascade.pairLefts pass.leftKey lefts buckets p = .ok (lefts.foldl (visit pass) p) := by
  induction lefts generalizing p buckets with
  | nil => rfl
  | cons left lefts ih =>
      obtain ⟨hleft, htail⟩ := List.cons_subset.1 hl
      have hkeep := Pairing.subset_unmatchedLefts_push hl hn
      have hn := (List.nodup_cons.1 hn).2
      rw [List.foldl_cons]
      cases hk : pass.leftKey left with
      | none =>
          rw [visit_of_no_key hk]
          simpa [Cascade.pairLefts, hk] using ih hp htail hn hq
      | some k =>
          cases htake : Buckets.take k buckets with
          | none =>
              have hw : waiting pass p k = [] := by
                rw [← hq k]
                exact (Buckets.take_eq_none_iff k buckets).1 htake
              rw [visit_of_waiting_nil hk hw]
              simpa [Cascade.pairLefts, hk, htake] using ih hp htail hn hq
          | some taken =>
              obtain ⟨right, rest⟩ := taken
              have hqueue := Buckets.queue_take htake
              have hw : waiting pass p k = right :: Buckets.queue k rest := by
                rw [← hq k, hqueue k, if_pos rfl]
              have hright := (mem_of_waiting_cons hw).1
              have hq' : ∀ k', Buckets.queue k' rest =
                  waiting pass (p.push left right) k' := by
                intro k'
                rw [waiting_push hp hw k']
                by_cases h : k' = k
                · rw [if_pos h, h]
                · have := hqueue k'
                  rw [if_neg h] at this
                  rw [if_neg h, ← hq k', this]
              rw [visit_of_waiting_cons hleft hk hw]
              simpa [Cascade.pairLefts, hk, htake, Pairing.record_eq_ok hleft hright] using
                ih (hp.push hleft hright) (hkeep right) hn hq'

/-- Without buckets nothing is paired. -/
theorem pairLefts_nil (leftKey : α → Option κ) (lefts : List α) (p : Pairing α β) :
    Cascade.pairLefts leftKey lefts ([] : Buckets κ β) p = .ok p := by
  induction lefts with
  | nil => rfl
  | cons left lefts ih =>
      cases hk : leftKey left with
      | none => simpa [Cascade.pairLefts, hk] using ih
      | some k => simpa [Cascade.pairLefts, hk, Buckets.take] using ih

/-- One pass ends where a sweep ends, also when it is cut short for want of right keys. -/
theorem runPass_eq_sweep (hp : p.Proper) (pass : Pass α β κ) :
    Cascade.runPass pass p = .ok (sweep p pass) := by
  have hq : ∀ k, Buckets.queue k (Buckets.ofList pass.rightKey p.unmatchedRights) =
      waiting pass p k :=
    fun k => Buckets.queue_ofList pass.rightKey p.unmatchedRights k
  have hloop := pairLefts_eq_foldl hp p.unmatchedLefts (List.Subset.refl _)
    hp.unmatchedLefts_nodup hq
  rw [← sweep_eq_foldl_unmatchedLefts hp] at hloop
  unfold Cascade.runPass
  by_cases hempty : (Buckets.ofList pass.rightKey p.unmatchedRights).isEmpty
  · rw [if_pos hempty, ← hloop, List.isEmpty_iff.1 hempty, pairLefts_nil]
  · rw [if_neg hempty, hloop]

/-- A complete pairing stays as it is. -/
theorem sweep_of_isComplete (hp : p.Proper) (hc : p.isComplete = true) (pass : Pass α β κ) :
    sweep p pass = p := by
  rw [sweep_eq_foldl_unmatchedLefts hp, hp.unmatchedLefts_eq_nil hc]
  rfl

/-- **The cascade ends where the plain cascade ends**, from any proper pairing. -/
theorem run_eq_plain (hp : p.Proper) (passes : List (Pass α β κ)) :
    Cascade.run passes p = .ok (run passes p) := by
  induction passes generalizing p with
  | nil => rfl
  | cons pass passes ih =>
      unfold Cascade.run
      by_cases hc : p.isComplete
      · -- the passes that are not reached would change nothing
        rw [if_pos hc]
        have hstay : run (pass :: passes) p = p :=
          List.foldlRecOn (pass :: passes) sweep (motive := fun q => q = p) rfl
            fun q hq pass _ => by rw [hq, sweep_of_isComplete hp hc]
        rw [hstay]
      · rw [if_neg hc, runPass_eq_sweep hp pass]
        exact ih (proper_sweep hp pass)

/-- The cascade of two lists without repetition gives a proper pairing of them. -/
theorem pair_proper (passes : List (Pass α β κ)) {lefts : List α} {rights : List β}
    (hl : (lefts.map handle).Nodup) (hr : (rights.map handle).Nodup) :
    Cascade.pair passes lefts rights = .ok (pair passes lefts rights) ∧
      (pair passes lefts rights).Proper ∧
      (Pairing.start lefts rights).Grows (pair passes lefts rights) := by
  have hstart := Pairing.proper_start hl hr
  exact ⟨run_eq_plain hstart passes, proper_run hstart passes, grows_run passes _⟩

theorem eq_of_pair_eq_ok {passes : List (Pass α β κ)} {lefts : List α} {rights : List β}
    (hl : (lefts.map handle).Nodup) (hr : (rights.map handle).Nodup)
    (h : Cascade.pair passes lefts rights = .ok p) : p = pair passes lefts rights := by
  rw [(pair_proper passes hl hr).1] at h
  exact (Except.ok.inj h).symm

/-- **The cascade and the plain cascade record the same pairs**, and the cascade does not fail. -/
theorem pair_eq_plain (passes : List (Pass α β κ)) {lefts : List α} {rights : List β}
    (hl : (lefts.map handle).Nodup) (hr : (rights.map handle).Nodup) :
    Cascade.pair passes lefts rights = .ok (pair passes lefts rights) :=
  run_eq_plain (Pairing.proper_start hl hr) passes

/-- Numbers agree by their last digit, or else by their parity; multiples of ten have no digit. -/
def numberPasses : List (Pass Nat Nat Nat) :=
  let digit n := if n % 10 = 0 then none else some (n % 10)
  [⟨"digit", digit, digit⟩, ⟨"parity", fun n => some (n % 2), fun n => some (n % 2)⟩]

/-- Two rights share a digit, and one left has none. -/
theorem pair_eq_plain_numbers :
    (([10, 1, 4, 3] : List Nat).map handle).Nodup ∧
      (([6, 21, 31, 8, 5] : List Nat).map handle).Nodup ∧
      Cascade.pair numberPasses [10, 1, 4, 3] [6, 21, 31, 8, 5] =
        .ok (pair numberPasses [10, 1, 4, 3] [6, 21, 31, 8, 5]) ∧
      (pair numberPasses [10, 1, 4, 3] [6, 21, 31, 8, 5]).pairs =
        [(1, 21), (10, 6), (4, 8), (3, 31)] :=
  ⟨by decide, by decide, pair_eq_plain numberPasses (by decide) (by decide), by decide⟩

end Buckets
end Plain
end FindingLedger
