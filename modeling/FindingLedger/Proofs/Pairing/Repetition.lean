import FindingLedger.Proofs.Pairing.Stability

/-!
# Repeated pairings

What a cascade does when it meets lists that it has paired before, or that were made from such
lists.

**Input.**  Either two lists whose keys agree position by position, or a pairing from which some
pairs are known in advance.

**Results.**
* `mem_pairs_pair_of_aligned`: lists whose keys agree position by position are paired position by
  position, whatever further keys are equal.
* `equal_keys_are_paired_in_place`: so every position of such lists is settled, and a list is paired
  with itself item by item.
* `Ahead.run`: a run that begins with some of the pairs which another run is going to record ends
  with the pairs of that run.
-/

namespace FindingLedger

open Identified

section Zips

variable {α β : Type}

/-- Leaving out both items of some of the pairs, and items that are in no pair, leaves the other
pairs as they are. -/
theorem zip_filter {keepLeft : α → Bool} {keepRight : β → Bool} (as : List α) (bs : List β)
    (h : ∀ q ∈ as.zip bs, keepLeft q.1 = keepRight q.2) :
    (as.filter keepLeft).zip (bs.filter keepRight) =
      (as.zip bs).filter fun q => keepLeft q.1 := by
  induction as generalizing bs with
  | nil => simp
  | cons a as ih =>
      cases bs with
      | nil => simp
      | cons b bs =>
          rw [List.zip_cons_cons] at h ⊢
          have hhead : keepLeft a = keepRight b := h (a, b) List.mem_cons_self
          have htail := ih bs fun q hq => h q (List.mem_cons_of_mem _ hq)
          cases ha : keepLeft a with
          | true =>
              have hb : keepRight b = true := hhead ▸ ha
              simp [ha, hb, htail]
          | false =>
              have hb : keepRight b = false := hhead ▸ ha
              simp [ha, hb, htail]

/-- Items at the same place in two lists have the same image if the lists of images are the same. -/
theorem eq_of_mem_zip {γ : Type} {f : α → γ} {g : β → γ} {as : List α} {bs : List β}
    (h : as.map f = bs.map g) : ∀ z ∈ as.zip bs, f z.1 = g z.2 := by
  induction as generalizing bs with
  | nil => simp
  | cons a as ih =>
      cases bs with
      | nil => simp
      | cons b bs =>
          obtain ⟨hhead, htail⟩ := List.cons.inj h
          rw [List.zip_cons_cons]
          exact List.forall_mem_cons.2 ⟨hhead, ih htail⟩

end Zips

namespace Plain

section Alignment

variable {α β κ : Type} [Identified α] [Identified β] [DecidableEq κ]
variable {zs : List (α × β)} {p : Pairing α β}

/-- The items of each pair have the same key in the pass, or both have none. -/
def Aligned (zs : List (α × β)) (pass : Pass α β κ) : Prop :=
  ∀ z ∈ zs, pass.leftKey z.1 = pass.rightKey z.2

/-- A pairing of the left and right halves of `zs` in which every item has its own counterpart or
none. -/
structure Straight (zs : List (α × β)) (p : Pairing α β) : Prop where
  proper : p.Proper
  lefts_eq : p.lefts = zs.map Prod.fst
  rights_eq : p.rights = zs.map Prod.snd
  subset : p.pairs ⊆ zs

theorem Straight.left_mem (h : Straight zs p) {z : α × β} (hz : z ∈ zs) : z.1 ∈ p.lefts := by
  rw [h.lefts_eq]
  exact List.mem_map_of_mem hz

theorem Straight.right_mem (h : Straight zs p) {z : α × β} (hz : z ∈ zs) : z.2 ∈ p.rights := by
  rw [h.rights_eq]
  exact List.mem_map_of_mem hz

/-- Two of the pairs with the same left item are the same. -/
theorem Straight.eq_of_fst_eq (h : Straight zs p) {z w : α × β} (hz : z ∈ zs) (hw : w ∈ zs)
    (he : z.1 = w.1) : z = w := by
  have hn := h.proper.lefts_nodup
  rw [h.lefts_eq, List.map_map] at hn
  exact List.inj_on_of_nodup_map hn hz hw (congrArg handle he)

theorem Straight.eq_of_snd_eq (h : Straight zs p) {z w : α × β} (hz : z ∈ zs) (hw : w ∈ zs)
    (he : z.2 = w.2) : z = w := by
  have hn := h.proper.rights_nodup
  rw [h.rights_eq, List.map_map] at hn
  exact List.inj_on_of_nodup_map hn hz hw (congrArg handle he)

theorem Straight.left_free_iff (h : Straight zs p) {z : α × β} (hz : z ∈ zs) :
    p.rightFor z.1 = none ↔ z ∉ p.pairs := by
  rw [h.proper.rightFor_eq_none_iff (h.left_mem hz)]
  constructor
  · exact fun hnone => hnone z.2
  · intro hfree right hmem
    exact hfree (h.eq_of_fst_eq (h.subset hmem) hz rfl ▸ hmem)

theorem Straight.right_free_iff (h : Straight zs p) {z : α × β} (hz : z ∈ zs) :
    p.leftFor z.2 = none ↔ z ∉ p.pairs := by
  rw [h.proper.leftFor_eq_none_iff (h.right_mem hz)]
  constructor
  · exact fun hnone => hnone z.1
  · intro hfree left hmem
    exact hfree (h.eq_of_snd_eq (h.subset hmem) hz rfl ▸ hmem)

/-- In a pass that is aligned, the free items of a key are the two halves of one list. -/
theorem Straight.meets_iff (h : Straight zs p) {pass : Pass α β κ} (ha : Aligned zs pass)
    {left : α} {right : β} :
    Meets pass p left right ↔
      (left, right) ∈ zs ∧ (left, right) ∉ p.pairs ∧ pass.leftKey left ≠ none := by
  have hlefts : p.unmatchedLefts =
      (zs.filter fun z => (p.rightFor z.1).isNone).map Prod.fst := by
    rw [Pairing.unmatchedLefts, h.lefts_eq, List.filter_map]
    rfl
  have hrights : p.unmatchedRights =
      (zs.filter fun z => (p.rightFor z.1).isNone).map Prod.snd := by
    rw [Pairing.unmatchedRights, h.rights_eq, List.filter_map]
    congr 1
    apply List.filter_congr
    intro z hz
    rw [Function.comp_apply, Bool.eq_iff_iff, Option.isNone_iff_eq_none,
      Option.isNone_iff_eq_none, h.right_free_iff hz, h.left_free_iff hz]
  have hzip : ∀ k, (offering pass p k).zip (waiting pass p k) =
      (zs.filter fun z => (p.rightFor z.1).isNone).filter fun z =>
        decide (pass.leftKey z.1 = some k) := by
    intro k
    rw [offering, waiting, hlefts, hrights, List.filter_map, List.filter_map]
    have hsame : (zs.filter fun z => (p.rightFor z.1).isNone).filter
          ((fun right => decide (pass.rightKey right = some k)) ∘ Prod.snd) =
        (zs.filter fun z => (p.rightFor z.1).isNone).filter
          ((fun left => decide (pass.leftKey left = some k)) ∘ Prod.fst) := by
      apply List.filter_congr
      intro z hz
      rw [Function.comp_apply, Function.comp_apply, ha z (List.mem_filter.1 hz).1]
    rw [hsame, List.zip_map']
    exact List.map_id _
  simp only [Meets, hzip, List.mem_filter, Option.isNone_iff_eq_none, decide_eq_true_eq]
  constructor
  · rintro ⟨k, ⟨hz, hfree⟩, hk⟩
    exact ⟨hz, (h.left_free_iff hz).1 hfree, by simp [hk]⟩
  · rintro ⟨hz, hfree, hkey⟩
    obtain ⟨k, hk⟩ := Option.ne_none_iff_exists'.1 hkey
    exact ⟨k, ⟨hz, (h.left_free_iff hz).2 hfree⟩, hk⟩

/-- An aligned pass pairs every item that has a key with its own counterpart. -/
theorem Straight.mem_pairs_sweep_iff (h : Straight zs p) {pass : Pass α β κ}
    (ha : Aligned zs pass) {left : α} {right : β} :
    (left, right) ∈ (sweep p pass).pairs ↔
      (left, right) ∈ p.pairs ∨ (left, right) ∈ zs ∧ pass.leftKey left ≠ none := by
  rw [mem_pairs_sweep h.proper, h.meets_iff ha]
  by_cases hold : (left, right) ∈ p.pairs <;> simp [hold]

theorem Straight.sweep (h : Straight zs p) {pass : Pass α β κ} (ha : Aligned zs pass) :
    Straight zs (sweep p pass) where
  proper := proper_sweep h.proper pass
  lefts_eq := (grows_sweep pass p).lefts_eq.trans h.lefts_eq
  rights_eq := (grows_sweep pass p).rights_eq.trans h.rights_eq
  subset := by
    rintro ⟨left, right⟩ hmem
    rcases (h.mem_pairs_sweep_iff ha).1 hmem with hold | hnew
    · exact h.subset hold
    · exact hnew.1

theorem Straight.mem_pairs_run_iff (h : Straight zs p) {passes : List (Pass α β κ)}
    (ha : ∀ pass ∈ passes, Aligned zs pass) {left : α} {right : β} :
    (left, right) ∈ (run passes p).pairs ↔
      (left, right) ∈ p.pairs ∨
        (left, right) ∈ zs ∧ ∃ pass ∈ passes, pass.leftKey left ≠ none := by
  induction passes generalizing p with
  | nil => simp [run]
  | cons pass passes ih =>
      obtain ⟨hfirst, hrest⟩ := List.forall_mem_cons.1 ha
      have := ih (h.sweep hfirst) hrest
      rw [h.mem_pairs_sweep_iff hfirst, or_assoc, ← and_or_left] at this
      simpa [run] using this

/-- **Lists whose keys agree position by position are paired position by position**: an item that
has a key in some pass is paired with its own counterpart, and no other item is paired. -/
theorem mem_pairs_pair_of_aligned {passes : List (Pass α β κ)} {lefts : List α} {rights : List β}
    (hl : (lefts.map handle).Nodup) (hr : (rights.map handle).Nodup)
    (hlen : lefts.length = rights.length)
    (ha : ∀ pass ∈ passes, Aligned (lefts.zip rights) pass) {left : α} {right : β} :
    (left, right) ∈ (pair passes lefts rights).pairs ↔
      (left, right) ∈ lefts.zip rights ∧ ∃ pass ∈ passes, pass.leftKey left ≠ none := by
  have hstart : Straight (lefts.zip rights) (Pairing.start lefts rights) :=
    ⟨Pairing.proper_start hl hr, (List.map_fst_zip (Nat.le_of_eq hlen)).symm,
      (List.map_snd_zip (Nat.le_of_eq hlen.symm)).symm, by simp [Pairing.start]⟩
  rw [pair, hstart.mem_pairs_run_iff ha]
  simp [Pairing.start]

end Alignment

section Resumption

variable {α β κ : Type} [Identified α] [Identified β] [DecidableEq κ]
variable {K : α → β → Prop} {e : β → β} {p p' q : Pairing α β} {pass : Pass α β κ}

/-- The second pairing stands where the first one stands, and has the pairs `K` besides.  Its right
items are copies, made by `e`, of those of the first pairing. -/
structure Ahead (K : α → β → Prop) (e : β → β) (p p' : Pairing α β) : Prop where
  proper : p.Proper
  proper' : p'.Proper
  lefts_eq : p'.lefts = p.lefts
  rights_eq : p'.rights = p.rights.map e
  mem_iff : ∀ left, ∀ right ∈ p.rights,
    (left, e right) ∈ p'.pairs ↔ (left, right) ∈ p.pairs ∨ K left right

theorem Ahead.injective (h : Ahead K e p p') {r₁ r₂ : β} (h₁ : r₁ ∈ p.rights)
    (h₂ : r₂ ∈ p.rights) (he : e r₁ = e r₂) : r₁ = r₂ := by
  have hn := h.proper'.rights_nodup
  rw [h.rights_eq, List.map_map] at hn
  exact List.inj_on_of_nodup_map hn h₁ h₂ (congrArg handle he)

/-- A left item of the second pairing is free unless the first pairing or `K` gives it a partner. -/
theorem Ahead.left_free_iff (h : Ahead K e p p') {left : α} (hl : left ∈ p.lefts) :
    p'.rightFor left = none ↔
      ∀ right ∈ p.rights, (left, right) ∉ p.pairs ∧ ¬ K left right := by
  rw [h.proper'.rightFor_eq_none_iff (h.lefts_eq ▸ hl)]
  constructor
  · intro hnone right hr
    have := hnone (e right)
    rwa [h.mem_iff left right hr, not_or] at this
  · intro hnone right' hmem
    have hright := h.proper'.right_mem _ hmem
    rw [h.rights_eq] at hright
    obtain ⟨right, hr, rfl⟩ := List.mem_map.1 hright
    rw [h.mem_iff left right hr] at hmem
    exact (not_or.2 (hnone right hr)) hmem

theorem Ahead.right_free_iff (h : Ahead K e p p') {right : β} (hr : right ∈ p.rights) :
    p'.leftFor (e right) = none ↔ ∀ left, (left, right) ∉ p.pairs ∧ ¬ K left right := by
  have hr' : e right ∈ p'.rights := by
    rw [h.rights_eq]
    exact List.mem_map_of_mem hr
  rw [h.proper'.leftFor_eq_none_iff hr']
  simp only [h.mem_iff _ right hr, not_or]

theorem Ahead.unmatchedLefts_eq (h : Ahead K e p p') :
    p'.unmatchedLefts = p.unmatchedLefts.filter fun left => (p'.rightFor left).isNone := by
  rw [Pairing.unmatchedLefts, Pairing.unmatchedLefts, h.lefts_eq, List.filter_filter]
  apply List.filter_congr
  intro left hl
  rw [Bool.eq_iff_iff, Bool.and_eq_true, Option.isNone_iff_eq_none, Option.isNone_iff_eq_none,
    iff_self_and, h.left_free_iff hl, h.proper.rightFor_eq_none_iff hl]
  exact fun hfree right hmem => (hfree right (h.proper.right_mem _ hmem)).1 hmem

theorem Ahead.unmatchedRights_eq (h : Ahead K e p p') :
    p'.unmatchedRights =
      (p.unmatchedRights.filter fun right => (p'.leftFor (e right)).isNone).map e := by
  rw [Pairing.unmatchedRights, Pairing.unmatchedRights, h.rights_eq, List.filter_map,
    List.filter_filter]
  congr 1
  apply List.filter_congr
  intro right hr
  rw [Function.comp_apply, Bool.eq_iff_iff, Bool.and_eq_true, Option.isNone_iff_eq_none,
    Option.isNone_iff_eq_none, iff_self_and, h.right_free_iff hr,
    h.proper.leftFor_eq_none_iff hr]
  exact fun hfree left => (hfree left).1

theorem Ahead.offering_eq (h : Ahead K e p p') (k : κ) :
    offering pass p' k =
      (offering pass p k).filter fun left => (p'.rightFor left).isNone := by
  rw [offering, h.unmatchedLefts_eq, offering, List.filter_filter, List.filter_filter]
  simp only [Bool.and_comm]

theorem Ahead.waiting_eq (h : Ahead K e p p')
    (hkey : ∀ r ∈ p.rights, pass.rightKey (e r) = pass.rightKey r) (k : κ) :
    waiting pass p' k =
      ((waiting pass p k).filter fun right => (p'.leftFor (e right)).isNone).map e := by
  rw [waiting, h.unmatchedRights_eq, waiting, List.filter_map, List.filter_filter,
    List.filter_filter]
  congr 1
  apply List.filter_congr
  intro right hright
  rw [Function.comp_apply, hkey right (List.mem_filter.1 hright).1, Bool.and_comm]

/-- Of the items that meet in the first pairing, those meet in the second one which `K` does not
pair already, provided that everything paired so far belongs to one proper pairing. -/
theorem Ahead.meets_iff (h : Ahead K e p p') (hq : q.Proper)
    (hmeets : ∀ l r, Meets pass p l r → (l, r) ∈ q.pairs)
    (hK : ∀ l r, K l r → (l, r) ∈ q.pairs)
    (hkey : ∀ r ∈ p.rights, pass.rightKey (e r) = pass.rightKey r) {left : α} {right : β}
    (hr : right ∈ p.rights) :
    Meets pass p' left (e right) ↔ Meets pass p left right ∧ ¬ K left right := by
  have hleft : ∀ l r, Meets pass p l r → (p'.rightFor l = none ↔ ¬ K l r) := by
    intro l r hm
    obtain ⟨hlfree, hrfree⟩ := hm.free
    rw [h.left_free_iff (List.mem_filter.1 hlfree).1]
    constructor
    · exact fun hnone => (hnone r (List.mem_filter.1 hrfree).1).2
    · intro hnot r' _
      refine ⟨(h.proper.mem_unmatchedLefts.1 hlfree).2 r', fun hK' => hnot ?_⟩
      rwa [hq.right_unique (hmeets l r hm) (hK l r' hK')]
  have hright : ∀ l r, Meets pass p l r → (p'.leftFor (e r) = none ↔ ¬ K l r) := by
    intro l r hm
    obtain ⟨-, hrfree⟩ := hm.free
    rw [h.right_free_iff (List.mem_filter.1 hrfree).1]
    constructor
    · exact fun hnone => (hnone l).2
    · intro hnot l'
      refine ⟨(h.proper.mem_unmatchedRights.1 hrfree).2 l', fun hK' => hnot ?_⟩
      rwa [hq.left_unique (hmeets l r hm) (hK l' r hK')]
  have hzip : ∀ k, (offering pass p' k).zip (waiting pass p' k) =
      (((offering pass p k).zip (waiting pass p k)).filter fun z =>
        (p'.rightFor z.1).isNone).map (Prod.map id e) := by
    intro k
    rw [h.offering_eq, h.waiting_eq hkey, List.zip_map_right, zip_filter]
    intro z hz
    rw [Bool.eq_iff_iff, Option.isNone_iff_eq_none, Option.isNone_iff_eq_none,
      hleft z.1 z.2 ⟨k, hz⟩, hright z.1 z.2 ⟨k, hz⟩]
  constructor
  · rintro ⟨k, hk⟩
    rw [hzip, List.mem_map] at hk
    obtain ⟨⟨l, r⟩, hz, heq⟩ := hk
    obtain ⟨hz, hfree⟩ := List.mem_filter.1 hz
    have hm : Meets pass p l r := ⟨k, hz⟩
    obtain ⟨rfl, he⟩ := Prod.mk.inj heq
    have hrm := (List.mem_filter.1 hm.free.2).1
    obtain rfl := h.injective hrm hr he
    exact ⟨hm, (hleft l r hm).1 (Option.isNone_iff_eq_none.1 hfree)⟩
  · rintro ⟨hm, hnot⟩
    have hfree := (hleft left right hm).2 hnot
    obtain ⟨k, hz⟩ := hm
    refine ⟨k, ?_⟩
    rw [hzip, List.mem_map]
    exact ⟨(left, right), List.mem_filter.2 ⟨hz, by simp [hfree]⟩, rfl⟩

/-- A sweep of both pairings keeps the second one ahead by the same pairs. -/
theorem Ahead.sweep (h : Ahead K e p p') (hq : q.Proper) (hgrows : (sweep p pass).Grows q)
    (hK : ∀ l r, K l r → (l, r) ∈ q.pairs)
    (hkey : ∀ r ∈ p.rights, pass.rightKey (e r) = pass.rightKey r) :
    Ahead K e (sweep p pass) (sweep p' pass) where
  proper := proper_sweep h.proper pass
  proper' := proper_sweep h.proper' pass
  lefts_eq := by rw [(grows_sweep pass p').lefts_eq, (grows_sweep pass p).lefts_eq, h.lefts_eq]
  rights_eq := by
    rw [(grows_sweep pass p').rights_eq, (grows_sweep pass p).rights_eq, h.rights_eq]
  mem_iff := by
    intro left right hr
    rw [(grows_sweep pass p).rights_eq] at hr
    have hmeets : ∀ l r, Meets pass p l r → (l, r) ∈ q.pairs := fun l r hm =>
      hgrows.pairs_subset ((mem_pairs_sweep h.proper).2 (Or.inr hm))
    rw [mem_pairs_sweep h.proper', mem_pairs_sweep h.proper, h.mem_iff left right hr,
      h.meets_iff hq hmeets hK hkey hr]
    by_cases hnot : K left right <;> simp [hnot]

/-- **A run that is ahead by some of the pairs of another run ends with the same pairs.** -/
theorem Ahead.run (h : Ahead K e p p') {passes : List (Pass α β κ)}
    (hK : ∀ l r, K l r → (l, r) ∈ (run passes p).pairs)
    (hkey : ∀ pass ∈ passes, ∀ r ∈ p.rights, pass.rightKey (e r) = pass.rightKey r)
    {left : α} {right : β} (hr : right ∈ p.rights) :
    (left, e right) ∈ (run passes p').pairs ↔ (left, right) ∈ (run passes p).pairs := by
  induction passes generalizing p p' with
  | nil =>
      rw [Plain.run, List.foldl_nil, Plain.run, List.foldl_nil, h.mem_iff left right hr]
      exact or_iff_left_of_imp (hK left right)
  | cons pass passes ih =>
      obtain ⟨hfirst, hrest⟩ := List.forall_mem_cons.1 hkey
      have hrights := (grows_sweep pass p).rights_eq
      have hnext := h.sweep (proper_run (proper_sweep h.proper pass) passes)
        (grows_run passes _) hK hfirst
      exact ih hnext hK (hrights ▸ hrest) (hrights ▸ hr)

end Resumption

end Plain

section InPlace

variable {α β κ : Type} [Identified α] [Identified β] [DecidableEq κ]

/-- The two items are partners if the left one has a key in some pass, and else both are free. -/
structure Pairing.Settles (passes : List (Pass α β κ)) (p : Pairing α β) (left : α) (right : β) :
    Prop where
  paired : (∃ pass ∈ passes, pass.leftKey left ≠ none) →
    p.rightFor left = some right ∧ p.leftFor right = some left
  leftover : (∀ pass ∈ passes, pass.leftKey left = none) →
    left ∈ p.unmatchedLefts ∧ right ∈ p.unmatchedRights

/-- Where the keys agree position by position, the two items of each position are settled. -/
theorem Plain.settles_of_aligned {passes : List (Pass α β κ)} {lefts : List α} {rights : List β}
    (hl : (lefts.map handle).Nodup) (hr : (rights.map handle).Nodup)
    (hlen : lefts.length = rights.length)
    (hkeys : ∀ pass ∈ passes, lefts.map pass.leftKey = rights.map pass.rightKey) {left : α}
    {right : β} (hz : (left, right) ∈ lefts.zip rights) :
    (pair passes lefts rights).Settles passes left right := by
  obtain ⟨-, hp, hgrows⟩ := pair_proper passes hl hr
  have haligned : ∀ pass ∈ passes, Aligned (lefts.zip rights) pass :=
    fun pass hpass => eq_of_mem_zip (hkeys pass hpass)
  have hmem : ∀ l r, (l, r) ∈ (pair passes lefts rights).pairs ↔
      (l, r) ∈ lefts.zip rights ∧ ∃ pass ∈ passes, pass.leftKey l ≠ none :=
    fun _ _ => mem_pairs_pair_of_aligned hl hr hlen haligned
  generalize pair passes lefts rights = p at hp hgrows hmem
  have hleft : left ∈ p.lefts := hgrows.lefts_eq.symm ▸ (List.of_mem_zip hz).1
  have hright : right ∈ p.rights := hgrows.rights_eq.symm ▸ (List.of_mem_zip hz).2
  refine ⟨fun hkey => ?_, fun hnone => ?_⟩
  · have hpaired := (hmem left right).2 ⟨hz, hkey⟩
    exact ⟨(hp.rightFor_eq_some_iff hleft).2 hpaired, (hp.leftFor_eq_some_iff hright).2 hpaired⟩
  · refine ⟨hp.mem_unmatchedLefts.2 ⟨hleft, fun r hpaired => ?_⟩,
      hp.mem_unmatchedRights.2 ⟨hright, fun l hpaired => ?_⟩⟩
    · obtain ⟨-, pass, hpass, hkey⟩ := (hmem left r).1 hpaired
      exact hkey (hnone pass hpass)
    · -- a left item paired with this right one has the key that this left one lacks
      obtain ⟨hz', pass, hpass, hkey⟩ := (hmem l right).1 hpaired
      have hsame : pass.leftKey l = pass.leftKey left :=
        (haligned pass hpass _ hz').trans (haligned pass hpass _ hz).symm
      exact hkey (hsame.trans (hnone pass hpass))

/-- **Lists of equal keys are paired position by position**, whatever other items have equal keys:
an item is paired with its counterpart if it has a key in some pass, and else neither is paired.  In
particular passes that read both sides alike pair each item of a list that has a key with itself. -/
theorem equal_keys_are_paired_in_place (passes : List (Pass α β κ)) {lefts : List α}
    {rights : List β} (hl : (lefts.map handle).Nodup) (hr : (rights.map handle).Nodup)
    (hlen : lefts.length = rights.length)
    (hkeys : ∀ pass ∈ passes, lefts.map pass.leftKey = rights.map pass.rightKey) :
    (∃ p, Cascade.pair passes lefts rights = .ok p ∧
      ∀ (i : Nat) (left : α) (right : β), lefts[i]? = some left → rights[i]? = some right →
        p.Settles passes left right) ∧
    ∀ alike : List (Pass α α κ), (∀ pass ∈ alike, pass.leftKey = pass.rightKey) →
      ∃ q, Cascade.pair alike lefts lefts = .ok q ∧
        ∀ item ∈ lefts, q.Settles alike item item := by
  constructor
  · refine ⟨_, (Plain.pair_proper passes hl hr).1, fun i left right hleft hright => ?_⟩
    exact Plain.settles_of_aligned hl hr hlen hkeys
      (List.mem_of_getElem? (List.getElem?_zip_eq_some.2 ⟨hleft, hright⟩))
  · intro alike halike
    refine ⟨_, (Plain.pair_proper alike hl hl).1, fun item hitem => ?_⟩
    obtain ⟨i, hi⟩ := List.mem_iff_getElem?.1 hitem
    exact Plain.settles_of_aligned hl hl rfl
      (fun pass hpass => congrArg lefts.map (halike pass hpass))
      (List.mem_of_getElem? (List.getElem?_zip_eq_some.2 ⟨hi, hi⟩))

/-- Two positions have the same digit, and one has none. -/
theorem equal_keys_are_paired_in_place_numbers :
    (([1, 11, 20] : List Nat).map handle).Nodup ∧ (([21, 31, 40] : List Nat).map handle).Nodup ∧
      ([1, 11, 20] : List Nat).length = ([21, 31, 40] : List Nat).length ∧
      (∀ pass ∈ Plain.numberPasses.take 1,
        ([1, 11, 20] : List Nat).map pass.leftKey = [21, 31, 40].map pass.rightKey) ∧
      (∃ p, Cascade.pair (Plain.numberPasses.take 1) [1, 11, 20] [21, 31, 40] = .ok p ∧
        p.rightFor 11 = some 31 ∧ 20 ∈ p.unmatchedLefts ∧ 40 ∈ p.unmatchedRights) ∧
      ∃ q, Cascade.pair Plain.numberPasses [1, 11, 20] [1, 11, 20] = .ok q ∧
        q.rightFor 20 = some 20 := by
  have hkeys : ∀ pass ∈ Plain.numberPasses.take 1,
      ([1, 11, 20] : List Nat).map pass.leftKey = [21, 31, 40].map pass.rightKey := by
    simp [Plain.numberPasses]
  obtain ⟨⟨p, hp, hsettles⟩, hself⟩ :=
    @equal_keys_are_paired_in_place Nat Nat Nat _ _ _ (Plain.numberPasses.take 1) [1, 11, 20]
      [21, 31, 40] (by decide) (by decide) rfl hkeys
  obtain ⟨q, hq, hself⟩ := hself Plain.numberPasses (by simp [Plain.numberPasses])
  have hpaired := (hsettles 1 11 31 rfl rfl).paired (by simp [Plain.numberPasses])
  have hleftover := (hsettles 2 20 40 rfl rfl).leftover (by simp [Plain.numberPasses])
  have hidentity := (hself 20 (by decide)).paired (by simp [Plain.numberPasses])
  exact ⟨by decide, by decide, rfl, hkeys, ⟨p, hp, hpaired.1, hleftover⟩, q, hq, hidentity.1⟩

end InPlace
end FindingLedger
