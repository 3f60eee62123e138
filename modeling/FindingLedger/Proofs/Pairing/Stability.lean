import FindingLedger.Proofs.Pairing.Plain

/-!
# Stability of the cascade

What one sweep pairs can be read off the state before it: under each key, the free lefts and the
free rights of that key are paired off one by one in list order.  Everything in this module
follows from that.

**Input.**  Two lists that name no item twice, and passes.  The strength of a left and a right item
is the number of the first pass in which both have a key and the keys are equal.

**Results.**
* `mem_pairs_sweep`: the pairs of a sweep, key by key.
* `agree_or_matched`: after a sweep no free left item agrees with a free right one.
* `no_blocking_pair`: every recorded pair has a strength, and of two items that agree in some pass
  one has a partner to which it is bound at least as strongly.
-/

namespace FindingLedger

open Identified

/-- In two lists that are paired off one by one, one of any two items is not left over. -/
theorem mem_zip_left_or_right {α β : Type} {as : List α} {bs : List β} {a : α} {b : β}
    (ha : a ∈ as) (hb : b ∈ bs) :
    (∃ b', (a, b') ∈ as.zip bs) ∨ ∃ a', (a', b) ∈ as.zip bs := by
  induction as generalizing bs with
  | nil => simp at ha
  | cons x as ih =>
      cases bs with
      | nil => simp at hb
      | cons y bs =>
          rw [List.zip_cons_cons]
          rcases List.mem_cons.1 ha with rfl | ha
          · exact Or.inl ⟨y, List.mem_cons_self⟩
          · rcases List.mem_cons.1 hb with rfl | hb
            · exact Or.inr ⟨x, List.mem_cons_self⟩
            · rcases ih ha hb with ⟨b', h⟩ | ⟨a', h⟩
              · exact Or.inl ⟨b', List.mem_cons_of_mem _ h⟩
              · exact Or.inr ⟨a', List.mem_cons_of_mem _ h⟩

section Agreement

variable {α β κ : Type}

/-- Both items have a key in the pass, and the keys are equal. -/
def Pass.Agrees (pass : Pass α β κ) (left : α) (right : β) : Prop :=
  pass.leftKey left = pass.rightKey right ∧ pass.leftKey left ≠ none

instance [DecidableEq κ] (pass : Pass α β κ) (left : α) (right : β) :
    Decidable (pass.Agrees left right) :=
  inferInstanceAs (Decidable (_ ∧ _))

theorem Pass.agrees_iff {pass : Pass α β κ} {left : α} {right : β} :
    pass.Agrees left right ↔
      ∃ k, pass.leftKey left = some k ∧ pass.rightKey right = some k := by
  constructor
  · rintro ⟨heq, hne⟩
    obtain ⟨k, hk⟩ := Option.ne_none_iff_exists'.1 hne
    exact ⟨k, hk, heq ▸ hk⟩
  · rintro ⟨k, hl, hr⟩
    exact ⟨hl.trans hr.symm, by simp [hl]⟩

end Agreement

namespace Plain

variable {α β κ : Type} [Identified α] [Identified β] [DecidableEq κ]
variable {pass : Pass α β κ} {p : Pairing α β} {left : α} {right : β}

/-- The free lefts that come with a key, in list order. -/
def offering (pass : Pass α β κ) (p : Pairing α β) (k : κ) : List α :=
  p.unmatchedLefts.filter fun left => decide (pass.leftKey left = some k)

/-- The items are paired off when the free items of some key are paired off one by one. -/
def Meets (pass : Pass α β κ) (p : Pairing α β) (left : α) (right : β) : Prop :=
  ∃ k, (left, right) ∈ (offering pass p k).zip (waiting pass p k)

omit [Identified α] in
theorem mem_waiting {k : κ} :
    right ∈ waiting pass p k ↔ right ∈ p.unmatchedRights ∧ pass.rightKey right = some k := by
  simp [waiting]

omit [Identified β] in
theorem mem_offering {k : κ} :
    left ∈ offering pass p k ↔ left ∈ p.unmatchedLefts ∧ pass.leftKey left = some k := by
  simp [offering]

theorem Meets.free (h : Meets pass p left right) :
    left ∈ p.unmatchedLefts ∧ right ∈ p.unmatchedRights := by
  obtain ⟨k, hk⟩ := h
  obtain ⟨hl, hr⟩ := List.of_mem_zip hk
  exact ⟨(mem_offering.1 hl).1, (mem_waiting.1 hr).1⟩

theorem Meets.agrees (h : Meets pass p left right) : pass.Agrees left right := by
  obtain ⟨k, hk⟩ := h
  obtain ⟨hl, hr⟩ := List.of_mem_zip hk
  exact Pass.agrees_iff.2 ⟨k, (mem_offering.1 hl).2, (mem_waiting.1 hr).2⟩

/-- The pairs that visits to free lefts add, key by key. -/
theorem mem_pairs_foldl_visit (hp : p.Proper) (lefts : List α) (hl : lefts ⊆ p.unmatchedLefts)
    (hn : (lefts.map handle).Nodup) :
    (left, right) ∈ (lefts.foldl (visit pass) p).pairs ↔
      (left, right) ∈ p.pairs ∨
        ∃ k, (left, right) ∈
          (lefts.filter fun l => decide (pass.leftKey l = some k)).zip (waiting pass p k) := by
  induction lefts generalizing p with
  | nil => simp
  | cons first lefts ih =>
      obtain ⟨hfirst, htail⟩ := List.cons_subset.1 hl
      rw [List.foldl_cons]
      rcases visit_cases pass (List.mem_filter.1 hfirst).1 with
        ⟨hv, hnil⟩ | ⟨k, r, rest, -, hk, hw, hv⟩
      · rw [hv, ih hp htail (List.nodup_cons.1 hn).2]
        apply or_congr_right
        apply exists_congr
        intro k
        by_cases hk : pass.leftKey first = some k
        · simp [hnil hfirst k hk]
        · simp [hk]
      · have hr := (mem_of_waiting_cons hw).1
        -- under the key of the visited item the two lists lose their heads, elsewhere nothing
        have hzip : ∀ k', ((first :: lefts).filter fun l =>
              decide (pass.leftKey l = some k')).zip (waiting pass p k') =
            if k' = k then (first, r) :: (lefts.filter fun l =>
              decide (pass.leftKey l = some k)).zip rest
            else (lefts.filter fun l =>
              decide (pass.leftKey l = some k')).zip (waiting pass p k') := by
          intro k'
          by_cases h : k' = k
          · rw [if_pos h, h, hw, List.filter_cons_of_pos (by simp [hk]), List.zip_cons_cons]
          · have hne : ¬ k = k' := fun e => h e.symm
            rw [if_neg h, List.filter_cons_of_neg (by simp [hk, hne])]
        rw [hv, ih (hp.push hfirst hr) (Pairing.subset_unmatchedLefts_push hl hn r)
          (List.nodup_cons.1 hn).2, Pairing.mem_pairs_push, or_assoc]
        apply or_congr_right
        simp only [waiting_push hp hw, hzip]
        constructor
        · rintro (h | ⟨k', h⟩)
          · refine ⟨k, ?_⟩
            rw [if_pos rfl, h]
            exact List.mem_cons_self
          · refine ⟨k', ?_⟩
            by_cases hk' : k' = k
            · rw [if_pos hk'] at h ⊢
              rw [hk'] at h
              exact List.mem_cons_of_mem _ h
            · rwa [if_neg hk'] at h ⊢
        · rintro ⟨k', h⟩
          by_cases hk' : k' = k
          · rw [if_pos hk'] at h
            rcases List.mem_cons.1 h with h | h
            · exact Or.inl h
            · refine Or.inr ⟨k, ?_⟩
              rwa [if_pos rfl]
          · refine Or.inr ⟨k', ?_⟩
            rwa [if_neg hk'] at h ⊢

/-- **The pairs of a sweep**: those from before, and the items that meet. -/
theorem mem_pairs_sweep (hp : p.Proper) :
    (left, right) ∈ (sweep p pass).pairs ↔ (left, right) ∈ p.pairs ∨ Meets pass p left right := by
  rw [sweep_eq_foldl_unmatchedLefts hp]
  exact mem_pairs_foldl_visit hp p.unmatchedLefts (List.Subset.refl _) hp.unmatchedLefts_nodup

/-- After a sweep, one of any two items that agree in its pass has a partner. -/
theorem agree_or_matched (hp : p.Proper) (hl : left ∈ p.lefts) (hr : right ∈ p.rights)
    (h : pass.Agrees left right) :
    (∃ r, (left, r) ∈ (sweep p pass).pairs) ∨ ∃ l, (l, right) ∈ (sweep p pass).pairs := by
  simp only [mem_pairs_sweep hp]
  rcases hp.left_free_or_matched hl with hlfree | ⟨r, hmem⟩
  · rcases hp.right_free_or_matched hr with hrfree | ⟨l, hmem⟩
    · obtain ⟨k, hlk, hrk⟩ := Pass.agrees_iff.1 h
      rcases mem_zip_left_or_right (mem_offering.2 ⟨hlfree, hlk⟩)
        (mem_waiting.2 ⟨hrfree, hrk⟩) with ⟨r, hmem⟩ | ⟨l, hmem⟩
      · exact Or.inl ⟨r, Or.inr ⟨k, hmem⟩⟩
      · exact Or.inr ⟨l, Or.inr ⟨k, hmem⟩⟩
    · exact Or.inr ⟨l, Or.inl hmem⟩
  · exact Or.inl ⟨r, Or.inl hmem⟩

end Plain

section Strength

variable {α β κ : Type} [DecidableEq κ]

/-- The number of the first pass in which two items agree. -/
def strength (passes : List (Pass α β κ)) (left : α) (right : β) : Option Nat :=
  passes.findIdx? fun pass => decide (pass.Agrees left right)

theorem strength_lt {passes : List (Pass α β κ)} {left : α} {right : β} {i : Nat}
    (h : strength passes left right = some i) : i < passes.length :=
  (List.findIdx?_eq_some_iff_getElem.1 h).1

theorem strength_eq_none_iff {passes : List (Pass α β κ)} {left : α} {right : β} :
    strength passes left right = none ↔ ∀ pass ∈ passes, ¬ pass.Agrees left right := by
  simp [strength, List.findIdx?_eq_none_iff]

/-- A further pass gives a strength only to items that had none. -/
theorem strength_concat (passes : List (Pass α β κ)) (pass : Pass α β κ) (left : α) (right : β) :
    strength (passes ++ [pass]) left right =
      (strength passes left right).or
        (if pass.Agrees left right then some passes.length else none) := by
  rw [strength, List.findIdx?_append, ← strength]
  by_cases h : pass.Agrees left right <;> simp [h, List.findIdx?_cons]

theorem strength_concat_of_some {passes : List (Pass α β κ)} (pass : Pass α β κ) {left : α}
    {right : β} {i : Nat} (h : strength passes left right = some i) :
    strength (passes ++ [pass]) left right = some i := by
  rw [strength_concat, h, Option.some_or]

/-- Two items that agree in the last pass have at most its strength. -/
theorem strength_concat_of_agrees {passes : List (Pass α β κ)} {pass : Pass α β κ} {left : α}
    {right : β} (h : pass.Agrees left right) :
    ∃ i, strength (passes ++ [pass]) left right = some i ∧ i ≤ passes.length := by
  cases hs : strength passes left right with
  | some i => exact ⟨i, strength_concat_of_some pass hs, Nat.le_of_lt (strength_lt hs)⟩
  | none =>
      refine ⟨passes.length, ?_, Nat.le_refl _⟩
      rw [strength_concat, hs, Option.none_or, if_pos h]

end Strength

namespace Plain

variable {α β κ : Type} [Identified α] [Identified β] [DecidableEq κ]

/-- Every pair has a strength, and of two items that agree in some pass one is paired at least as
strongly. -/
structure Stable (passes : List (Pass α β κ)) (p : Pairing α β) : Prop where
  bound : ∀ l r, (l, r) ∈ p.pairs → ∃ i, strength passes l r = some i
  held : ∀ l ∈ p.lefts, ∀ r ∈ p.rights, ∀ i, strength passes l r = some i →
    (∃ r' j, (l, r') ∈ p.pairs ∧ strength passes l r' = some j ∧ j ≤ i) ∨
      ∃ l' j, (l', r) ∈ p.pairs ∧ strength passes l' r = some j ∧ j ≤ i

/-- A sweep keeps stability, with its pass as the weakest one. -/
theorem Stable.sweep {passes : List (Pass α β κ)} {p : Pairing α β} (h : Stable passes p)
    (hp : p.Proper) (pass : Pass α β κ) : Stable (passes ++ [pass]) (sweep p pass) := by
  have hgrows := grows_sweep pass p
  have hbound : ∀ l r, (l, r) ∈ (Plain.sweep p pass).pairs →
      ∃ i, strength (passes ++ [pass]) l r = some i ∧ i ≤ passes.length := by
    intro l r hmem
    rcases (mem_pairs_sweep hp).1 hmem with hold | hnew
    · obtain ⟨i, hi⟩ := h.bound l r hold
      exact ⟨i, strength_concat_of_some pass hi, Nat.le_of_lt (strength_lt hi)⟩
    · exact strength_concat_of_agrees hnew.agrees
  refine ⟨fun l r hmem => (hbound l r hmem).imp fun i hi => hi.1, ?_⟩
  intro l hl r hr i hi
  rw [hgrows.lefts_eq] at hl
  rw [hgrows.rights_eq] at hr
  cases hold : strength passes l r with
  | some j =>
      have hji : j = i := by
        rw [strength_concat_of_some pass hold] at hi
        exact Option.some.inj hi
      subst hji
      rcases h.held l hl r hr j hold with ⟨r', j', hmem, hj', hle⟩ | ⟨l', j', hmem, hj', hle⟩
      · exact Or.inl ⟨r', j', hgrows.pairs_subset hmem, strength_concat_of_some pass hj', hle⟩
      · exact Or.inr ⟨l', j', hgrows.pairs_subset hmem, strength_concat_of_some pass hj', hle⟩
  | none =>
      -- the items agree in the last pass only, and no pair is weaker than that
      rw [strength_concat, hold, Option.none_or] at hi
      have hagree : pass.Agrees l r := by
        by_contra hne
        simp [hne] at hi
      rw [if_pos hagree] at hi
      obtain rfl := Option.some.inj hi
      rcases agree_or_matched hp hl hr hagree with ⟨r', hmem⟩ | ⟨l', hmem⟩
      · obtain ⟨j, hj, hle⟩ := hbound l r' hmem
        exact Or.inl ⟨r', j, hmem, hj, hle⟩
      · obtain ⟨j, hj, hle⟩ := hbound l' r hmem
        exact Or.inr ⟨l', j, hmem, hj, hle⟩

theorem Stable.run {done : List (Pass α β κ)} {p : Pairing α β} (h : Stable done p)
    (hp : p.Proper) (passes : List (Pass α β κ)) : Stable (done ++ passes) (run passes p) := by
  induction passes generalizing done p with
  | nil => simpa [Plain.run] using h
  | cons pass passes ih =>
      have := ih (h.sweep hp pass) (proper_sweep hp pass)
      simpa [Plain.run] using this

theorem stable_pair (passes : List (Pass α β κ)) {lefts : List α} {rights : List β}
    (hl : (lefts.map handle).Nodup) (hr : (rights.map handle).Nodup) :
    Stable passes (pair passes lefts rights) := by
  have hstart : Stable ([] : List (Pass α β κ)) (Pairing.start lefts rights) :=
    ⟨by simp [Pairing.start], by simp [strength]⟩
  exact hstart.run (Pairing.proper_start hl hr) passes

end Plain

section Blocking

variable {α β κ : Type} [Identified α] [Identified β] [DecidableEq κ]

/-- The left item has a partner, and agrees with it in pass `i` or a stronger one. -/
def LeftBound (passes : List (Pass α β κ)) (p : Pairing α β) (left : α) (i : Nat) : Prop :=
  ∃ right j, p.rightFor left = some right ∧ strength passes left right = some j ∧ j ≤ i

/-- The right item has a partner, and agrees with it in pass `i` or a stronger one. -/
def RightBound (passes : List (Pass α β κ)) (p : Pairing α β) (right : β) (i : Nat) : Prop :=
  ∃ left j, p.leftFor right = some left ∧ strength passes left right = some j ∧ j ≤ i

/-- **The cascade leaves no blocking pair.**  It does not fail; what it pairs agrees in some pass;
of two items that agree in some pass one is bound at least as strongly as they would be; an item
that is bound more weakly than it could be finds the stronger partner taken, and what is left over
on the two sides agrees in no pass. -/
theorem no_blocking_pair (passes : List (Pass α β κ)) {lefts : List α} {rights : List β}
    (hl : (lefts.map handle).Nodup) (hr : (rights.map handle).Nodup) :
    ∃ p, Cascade.pair passes lefts rights = .ok p ∧
      (∀ l r, (l, r) ∈ p.pairs → l ∈ lefts ∧ r ∈ rights ∧ ∃ i, strength passes l r = some i) ∧
      (∀ l ∈ lefts, ∀ r ∈ rights, ∀ i, strength passes l r = some i →
        LeftBound passes p l i ∨ RightBound passes p r i) ∧
      (∀ l r' j, (l, r') ∈ p.pairs → strength passes l r' = some j →
        ∀ r ∈ rights, ∀ i < j, strength passes l r = some i → RightBound passes p r i) ∧
      (∀ l' r j, (l', r) ∈ p.pairs → strength passes l' r = some j →
        ∀ l ∈ lefts, ∀ i < j, strength passes l r = some i → LeftBound passes p l i) ∧
      ∀ l ∈ p.unmatchedLefts, ∀ r ∈ p.unmatchedRights, ∀ pass ∈ passes, ¬ pass.Agrees l r := by
  obtain ⟨hpair, hp, hgrows⟩ := Plain.pair_proper passes hl hr
  have hstable := Plain.stable_pair passes hl hr
  generalize Plain.pair passes lefts rights = p at hpair hp hgrows hstable
  have hlefts : p.lefts = lefts := hgrows.lefts_eq
  have hrights : p.rights = rights := hgrows.rights_eq
  subst hlefts hrights
  have hheld : ∀ l ∈ p.lefts, ∀ r ∈ p.rights, ∀ i, strength passes l r = some i →
      LeftBound passes p l i ∨ RightBound passes p r i := by
    intro l hl r hr i hi
    rcases hstable.held l hl r hr i hi with ⟨r', j, hmem, hj⟩ | ⟨l', j, hmem, hj⟩
    · exact Or.inl ⟨r', j, (hp.rightFor_eq_some_iff hl).2 hmem, hj⟩
    · exact Or.inr ⟨l', j, (hp.leftFor_eq_some_iff hr).2 hmem, hj⟩
  refine ⟨p, hpair, ?_, hheld, ?_, ?_, ?_⟩
  · intro l r hmem
    exact ⟨hp.left_mem _ hmem, hp.right_mem _ hmem, hstable.bound l r hmem⟩
  · intro l r' j hmem hj r hr i hij hi
    have hl := hp.left_mem _ hmem
    rcases hheld l hl r hr i hi with ⟨r'', j', hr'', hj', hle⟩ | hbound
    · have : r'' = r' := hp.right_unique ((hp.rightFor_eq_some_iff hl).1 hr'') hmem
      rw [this, hj] at hj'
      obtain rfl := Option.some.inj hj'
      omega
    · exact hbound
  · intro l' r j hmem hj l hl i hij hi
    have hr := hp.right_mem _ hmem
    rcases hheld l hl r hr i hi with hbound | ⟨l'', j', hl'', hj', hle⟩
    · exact hbound
    · have : l'' = l' := hp.left_unique ((hp.leftFor_eq_some_iff hr).1 hl'') hmem
      rw [this, hj] at hj'
      obtain rfl := Option.some.inj hj'
      omega
  · intro l hlfree r hrfree
    obtain ⟨hl, hlnone⟩ := hp.mem_unmatchedLefts.1 hlfree
    obtain ⟨hr, hrnone⟩ := hp.mem_unmatchedRights.1 hrfree
    rw [← strength_eq_none_iff]
    cases hi : strength passes l r with
    | none => rfl
    | some i =>
        rcases hstable.held l hl r hr i hi with ⟨r', -, hmem, -⟩ | ⟨l', -, hmem, -⟩
        · exact absurd hmem (hlnone r')
        · exact absurd hmem (hrnone l')

/-- The left item 4 agrees with 6 in the second pass, but 6 is bound to 10 in the same pass. -/
theorem no_blocking_pair_numbers :
    (([10, 1, 4, 3] : List Nat).map handle).Nodup ∧
      (([6, 21, 31, 5] : List Nat).map handle).Nodup ∧
      strength Plain.numberPasses 4 6 = some 1 ∧
      ∃ p, Cascade.pair Plain.numberPasses [10, 1, 4, 3] [6, 21, 31, 5] = .ok p ∧
        (LeftBound Plain.numberPasses p 4 1 ∨ RightBound Plain.numberPasses p 6 1) ∧
        ∀ l ∈ p.unmatchedLefts, ∀ r ∈ p.unmatchedRights, ∀ pass ∈ Plain.numberPasses,
          ¬ pass.Agrees l r := by
  refine ⟨by decide, by decide, by decide, ?_⟩
  obtain ⟨p, hpair, -, hheld, -, -, hleft⟩ :=
    @no_blocking_pair Nat Nat Nat _ _ _ Plain.numberPasses [10, 1, 4, 3] [6, 21, 31, 5]
      (by decide) (by decide)
  exact ⟨p, hpair, hheld 4 (by decide) 6 (by decide) 1 (by decide), hleft⟩

end Blocking
end FindingLedger
