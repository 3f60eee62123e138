import FindingLedger.Proofs.Pairing.Stability
import Mathlib.Data.List.Perm.Subperm

/-!
# Compatible items

The criteria of a cascade overlap: each of them compares some traits of two items, and what one of
them compares is often a part of what another one does.  All of them together amount to one
relation between items, and under that relation the cascade chooses greedily.

**Input.**  Two lists that name no item twice, and the criteria of an analysis or of a rebase, with
or without the one for items without a location.

**Results.**
* `Criterion.agrees_pass_iff`: what two items share when they agree under a criterion.
* `compatible_iff`: two items are `Compatible` exactly if they agree under some criterion.
* `Pairing.length_le_two_mul`: pairs of which no two have an item in common, while each has one in
  common with a pairing, are at most twice as many as the pairs of the pairing.
* `pairBy_maximal`: the cascade pairs compatible items and leaves no two of them over, so that no
  other choice of compatible pairs has more than twice as many.
-/

namespace FindingLedger

open Identified

section Sharing

variable {γ δ : Type}

/-- Both values are there, and they are the same. -/
def Shared (x y : Option γ) : Prop :=
  x = y ∧ x ≠ none

instance [DecidableEq γ] (x y : Option γ) : Decidable (Shared x y) :=
  inferInstanceAs (Decidable (_ ∧ _))

/-- A renaming that keeps different values different keeps what is shared. -/
theorem shared_map_iff {f : γ → δ} (hf : Function.Injective f) {x y : Option γ} :
    Shared (x.map f) (y.map f) ↔ Shared x y := by
  rw [Shared, Shared, (Option.map_injective hf).eq_iff, Ne, Option.map_eq_none_iff]

end Sharing

namespace Criterion

/-- What two items share when a criterion takes them for the same issue. -/
def Joins (a b : Traits) : Criterion → Prop
  | serverIssueKey => Shared a.serverIssueKey b.serverIssueKey
  | lineAndTextRangeHash =>
      a.ruleKey = b.ruleKey ∧ Shared a.line b.line ∧ Shared a.textRangeHash b.textRangeHash
  | textRangeHashAndMessage =>
      a.ruleKey = b.ruleKey ∧ Shared a.textRangeHash b.textRangeHash ∧ Shared a.message b.message
  | lineAndMessage =>
      a.ruleKey = b.ruleKey ∧ Shared a.line b.line ∧ Shared a.message b.message
  | textRangeHash => a.ruleKey = b.ruleKey ∧ Shared a.textRangeHash b.textRangeHash
  | lineAndLineHash =>
      a.ruleKey = b.ruleKey ∧ Shared a.line b.line ∧ Shared a.lineHash b.lineHash
  | lineHash => a.ruleKey = b.ruleKey ∧ Shared a.lineHash b.lineHash
  | fileLevelMessage =>
      a.ruleKey = b.ruleKey ∧ (a.line = none ∧ a.hasTextRange = false) ∧
        (b.line = none ∧ b.hasTextRange = false) ∧ Shared a.message b.message

theorem shared_parts_iff (c : Criterion) (a b : Traits) :
    Shared (c.parts a) (c.parts b) ↔ c.Joins a b := by
  obtain ⟨rule, message, line, ranged, lineHash, rangeHash, key⟩ := a
  obtain ⟨rule', message', line', ranged', lineHash', rangeHash', key'⟩ := b
  -- each key is there if all that the criterion compares is there
  cases c with
  | serverIssueKey => cases key <;> cases key' <;> simp [parts, Joins, Shared]
  | lineAndTextRangeHash =>
      cases line <;> cases line' <;> cases rangeHash <;> cases rangeHash' <;>
        simp [parts, Joins, Shared]
  | textRangeHashAndMessage =>
      cases rangeHash <;> cases rangeHash' <;> cases message <;> cases message' <;>
        simp [parts, Joins, Shared, and_comm]
  | lineAndMessage =>
      cases line <;> cases line' <;> cases message <;> cases message' <;>
        simp [parts, Joins, Shared]
  | textRangeHash => cases rangeHash <;> cases rangeHash' <;> simp [parts, Joins, Shared]
  | lineAndLineHash =>
      cases line <;> cases line' <;> cases lineHash <;> cases lineHash' <;>
        simp [parts, Joins, Shared]
  | lineHash => cases lineHash <;> cases lineHash' <;> simp [parts, Joins, Shared]
  | fileLevelMessage =>
      cases line <;> cases line' <;> cases ranged <;> cases ranged' <;> cases message <;>
        cases message' <;> simp [parts, Joins, Shared]

/-- Two items agree in the pass of a criterion exactly if they share what the criterion compares. -/
theorem agrees_pass_iff {α β : Type} [Matchable α] [Matchable β] (c : Criterion) {left : α}
    {right : β} :
    (c.pass : Pass α β Key).Agrees left right ↔
      c.Joins (Matchable.traits left) (Matchable.traits right) := by
  have hname : Function.Injective fun parts : Key => KeyPart.text c.name :: parts :=
    fun _ _ h => (List.cons.inj h).2
  rw [← shared_parts_iff, ← shared_map_iff hname]
  exact Iff.rfl

/-- The criteria of a rebase, which compares keys of the server too, or of an analysis. -/
def standard (server fileLevel : Bool) : List Criterion :=
  if server then forServer fileLevel else forAnalysis fileLevel

theorem serverIssueKey_mem_standard_iff {server fileLevel : Bool} :
    serverIssueKey ∈ standard server fileLevel ↔ server = true := by
  cases server <;> cases fileLevel <;> decide

theorem fileLevelMessage_mem_standard_iff {server fileLevel : Bool} :
    fileLevelMessage ∈ standard server fileLevel ↔ fileLevel = true := by
  cases server <;> cases fileLevel <;> decide

theorem mem_standard_of_mem_byLocation {c : Criterion} (h : c ∈ byLocation)
    (server fileLevel : Bool) : c ∈ standard server fileLevel := by
  have hanalysis : c ∈ forAnalysis fileLevel := List.mem_append_left _ h
  cases server with
  | true => exact List.mem_cons_of_mem _ hanalysis
  | false => exact hanalysis

end Criterion

/-- Two items can be taken for the same issue.  Either they are of one rule, and share the hash of
the text range, the line together with the message, the hash of the line, or the message alone if
they have no location and such items count; or they share a key of the server, if keys count. -/
def Compatible (server fileLevel : Bool) (a b : Traits) : Prop :=
  (a.ruleKey = b.ruleKey ∧
    (Shared a.textRangeHash b.textRangeHash ∨
      (Shared a.line b.line ∧ Shared a.message b.message) ∨
      Shared a.lineHash b.lineHash ∨
      (fileLevel = true ∧ (a.line = none ∧ a.hasTextRange = false) ∧
        (b.line = none ∧ b.hasTextRange = false) ∧ Shared a.message b.message))) ∨
    (server = true ∧ Shared a.serverIssueKey b.serverIssueKey)

instance (server fileLevel : Bool) (a b : Traits) : Decidable (Compatible server fileLevel a b) :=
  inferInstanceAs (Decidable (_ ∨ _))

/-- The criteria together take two items for the same issue exactly if they are compatible. -/
theorem compatible_iff {server fileLevel : Bool} {a b : Traits} :
    Compatible server fileLevel a b ↔
      ∃ c ∈ Criterion.standard server fileLevel, c.Joins a b := by
  have hlocation : ∀ c ∈ Criterion.byLocation, c ∈ Criterion.standard server fileLevel :=
    fun c hc => Criterion.mem_standard_of_mem_byLocation hc server fileLevel
  constructor
  · rintro (⟨hrule, hrange | hline | hlineHash | ⟨hon, hfile⟩⟩ | ⟨hon, hkey⟩)
    · exact ⟨.textRangeHash, hlocation _ (by simp [Criterion.byLocation]), hrule, hrange⟩
    · exact ⟨.lineAndMessage, hlocation _ (by simp [Criterion.byLocation]), hrule, hline⟩
    · exact ⟨.lineHash, hlocation _ (by simp [Criterion.byLocation]), hrule, hlineHash⟩
    · exact ⟨.fileLevelMessage, Criterion.fileLevelMessage_mem_standard_iff.2 hon, hrule, hfile⟩
    · exact ⟨.serverIssueKey, Criterion.serverIssueKey_mem_standard_iff.2 hon, hkey⟩
  · rintro ⟨c, hc, hjoins⟩
    cases c with
    | serverIssueKey => exact Or.inr ⟨Criterion.serverIssueKey_mem_standard_iff.1 hc, hjoins⟩
    | lineAndTextRangeHash => exact Or.inl ⟨hjoins.1, Or.inl hjoins.2.2⟩
    | textRangeHashAndMessage => exact Or.inl ⟨hjoins.1, Or.inl hjoins.2.1⟩
    | lineAndMessage => exact Or.inl ⟨hjoins.1, Or.inr (Or.inl hjoins.2)⟩
    | textRangeHash => exact Or.inl ⟨hjoins.1, Or.inl hjoins.2⟩
    | lineAndLineHash => exact Or.inl ⟨hjoins.1, Or.inr (Or.inr (Or.inl hjoins.2.2))⟩
    | lineHash => exact Or.inl ⟨hjoins.1, Or.inr (Or.inr (Or.inl hjoins.2))⟩
    | fileLevelMessage =>
        exact Or.inl ⟨hjoins.1, Or.inr (Or.inr (Or.inr
          ⟨Criterion.fileLevelMessage_mem_standard_iff.1 hc, hjoins.2⟩))⟩

/-- A list of items that a key tells apart is not longer than a list that has all these keys. -/
theorem length_le_of_keys_subset {γ δ : Type} {f : γ → Nat} {g : δ → Nat} {xs : List γ}
    {ys : List δ} (hn : (xs.map f).Nodup) (hsub : ∀ x ∈ xs, f x ∈ ys.map g) :
    xs.length ≤ ys.length := by
  have hmap : xs.map f ⊆ ys.map g := by
    intro k hk
    obtain ⟨x, hx, rfl⟩ := List.mem_map.1 hk
    exact hsub x hx
  simpa using (hn.subperm hmap).length_le

namespace Pairing

variable {α β : Type} [Identified α] [Identified β]

/-- Pairs of which no two have an item in common, while each of them has one in common with the
pairing, are at most twice as many as its pairs. -/
theorem length_le_two_mul {p : Pairing α β} {M : List (α × β)}
    (hleft : (M.map fun q => handle q.1).Nodup) (hright : (M.map fun q => handle q.2).Nodup)
    (htouch : ∀ q ∈ M, (∃ r, (q.1, r) ∈ p.pairs) ∨ ∃ l, (l, q.2) ∈ p.pairs) :
    M.length ≤ 2 * p.matchedCount := by
  let taken : α × β → Bool := fun q => decide (handle q.1 ∈ p.pairs.map fun q => handle q.1)
  -- the pairs whose left item is taken, and the others, whose right item is taken
  have hlefts : (M.filter taken).length ≤ p.pairs.length := by
    refine length_le_of_keys_subset (g := fun q => handle q.1)
      (hleft.sublist (List.filter_sublist.map _)) fun q hq => ?_
    exact of_decide_eq_true (List.mem_filter.1 hq).2
  have hrights : (M.filter fun q => !taken q).length ≤ p.pairs.length := by
    refine length_le_of_keys_subset (g := fun q => handle q.2)
      (hright.sublist (List.filter_sublist.map _)) fun q hq => ?_
    obtain ⟨hqM, hfree⟩ := List.mem_filter.1 hq
    rcases htouch q hqM with ⟨r, hr⟩ | ⟨l, hl⟩
    · have htaken : taken q = true := decide_eq_true (List.mem_map.2 ⟨(q.1, r), hr, rfl⟩)
      simp [htaken] at hfree
    · exact List.mem_map.2 ⟨(l, q.2), hl, rfl⟩
  have hsplit := List.length_eq_length_filter_add (l := M) taken
  rw [matchedCount]
  omega

end Pairing

section Maximality

variable {α β : Type}

/-- Items that are paired agree in some pass. -/
theorem Plain.Stable.exists_agrees {κ : Type} [DecidableEq κ] {passes : List (Pass α β κ)}
    {p : Pairing α β} (h : Plain.Stable passes p) {left : α} {right : β}
    (hmem : (left, right) ∈ p.pairs) : ∃ pass ∈ passes, pass.Agrees left right := by
  obtain ⟨i, hi⟩ := h.bound left right hmem
  by_contra hnone
  have : strength passes left right = none :=
    strength_eq_none_iff.2 fun pass hpass hagree => hnone ⟨pass, hpass, hagree⟩
  simp [this] at hi

/-- Of two items that agree in some pass one is paired. -/
theorem Plain.Stable.paired_of_agrees {κ : Type} [DecidableEq κ] {passes : List (Pass α β κ)}
    {p : Pairing α β} (h : Plain.Stable passes p) {left : α} {right : β} (hl : left ∈ p.lefts)
    (hr : right ∈ p.rights) {pass : Pass α β κ} (hpass : pass ∈ passes)
    (hagree : pass.Agrees left right) :
    (∃ r, (left, r) ∈ p.pairs) ∨ ∃ l, (l, right) ∈ p.pairs := by
  cases hi : strength passes left right with
  | none => exact absurd hagree (strength_eq_none_iff.1 hi pass hpass)
  | some i =>
      rcases h.held left hl right hr i hi with ⟨r, -, hmem, -⟩ | ⟨l, -, hmem, -⟩
      · exact Or.inl ⟨r, hmem⟩
      · exact Or.inr ⟨l, hmem⟩

variable [Matchable α] [Matchable β]

/-- The traits of the two items of a pair are compatible. -/
def CompatiblePair (server fileLevel : Bool) (q : α × β) : Prop :=
  Compatible server fileLevel (Matchable.traits q.1) (Matchable.traits q.2)

instance (server fileLevel : Bool) (q : α × β) : Decidable (CompatiblePair server fileLevel q) :=
  inferInstanceAs (Decidable (Compatible _ _ _ _))

/-- A pairing of two lists that is maximal among the pairings of compatible items. -/
structure Pairing.Maximal (server fileLevel : Bool) (lefts : List α) (rights : List β)
    (p : Pairing α β) : Prop where
  mem : ∀ q ∈ p.pairs, q.1 ∈ lefts ∧ q.2 ∈ rights
  compatible : ∀ q ∈ p.pairs, CompatiblePair server fileLevel q
  leftover : ∀ l ∈ p.unmatchedLefts, ∀ r ∈ p.unmatchedRights,
    ¬ CompatiblePair server fileLevel (l, r)
  length_le : ∀ M : List (α × β), (∀ q ∈ M, q.1 ∈ lefts ∧ q.2 ∈ rights) →
    (∀ q ∈ M, CompatiblePair server fileLevel q) → (M.map fun q => handle q.1).Nodup →
    (M.map fun q => handle q.2).Nodup → M.length ≤ 2 * p.matchedCount

/-- **A standard cascade gives a maximal pairing of compatible items.** -/
theorem pairBy_maximal (server fileLevel : Bool) {lefts : List α} {rights : List β}
    (hl : (lefts.map handle).Nodup) (hr : (rights.map handle).Nodup) :
    ∃ p, Cascade.pairBy (Criterion.standard server fileLevel) lefts rights = .ok p ∧
      p.Maximal server fileLevel lefts rights := by
  let passes : List (Pass α β Key) := (Criterion.standard server fileLevel).map Criterion.pass
  obtain ⟨hpair, hp, hgrows⟩ := Plain.pair_proper passes hl hr
  have hstable := Plain.stable_pair passes hl hr
  generalize Plain.pair passes lefts rights = p at hpair hp hgrows hstable
  have hlefts : p.lefts = lefts := hgrows.lefts_eq
  have hrights : p.rights = rights := hgrows.rights_eq
  subst hlefts hrights
  have hagrees : ∀ (l : α) (r : β), CompatiblePair server fileLevel (l, r) ↔
      ∃ pass ∈ passes, pass.Agrees l r := by
    intro l r
    simp only [CompatiblePair, compatible_iff, passes, List.mem_map, exists_exists_and_eq_and,
      Criterion.agrees_pass_iff]
  have htouch : ∀ l ∈ p.lefts, ∀ r ∈ p.rights, CompatiblePair server fileLevel (l, r) →
      (∃ r', (l, r') ∈ p.pairs) ∨ ∃ l', (l', r) ∈ p.pairs := by
    intro l hlm r hrm hcompatible
    obtain ⟨pass, hpass, hagree⟩ := (hagrees l r).1 hcompatible
    exact hstable.paired_of_agrees hlm hrm hpass hagree
  refine ⟨p, hpair, fun q hq => ⟨hp.left_mem q hq, hp.right_mem q hq⟩, ?_, ?_, ?_⟩
  · rintro ⟨l, r⟩ hq
    exact (hagrees l r).2 (hstable.exists_agrees hq)
  · intro l hlfree r hrfree hcompatible
    obtain ⟨hlm, hlnone⟩ := hp.mem_unmatchedLefts.1 hlfree
    obtain ⟨hrm, hrnone⟩ := hp.mem_unmatchedRights.1 hrfree
    rcases htouch l hlm r hrm hcompatible with ⟨r', hmem⟩ | ⟨l', hmem⟩
    · exact hlnone r' hmem
    · exact hrnone l' hmem
  · intro M hmem hcompatible hleft hright
    refine Pairing.length_le_two_mul hleft hright fun q hq => ?_
    exact htouch q.1 (hmem q hq).1 q.2 (hmem q hq).2 (hcompatible q hq)

end Maximality
end FindingLedger
