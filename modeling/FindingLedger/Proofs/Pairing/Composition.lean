import FindingLedger.Proofs.Pairing.Compatibility
import Mathlib.Data.List.Find

/-!
# Parts of a cascade

A cascade can be cut in two ways: some of its items can be taken away, and it can be stopped after
some of its passes.  Either way what remains is a cascade again.

**Input.**  Two lists that name no item twice, and passes.  Taking items away is said by two tests
which tell what is kept; items that are paired are kept together or not at all.

**Results.**
* `visit_keep`, `sweep_keep`, `run_keep`: a run over the kept items records the kept pairs.
* `removed_items_do_not_matter`: so items that are taken away had no influence on the others.
* `run_start_leftovers`: the later passes pair what the earlier ones left over as if there had never
  been anything else.
* `cascades_compose`: so a cascade of passes one after the other is a cascade of the first ones and
  a new cascade of the others over what is left; a rebase is a pairing by keys of the server and
  then an analysis, and the criterion for items without a location only adds pairs of such items.
-/

namespace FindingLedger

open Identified

namespace Pairing

variable {α β : Type}

/-- The kept items, and the pairs of kept items. -/
def keep (keepLeft : α → Bool) (keepRight : β → Bool) (p : Pairing α β) : Pairing α β where
  lefts := p.lefts.filter keepLeft
  rights := p.rights.filter keepRight
  pairs := p.pairs.filter fun q => keepLeft q.1

/-- The two items of a pair are kept together or not at all. -/
def Unsplit (keepLeft : α → Bool) (keepRight : β → Bool) (p : Pairing α β) : Prop :=
  ∀ q ∈ p.pairs, keepLeft q.1 = keepRight q.2

variable {keepLeft : α → Bool} {keepRight : β → Bool} {p q : Pairing α β} {left : α} {right : β}

theorem Unsplit.of_grows (h : q.Unsplit keepLeft keepRight) (hgrows : p.Grows q) :
    p.Unsplit keepLeft keepRight :=
  fun z hz => h z (hgrows.pairs_subset hz)

theorem keep_push (hleft : keepLeft left = true) :
    (p.push left right).keep keepLeft keepRight =
      (p.keep keepLeft keepRight).push left right := by
  simp [keep, push, hleft]

theorem keep_push_of_dropped (hleft : keepLeft left = false) :
    (p.push left right).keep keepLeft keepRight = p.keep keepLeft keepRight := by
  simp [keep, push, hleft]

variable [Identified α] [Identified β]

/-- A kept left item has the partner that it had. -/
theorem Proper.rightFor_keep (hp : p.Proper) (hl : left ∈ p.lefts)
    (hleft : keepLeft left = true) :
    (p.keep keepLeft keepRight).rightFor left = p.rightFor left := by
  rw [rightFor, keep, List.find?_filter, rightFor]
  congr 1
  apply List.find?_congr
  intro z hz
  by_cases h : handle z.1 = handle left
  · have : z.1 = left := List.inj_on_of_nodup_map hp.lefts_nodup (hp.left_mem z hz) hl h
    simp [this, hleft]
  · simp [h]

theorem Proper.leftFor_keep (hp : p.Proper) (h : p.Unsplit keepLeft keepRight)
    (hr : right ∈ p.rights) (hright : keepRight right = true) :
    (p.keep keepLeft keepRight).leftFor right = p.leftFor right := by
  rw [leftFor, keep, List.find?_filter, leftFor]
  congr 1
  apply List.find?_congr
  intro z hz
  by_cases hz' : handle z.2 = handle right
  · have : z.2 = right := List.inj_on_of_nodup_map hp.rights_nodup (hp.right_mem z hz) hr hz'
    simp [h z hz, this, hright]
  · simp [hz']

theorem Proper.unmatchedLefts_keep (hp : p.Proper) :
    (p.keep keepLeft keepRight).unmatchedLefts = p.unmatchedLefts.filter keepLeft := by
  rw [unmatchedLefts, unmatchedLefts,
    show (p.keep keepLeft keepRight).lefts = p.lefts.filter keepLeft from rfl,
    List.filter_filter, List.filter_filter]
  apply List.filter_congr
  intro left hl
  cases hleft : keepLeft left with
  | true => rw [hp.rightFor_keep hl hleft, Bool.and_true, Bool.true_and]
  | false => rw [Bool.and_false, Bool.false_and]

theorem Proper.unmatchedRights_keep (hp : p.Proper) (h : p.Unsplit keepLeft keepRight) :
    (p.keep keepLeft keepRight).unmatchedRights = p.unmatchedRights.filter keepRight := by
  rw [unmatchedRights, unmatchedRights,
    show (p.keep keepLeft keepRight).rights = p.rights.filter keepRight from rfl,
    List.filter_filter, List.filter_filter]
  apply List.filter_congr
  intro right hr
  cases hright : keepRight right with
  | true => rw [hp.leftFor_keep h hr hright, Bool.and_true, Bool.true_and]
  | false => rw [Bool.and_false, Bool.false_and]

/-- The left item has no partner yet. -/
def freeLeft (p : Pairing α β) (left : α) : Bool :=
  (p.rightFor left).isNone

/-- The right item has no partner yet. -/
def freeRight (p : Pairing α β) (right : β) : Bool :=
  (p.leftFor right).isNone

/-- Later pairs are pairs of items that were free, the earlier ones are not. -/
theorem Proper.freeLeft_iff_notMem (hp : p.Proper) (hq : q.Proper) (hgrows : p.Grows q)
    {z : α × β} (hz : z ∈ q.pairs) : p.freeLeft z.1 = true ↔ z ∉ p.pairs := by
  have hl : z.1 ∈ p.lefts := hgrows.lefts_eq ▸ hq.left_mem z hz
  rw [freeLeft, Option.isNone_iff_eq_none, hp.rightFor_eq_none_iff hl]
  constructor
  · exact fun hfree => hfree z.2
  · intro hnew right hmem
    obtain rfl := hq.right_unique (hgrows.pairs_subset hmem) hz
    exact hnew hmem

theorem Proper.freeRight_iff_notMem (hp : p.Proper) (hq : q.Proper) (hgrows : p.Grows q)
    {z : α × β} (hz : z ∈ q.pairs) : p.freeRight z.2 = true ↔ z ∉ p.pairs := by
  have hr : z.2 ∈ p.rights := hgrows.rights_eq ▸ hq.right_mem z hz
  rw [freeRight, Option.isNone_iff_eq_none, hp.leftFor_eq_none_iff hr]
  constructor
  · exact fun hfree => hfree z.1
  · intro hnew left hmem
    obtain rfl := hq.left_unique (hgrows.pairs_subset hmem) hz
    exact hnew hmem

theorem Proper.unsplit_free (hp : p.Proper) (hq : q.Proper) (hgrows : p.Grows q) :
    q.Unsplit p.freeLeft p.freeRight := by
  intro z hz
  rw [Bool.eq_iff_iff, hp.freeLeft_iff_notMem hq hgrows hz, hp.freeRight_iff_notMem hq hgrows hz]

theorem Proper.filter_freeLeft_pairs (hp : p.Proper) :
    (p.pairs.filter fun z => p.freeLeft z.1) = [] :=
  List.filter_eq_nil_iff.2 fun _ hz hfree =>
    (hp.freeLeft_iff_notMem hp (Grows.refl p) hz).1 hfree hz

/-- The pairs of items that were free are the pairs that came later. -/
theorem Proper.filter_freeLeft_append (hp : p.Proper) (hq : q.Proper) (hgrows : p.Grows q)
    {new : List (α × β)} (hnew : p.pairs ++ new = q.pairs) :
    (q.pairs.filter fun z => p.freeLeft z.1) = new := by
  have hnodup := hq.pairs_nodup
  rw [← hnew] at hnodup
  have hlater : (new.filter fun z => p.freeLeft z.1) = new := by
    rw [List.filter_eq_self]
    intro z hz
    have hz' : z ∉ p.pairs := fun hold => List.disjoint_of_nodup_append hnodup hold hz
    exact (hp.freeLeft_iff_notMem hq hgrows (hnew ▸ List.mem_append_right _ hz)).2 hz'
  rw [← hnew, List.filter_append, hp.filter_freeLeft_pairs, List.nil_append, hlater]

/-- What a pairing leaves over is a fresh start. -/
theorem Proper.keep_free (hp : p.Proper) :
    p.keep p.freeLeft p.freeRight = start p.unmatchedLefts p.unmatchedRights := by
  rw [keep, hp.filter_freeLeft_pairs]
  rfl

/-- The whole pairing consists of a first one and of a second one of its leftovers. -/
structure Continues (first second whole : Pairing α β) : Prop where
  lefts_eq : second.lefts = first.unmatchedLefts
  rights_eq : second.rights = first.unmatchedRights
  pairs_eq : whole.pairs = first.pairs ++ second.pairs
  unmatchedLefts_eq : whole.unmatchedLefts = second.unmatchedLefts
  unmatchedRights_eq : whole.unmatchedRights = second.unmatchedRights

end Pairing

namespace Plain

open Pairing

variable {α β κ : Type} [Identified α] [Identified β] [DecidableEq κ]
variable {keepLeft : α → Bool} {keepRight : β → Bool} {pass : Pass α β κ} {p q : Pairing α β}
variable {left : α}

section Keeping

theorem waiting_keep (hp : p.Proper) (h : p.Unsplit keepLeft keepRight) (k : κ) :
    waiting pass (p.keep keepLeft keepRight) k = (waiting pass p k).filter keepRight := by
  rw [waiting, hp.unmatchedRights_keep h, waiting, List.filter_filter, List.filter_filter]
  simp only [Bool.and_comm]

/-- A visit to a kept item does among the kept items what it does among all of them. -/
theorem visit_keep (hp : p.Proper) (hl : left ∈ p.lefts) (hleft : keepLeft left = true)
    (h : (visit pass p left).Unsplit keepLeft keepRight) :
    visit pass (p.keep keepLeft keepRight) left =
      (visit pass p left).keep keepLeft keepRight := by
  have hp' : p.Unsplit keepLeft keepRight := h.of_grows (grows_visit pass p left)
  have hl' : left ∈ (p.keep keepLeft keepRight).lefts := List.mem_filter.2 ⟨hl, hleft⟩
  have hfree : left ∈ (p.keep keepLeft keepRight).unmatchedLefts ↔ left ∈ p.unmatchedLefts := by
    rw [hp.unmatchedLefts_keep, List.mem_filter, and_iff_left hleft]
  rcases visit_cases pass hl with ⟨hv, hnone⟩ | ⟨k, right, rest, hlfree, hk, hw, hv⟩
  · rw [hv]
    by_cases hlfree : left ∈ p.unmatchedLefts
    · cases hk : pass.leftKey left with
      | none => exact visit_of_no_key hk
      | some k =>
          refine visit_of_waiting_nil hk ?_
          rw [waiting_keep hp hp', hnone hlfree k hk, List.filter_nil]
    · exact visit_of_matched (mt hfree.1 hlfree) hl'
  · -- the partner is kept too, and still the first that waits
    have hright : keepRight right = true := by
      have := h (left, right) (by rw [hv]; exact mem_pairs_push.2 (Or.inr rfl))
      exact this.symm.trans hleft
    have hw' : waiting pass (p.keep keepLeft keepRight) k = right :: rest.filter keepRight := by
      rw [waiting_keep hp hp', hw, List.filter_cons_of_pos hright]
    rw [hv, keep_push hleft, visit_of_waiting_cons (hfree.2 hlfree) hk hw']

/-- A visit to an item that is not kept cannot be seen among the kept ones. -/
theorem keep_visit_of_dropped (hl : left ∈ p.lefts) (hleft : keepLeft left = false) :
    (visit pass p left).keep keepLeft keepRight = p.keep keepLeft keepRight := by
  rcases visit_cases pass hl with ⟨hv, -⟩ | ⟨k, right, rest, -, -, -, hv⟩
  · rw [hv]
  · rw [hv, keep_push_of_dropped hleft]

theorem foldl_visit_keep (hp : p.Proper) (lefts : List α) (hl : lefts ⊆ p.lefts)
    (h : (lefts.foldl (visit pass) p).Unsplit keepLeft keepRight) :
    (lefts.filter keepLeft).foldl (visit pass) (p.keep keepLeft keepRight) =
      (lefts.foldl (visit pass) p).keep keepLeft keepRight := by
  induction lefts generalizing p with
  | nil => rfl
  | cons left lefts ih =>
      obtain ⟨hleft, htail⟩ := List.cons_subset.1 hl
      have hgrows := grows_visit pass p left
      have hnext := ih (proper_visit hp hleft) (by rwa [hgrows.lefts_eq]) h
      rw [List.foldl_cons, ← hnext]
      cases hkeep : keepLeft left with
      | true =>
          have hvisit := h.of_grows (grows_foldl_visit pass lefts (visit pass p left))
          rw [List.filter_cons_of_pos hkeep, List.foldl_cons, visit_keep hp hleft hkeep hvisit]
      | false =>
          rw [List.filter_cons_of_neg (by simp [hkeep]), keep_visit_of_dropped hleft hkeep]

theorem sweep_keep (hp : p.Proper) (h : (sweep p pass).Unsplit keepLeft keepRight) :
    sweep (p.keep keepLeft keepRight) pass = (sweep p pass).keep keepLeft keepRight :=
  foldl_visit_keep hp p.lefts (List.Subset.refl _) h

/-- **A run over the kept items records the kept pairs**, from any proper pairing. -/
theorem run_keep (hp : p.Proper) (passes : List (Pass α β κ))
    (h : (run passes p).Unsplit keepLeft keepRight) :
    run passes (p.keep keepLeft keepRight) = (run passes p).keep keepLeft keepRight := by
  induction passes generalizing p with
  | nil => rfl
  | cons pass passes ih =>
      have hsweep := h.of_grows (grows_run passes (sweep p pass))
      have hnext := ih (proper_sweep hp pass) h
      rw [← sweep_keep hp hsweep] at hnext
      exact hnext

end Keeping

section Leftovers

theorem pairs_prefix_visit (pass : Pass α β κ) (p : Pairing α β) (left : α) :
    p.pairs <+: (visit pass p left).pairs := by
  unfold visit
  split
  · split
    · exact List.prefix_append _ _
    · exact List.prefix_rfl
  · exact List.prefix_rfl

theorem pairs_prefix_sweep (pass : Pass α β κ) (p : Pairing α β) :
    p.pairs <+: (sweep p pass).pairs :=
  List.foldlRecOn p.lefts (visit pass) (motive := fun q => p.pairs <+: q.pairs) List.prefix_rfl
    fun q hq left _ => hq.trans (pairs_prefix_visit pass q left)

/-- A run only adds pairs at the end. -/
theorem pairs_prefix_run (passes : List (Pass α β κ)) (p : Pairing α β) :
    p.pairs <+: (run passes p).pairs :=
  List.foldlRecOn passes sweep (motive := fun q => p.pairs <+: q.pairs) List.prefix_rfl
    fun q hq pass _ => hq.trans (pairs_prefix_sweep pass q)

/-- Passes over the leftovers do what they do after the earlier passes. -/
theorem run_start_leftovers (hp : p.Proper) (passes : List (Pass α β κ)) :
    run passes (start p.unmatchedLefts p.unmatchedRights) =
      (run passes p).keep p.freeLeft p.freeRight := by
  rw [← hp.keep_free]
  exact run_keep hp passes (hp.unsplit_free (proper_run hp passes) (grows_run passes p))

/-- A run continues what was there with a run of its own over the leftovers. -/
theorem continues_run {p : Pairing α β} (hp : p.Proper) (passes : List (Pass α β κ)) :
    Continues p (run passes (start p.unmatchedLefts p.unmatchedRights)) (run passes p) := by
  have hgrows := grows_run passes p
  have hproper := proper_run hp passes
  have hkeep := run_start_leftovers hp passes
  obtain ⟨new, hnew⟩ := pairs_prefix_run passes p
  generalize run passes p = whole at hgrows hproper hkeep hnew
  have hunsplit := hp.unsplit_free hproper hgrows
  have hstart := grows_run passes (start p.unmatchedLefts p.unmatchedRights)
  refine ⟨hstart.lefts_eq, hstart.rights_eq, ?_, ?_, ?_⟩
  · rw [hkeep, keep, hp.filter_freeLeft_append hproper hgrows hnew, hnew]
  · rw [hkeep, hproper.unmatchedLefts_keep, List.filter_eq_self.2]
    intro left hleft
    exact (List.mem_filter.1 (hgrows.unmatchedLefts_subset hp hproper hleft)).2
  · rw [hkeep, hproper.unmatchedRights_keep hunsplit, List.filter_eq_self.2]
    intro right hright
    exact (List.mem_filter.1 (hgrows.unmatchedRights_subset hp hproper hright)).2

end Leftovers
end Plain

section Removal

variable {α β κ : Type} [Identified α] [Identified β] [DecidableEq κ]

/-- **Items that are taken away do not matter to the others.**  Taken away may be any items that
the cascade leaves over, and both items of any of its pairs. -/
theorem removed_items_do_not_matter (passes : List (Pass α β κ)) {lefts : List α}
    {rights : List β} (hl : (lefts.map handle).Nodup) (hr : (rights.map handle).Nodup) :
    ∃ p, Cascade.pair passes lefts rights = .ok p ∧
      ∀ (keepLeft : α → Bool) (keepRight : β → Bool), p.Unsplit keepLeft keepRight →
        ∃ p', Cascade.pair passes (lefts.filter keepLeft) (rights.filter keepRight) = .ok p' ∧
          p'.pairs = p.pairs.filter (fun q => keepLeft q.1) ∧
          p'.unmatchedLefts = p.unmatchedLefts.filter keepLeft ∧
          p'.unmatchedRights = p.unmatchedRights.filter keepRight ∧
          ((∀ q ∈ p.pairs, keepLeft q.1 = true) → p'.pairs = p.pairs) := by
  obtain ⟨hpair, hp, -⟩ := Plain.pair_proper passes hl hr
  refine ⟨_, hpair, fun keepLeft keepRight hunsplit => ?_⟩
  have hl' : ((lefts.filter keepLeft).map handle).Nodup :=
    hl.sublist (List.filter_sublist.map _)
  have hr' : ((rights.filter keepRight).map handle).Nodup :=
    hr.sublist (List.filter_sublist.map _)
  have hkeep : Plain.pair passes (lefts.filter keepLeft) (rights.filter keepRight) =
      (Plain.pair passes lefts rights).keep keepLeft keepRight :=
    Plain.run_keep (Pairing.proper_start hl hr) passes hunsplit
  refine ⟨_, (Plain.pair_proper passes hl' hr').1, ?_, ?_, ?_, ?_⟩
  · rw [hkeep]
    rfl
  · rw [hkeep, hp.unmatchedLefts_keep]
  · rw [hkeep, hp.unmatchedRights_keep hunsplit]
  · intro hall
    rw [hkeep, Pairing.keep, List.filter_eq_self.2 hall]

/-- Taken away are 7, which is left over, and 30 with its partner 6.  Only then does the cascade
stop before its end. -/
theorem removed_items_do_not_matter_numbers :
    (([30, 1, 4, 3, 7] : List Nat).map handle).Nodup ∧
      (([6, 21, 31, 8] : List Nat).map handle).Nodup ∧
      ∃ p p', Cascade.pair Plain.numberPasses [30, 1, 4, 3, 7] [6, 21, 31, 8] = .ok p ∧
        p.Unsplit (fun l => decide (l ≠ 7 ∧ l ≠ 30)) (fun r => decide (r ≠ 6)) ∧
        p.pairs = [(1, 21), (30, 6), (4, 8), (3, 31)] ∧
        Cascade.pair Plain.numberPasses [1, 4, 3] [21, 31, 8] = .ok p' ∧
        p'.pairs = [(1, 21), (4, 8), (3, 31)] := by
  refine ⟨by decide, by decide, ?_⟩
  obtain ⟨p, hp, hkept⟩ :=
    @removed_items_do_not_matter Nat Nat Nat _ _ _ Plain.numberPasses [30, 1, 4, 3, 7]
      [6, 21, 31, 8] (by decide) (by decide)
  have hpairs : (Cascade.pair Plain.numberPasses [30, 1, 4, 3, 7] [6, 21, 31, 8]).map
      Pairing.pairs = .ok [(1, 21), (30, 6), (4, 8), (3, 31)] := by
    decide
  rw [hp] at hpairs
  have hpairs := Except.ok.inj hpairs
  have hunsplit : p.Unsplit (fun l => decide (l ≠ 7 ∧ l ≠ 30)) (fun r => decide (r ≠ 6)) := by
    simp [Pairing.Unsplit, hpairs]
  obtain ⟨p', hp', hpairs', -⟩ := hkept _ _ hunsplit
  refine ⟨p, p', hp, hunsplit, hpairs, hp', ?_⟩
  rw [hpairs', hpairs]
  decide

end Removal

section Composition

variable {α β κ : Type}

/-- Both items are without a location, and of one rule and message. -/
def Traits.FileLevelTwins (a b : Traits) : Prop :=
  (a.line = none ∧ a.hasTextRange = false) ∧ (b.line = none ∧ b.hasTextRange = false) ∧
    a.ruleKey = b.ruleKey ∧ a.message = b.message

/-- The cascade of the first passes, continued by one of the others over its leftovers. -/
theorem Plain.exists_continues [Identified α] [Identified β] [DecidableEq κ]
    (first second : List (Pass α β κ)) {lefts : List α} {rights : List β}
    (hl : (lefts.map handle).Nodup) (hr : (rights.map handle).Nodup) :
    ∃ p q whole, Cascade.pair first lefts rights = .ok p ∧
      Cascade.pair second p.unmatchedLefts p.unmatchedRights = .ok q ∧
      Cascade.pair (first ++ second) lefts rights = .ok whole ∧ Pairing.Continues p q whole := by
  obtain ⟨hpair, hp, -⟩ := Plain.pair_proper first hl hr
  refine ⟨_, _, _, hpair,
    (pair_proper second hp.unmatchedLefts_nodup hp.unmatchedRights_nodup).1,
    (pair_proper (first ++ second) hl hr).1, ?_⟩
  have happend : pair (first ++ second) lefts rights = run second (pair first lefts rights) :=
    List.foldl_append
  rw [happend]
  exact continues_run hp second

variable [Matchable α] [Matchable β]

theorem fileLevelTwins_of_agrees {left : α} {right : β}
    (h : (Criterion.fileLevelMessage.pass : Pass α β Key).Agrees left right) :
    (Matchable.traits left).FileLevelTwins (Matchable.traits right) := by
  obtain ⟨hrule, hleft, hright, hmessage, -⟩ := (Criterion.agrees_pass_iff _).1 h
  exact ⟨hleft, hright, hrule, hmessage⟩

/-- The criterion for items without a location is the last one. -/
theorem Criterion.standard_true (server : Bool) :
    Criterion.standard server true = Criterion.standard server false ++ [.fileLevelMessage] := by
  cases server <;> rfl

/-- **Cascades compose.**  A cascade of passes one after the other pairs what the first ones pair,
and then what a new cascade of the others pairs among the leftovers.  So a rebase is a pairing by
keys of the server and an analysis of what is left; and the criterion for items without a location
leaves every other pair as it is, and only adds pairs of such items. -/
theorem cascades_compose [DecidableEq κ] (first second : List (Pass α β κ)) {lefts : List α}
    {rights : List β} (hl : (lefts.map handle).Nodup) (hr : (rights.map handle).Nodup) :
    (∃ p q whole, Cascade.pair first lefts rights = .ok p ∧
      Cascade.pair second p.unmatchedLefts p.unmatchedRights = .ok q ∧
      Cascade.pair (first ++ second) lefts rights = .ok whole ∧ Pairing.Continues p q whole) ∧
    (∀ fileLevel, ∃ linked located whole,
      Cascade.pairBy [.serverIssueKey] lefts rights = .ok linked ∧
      Cascade.pairBy (Criterion.forAnalysis fileLevel) linked.unmatchedLefts
        linked.unmatchedRights = .ok located ∧
      Cascade.pairBy (Criterion.forServer fileLevel) lefts rights = .ok whole ∧
      Pairing.Continues linked located whole) ∧
    ∀ server, ∃ without whole added,
      Cascade.pairBy (Criterion.standard server false) lefts rights = .ok without ∧
      Cascade.pairBy (Criterion.standard server true) lefts rights = .ok whole ∧
      whole.pairs = without.pairs ++ added ∧
      ∀ q ∈ added, (Matchable.traits q.1).FileLevelTwins (Matchable.traits q.2) := by
  refine ⟨Plain.exists_continues first second hl hr, ?_, ?_⟩
  · intro fileLevel
    exact Plain.exists_continues [Criterion.serverIssueKey.pass]
      ((Criterion.forAnalysis fileLevel).map Criterion.pass) hl hr
  · intro server
    obtain ⟨without, q, whole, hwithout, hq, hwhole, hcontinues⟩ :=
      Plain.exists_continues ((Criterion.standard server false).map Criterion.pass)
        [Criterion.fileLevelMessage.pass] hl hr
    refine ⟨without, whole, q.pairs, hwithout, ?_, hcontinues.pairs_eq, ?_⟩
    · rw [Criterion.standard_true, Cascade.pairBy, List.map_append]
      exact hwhole
    · obtain rfl := Plain.eq_of_pair_eq_ok hl hr hwithout
      obtain ⟨-, hp, -⟩ :=
        Plain.pair_proper ((Criterion.standard server false).map Criterion.pass) hl hr
      obtain rfl := Plain.eq_of_pair_eq_ok hp.unmatchedLefts_nodup hp.unmatchedRights_nodup hq
      have hstable := Plain.stable_pair [Criterion.fileLevelMessage.pass]
        hp.unmatchedLefts_nodup hp.unmatchedRights_nodup
      rintro ⟨l, r⟩ hmem
      obtain ⟨pass, hpass, hagree⟩ := hstable.exists_agrees hmem
      obtain rfl := List.mem_singleton.1 hpass
      exact fileLevelTwins_of_agrees hagree

/-- A finding without a location, perhaps with a key of the server or the hash of a line. -/
def Candidate.unlocated (handle : Nat) (key : Option String) (hash : Option Int) : Candidate where
  handle := handle
  traits := ⟨"R", some "m", none, false, hash, none, key⟩

/-- One pair shares a key, one the hash of a line, and the last one is added for its message. -/
theorem cascades_compose_candidates :
    let lefts := [Candidate.unlocated 1 none none, .unlocated 2 none (some 7),
      .unlocated 3 (some "K") none]
    let rights := [Candidate.unlocated 4 (some "K") none, .unlocated 5 none (some 7),
      .unlocated 6 none none]
    (lefts.map handle).Nodup ∧ (rights.map handle).Nodup ∧ ∃ without whole added,
      Cascade.pairBy (Criterion.standard true false) lefts rights = .ok without ∧
      Cascade.pairBy (Criterion.standard true true) lefts rights = .ok whole ∧
      whole.pairs = without.pairs ++ added ∧
      (without.pairs.map fun q => (q.1.handle, q.2.handle)) = [(3, 4), (2, 5)] ∧
      (whole.pairs.map fun q => (q.1.handle, q.2.handle)) = [(3, 4), (2, 5), (1, 6)] ∧
      ∀ q ∈ added, (Matchable.traits q.1).FileLevelTwins (Matchable.traits q.2) := by
  intro lefts rights
  have hl : (lefts.map handle).Nodup := by decide
  have hr : (rights.map handle).Nodup := by decide
  obtain ⟨-, -, hserver⟩ := cascades_compose [Criterion.lineHash.pass]
    [Criterion.fileLevelMessage.pass] hl hr
  obtain ⟨without, whole, added, hwithout, hwhole, hpairs, htwins⟩ := hserver true
  have hbefore : (Cascade.pairBy (Criterion.standard true false) lefts rights).map
      (fun p => p.pairs.map fun q => (q.1.handle, q.2.handle)) = .ok [(3, 4), (2, 5)] := by
    decide
  have hafter : (Cascade.pairBy (Criterion.standard true true) lefts rights).map
      (fun p => p.pairs.map fun q => (q.1.handle, q.2.handle)) =
        .ok [(3, 4), (2, 5), (1, 6)] := by
    decide
  rw [hwithout] at hbefore
  rw [hwhole] at hafter
  exact ⟨hl, hr, without, whole, added, hwithout, hwhole, hpairs, Except.ok.inj hbefore,
    Except.ok.inj hafter, htwins⟩

end Composition
end FindingLedger
