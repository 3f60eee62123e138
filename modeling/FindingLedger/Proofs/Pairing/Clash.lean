import FindingLedger.Proofs.Pairing.Stability
import Mathlib.Data.List.Perm.Subperm

/-!
# Where a cascade can fail

A pass pairs free items only, and a pair of free items is always recorded.  So a cascade can fail
only when one pass comes to an item twice, and for that a list has to name the item twice.

**Input.**  Two lists that may name items any number of times, and passes.

**Algorithm.**  In a pass a free left item that has a key falls due together with the free right
item that has the same place among those of the key; a left item whose place is too high does not
fall due.  The pass records what is due, in the order of the lefts, up to the first pair that names
an item again.

**Results.**
* `runPass_eq_recordAll`: a pass does just that, whatever the lists are.
* `filter_due`: under each key the two lists are due one by one, as far as the shorter one goes.
* `runPass_cases`: so a pass succeeds if no item is due twice, and else fails at the first of them.
* `apart_due_iff`: no item is due twice exactly if it is not due twice under one key.
* `run_eq_error_iff`: a cascade fails with the first pass that fails.
* `repeated_items_clash`: all this about a whole cascade, which never takes lefts with a repetition
  for complete.
* `pair_clash`: with lefts that differ it fails at a right item, and only if the rights repeat one.
-/

namespace FindingLedger

open Identified

/-- Occurrences with one handle are occurrences of one item. -/
def TellsApart {γ : Type} [Identified γ] (items : List γ) : Prop :=
  ∀ x ∈ items, ∀ y ∈ items, handle x = handle y → x = y

instance {γ : Type} [Identified γ] [DecidableEq γ] (items : List γ) :
    Decidable (TellsApart items) :=
  inferInstanceAs (Decidable (∀ x ∈ items, ∀ y ∈ items, handle x = handle y → x = y))

theorem tellsApart_of_nodup {γ : Type} [Identified γ] {items : List γ}
    (h : (items.map handle).Nodup) : TellsApart items :=
  fun _ hx _ hy => List.inj_on_of_nodup_map h hx hy

/-- Values do not repeat if they do not repeat among the items of any one key. -/
theorem nodup_map_iff_filter {γ δ κ : Type} [DecidableEq κ] {f : γ → δ} (key : γ → Option κ)
    {zs : List γ} (hkey : ∀ z ∈ zs, key z ≠ none)
    (hsame : ∀ z ∈ zs, ∀ w ∈ zs, f z = f w → key z = key w) :
    (zs.map f).Nodup ↔ ∀ k, ((zs.filter fun z => decide (key z = some k)).map f).Nodup := by
  constructor
  · exact fun h k => h.sublist (List.filter_sublist.map f)
  · intro h
    induction zs with
    | nil => simp
    | cons z zs ih =>
        obtain ⟨hz, hzs⟩ := List.forall_mem_cons.1 hkey
        have htail := ih hzs
          (fun w hw v hv => hsame w (List.mem_cons_of_mem _ hw) v (List.mem_cons_of_mem _ hv))
          fun k => (h k).sublist (((List.sublist_cons_self z zs).filter _).map f)
        rw [List.map_cons, List.nodup_cons]
        refine ⟨fun hmem => ?_, htail⟩
        obtain ⟨w, hw, hfw⟩ := List.mem_map.1 hmem
        obtain ⟨k, hk⟩ := Option.ne_none_iff_exists'.1 hz
        have hkw : key w = some k :=
          (hsame w (List.mem_cons_of_mem _ hw) z List.mem_cons_self hfw).trans hk
        have hcons := h k
        rw [List.filter_cons_of_pos (by simp [hk]), List.map_cons, List.nodup_cons] at hcons
        exact hcons.1 (hfw ▸ List.mem_map_of_mem (List.mem_filter.2 ⟨hw, by simp [hkw]⟩))

namespace Pairing

section Recording

variable {α β : Type}

/-- The pairing with more pairs at the end. -/
def extend (p : Pairing α β) (zs : List (α × β)) : Pairing α β :=
  { p with pairs := p.pairs ++ zs }

theorem extend_nil (p : Pairing α β) : p.extend [] = p := by
  simp [extend]

variable [Identified α] [Identified β]

/-- Records pairs one after the other. -/
def recordAll : List (α × β) → Pairing α β → Except Clash (Pairing α β)
  | [], p => .ok p
  | z :: zs, p => (p.record z.1 z.2).bind (recordAll zs)

/-- No two of the pairs have an item in common. -/
structure Apart (zs : List (α × β)) : Prop where
  lefts_nodup : (zs.map fun z => handle z.1).Nodup
  rights_nodup : (zs.map fun z => handle z.2).Nodup

/-- The pair names an item that a pair before it names; its left item counts first. -/
inductive Collides (before : List (α × β)) (z : α × β) : Clash → Prop
  | left (h : handle z.1 ∈ before.map fun w => handle w.1) : Collides before z .leftTaken
  | right (hfree : handle z.1 ∉ before.map fun w => handle w.1)
      (h : handle z.2 ∈ before.map fun w => handle w.2) : Collides before z .rightTaken

theorem Collides.not_apart {before after : List (α × β)} {z : α × β} {cause : Clash}
    (h : Collides before z cause) : ¬ Apart (before ++ z :: after) := by
  rintro ⟨hl, hr⟩
  rw [List.map_append, List.map_cons] at hl hr
  cases h with
  | left h => exact List.disjoint_of_nodup_append hl h List.mem_cons_self
  | right _ h => exact List.disjoint_of_nodup_append hr h List.mem_cons_self

variable {p : Pairing α β} {zs : List (α × β)} {left : α} {right : β}

omit [Identified β] in
/-- A free left item is still free if none of the pairs that were added names it. -/
theorem rightFor_extend_isSome (done : List (α × β)) (hfree : p.rightFor left = none) :
    ((p.extend done).rightFor left).isSome ↔ handle left ∈ done.map fun z => handle z.1 := by
  have hnone := Option.map_eq_none_iff.1 hfree
  simp [rightFor, extend, List.find?_append, hnone]

omit [Identified α] in
theorem leftFor_extend_isSome (done : List (α × β)) (hfree : p.leftFor right = none) :
    ((p.extend done).leftFor right).isSome ↔ handle right ∈ done.map fun z => handle z.2 := by
  have hnone := Option.map_eq_none_iff.1 hfree
  simp [leftFor, extend, List.find?_append, hnone]

theorem Apart.concat {done : List (α × β)} {z : α × β} (h : Apart done)
    (hl : handle z.1 ∉ done.map fun w => handle w.1)
    (hr : handle z.2 ∉ done.map fun w => handle w.2) : Apart (done ++ [z]) := by
  constructor
  · rw [List.map_append]
    exact h.lefts_nodup.append (by simp) (by simpa using hl)
  · rw [List.map_append]
    exact h.rights_nodup.append (by simp) (by simpa using hr)

/-- A further pair of items that were free is recorded, unless a pair that was added has one of
them. -/
theorem record_extend_cases {done : List (α × β)} {z : α × β} (hdone : Apart done)
    (hl : p.rightFor z.1 = none) (hr : p.leftFor z.2 = none) :
    Apart (done ++ [z]) ∧ (p.extend done).record z.1 z.2 = .ok (p.extend (done ++ [z])) ∨
      ∃ cause, Collides done z cause ∧ (p.extend done).record z.1 z.2 = .error cause := by
  have hleft := rightFor_extend_isSome done hl
  have hright := leftFor_extend_isSome done hr
  rw [record]
  by_cases hl' : handle z.1 ∈ done.map fun w => handle w.1
  · exact Or.inr ⟨.leftTaken, .left hl', if_pos (hleft.2 hl')⟩
  · rw [if_neg (mt hleft.1 hl')]
    by_cases hr' : handle z.2 ∈ done.map fun w => handle w.2
    · exact Or.inr ⟨.rightTaken, .right hl' hr', if_pos (hright.2 hr')⟩
    · refine Or.inl ⟨hdone.concat hl' hr', ?_⟩
      rw [if_neg (mt hright.1 hr')]
      simp [push, extend]

/-- What recording pairs of free items comes to. -/
theorem recordAll_cases {done : List (α × β)} (hdone : Apart done)
    (hl : ∀ z ∈ zs, p.rightFor z.1 = none) (hr : ∀ z ∈ zs, p.leftFor z.2 = none) :
    Apart (done ++ zs) ∧ recordAll zs (p.extend done) = .ok (p.extend (done ++ zs)) ∨
      ∃ before z after cause, zs = before ++ z :: after ∧ Apart (done ++ before) ∧
        Collides (done ++ before) z cause ∧ recordAll zs (p.extend done) = .error cause := by
  induction zs generalizing done with
  | nil => exact Or.inl ⟨by rwa [List.append_nil], by rw [List.append_nil]; rfl⟩
  | cons z zs ih =>
      obtain ⟨hzl, hl⟩ := List.forall_mem_cons.1 hl
      obtain ⟨hzr, hr⟩ := List.forall_mem_cons.1 hr
      rw [recordAll]
      rcases record_extend_cases hdone hzl hzr with ⟨hnext, hok⟩ | ⟨cause, hz, herr⟩
      · rw [hok, Except.bind]
        rcases ih hnext hl hr with
          ⟨hapart, hrest⟩ | ⟨before, w, after, cause, rfl, hapart, hw, hrest⟩
        · rw [List.append_assoc] at hapart hrest
          exact Or.inl ⟨hapart, hrest⟩
        · rw [List.append_assoc] at hapart hw
          exact Or.inr ⟨z :: before, w, after, cause, rfl, hapart, hw, hrest⟩
      · refine Or.inr ⟨[], z, zs, cause, rfl, ?_, ?_, ?_⟩
        · rwa [List.append_nil]
        · rwa [List.append_nil]
        · rw [herr, Except.bind]

end Recording
end Pairing

namespace Plain

open Pairing

variable {α β κ : Type} [Identified α] [Identified β] [DecidableEq κ]
variable {pass : Pass α β κ} {p : Pairing α β}

section Due

/-- How many of some lefts come with a key. -/
def offered (pass : Pass α β κ) (lefts : List α) (k : κ) : Nat :=
  lefts.countP fun left => decide (pass.leftKey left = some k)

/-- A free left item at its position, with the right item that has the same place under its key. -/
def dueAt (pass : Pass α β κ) (p : Pairing α β) (z : α × Nat) : Option (α × β) :=
  (pass.leftKey z.1).bind fun k =>
    ((waiting pass p k)[offered pass (p.unmatchedLefts.take z.2) k]?).map fun right =>
      (z.1, right)

/-- The pairs that fall due in a pass, in the order of the lefts. -/
def due (pass : Pass α β κ) (p : Pairing α β) : List (α × β) :=
  p.unmatchedLefts.zipIdx.filterMap (dueAt pass p)

/-- The rights of a key that are left when some lefts have had their turn. -/
def remaining (pass : Pass α β κ) (p : Pairing α β) (seen : List α) (k : κ) : List β :=
  (waiting pass p k).drop (offered pass seen k)

omit [Identified α] in
theorem remaining_concat_of_key {seen : List α} {left : α} {k : κ}
    (hk : pass.leftKey left = some k) :
    remaining pass p (seen ++ [left]) k = (remaining pass p seen k).tail := by
  simp [remaining, offered, List.countP_append, hk]

omit [Identified α] in
theorem remaining_concat_of_ne {seen : List α} {left : α} {k : κ}
    (hk : pass.leftKey left ≠ some k) :
    remaining pass p (seen ++ [left]) k = remaining pass p seen k := by
  simp [remaining, offered, List.countP_append, hk]

theorem dueAt_of_no_key {left : α} {i : Nat} (hk : pass.leftKey left = none) :
    dueAt pass p (left, i) = none := by
  simp [dueAt, hk]

theorem fst_of_dueAt {z : α × Nat} {w : α × β} (h : dueAt pass p z = some w) : w.1 = z.1 := by
  simp only [dueAt, Option.bind_eq_some_iff, Option.map_eq_some_iff] at h
  obtain ⟨k, -, right, -, rfl⟩ := h
  rfl

/-- The next left item falls due with the first of the rights that are left under its key. -/
theorem dueAt_of_key {seen lefts : List α} {left : α} {k : κ}
    (hU : p.unmatchedLefts = seen ++ left :: lefts) (hk : pass.leftKey left = some k) :
    dueAt pass p (left, seen.length) =
      (remaining pass p seen k).head?.map fun right => (left, right) := by
  simp [dueAt, hk, hU, remaining, List.head?_drop]

/-- A walk through the lefts records what falls due, as long as each bucket holds the rights that
are left under its key. -/
theorem pairLefts_eq_recordAll (seen : List α) {lefts : List α}
    (hU : p.unmatchedLefts = seen ++ lefts) (buckets : Buckets κ β) (q : Pairing α β)
    (hq : ∀ k, Buckets.queue k buckets = remaining pass p seen k) :
    Cascade.pairLefts pass.leftKey lefts buckets q =
      recordAll ((lefts.zipIdx seen.length).filterMap (dueAt pass p)) q := by
  induction lefts generalizing seen buckets q with
  | nil => rfl
  | cons left lefts ih =>
      have hU' : p.unmatchedLefts = (seen ++ [left]) ++ lefts := by
        rw [hU, List.append_assoc, List.singleton_append]
      have hnext := ih (seen ++ [left]) hU'
      rw [List.length_append, List.length_singleton] at hnext
      rw [List.zipIdx_cons]
      cases hk : pass.leftKey left with
      | none =>
          rw [List.filterMap_cons_none (dueAt_of_no_key hk)]
          have hq' : ∀ k, Buckets.queue k buckets = remaining pass p (seen ++ [left]) k := by
            intro k
            rw [remaining_concat_of_ne (by simp [hk]), hq k]
          simpa [Cascade.pairLefts, hk] using hnext buckets q hq'
      | some k =>
          have hdue := dueAt_of_key hU hk
          cases htake : Buckets.take k buckets with
          | none =>
              have hempty := (Buckets.take_eq_none_iff k buckets).1 htake
              rw [← hq k, hempty, List.head?_nil, Option.map_none] at hdue
              rw [List.filterMap_cons_none hdue]
              have hq' : ∀ k', Buckets.queue k' buckets =
                  remaining pass p (seen ++ [left]) k' := by
                intro k'
                by_cases h : pass.leftKey left = some k'
                · obtain rfl := Option.some.inj (hk.symm.trans h)
                  rw [remaining_concat_of_key hk, ← hq k, hempty, List.tail_nil]
                · rw [remaining_concat_of_ne h, hq k']
              simpa [Cascade.pairLefts, hk, htake] using hnext buckets q hq'
          | some taken =>
              obtain ⟨right, rest⟩ := taken
              have hqueue := Buckets.queue_take htake
              have hfirst := hqueue k
              rw [if_pos rfl] at hfirst
              rw [← hq k, hfirst, List.head?_cons, Option.map_some] at hdue
              rw [List.filterMap_cons_some hdue, recordAll]
              have hq' : ∀ k', Buckets.queue k' rest = remaining pass p (seen ++ [left]) k' := by
                intro k'
                by_cases h : pass.leftKey left = some k'
                · obtain rfl := Option.some.inj (hk.symm.trans h)
                  rw [remaining_concat_of_key hk, ← hq k, hfirst, List.tail_cons]
                · have hne : k' ≠ k := fun e => h (e ▸ hk)
                  have hother := hqueue k'
                  rw [if_neg hne] at hother
                  rw [remaining_concat_of_ne h, ← hq k', hother]
              cases hrecord : q.record left right with
              | error e => simp [Cascade.pairLefts, hk, htake, hrecord, Except.bind]
              | ok q' =>
                  simpa [Cascade.pairLefts, hk, htake, hrecord, Except.bind] using
                    hnext rest q' hq'

/-- **A pass records what falls due**, whatever the lists are. -/
theorem runPass_eq_recordAll (pass : Pass α β κ) (p : Pairing α β) :
    Cascade.runPass pass p = recordAll (due pass p) p := by
  have hwalk : Cascade.pairLefts pass.leftKey p.unmatchedLefts
      (Buckets.ofList pass.rightKey p.unmatchedRights) p = recordAll (due pass p) p :=
    pairLefts_eq_recordAll [] rfl _ p fun k =>
      Buckets.queue_ofList pass.rightKey p.unmatchedRights k
  rw [Cascade.runPass]
  by_cases hempty : (Buckets.ofList pass.rightKey p.unmatchedRights).isEmpty
  · rw [if_pos hempty, ← hwalk, List.isEmpty_iff.1 hempty, pairLefts_nil]
  · rw [if_neg hempty, hwalk]

theorem filter_filterMap_dueAt (seen : List α) {lefts : List α}
    (hU : p.unmatchedLefts = seen ++ lefts) (k : κ) :
    (((lefts.zipIdx seen.length).filterMap (dueAt pass p)).filter fun z =>
        decide (pass.leftKey z.1 = some k)) =
      (lefts.filter fun left => decide (pass.leftKey left = some k)).zip
        (remaining pass p seen k) := by
  induction lefts generalizing seen with
  | nil => rfl
  | cons left lefts ih =>
      have hU' : p.unmatchedLefts = (seen ++ [left]) ++ lefts := by
        rw [hU, List.append_assoc, List.singleton_append]
      have hnext := ih (seen ++ [left]) hU'
      rw [List.length_append, List.length_singleton] at hnext
      rw [List.zipIdx_cons]
      by_cases hk : pass.leftKey left = some k
      · have hdue := dueAt_of_key hU hk
        rw [remaining_concat_of_key hk] at hnext
        rw [List.filter_cons_of_pos (by simp [hk])]
        cases hqueue : remaining pass p seen k with
        | nil =>
            rw [hqueue, List.head?_nil, Option.map_none] at hdue
            rw [List.filterMap_cons_none hdue, hnext, hqueue, List.tail_nil, List.zip_nil_right,
              List.zip_nil_right]
        | cons right rest =>
            rw [hqueue, List.head?_cons, Option.map_some] at hdue
            rw [List.filterMap_cons_some hdue, List.filter_cons_of_pos (by simp [hk]), hnext,
              hqueue, List.tail_cons, List.zip_cons_cons]
      · rw [remaining_concat_of_ne hk] at hnext
        rw [List.filter_cons_of_neg (by simp [hk]), ← hnext]
        cases hdue : dueAt pass p (left, seen.length) with
        | none => rw [List.filterMap_cons_none hdue]
        | some z =>
            have hz : z.1 = left := fst_of_dueAt hdue
            rw [List.filterMap_cons_some hdue, List.filter_cons_of_neg (by simp [hz, hk])]

/-- **What falls due under a key**: the items of the key one by one, as far as the shorter list
goes. -/
theorem filter_due (pass : Pass α β κ) (p : Pairing α β) (k : κ) :
    ((due pass p).filter fun z => decide (pass.leftKey z.1 = some k)) =
      (offering pass p k).zip (waiting pass p k) :=
  filter_filterMap_dueAt [] rfl k

theorem meets_of_mem_due {z : α × β} (hz : z ∈ due pass p) : Meets pass p z.1 z.2 := by
  obtain ⟨w, -, hw⟩ := List.mem_filterMap.1 hz
  simp only [dueAt, Option.bind_eq_some_iff, Option.map_eq_some_iff] at hw
  obtain ⟨k, hk, right, -, rfl⟩ := hw
  refine ⟨k, ?_⟩
  rw [← filter_due]
  exact List.mem_filter.2 ⟨hz, by simp [hk]⟩

/-- **How a pass ends.**  It records all that is due if no item is due twice, and else it fails at
the first pair that names an item again. -/
theorem runPass_cases (pass : Pass α β κ) (p : Pairing α β) :
    Apart (due pass p) ∧ Cascade.runPass pass p = .ok (p.extend (due pass p)) ∨
      ∃ before z after cause, due pass p = before ++ z :: after ∧ Apart before ∧
        Collides before z cause ∧ Cascade.runPass pass p = .error cause := by
  rw [runPass_eq_recordAll]
  have hl : ∀ z ∈ due pass p, p.rightFor z.1 = none :=
    fun _ hz => rightFor_eq_none_of_mem (meets_of_mem_due hz).free.1
  have hr : ∀ z ∈ due pass p, p.leftFor z.2 = none :=
    fun _ hz => leftFor_eq_none_of_mem (meets_of_mem_due hz).free.2
  have hcases := recordAll_cases (⟨by simp, by simp⟩ : Apart ([] : List (α × β))) hl hr
  rwa [extend_nil] at hcases

end Due

section Crowding

/-- How many items of a key find a counterpart. -/
def meeting (pass : Pass α β κ) (p : Pairing α β) (k : κ) : Nat :=
  min (offering pass p k).length (waiting pass p k).length

/-- Among the items of a key that find a counterpart, on one side, one is listed twice. -/
def Crowded (pass : Pass α β κ) (p : Pairing α β) (k : κ) : Prop :=
  ¬ (((offering pass p k).take (meeting pass p k)).map handle).Nodup ∨
    ¬ (((waiting pass p k).take (meeting pass p k)).map handle).Nodup

instance (pass : Pass α β κ) (p : Pairing α β) (k : κ) : Decidable (Crowded pass p k) :=
  inferInstanceAs (Decidable (_ ∨ _))

theorem map_fst_zip_take {γ δ : Type} (as : List γ) (bs : List δ) :
    (as.zip bs).map Prod.fst = as.take (min as.length bs.length) := by
  rw [List.zip_eq_zip_take_min, List.map_fst_zip]
  simp

theorem map_snd_zip_take {γ δ : Type} (as : List γ) (bs : List δ) :
    (as.zip bs).map Prod.snd = bs.take (min as.length bs.length) := by
  rw [List.zip_eq_zip_take_min, List.map_snd_zip]
  simp

theorem nodup_lefts_due_iff (pass : Pass α β κ) (hl : TellsApart p.lefts) :
    ((due pass p).map fun z => handle z.1).Nodup ↔
      ∀ k, (((offering pass p k).take (meeting pass p k)).map handle).Nodup := by
  rw [nodup_map_iff_filter fun z => pass.leftKey z.1]
  · apply forall_congr'
    intro k
    rw [filter_due, meeting, ← map_fst_zip_take, List.map_map]
    rfl
  · exact fun z hz => (meets_of_mem_due hz).agrees.2
  · intro z hz w hw h
    have hsame := hl z.1 (List.mem_filter.1 (meets_of_mem_due hz).free.1).1 w.1
      (List.mem_filter.1 (meets_of_mem_due hw).free.1).1 h
    rw [hsame]

theorem nodup_rights_due_iff (pass : Pass α β κ) (hr : TellsApart p.rights) :
    ((due pass p).map fun z => handle z.2).Nodup ↔
      ∀ k, (((waiting pass p k).take (meeting pass p k)).map handle).Nodup := by
  rw [nodup_map_iff_filter fun z => pass.leftKey z.1]
  · apply forall_congr'
    intro k
    rw [filter_due, meeting, ← map_snd_zip_take, List.map_map]
    rfl
  · exact fun z hz => (meets_of_mem_due hz).agrees.2
  · -- of a pair that is due, the left item has the key of the right one
    intro z hz w hw h
    have hsame := hr z.2 (List.mem_filter.1 (meets_of_mem_due hz).free.2).1 w.2
      (List.mem_filter.1 (meets_of_mem_due hw).free.2).1 h
    rw [(meets_of_mem_due hz).agrees.1, (meets_of_mem_due hw).agrees.1, hsame]

/-- **No item is due twice exactly if no key is crowded.** -/
theorem apart_due_iff (pass : Pass α β κ) (hl : TellsApart p.lefts) (hr : TellsApart p.rights) :
    Apart (due pass p) ↔ ∀ k, ¬ Crowded pass p k := by
  have hlefts := nodup_lefts_due_iff pass hl
  have hrights := nodup_rights_due_iff pass hr
  constructor
  · rintro ⟨hl', hr'⟩ k (h | h)
    · exact h (hlefts.1 hl' k)
    · exact h (hrights.1 hr' k)
  · intro h
    simp only [Crowded, not_or, not_not] at h
    exact ⟨hlefts.2 fun k => (h k).1, hrights.2 fun k => (h k).2⟩

/-- How a pass ends.  Under each key the items are due one by one, as far as the shorter list goes.
The pass fails exactly if some key is crowded, and otherwise pairs what is due.  It fails at the
first pair, in the order of the lefts, that names an item again; the message is about the left item
if that has got a partner meanwhile, and else about the right one. -/
structure EndsAsCrowded (pass : Pass α β κ) (p : Pairing α β) : Prop where
  filter_due_eq : ∀ k, ((due pass p).filter fun z => decide (pass.leftKey z.1 = some k)) =
    (offering pass p k).zip (waiting pass p k)
  fails_iff : (∃ cause, Cascade.runPass pass p = .error cause) ↔ ∃ k, Crowded pass p k
  pairs : (∀ k, ¬ Crowded pass p k) → Cascade.runPass pass p = .ok (p.extend (due pass p))
  fails_at : ∀ cause, Cascade.runPass pass p = .error cause →
    ∃ before left right after, due pass p = before ++ (left, right) :: after ∧
      Apart before ∧ ¬ Apart (before ++ [(left, right)]) ∧
      cause.message = if ((p.extend before).rightFor left).isSome
        then "left item is already matched" else "right item is already matched"

theorem endsAsCrowded (hl : TellsApart p.lefts) (hr : TellsApart p.rights) :
    EndsAsCrowded pass p := by
  have hcrowded := apart_due_iff pass hl hr
  rcases runPass_cases pass p with
    ⟨hapart, hok⟩ | ⟨before, ⟨left, right⟩, after, cause, hdue, hbefore, hcollides, herr⟩
  · have hnone := hcrowded.1 hapart
    refine ⟨filter_due pass p, ?_, fun _ => hok, ?_⟩
    · constructor
      · rintro ⟨cause, herr⟩
        simp [hok] at herr
      · rintro ⟨k, hk⟩
        exact absurd hk (hnone k)
    · intro cause herr
      simp [hok] at herr
  · have hnot : ¬ Apart (due pass p) := hdue ▸ hcollides.not_apart
    have hsome : ∃ k, Crowded pass p k := not_forall_not.1 fun hnone => hnot (hcrowded.2 hnone)
    refine ⟨filter_due pass p, ⟨fun _ => hsome, fun _ => ⟨cause, herr⟩⟩, ?_, ?_⟩
    · exact fun hnone => absurd (hcrowded.2 hnone) hnot
    · intro cause' herr'
      obtain rfl := Except.error.inj (herr.symm.trans herr')
      refine ⟨before, left, right, after, hdue, hbefore, hcollides.not_apart, ?_⟩
      have hmem : (left, right) ∈ due pass p := by simp [hdue]
      have hfree : p.rightFor left = none :=
        rightFor_eq_none_of_mem (meets_of_mem_due hmem).free.1
      cases hcollides with
      | left h => rw [if_pos ((rightFor_extend_isSome before hfree).2 h), Clash.message]
      | right hnew _ => rw [if_neg (mt (rightFor_extend_isSome before hfree).1 hnew), Clash.message]

end Crowding
end Plain

namespace Cascade

open Pairing Plain

variable {α β κ : Type} [Identified α] [Identified β] [DecidableEq κ]
variable {passes : List (Pass α β κ)} {p q : Pairing α β}

section Runs

/-- What a run keeps: it only adds what falls due in a pass in which no item is due twice. -/
theorem run_induction {motive : Pairing α β → Prop} (h : run passes p = .ok q) (hp : motive p)
    (hstep : ∀ (pass : Pass α β κ) (r : Pairing α β), motive r → Apart (due pass r) →
      motive (r.extend (due pass r))) :
    motive q := by
  induction passes generalizing p with
  | nil =>
      obtain rfl := Except.ok.inj h
      exact hp
  | cons pass passes ih =>
      rw [run] at h
      split at h
      · obtain rfl := Except.ok.inj h
        exact hp
      · rcases runPass_cases pass p with ⟨hapart, hpass⟩ | ⟨-, -, -, cause, -, -, -, hpass⟩
        · rw [hpass] at h
          exact ih h (hstep pass p hp hapart)
        · rw [hpass] at h
          simp at h

/-- A run of more passes goes on from where a run of the first ones ends. -/
theorem run_append (before after : List (Pass α β κ)) (p : Pairing α β) :
    run (before ++ after) p = (run before p).bind (run after) := by
  induction before generalizing p with
  | nil => rfl
  | cons pass before ih =>
      rw [List.cons_append, run, run]
      by_cases hc : p.isComplete
      · rw [if_pos hc, if_pos hc]
        cases after with
        | nil => rfl
        | cons next after => simp [Except.bind, run, hc]
      · rw [if_neg hc, if_neg hc]
        cases runPass pass p with
        | ok q => exact ih q
        | error cause => rfl

/-- A run fails with the first pass that fails. -/
theorem run_eq_error_iff {cause : Clash} :
    run passes p = .error cause ↔
      ∃ before pass rest q, passes = before ++ pass :: rest ∧ run before p = .ok q ∧
        q.isComplete = false ∧ runPass pass q = .error cause := by
  constructor
  · intro h
    induction passes generalizing p with
    | nil => simp [run] at h
    | cons pass passes ih =>
        rw [run] at h
        split at h
        · simp at h
        · rename_i hc
          have hc : p.isComplete = false := Bool.eq_false_iff.2 hc
          cases hpass : runPass pass p with
          | error e =>
              rw [hpass] at h
              obtain rfl := Except.error.inj h
              exact ⟨[], pass, passes, p, rfl, rfl, hc, hpass⟩
          | ok p' =>
              rw [hpass] at h
              obtain ⟨before, next, rest, q, rfl, hrun, hq⟩ := ih h
              refine ⟨pass :: before, next, rest, q, rfl, ?_, hq⟩
              simp [run, hc, hpass, hrun]
  · rintro ⟨before, pass, rest, q, rfl, hrun, hc, hpass⟩
    rw [run_append, hrun]
    simp [Except.bind, run, hc, hpass]

/-- The pairs of a run name only lefts of its list, each of them once. -/
theorem pair_lefts {passes : List (Pass α β κ)} {lefts : List α} {rights : List β}
    (h : pair passes lefts rights = .ok p) :
    p.lefts = lefts ∧ p.rights = rights ∧ (p.pairs.map fun z => handle z.1).Nodup ∧
      ∀ z ∈ p.pairs, z.1 ∈ lefts := by
  refine run_induction h (motive := fun q => q.lefts = lefts ∧ q.rights = rights ∧
    (q.pairs.map fun z => handle z.1).Nodup ∧ ∀ z ∈ q.pairs, z.1 ∈ lefts) ?_ ?_
  · exact ⟨rfl, rfl, List.nodup_nil, by simp [start]⟩
  · rintro pass q ⟨hlefts, hrights, hnodup, hmem⟩ hapart
    refine ⟨hlefts, hrights, ?_, ?_⟩
    · rw [extend, List.map_append]
      refine hnodup.append hapart.lefts_nodup ?_
      -- what is due was free before
      intro k hk hk'
      obtain ⟨z, hz, rfl⟩ := List.mem_map.1 hk'
      have hfree : q.rightFor z.1 = none :=
        rightFor_eq_none_of_mem (meets_of_mem_due hz).free.1
      exact rightFor_eq_none_iff_notMem.1 hfree hk
    · intro z hz
      rcases List.mem_append.1 hz with hz | hz
      · exact hmem z hz
      · exact hlefts ▸ (List.mem_filter.1 (meets_of_mem_due hz).free.1).1

/-- Lefts of which one is repeated are more than the pairs. -/
theorem isComplete_eq_false {lefts : List α} {rights : List β}
    (hrepeat : ¬ (lefts.map handle).Nodup) (h : pair passes lefts rights = .ok p) :
    p.isComplete = false := by
  obtain ⟨hlefts, -, hnodup, hmem⟩ := pair_lefts h
  rw [Bool.eq_false_iff]
  intro hc
  have hcount : p.pairs.length = lefts.length := by
    rw [← hlefts]
    exact of_decide_eq_true hc
  have hsub : (p.pairs.map fun z => handle z.1) ⊆ lefts.map handle := by
    intro k hk
    obtain ⟨z, hz, rfl⟩ := List.mem_map.1 hk
    exact List.mem_map_of_mem (hmem z hz)
  have hperm := (hnodup.subperm hsub).perm_of_length_le (by simp [hcount])
  exact hrepeat (hperm.nodup hnodup)

end Runs

section Theorem

variable {lefts : List α} {rights : List β} {pass : Pass α β κ} {rest : List (Pass α β κ)}

/-- The cascade reaches a pass with a pairing that is not complete; the rest of the passes is still
to come. -/
def Reaches (passes : List (Pass α β κ)) (lefts : List α) (rights : List β) (pass : Pass α β κ)
    (rest : List (Pass α β κ)) (p : Pairing α β) : Prop :=
  ∃ before, passes = before ++ pass :: rest ∧ pair before lefts rights = .ok p ∧
    p.isComplete = false

theorem Reaches.pair_eq (h : Reaches passes lefts rights pass rest p) :
    pair passes lefts rights = (runPass pass p).bind (run rest) := by
  obtain ⟨before, rfl, hbefore, hc⟩ := h
  rw [pair] at hbefore
  rw [pair, run_append, hbefore, Except.bind, run, hc]
  cases runPass pass p <;> rfl

theorem Reaches.tellsApart (h : Reaches passes lefts rights pass rest p)
    (hl : TellsApart lefts) (hr : TellsApart rights) :
    TellsApart p.lefts ∧ TellsApart p.rights := by
  obtain ⟨before, -, hbefore, -⟩ := h
  obtain ⟨hlefts, hrights, -⟩ := pair_lefts hbefore
  rw [hlefts, hrights]
  exact ⟨hl, hr⟩

/-- A cascade fails where a pass fails that it reaches. -/
theorem pair_eq_error_iff {cause : Clash} :
    pair passes lefts rights = .error cause ↔ ∃ pass rest p,
      Reaches passes lefts rights pass rest p ∧ runPass pass p = .error cause := by
  rw [pair, run_eq_error_iff]
  constructor
  · rintro ⟨before, pass, rest, q, hpasses, hrun, hc, hpass⟩
    exact ⟨pass, rest, q, ⟨before, hpasses, hrun, hc⟩, hpass⟩
  · rintro ⟨pass, rest, q, ⟨before, hpasses, hrun, hc⟩, hpass⟩
    exact ⟨before, pass, rest, q, hpasses, hrun, hc, hpass⟩

/-- **A cascade on lefts that differ fails only because the rights repeat one of them.** -/
theorem pair_clash {cause : Clash} (hl : (lefts.map handle).Nodup)
    (h : pair passes lefts rights = .error cause) :
    cause = .rightTaken ∧ ¬ (rights.map handle).Nodup := by
  constructor
  · obtain ⟨pass, rest, p, ⟨before, -, hbefore, -⟩, hpass⟩ := pair_eq_error_iff.1 h
    have hlefts := (pair_lefts hbefore).1
    rcases runPass_cases pass p with ⟨-, hok⟩ | ⟨done, z, after, e, hdue, -, hcollides, herr⟩
    · rw [hok] at hpass
      simp at hpass
    · rw [herr] at hpass
      obtain rfl := Except.error.inj hpass
      have hpl : (p.lefts.map handle).Nodup := hlefts ▸ hl
      have hnodup : ((due pass p).map fun z => handle z.1).Nodup :=
        (nodup_lefts_due_iff pass (tellsApart_of_nodup hpl)).2 fun k => hpl.sublist
          (((List.take_sublist _ _).trans (List.filter_sublist.trans List.filter_sublist)).map _)
      cases hcollides with
      | left hz =>
          rw [hdue, List.map_append, List.map_cons] at hnodup
          exact absurd List.mem_cons_self (List.disjoint_of_nodup_append hnodup hz)
      | right => rfl
  · intro hr
    rw [(Plain.pair_proper passes hl hr).1] at h
    simp at h

/-- **When a cascade on lists that repeat items fails.**  A pass that is reached ends as its keys
are crowded, and the cascade goes on with the rest or fails with it; there is no other way to fail.
Lefts of which one is repeated are never taken for complete. -/
theorem repeated_items_clash (passes : List (Pass α β κ)) {lefts : List α} {rights : List β}
    (hl : TellsApart lefts) (hr : TellsApart rights) :
    (∀ pass rest p, Reaches passes lefts rights pass rest p →
      EndsAsCrowded pass p ∧
        pair passes lefts rights = (runPass pass p).bind (run rest)) ∧
    (∀ cause, pair passes lefts rights = .error cause ↔ ∃ pass rest p,
      Reaches passes lefts rights pass rest p ∧ runPass pass p = .error cause) ∧
    (¬ (lefts.map handle).Nodup → ∀ before p, before <+: passes →
      pair before lefts rights = .ok p → p.isComplete = false) := by
  refine ⟨fun pass rest p hreach => ⟨?_, hreach.pair_eq⟩, fun cause => pair_eq_error_iff,
    fun hrepeat before p _ hbefore => isComplete_eq_false hrepeat hbefore⟩
  obtain ⟨hpl, hpr⟩ := hreach.tellsApart hl hr
  exact endsAsCrowded hpl hpr

/-- The first pass pairs 11 and so takes both its occurrences away; in the second one 6 is due with
4 and again with 8. -/
theorem repeated_items_clash_numbers :
    let lefts := [11, 11, 4, 8]
    let rights := [21, 6, 6]
    let parity : Pass Nat Nat Nat := ⟨"parity", fun n => some (n % 2), fun n => some (n % 2)⟩
    let p : Pairing Nat Nat := ⟨lefts, rights, [(11, 21)]⟩
    TellsApart lefts ∧ TellsApart rights ∧ Reaches numberPasses lefts rights parity [] p ∧
      Crowded parity p 0 ∧ due parity p = [(4, 6), (8, 6)] ∧
      ∃ cause, pair numberPasses lefts rights = .error cause ∧
        cause.message = "right item is already matched" := by
  intro lefts rights parity p
  have hl : TellsApart lefts := by decide
  have hr : TellsApart rights := by decide
  have hreach : Reaches numberPasses lefts rights parity [] p :=
    ⟨numberPasses.take 1, rfl, by decide, by decide⟩
  have hcrowded : Crowded parity p 0 := by decide
  obtain ⟨hends, -, -⟩ := repeated_items_clash numberPasses hl hr
  obtain ⟨hpass, hpair⟩ := hends parity [] p hreach
  obtain ⟨cause, hcause⟩ := hpass.fails_iff.2 ⟨0, hcrowded⟩
  have hright : runPass parity p = .error .rightTaken := by decide
  obtain rfl := Except.error.inj (hcause.symm.trans hright)
  rw [hcause] at hpair
  exact ⟨hl, hr, hreach, hcrowded, by decide, _, hpair, rfl⟩

end Theorem
end Cascade
end FindingLedger
