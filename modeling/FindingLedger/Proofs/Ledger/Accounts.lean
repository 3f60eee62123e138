import FindingLedger.Proofs.Ledger.Balance
import FindingLedger.Proofs.Ledger.Failure

/-!
# What calls use up

A finding is known by its handle, so matching is sound only as long as a handle is never given out
twice and nothing but a new snapshot gets a new one.

**Input.**  A reachable session, and a call on its ledger.  The findings of the call were built at
any time before: by hand, by an earlier call, or by a call on another file.

**Algorithm.**  A call resolves its outcomes in order.  An outcome that passes its subject through
gives that very finding back, and any other takes the next handle.

**Results.**
* `Outcome.resolveAll_snd`, `Outcome.handles_resolveAll`: as many handles are used up as findings are
  created, and these get them in order.
* `Ledger.spends_track`, `Ledger.spends_rebase`: what a call that succeeds creates, counts and
  reads.
* `handles_are_accounted_for`: all of this in every reachable session.
-/

namespace FindingLedger

/-- How many of the counted outcomes create a finding. -/
def Tally.created (t : Tally) : Nat :=
  t.combined + t.leaked + t.disconnected

section Resolving

variable {π : Type}

theorem Tally.created_cons (o : Outcome π) (os : List (Outcome π)) :
    (ofOutcomes (o :: os)).created =
      (ofOutcomes os).created + if o.kind = .passthrough then 0 else 1 := by
  simp only [created, ofOutcomes, List.countP_cons]
  cases o.kind <;> simp <;> omega

theorem Tally.created_map_passthrough (items : List (Finding π)) :
    (ofOutcomes (items.map Outcome.passthrough)).created = 0 := by
  induction items with
  | nil => rfl
  | cons item items ih => rw [List.map_cons, created_cons, ih, Outcome.kind, if_pos rfl]

namespace Outcome

/-- Only an outcome that passes its subject through takes no handle. -/
theorem resolve_kind_cases (next : Nat) (o : Outcome π) :
    o.kind = .passthrough ∧ o.resolve next = (o.subject, next) ∨
      o.kind ≠ .passthrough ∧ o.resolve next = (⟨o.content, next⟩, next + 1) := by
  cases o with
  | passthrough item => exact Or.inl ⟨rfl, rfl⟩
  | combined base moved inheritSeverity => exact Or.inr ⟨by simp [kind], rfl⟩
  | leaked item now => exact Or.inr ⟨by simp [kind], rfl⟩
  | disconnected item => exact Or.inr ⟨by simp [kind], rfl⟩

theorem resolveAll_snd (next : Nat) (os : List (Outcome π)) :
    (resolveAll next os).2 = next + (Tally.ofOutcomes os).created := by
  induction os generalizing next with
  | nil => rfl
  | cons o os ih =>
      rw [Tally.created_cons, resolveAll, ih]
      rcases o.resolve_kind_cases next with ⟨hkind, hr⟩ | ⟨hkind, hr⟩
      · simp [hkind, hr]
      · simp only [hkind, hr, if_false]
        omega

/-- The findings that are created get the next handles, one after the other.  The old ones can be
told from them by any bound between. -/
theorem handles_resolveAll {bound next : Nat} (hle : bound ≤ next) {os : List (Outcome π)}
    (hold : ∀ f ∈ os.map subject, f.handle < bound) :
    (((resolveAll next os).1.filter fun f => decide (bound ≤ f.handle)).map Finding.handle) =
      List.range' next (Tally.ofOutcomes os).created := by
  induction os generalizing next with
  | nil => rfl
  | cons o os ih =>
      obtain ⟨hsubject, hold⟩ := List.forall_mem_cons.1 hold
      rw [Tally.created_cons, resolveAll]
      rcases o.resolve_kind_cases next with ⟨hkind, hr⟩ | ⟨hkind, hr⟩
      · have hno : ¬ bound ≤ o.subject.handle := Nat.not_le.2 hsubject
        simp [hkind, hr, hno, ih hle hold]
      · simp [hkind, hr, hle, ih (Nat.le_succ_of_le hle) hold, List.range'_succ]

/-- What comes out for an outcome is what it makes, and is its subject only if that is passed
through. -/
structure Yields (next : Nat) (o : Outcome π) (f : Finding π) : Prop extends o.Makes next f where
  kind_of_same : f = o.subject → o.kind = .passthrough

theorem yields_resolveAll {next : Nat} {os : List (Outcome π)}
    (hold : ∀ f ∈ os.map subject, f.handle < next) :
    List.Forall₂ (Yields next) os (resolveAll next os).1 := by
  rw [List.forall_mem_map] at hold
  have hmakes := (List.forall₂_and_left _ _).2 ⟨hold, makes_resolveAll next os⟩
  refine hmakes.imp fun o f h => ⟨h.2, ?_⟩
  rintro rfl
  by_contra hkind
  exact absurd (h.2.fresh hkind) (Nat.not_le.2 h.1)

end Outcome
end Resolving

namespace Ledger

variable {π : Type} {L L' : Ledger π} {file : CodeText}
variable {items base current out : List (Finding π)}

/-- A call makes `out` of its subjects as the outcomes say, and reports it as `r` says.  The
findings that it creates get the next handles in order, and these are all the handles that it uses
up. -/
structure Spends (L : Ledger π) (subjects : List (Finding π)) (outcomes : List (Outcome π))
    (out : List (Finding π)) (r : Report) (L' : Ledger π) : Prop where
  subjects_eq : outcomes.map Outcome.subject = subjects
  yields : List.Forall₂ (Outcome.Yields L.nextHandle) outcomes out
  handles_eq : ((out.filter fun f => decide (L.nextHandle ≤ f.handle)).map Finding.handle) =
    List.range' L.nextHandle r.counts.created
  nextHandle_eq : L'.nextHandle = L.nextHandle + r.counts.created
  counts_eq : r.counts = .ofOutcomes outcomes
  lastReport_eq : L'.lastReport = some r

theorem spends_settle (slots : Slots (Finding π)) (clock : Clock) (h : Heading)
    {subjects : List (Finding π)} {outcomes : List (Outcome π)}
    (hsubjects : outcomes.map Outcome.subject = subjects)
    (hold : ∀ f ∈ subjects, f.handle < L.nextHandle) :
    L.Spends subjects outcomes (({ L with clock := clock } : Ledger π).settle slots h outcomes).1
      (h.report outcomes) (({ L with clock := clock } : Ledger π).settle slots h outcomes).2 := by
  subst hsubjects
  exact ⟨rfl, Outcome.yields_resolveAll hold, Outcome.handles_resolveAll (Nat.le_refl _) hold,
    Outcome.resolveAll_snd _ _, rfl, rfl⟩

/-- A call that passes everything through creates nothing. -/
theorem Spends.of_passthrough {subjects : List (Finding π)} {r : Report}
    (h : L.Spends subjects (items.map .passthrough) out r L') :
    out = items ∧ r.counts.created = 0 := by
  have hsame : List.Forall₂ Eq items out :=
    (List.forall₂_map_left_iff.1 h.yields).imp fun item f hf => (hf.same rfl).symm
  rw [List.forall₂_eq_eq_eq] at hsame
  exact ⟨hsame.symm, by rw [h.counts_eq, Tally.created_map_passthrough]⟩

/-- The outcomes of an analysis, and its clock afterwards: a first analysis passes everything
through and does not look at the clock, a later one reads it once. -/
inductive TrackReads (L : Ledger π) (file : CodeText) (items : List (Finding π)) :
    List (Outcome π) → Clock → Prop
  | first (hslot : L.slot? file = none) :
      TrackReads L file items (items.map .passthrough) L.clock
  | later {previous : List (Finding π)} {p : Pairing (Finding π) (Finding π)}
      (hslot : L.slot? file = some previous)
      (hp : Cascade.pairBy (Criterion.forAnalysis L.settings.matchFileLevel) items previous =
        .ok p) :
      TrackReads L file items (items.map (trackOutcome p L.clock.now)) L.clock.tick

/-- The outcomes of a rebase, and its clock afterwards: on a file without findings there is nothing
to do, and otherwise the clock is read once. -/
inductive RebaseReads (L : Ledger π) (base : List (Finding π)) :
    List (Finding π) → List (Outcome π) → Clock → Prop
  | empty : RebaseReads L base [] [] L.clock
  | later {current : List (Finding π)} {p : Pairing (Finding π) (Finding π)} (hne : current ≠ [])
      (hp : Cascade.pairBy (Criterion.forServer L.settings.matchFileLevel) base current = .ok p) :
      RebaseReads L base current
        (current.map (rebaseOutcome p L.clock.now L.settings.inheritSeverity)) L.clock.tick

theorem TrackReads.outcomes_eq {outcomes : List (Outcome π)} {clock : Clock}
    (h : L.TrackReads file items outcomes clock) (hslot : L.slot? file = none) :
    outcomes = items.map .passthrough := by
  cases h with
  | first => rfl
  | later hslot' => simp [hslot] at hslot'

theorem RebaseReads.outcomes_eq {outcomes : List (Outcome π)} {clock : Clock}
    (h : L.RebaseReads base [] outcomes clock) : outcomes = [] := by
  cases h with
  | empty => rfl
  | later hne => exact absurd rfl hne

theorem spends_track (hold : ∀ f ∈ items, f.handle < L.nextHandle)
    (hok : (L.track file items).1 = .ok out) :
    ∃ outcomes r, L.Spends items outcomes out r (L.track file items).2 ∧
      L.TrackReads file items outcomes (L.track file items).2.clock := by
  have hends := L.track_ends file items
  generalize L.track file items = ended at hends hok ⊢
  cases hends with
  | @first slots hd hs hslot =>
      obtain rfl := Except.ok.inj hok
      have hsubjects : (items.map Outcome.passthrough).map Outcome.subject = items :=
        map_subject (fun _ => rfl) items
      exact ⟨_, _, spends_settle slots L.clock _ hsubjects hold,
        .first ((slot?_of_live hs file).trans hslot)⟩
  | @later slots previous p hd hs hslot hp =>
      obtain rfl := Except.ok.inj hok
      have hsubjects := map_subject (subject_trackOutcome p L.clock.now) items
      exact ⟨_, _, spends_settle slots L.clock.tick _ hsubjects hold,
        .later ((slot?_of_live hs file).trans hslot) hp⟩
  | _ => simp at hok

theorem spends_rebase (hslot : L.slot? file = some current)
    (hold : ∀ f ∈ current, f.handle < L.nextHandle) (hok : (L.rebase file base).1 = .ok out) :
    ∃ outcomes r, L.Spends current outcomes out r (L.rebase file base).2 ∧
      L.RebaseReads base current outcomes (L.rebase file base).2.clock := by
  have hends := L.rebase_ends file base
  generalize L.rebase file base = ended at hends hok ⊢
  cases hends with
  | @empty slots hs hget hd =>
      obtain rfl := Except.ok.inj hok
      obtain rfl := Option.some.inj (hslot.symm.trans ((slot?_of_live hs file).trans hget))
      exact ⟨_, _, spends_settle slots L.clock _ rfl hold, .empty⟩
  | @later slots _ p hs hget hd hne hp =>
      obtain rfl := Except.ok.inj hok
      obtain rfl := Option.some.inj (hslot.symm.trans ((slot?_of_live hs file).trans hget))
      have hsubjects := map_subject
        (subject_rebaseOutcome p L.clock.now L.settings.inheritSeverity) current
      exact ⟨_, _, spends_settle slots L.clock.tick _ hsubjects hold, .later hne hp⟩
  | _ => simp at hok

end Ledger

namespace Session

variable {π : Type}

/-- Forgetting the files uses up no handle and does not look at the clock. -/
theorem forgets_unread (s : Session π) {c : Call (Finding π)} (hc : c = .reset ∨ c = .dispose) :
    (s.perform c).2.ledger.nextHandle = s.ledger.nextHandle ∧
      (s.perform c).2.ledger.clock = s.ledger.clock := by
  rcases hc with rfl | rfl
  · cases hs : s.ledger.store with
    | disposed =>
        rw [perform_reset_of_disposed hs]
        exact ⟨rfl, rfl⟩
    | live slots =>
        rw [perform_reset_of_live hs]
        exact ⟨rfl, rfl⟩
  · rw [perform_dispose]
    exact ⟨rfl, rfl⟩

end Session

section Theorem

variable {π : Type} {s : Session π}

/-- **Handles and readings of the clock are accounted for.**  In a reachable session every slot
lists findings that differ.  All handles given out before lie below the next one, which never goes
back along a run.  A call that succeeds gives a finding back unchanged exactly where it passes it
through, and everywhere else a new one; the new ones get the next handles in order, and the call
uses up no others: as many as its report counts as combined, leaked or disconnected.  It reads the
clock once, but for a first analysis and a rebase of a file without findings, which create nothing
either.  A call that fails leaves the session as it was.  A call succeeds here when it gets as far as
the writing of its record. -/
theorem handles_are_accounted_for (hs : Reachable s) :
    (∀ file S, s.ledger.slot? file = some S → Ledger.Distinct S) ∧
    (∀ f ∈ s.built, f.handle < s.ledger.nextHandle) ∧
    (∀ es t, Run s es t → s.Grows t) ∧
    (∀ file items reply, items ⊆ s.built → (s.perform (.track file items)).1 = .ok reply →
      ∃ out outcomes r, reply = .findings out ∧
        s.ledger.Spends items outcomes out r (s.perform (.track file items)).2.ledger ∧
        s.ledger.TrackReads file items outcomes
          (s.perform (.track file items)).2.ledger.clock ∧
        (s.ledger.slot? file = none → out = items ∧ r.counts.created = 0)) ∧
    (∀ file base reply, (s.perform (.rebase file base)).1 = .ok reply →
      ∃ current out outcomes r, s.ledger.slot? file = some current ∧ reply = .findings out ∧
        s.ledger.Spends current outcomes out r (s.perform (.rebase file base)).2.ledger ∧
        s.ledger.RebaseReads base current outcomes
          (s.perform (.rebase file base)).2.ledger.clock ∧
        (current = [] → out = [] ∧ r.counts.created = 0)) ∧
    (∀ c, c = .reset ∨ c = .dispose →
      (s.perform c).2.ledger.nextHandle = s.ledger.nextHandle ∧
      (s.perform c).2.ledger.clock = s.ledger.clock) ∧
    ∀ c e, (s.perform c).1 = .error e → (s.perform c).2 = s := by
  have hsound := hs.sound
  refine ⟨hsound.slot_distinct, hsound.registry.lt_next, fun es t => Run.grows, ?_, ?_,
    fun c => s.forgets_unread, fun c e => hsound.eq_of_error⟩
  · intro file items reply hitems hok
    obtain ⟨out, hreply, hledger⟩ := Session.exists_track_of_ok hok
    obtain ⟨outcomes, r, hspends, hreads⟩ :=
      Ledger.spends_track (hsound.old_of_built hitems) hledger
    rw [Session.perform_ledger]
    refine ⟨out, outcomes, r, hreply, hspends, hreads, fun hslot => ?_⟩
    obtain rfl := hreads.outcomes_eq hslot
    exact hspends.of_passthrough
  · intro file base reply hok
    obtain ⟨out, hreply, hledger⟩ := Session.exists_rebase_of_ok hok
    obtain ⟨current, -, -, -, hslot, -⟩ := Session.settled_of_rebase hok
    have hold := hsound.old_of_built (hsound.slot_built file current hslot)
    obtain ⟨outcomes, r, hspends, hreads⟩ := Ledger.spends_rebase hslot hold hledger
    rw [Session.perform_ledger]
    refine ⟨current, out, outcomes, r, hslot, hreply, hspends, hreads, ?_⟩
    rintro rfl
    obtain rfl := hreads.outcomes_eq
    exact hspends.of_passthrough

/-- Of two findings that are analysed again one is combined and one loses its link; both are new
then.  In a file that was not analysed before they stay as they are. -/
theorem handles_are_accounted_for_noted :
    let s := Session.blank.afterAll Event.noted
    let items := [Finding.noted 2 5 (some ("K", false)) (some 70), Finding.noted 1 3 none none]
    Reachable s ∧ items ⊆ s.built ∧ s.ledger.nextHandle = 7 ∧
      (∃ out outcomes r, s.ledger.Spends items outcomes out r
          (s.perform (.track "a.py" items)).2.ledger ∧
        r.counts = ⟨1, 0, 1, 0⟩ ∧
        ((out.filter fun f => decide (7 ≤ f.handle)).map fun f => f.handle) = [7, 8] ∧
        (s.perform (.track "a.py" items)).2.ledger.nextHandle = 9) ∧
      ∃ out outcomes r, s.ledger.Spends items outcomes out r
          (s.perform (.track "b.py" items)).2.ledger ∧
        out = items ∧ (s.perform (.track "b.py" items)).2.ledger.nextHandle = 7 := by
  intro s items
  have hs : Reachable s := Session.reachable_afterAll_noted
  have hitems : items ⊆ s.built := by decide
  have hnext : s.ledger.nextHandle = 7 := by decide
  obtain ⟨-, -, -, htrack, -⟩ := handles_are_accounted_for hs
  refine ⟨hs, hitems, hnext, ?_, ?_⟩
  · have hcounts : ((s.perform (.track "a.py" items)).2.ledger.lastReport.map Report.counts) =
        some ⟨1, 0, 1, 0⟩ := by
      decide
    obtain ⟨out, outcomes, r, -, hspends, -⟩ := htrack "a.py" items _ hitems rfl
    rw [hspends.lastReport_eq, Option.map_some, Option.some.injEq] at hcounts
    have hhandles := hspends.handles_eq
    have hafter := hspends.nextHandle_eq
    rw [hcounts, hnext] at hhandles hafter
    exact ⟨out, outcomes, r, hspends, hcounts, hhandles, hafter⟩
  · obtain ⟨out, outcomes, r, -, hspends, -, hfirst⟩ := htrack "b.py" items _ hitems rfl
    obtain ⟨hout, hcreated⟩ := hfirst (by decide)
    have hafter := hspends.nextHandle_eq
    rw [hcreated, hnext] at hafter
    exact ⟨out, outcomes, r, hspends, hout, hafter⟩

end Theorem
end FindingLedger
