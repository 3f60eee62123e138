import FindingLedger.Finding.Change
import FindingLedger.Proofs.Ledger.Transcript
import FindingLedger.Proofs.Pairing.Clash

/-!
# How calls fail

**Input.**  A session, and a call on its ledger with any findings.

**Algorithm.**  A call makes its checks before it reads the clock, and changes the ledger only at
its end.  Between them lie the cascade, which fails on lists that repeat a finding, and the checks
of the new snapshots, which are built like every changed finding.  After all of this the record of
the call is written, which is up to the system and can fail as well.

**Results.**
* `Outcome.evolveAll_eq`: no new snapshot is rejected, because its labels were accepted before.
* `Ledger.fails_of_error`: a failing call was rejected by its checks, or the cascade failed on the
  list of the store; `Sound.not_clashes`: the second does not happen in a sound session.
* `Session.disposed_after`: no event reopens a disposed store.
* `calls_fail_as_specified`: in reachable sessions the calls fail exactly as `Rejects` says, as long
  as their records are written, and a failing call changes nothing.
-/

namespace FindingLedger

namespace Outcome

variable {π : Type}

/-- The changes that make the new snapshot of an outcome out of its subject, if it makes one. -/
def changes : Outcome π → Option (List (Change π))
  | combined base moved inheritSeverity =>
      let known := base.toContent.draft
      let own := moved.toContent.draft
      some [.creationDate (known.creationDate <|> own.creationDate),
        .serverIssueKey known.serverIssueKey, .resolved known.resolved,
        .severity (if inheritSeverity then known.severity <|> own.severity else own.severity),
        .issueType (if inheritSeverity then known.issueType <|> own.issueType else own.issueType)]
  | leaked _ now => some [.creationDate (some now)]
  | disconnected _ => some [.serverIssueKey none, .resolved false]
  | passthrough _ => none

/-- The finding after an outcome, built with the checks that every changed finding undergoes. -/
def evolve (next : Nat) (o : Outcome π) : Except Rejection (Finding π) × Nat :=
  match o.changes with
  | some cs => o.subject.evolve next cs
  | none => (.ok o.subject, next)

/-- Builds the findings after a list of outcomes, up to the first that is rejected. -/
def evolveAll (next : Nat) : List (Outcome π) → Except Rejection (List (Finding π)) × Nat
  | [] => (.ok [], next)
  | o :: os =>
      match o.evolve next with
      | (.error e, next) => (.error e, next)
      | (.ok f, next) =>
          match evolveAll next os with
          | (.error e, next) => (.error e, next)
          | (.ok fs, next) => (.ok (f :: fs), next)

theorem map_name_orElse {α : Type} (name : α → String) (a b : Option α) :
    (a.map name <|> b.map name) = (a <|> b).map name := by
  cases a <;> rfl

/-- The changes name fields that findings have, and lead to the written form of the successor. -/
theorem changes_spec {o : Outcome π} {cs : List (Change π)} (h : o.changes = some cs) :
    Change.refusal? cs = none ∧ ∃ c, o.successor = some c ∧
      cs.foldl Change.apply o.subject.toContent.draft = c.draft := by
  cases o with
  | combined base moved inheritSeverity =>
      obtain rfl := Option.some.inj h
      refine ⟨rfl, _, rfl, ?_⟩
      cases inheritSeverity with
      | false => rfl
      | true =>
          -- the labels are chosen by name in the changes, but by value in the successor
          simp only [Content.draft, Content.combine, if_true, ← map_name_orElse]
          rfl
  | leaked item now =>
      obtain rfl := Option.some.inj h
      exact ⟨rfl, _, rfl, rfl⟩
  | disconnected item =>
      obtain rfl := Option.some.inj h
      exact ⟨rfl, _, rfl, rfl⟩
  | passthrough item => simp [changes] at h

/-- The labels of a new snapshot are those of findings that were built, so they are accepted. -/
theorem evolve_eq (next : Nat) (o : Outcome π) :
    o.evolve next = (.ok (o.resolve next).1, (o.resolve next).2) := by
  cases h : o.changes with
  | none =>
      cases o with
      | passthrough item => rfl
      | _ => simp [changes] at h
  | some cs =>
      obtain ⟨hrefusal, c, hsuccessor, hdraft⟩ := changes_spec h
      have haccepted : Draft.check c.draft = .ok c := Draft.check_eq_ok_iff.2 rfl
      simp only [evolve, h, Finding.evolve, hrefusal, hdraft, Finding.build, haccepted, resolve,
        hsuccessor]

theorem evolveAll_eq (next : Nat) (os : List (Outcome π)) :
    evolveAll next os = (.ok (resolveAll next os).1, (resolveAll next os).2) := by
  induction os generalizing next with
  | nil => rfl
  | cons o os ih => simp [evolveAll, evolve_eq, ih, resolveAll]

end Outcome

theorem Call.onLedger_or_useStore {ι : Type} (c : Call ι) :
    c.OnLedger ∨ ∃ op, c = .useStore op := by
  cases c with
  | useStore op => exact Or.inr ⟨op, rfl⟩
  | _ => exact Or.inl trivial

theorem Store.perform_of_error {φ : Type} {s : Store φ} {op : Store.Op φ} {e : StoreError}
    (h : (s.perform op).1 = .error e) : (s.perform op).2 = s := by
  cases s with
  | disposed => cases op <;> rfl
  | live slots =>
      cases op with
      | currentStateOrFail file =>
          cases hslot : slots.get? file <;> simp [perform, answer, hslot]
      | _ => simp [perform, answer] at h

namespace Ledger

variable {π : Type} {L : Ledger π} {c : Call (Finding π)} {e : LedgerError}

theorem Rejects.error (h : L.Rejects c e) : (L.perform c).1 = .error e := by
  cases h with
  | repeatedReport hd => rw [perform, track_eq_duplicate hd]; rfl
  | disposedTrack hd hs => rw [perform, track_eq_disposed hd hs]; rfl
  | disposedRebase hs => rw [perform, rebase_eq_disposed hs]; rfl
  | @unknownFile file base hs hslot =>
      cases hstore : L.store with
      | disposed => exact absurd hstore hs
      | live slots =>
          have hget : slots.get? file = none := by simpa [slot?, hstore] using hslot
          rw [perform, rebase_eq_unknown hstore hget]
          rfl
  | repeatedIssue hslot hd =>
      obtain ⟨slots, hs, hget⟩ := exists_live_of_slot? hslot
      rw [perform, rebase_eq_duplicate hs hget hd]
      rfl
  | disposedReset hs => rw [perform, reset_eq_disposed hs]; rfl

/-- A call of the ledger fails in one of its checks, or else in the cascade. -/
theorem fails_of_error (hc : c.OnLedger) (h : (L.perform c).1 = .error e) :
    L.Fails c e (L.perform c).2 := by
  cases c with
  | track file items =>
      rcases L.track_cases file items with ⟨cause, he, hfails⟩ | ⟨out, hok, -, -⟩
      · obtain rfl : cause = e := by simpa [perform, he, Except.map] using h
        exact hfails
      · simp [perform, hok, Except.map] at h
  | rebase file base =>
      rcases L.rebase_cases file base with ⟨cause, he, hfails⟩ | ⟨current, out, hok, -, -, -⟩
      · obtain rfl : cause = e := by simpa [perform, he, Except.map] using h
        exact hfails
      · simp [perform, hok, Except.map] at h
  | reset =>
      cases hs : L.store with
      | live slots => simp [perform, reset_eq_live hs, Except.map] at h
      | disposed =>
          obtain rfl : LedgerError.store .disposed = e := by
            simpa [perform, reset_eq_disposed hs, Except.map] using h
          rw [perform, reset_eq_disposed hs]
          exact .rejected (.disposedReset hs)
  | dispose => simp [perform, dispose_eq, Except.map] at h
  | useStore op => exact absurd hc id

/-- Where the cascade fails, the store has a list that repeats a finding. -/
theorem Clashes.spec {cause : Clash} (h : L.Clashes c cause) :
    cause = .rightTaken ∧ ∃ file items stored, (c = .track file items ∨ c = .rebase file items) ∧
      Distinct items ∧ L.slot? file = some stored ∧ ¬ Distinct stored := by
  cases h with
  | @track file items previous _ hd hslot hp =>
      obtain ⟨hcause, hrepeats⟩ := Cascade.pair_clash hd hp
      exact ⟨hcause, file, items, previous, Or.inl rfl, hd, hslot, hrepeats⟩
  | @rebase file base current _ hd hslot hp =>
      obtain ⟨hcause, hrepeats⟩ := Cascade.pair_clash hd hp
      exact ⟨hcause, file, base, current, Or.inr rfl, hd, hslot, hrepeats⟩

theorem Clashes.error {cause : Clash} (h : L.Clashes c cause) :
    (L.perform c).1 = .error (.clash cause) := by
  cases h with
  | track hd hslot hp =>
      obtain ⟨slots, hs, hget⟩ := exists_live_of_slot? hslot
      rw [perform, track_eq_clash hd hs hget hp]
      rfl
  | @rebase file base current _ hd hslot hp =>
      obtain ⟨slots, hs, hget⟩ := exists_live_of_slot? hslot
      -- the call runs no cascade on an empty state, but there a cascade would not fail either
      have hne : current ≠ [] := by
        rintro rfl
        exact (Cascade.pair_clash hd hp).2 List.nodup_nil
      rw [perform, rebase_eq_clash hs hget hd hne hp]
      rfl

/-- Using the store directly, the ledger fails only as the store does, and nothing changes. -/
theorem perform_useStore_of_error {op : Store.Op (Finding π)}
    (h : (L.perform (.useStore op)).1 = .error e) :
    (∃ cause, e = .store cause) ∧ (L.perform (.useStore op)).2 = L := by
  rw [perform, useStore] at h ⊢
  split at h
  · simp [Except.map] at h
  · rename_i cause store hop
    have hstore : store = L.store := by
      have hsame := Store.perform_of_error (congrArg Prod.fst hop)
      rwa [hop] at hsame
    obtain rfl : LedgerError.store cause = e := by simpa [Except.map] using h
    subst hstore
    exact ⟨⟨cause, rfl⟩, rfl⟩

/-- No call reopens a disposed store. -/
theorem perform_disposed (hs : L.store = .disposed) (c : Call (Finding π)) :
    (L.perform c).2.store = .disposed := by
  cases c with
  | track file items =>
      by_cases hd : Distinct items
      · rwa [perform, track_eq_disposed hd hs]
      · rwa [perform, track_eq_duplicate hd]
  | rebase file base => rwa [perform, rebase_eq_disposed hs]
  | reset => rwa [perform, reset_eq_disposed hs]
  | dispose => rw [perform, dispose_eq]
  | useStore op => cases op <;> simp [perform, useStore, Store.perform, hs]

end Ledger

namespace Session

variable {π : Type} {s : Session π} {c : Call (Finding π)} {e : SessionError}

theorem perform_of_error (h : (s.perform c).1 = .error e) :
    ∃ cause, e = .ledger cause ∧ (s.ledger.perform c).1 = .error cause ∧
      (s.perform c).2 = ⟨(s.ledger.perform c).2, s.built⟩ := by
  unfold perform at h ⊢
  split at h
  · rename_i cause L hperform
    exact ⟨cause, (Except.error.inj h).symm, by rw [hperform], by rw [hperform]⟩
  · simp at h
  · simp at h

theorem disposed_after (hs : s.ledger.store = .disposed) (e : Event π) :
    (s.after e).ledger.store = .disposed := by
  cases e with
  | enter entry => exact hs
  | evolve handle changes => exact hs
  | fingerprint item source => exact hs
  | setClock time step =>
      obtain ⟨clock, hclock⟩ := s.step_setClock time step
      rwa [after, hclock]
  | call c =>
      rw [after, perform_ledger]
      exact Ledger.perform_disposed hs c

theorem Sound.not_clashes (h : s.Sound) (c : Call (Finding π)) (cause : Clash) :
    ¬ s.ledger.Clashes c cause := by
  intro hclash
  obtain ⟨-, file, _, stored, -, -, hslot, hrepeats⟩ := hclash.spec
  exact hrepeats (h.slot_distinct file stored hslot)

theorem Sound.rejects_of_error (h : s.Sound) (hc : c.OnLedger) {cause : LedgerError}
    (he : (s.ledger.perform c).1 = .error cause) :
    s.ledger.Rejects c cause ∧ (s.ledger.perform c).2 = s.ledger := by
  have hfails := Ledger.fails_of_error hc he
  generalize (s.ledger.perform c).2 = L at hfails
  cases hfails with
  | rejected hrejects => exact ⟨hrejects, rfl⟩
  | @clash cause hclash => exact absurd hclash (h.not_clashes c cause)

theorem Sound.error_iff (h : s.Sound) (hc : c.OnLedger) :
    (s.perform c).1 = .error e ↔ ∃ cause, s.ledger.Rejects c cause ∧ e = .ledger cause := by
  constructor
  · intro he
    obtain ⟨cause, hcause, hledger, -⟩ := perform_of_error he
    exact ⟨cause, (h.rejects_of_error hc hledger).1, hcause⟩
  · rintro ⟨cause, hrejects, rfl⟩
    rw [perform_fst, hrejects.error]
    rfl

theorem Sound.eq_of_error (h : s.Sound) (he : (s.perform c).1 = .error e) :
    (s.perform c).2 = s := by
  obtain ⟨cause, -, hledger, hsession⟩ := perform_of_error he
  rcases c.onLedger_or_useStore with hc | ⟨op, rfl⟩
  · rw [hsession, (h.rejects_of_error hc hledger).2]
  · rw [hsession, (Ledger.perform_useStore_of_error hledger).2]

/-- When the cascade fails, nothing is touched but the clock. -/
theorem tick_of_clash {cause : Clash} (he : (s.perform c).1 = .error (.ledger (.clash cause))) :
    s.ledger.Clashes c cause ∧
      (s.perform c).2 = { s with ledger := { s.ledger with clock := s.ledger.clock.tick } } := by
  obtain ⟨_, hcause, hledger, hsession⟩ := perform_of_error he
  obtain rfl := SessionError.ledger.inj hcause
  rcases c.onLedger_or_useStore with hc | ⟨op, rfl⟩
  · have hfails := Ledger.fails_of_error hc hledger
    rw [hsession]
    generalize (s.ledger.perform c).2 = L at hfails
    cases hfails with
    | rejected hrejects => cases hrejects
    | clash hclash => exact ⟨hclash, rfl⟩
  · obtain ⟨⟨cause, hstore⟩, -⟩ := Ledger.perform_useStore_of_error hledger
    simp at hstore

end Session

section Theorem

variable {π : Type} {s t : Session π}

theorem Run.disposed {es : List (Event π)} (hrun : Run s es t)
    (hs : s.ledger.store = .disposed) : t.ledger.store = .disposed :=
  hrun.induction (motive := fun u => u.ledger.store = .disposed) hs
    fun _ e _ _ hu => Session.disposed_after hu e

/-- **Calls fail exactly as specified, and a failing call changes nothing.**  In a reachable
session, as long as the record of a call is written, the errors of the call are those with which the
ledger `Rejects` it, and a call that fails leaves the session as it was.  The proviso concerns only
calls that would have succeeded, and only while the log is switched on; a call that misses it fails
with the fault of its record.  Neither the cascade nor the building of new snapshots can fail.
Disposing succeeds, and from then on the store stays disposed, whatever happens.  In any session,
also one whose store was given lists directly, a call in which the cascade fails has read the clock
and has touched nothing else. -/
theorem calls_fail_as_specified (hs : Reachable s) :
    (∀ c, c.OnLedger → s.fault? c = none → ∀ e, (s.call c).1 = .error e ↔
      ∃ cause, s.ledger.Rejects c cause ∧ e = .ledger cause) ∧
    (∀ c e, s.fault? c = none → (s.call c).1 = .error e → (s.call c).2 = s) ∧
    (∀ c fault, s.fault? c = some fault → s.ledger.log.enabled = true ∧
      (∀ cause, ¬ s.ledger.Rejects c cause) ∧ (s.call c).1 = .error (.unwritten fault)) ∧
    (∀ file stored (items : List (Finding π)), s.ledger.slot? file = some stored →
      Ledger.Distinct items →
      (∃ p, Cascade.pairBy (Criterion.forAnalysis s.ledger.settings.matchFileLevel) items stored =
        .ok p) ∧
      ∃ p, Cascade.pairBy (Criterion.forServer s.ledger.settings.matchFileLevel) items stored =
        .ok p) ∧
    (∀ next (outcomes : List (Outcome π)), Outcome.evolveAll next outcomes =
      (.ok (Outcome.resolveAll next outcomes).1, (Outcome.resolveAll next outcomes).2)) ∧
    (s.call .dispose).1 = .ok (.store .done) ∧
    (s.call .dispose).2.ledger.store = .disposed ∧
    (∀ es t u, Run (π := π) t es u → t.ledger.store = .disposed → u.ledger.store = .disposed) ∧
    ∀ (t : Session π) c cause, (t.call c).1 = .error (.ledger (.clash cause)) →
      cause = .rightTaken ∧
      (∃ file items stored, (c = .track file items ∨ c = .rebase file items) ∧
        Ledger.Distinct items ∧ t.ledger.slot? file = some stored ∧ ¬ Ledger.Distinct stored) ∧
      (t.call c).2 = { t with ledger := { t.ledger with clock := t.ledger.clock.tick } } := by
  have hsound := hs.sound
  have hdispose : s.fault? .dispose = none :=
    Session.fault?_of_records_nil (Ledger.records_of_store rfl)
  refine ⟨?_, ?_, ?_, ?_, Outcome.evolveAll_eq, ?_, ?_, fun es t u hrun => hrun.disposed, ?_⟩
  · intro c hc hwritten e
    rw [Session.call_eq_perform hwritten]
    exact hsound.error_iff hc
  · intro c e hwritten
    rw [Session.call_eq_perform hwritten]
    exact hsound.eq_of_error
  · intro c fault hfault
    obtain ⟨⟨reply, hreply⟩, hcall⟩ := Session.call_of_fault hfault
    refine ⟨?_, ?_, hcall⟩
    · cases hon : s.ledger.log.enabled with
      | true => rfl
      | false => simp [Session.fault?_of_off hon] at hfault
    · intro cause hrejects
      simp [Session.perform_fst, hrejects.error, Except.mapError] at hreply
  · intro file stored items hslot hd
    have hstored := hsound.slot_distinct file stored hslot
    exact ⟨⟨_, (Plain.pairBy_spec _ hd hstored).1⟩, ⟨_, (Plain.pairBy_spec _ hd hstored).1⟩⟩
  · rw [Session.call_eq_perform hdispose, s.perform_dispose]
  · rw [Session.call_snd, s.perform_dispose]
  · intro t c cause he
    have hwritten : t.fault? c = none := by
      cases hfault : t.fault? c with
      | none => rfl
      | some fault => simp [(Session.call_of_fault hfault).2] at he
    rw [Session.call_eq_perform hwritten] at he ⊢
    obtain ⟨hclash, hnext⟩ := Session.tick_of_clash he
    obtain ⟨hcause, hstored⟩ := hclash.spec
    exact ⟨hcause, hstored, hnext⟩

/-- A finding is reported twice, a file is not known, and a store was given a finding twice; no
record is made of these calls, although the log is switched on.  The record of another call is
written, but not on a full disk. -/
theorem calls_fail_as_specified_noted :
    let log : Audit.Log := { Audit.Log.off with enabled := true }
    let s := (Session.start (.new {} (.steady 100 1) log)).afterAll Event.noted
    let plain := Finding.noted 1 3 none none
    let resolved := Finding.noted 3 3 (some ("L", true)) (some 80)
    let t := s.after (.call (.useStore (.replace "a.py" [plain, plain])))
    let full : Audit.SystemError := ⟨"OSError", "No space left on device"⟩
    let u : Session Unit := .start (.new {} (.steady 100 1)
      { log with writer := fun _ contents _ => ⟨contents, some full⟩ })
    Reachable s ∧ s.fault? (.track "a.py" [plain, plain]) = none ∧
      (s.call (.track "a.py" [plain, plain])).1 = .error (.ledger (.duplicate "a.py")) ∧
      (s.call (.track "a.py" [plain, plain])).2 = s ∧
      (s.call (.rebase "b.py" [plain, plain])).1 =
        .error (.ledger (.store (.neverAnalyzed "b.py"))) ∧
      (t.call (.track "a.py" [plain, resolved])).1 =
        .error (.ledger (.clash .rightTaken)) ∧
      (t.call (.track "a.py" [plain, resolved])).2 =
        { t with ledger := { t.ledger with clock := t.ledger.clock.tick } } ∧
      s.fault? (.track "b.py" [plain]) = none ∧
      (∀ e, (s.call (.track "b.py" [plain])).1 ≠ .error e) ∧
      (u.call (.track "b.py" [plain])).1 = .error (.unwritten (.system full)) := by
  intro log s plain resolved t full u
  have hs : Reachable s := ⟨{}, .steady 100 1, log, Event.noted, Event.onLedger_noted,
    Session.Admits.run (by decide)⟩
  obtain ⟨herror, hsame, -, -, -, -, -, -, hclash⟩ := calls_fail_as_specified hs
  have hrepeated : s.ledger.Rejects (.track "a.py" [plain, plain]) (.duplicate "a.py") :=
    .repeatedReport (by decide)
  have hnever : s.ledger.Rejects (.rebase "b.py" [plain, plain])
      (.store (.neverAnalyzed "b.py")) :=
    .unknownFile (by decide) (by decide)
  have hwritten : ∀ c cause, s.ledger.Rejects c cause → s.fault? c = none := by
    intro c cause hrejects
    refine Session.fault?_of_error (e := .ledger cause) ?_
    rw [Session.perform_fst, hrejects.error]
    rfl
  have htwice : (s.call (.track "a.py" [plain, plain])).1 =
      .error (.ledger (.duplicate "a.py")) :=
    (herror (.track _ _) trivial (hwritten _ _ hrepeated) _).2 ⟨_, hrepeated, rfl⟩
  have hunknown : (s.call (.rebase "b.py" [plain, plain])).1 =
      .error (.ledger (.store (.neverAnalyzed "b.py"))) :=
    (herror (.rebase _ _) trivial (hwritten _ _ hnever) _).2 ⟨_, hnever, rfl⟩
  have hslot : t.ledger.slot? "a.py" = some [plain, plain] := by decide
  have hgiven : t.ledger.Clashes (.track "a.py" [plain, resolved]) .rightTaken :=
    .track (by decide) hslot (by decide)
  have htaken : (t.call (.track "a.py" [plain, resolved])).1 =
      .error (.ledger (.clash .rightTaken)) := by
    have hperform : (t.perform (.track "a.py" [plain, resolved])).1 =
        .error (.ledger (.clash .rightTaken)) := by
      rw [Session.perform_fst, hgiven.error]
      rfl
    rw [Session.call_eq_perform (Session.fault?_of_error hperform), hperform]
  have hnew : s.fault? (.track "b.py" [plain]) = none := by decide
  have haccepted : ∀ e, (s.call (.track "b.py" [plain])).1 ≠ .error e := by
    intro e he
    obtain ⟨cause, hrejects, -⟩ := (herror (.track _ _) trivial hnew e).1 he
    cases hrejects with
    | repeatedReport hd => exact hd (by decide)
    | disposedTrack hd hs => cases hs
  have hu : Reachable u := ⟨{}, .steady 100 1, _, [], by simp, Run.nil⟩
  have hfull : (u.call (.track "b.py" [plain])).1 = .error (.unwritten (.system full)) :=
    ((calls_fail_as_specified hu).2.2.1 _ _ (by decide)).2.2
  exact ⟨hs, hwritten _ _ hrepeated, htwice, hsame _ _ (hwritten _ _ hrepeated) htwice, hunknown,
    htaken, (hclash t _ _ htaken).2.2, hnew, haccepted, hfull⟩

end Theorem
end FindingLedger
