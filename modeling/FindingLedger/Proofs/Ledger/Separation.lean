import FindingLedger.Proofs.Ledger.Failure
import FindingLedger.Proofs.Ledger.Resync
import FindingLedger.Proofs.Ledger.Transcript
import FindingLedger.Proofs.Pairing.Renaming

/-!
# Files do not interfere

**Input.**  A session whose clock always reads the same, a file, and calls on any files with
findings from a fixed pool.

**Algorithm.**  The calls are made twice, the second time without the analyses and the rebases of
other files.  In the two runs new snapshots get different handles, so they are compared by what they
hold.

**Results.**
* `Session.Alike`: what the two sessions have in common all the time.
* `Alike.other`, `Alike.same`: a call on another file, made in one of the sessions only, keeps this;
  so does a call that both make, and then both give the same answer.
* `files_do_not_interfere`: the two runs cannot be told apart at the file.
-/

namespace FindingLedger

/-- The call is no analysis and no rebase of another file. -/
def Call.concerns {ι : Type} (file : CodeText) : Call ι → Bool
  | track other _ => decide (other = file)
  | rebase other _ => decide (other = file)
  | _ => true

section Readings

variable {π : Type}

/-- What the findings of a reply hold. -/
def Reply.contents : Reply π → List (Snapshot π)
  | findings items => items.map Finding.toContent
  | store (.items values) => values.map Finding.toContent
  | store _ => []

/-- A call and its answer, with the findings of the answer read without their handles. -/
def Exchange.reading (x : Exchange π) :
    Call (Finding π) × Except SessionError (List (Snapshot π)) :=
  (x.call, x.answer.map Reply.contents)

/-- What the findings of a file hold, if the file is known. -/
def Ledger.contents? (L : Ledger π) (file : CodeText) : Option (List (Snapshot π)) :=
  (L.slot? file).map (List.map Finding.toContent)

end Readings

section Copies

variable {π : Type}

theorem Outcome.content_ofUnmatched_congr {a b : Finding π} (h : a.toContent = b.toContent)
    (now : Int) (allowLeak : Bool) :
    (ofUnmatched a now allowLeak).content = (ofUnmatched b now allowLeak).content := by
  obtain ⟨c, n⟩ := a
  obtain ⟨c', m⟩ := b
  obtain rfl : c = c' := h
  unfold ofUnmatched
  split
  · rfl
  · split <;> rfl

/-- A list of different findings that hold the same as those of another list takes their places in
every cascade. -/
theorem exists_pairBy_copies (criteria : List Criterion) {lefts rights rights' : List (Finding π)}
    (hl : Ledger.Distinct lefts) (hr : Ledger.Distinct rights) (hr' : Ledger.Distinct rights')
    (hcontents : rights.map Finding.toContent = rights'.map Finding.toContent) :
    ∃ e : Finding π → Finding π, rights' = rights.map e ∧
      (∀ r ∈ rights, (e r).toContent = r.toContent) ∧
      Pairing.Faithful id e (Plain.pairBy criteria lefts rights) ∧
      Plain.pairBy criteria lefts rights' = (Plain.pairBy criteria lefts rights).map id e := by
  obtain ⟨e, rfl⟩ := exists_map_eq hr (by simpa using (congrArg List.length hcontents).symm)
  have he : ∀ r ∈ rights, (e r).toContent = r.toContent := by
    rw [List.map_map] at hcontents
    exact fun r hrm => (List.map_inj_left.1 hcontents r hrm).symm
  obtain ⟨-, hproper, hlefts, hrights⟩ := Plain.pairBy_spec criteria hl hr
  refine ⟨e, rfl, he, ⟨hproper, ?_, ?_⟩, ?_⟩
  · rw [hlefts]
    exact hl
  · rw [hrights]
    rw [Ledger.Distinct, List.map_map] at hr'
    exact hr'
  · have hmap := Plain.pair_pass_map criteria (d := id) hl hr (by rw [List.map_id]; exact hl) hr'
      fun c l _ r hrm => by
        show c.Joins l.traits (e r).toContent.traits ↔ c.Joins l.traits r.toContent.traits
        rw [he r hrm]
    rw [List.map_id] at hmap
    exact hmap

variable {s t : Session π} {p p' : Pairing (Finding π) (Finding π)}
variable {items base previous previous' current current' out out' : List (Finding π)}

/-- What an analysis gives depends on what the state holds, and not on its handles. -/
theorem Session.Analysed.contents_congr (h : s.Analysed items previous out p)
    (h' : t.Analysed items previous' out' p') (hsettings : s.ledger.settings = t.ledger.settings)
    (hnow : s.ledger.clock.now = t.ledger.clock.now) (hd : Ledger.Distinct items)
    (hr : Ledger.Distinct previous) (hr' : Ledger.Distinct previous')
    (hcontents : previous.map Finding.toContent = previous'.map Finding.toContent) :
    out.map Finding.toContent = out'.map Finding.toContent := by
  let criteria := Criterion.forAnalysis s.ledger.settings.matchFileLevel
  obtain ⟨e, -, he, hfaithful, hmap⟩ := exists_pairBy_copies criteria hd hr hr' hcontents
  have hp := h'.eq_pairBy hd hr'
  rw [← hsettings, hmap] at hp
  obtain rfl := h.eq_pairBy hd hr
  rw [h.contents_eq, h'.contents_eq, ← hnow, hp]
  apply List.map_congr_left
  intro item hitem
  have hright := hfaithful.rightFor_map (h.lefts_eq.symm ▸ hitem)
  cases hknown : (Plain.pairBy criteria items previous).rightFor item with
  | none =>
      rw [hknown, id_eq, Option.map_none] at hright
      rw [Ledger.trackOutcome_of_none _ hknown, Ledger.trackOutcome_of_none _ hright]
  | some known =>
      rw [hknown, id_eq, Option.map_some] at hright
      rw [Ledger.trackOutcome_of_some _ hknown, Ledger.trackOutcome_of_some _ hright,
        Outcome.content_combined, Outcome.content_combined, he known (h.known_mem hitem hknown)]

/-- What a rebase gives depends on what the state holds, and not on its handles. -/
theorem Session.Rebased.contents_congr (h : s.Rebased base current out p)
    (h' : t.Rebased base current' out' p') (hsettings : s.ledger.settings = t.ledger.settings)
    (hnow : s.ledger.clock.now = t.ledger.clock.now) (hd : Ledger.Distinct base)
    (hr : Ledger.Distinct current) (hr' : Ledger.Distinct current')
    (hcontents : current.map Finding.toContent = current'.map Finding.toContent) :
    out.map Finding.toContent = out'.map Finding.toContent := by
  let criteria := Criterion.forServer s.ledger.settings.matchFileLevel
  obtain ⟨e, rfl, he, hfaithful, hmap⟩ := exists_pairBy_copies criteria hd hr hr' hcontents
  have hp := h'.eq_pairBy hd hr'
  rw [← hsettings, hmap] at hp
  obtain rfl := h.eq_pairBy hd hr
  rw [h.contents_eq, h'.contents_eq, ← hnow, ← hsettings, hp, List.map_map]
  apply List.map_congr_left
  intro item hitem
  have hleft := hfaithful.leftFor_map (h.rights_eq.symm ▸ hitem)
  rw [Function.comp_apply]
  cases hexternal : (Plain.pairBy criteria base current).leftFor item with
  | none =>
      rw [hexternal, Option.map_none] at hleft
      rw [Ledger.rebaseOutcome_of_none _ _ hexternal, Ledger.rebaseOutcome_of_none _ _ hleft]
      exact Outcome.content_ofUnmatched_congr (he item hitem).symm _ _
  | some external =>
      rw [hexternal, Option.map_some, id_eq] at hleft
      rw [Ledger.rebaseOutcome_of_some _ _ hexternal, Ledger.rebaseOutcome_of_some _ _ hleft,
        Outcome.content_combined, Outcome.content_combined, he item hitem]

end Copies

namespace Ledger

variable {π : Type} {L : Ledger π} {c : Call (Finding π)}

/-- Only disposing makes a store disposed. -/
theorem disposed_perform_iff (hc : c.OnLedger) (hne : c ≠ .dispose) :
    (L.perform c).2.store = .disposed ↔ L.store = .disposed := by
  refine ⟨fun h => ?_, fun h => perform_disposed h c⟩
  cases c with
  | track file items =>
      rcases L.track_cases file items with ⟨e, -, hfails⟩ | ⟨out, -, -, hsettled⟩
      · exact hfails.refused.store_eq.symm.trans h
      · obtain ⟨slots, hs, -⟩ := exists_live_of_slot? hsettled.slot?_self
        exact absurd (hs.symm.trans h) (by simp)
  | rebase file base =>
      rcases L.rebase_cases file base with ⟨e, -, hfails⟩ | ⟨current, out, -, -, -, hsettled⟩
      · exact hfails.refused.store_eq.symm.trans h
      · obtain ⟨slots, hs, -⟩ := exists_live_of_slot? hsettled.slot?_self
        exact absurd (hs.symm.trans h) (by simp)
  | reset =>
      cases hs : L.store with
      | disposed => rfl
      | live slots =>
          rw [perform, reset_eq_live hs] at h
          exact absurd h (by simp)
  | dispose => exact absurd rfl hne
  | useStore op => exact absurd hc id

/-- A call that does not concern a file leaves its slot alone. -/
theorem slot?_perform_of_other {file : CodeText} (hother : c.concerns file = false) :
    (L.perform c).2.slot? file = L.slot? file := by
  cases c with
  | track other items =>
      have hne : file ≠ other := Ne.symm (of_decide_eq_false hother)
      rcases L.track_cases other items with ⟨e, -, hfails⟩ | ⟨out, -, -, hsettled⟩
      · exact hfails.refused.slot?_eq file
      · exact hsettled.slot?_other file hne
  | rebase other base =>
      have hne : file ≠ other := Ne.symm (of_decide_eq_false hother)
      rcases L.rebase_cases other base with ⟨e, -, hfails⟩ | ⟨current, out, -, -, -, hsettled⟩
      · exact hfails.refused.slot?_eq file
      · exact hsettled.slot?_other file hne
  | _ => simp [Call.concerns] at hother

end Ledger

namespace Session

variable {π : Type} {s t : Session π} {file : CodeText} {pool : List (Finding π)} {now : Int}
variable {c : Call (Finding π)}

/-- The findings of the pool exist, and the clock always reads the same. -/
structure Hosts (pool : List (Finding π)) (now : Int) (s : Session π) : Prop where
  sound : s.Sound
  pool_built : pool ⊆ s.built
  reading : ∀ n, s.ledger.clock.reading n = now

theorem Hosts.perform (h : s.Hosts pool now) (hc : c.OnLedger) (hitems : c.items ⊆ pool) :
    (s.perform c).2.Hosts pool now where
  sound := h.sound.perform hc (List.Subset.trans hitems h.pool_built)
  pool_built := List.Subset.trans h.pool_built (s.grows_perform c).built_subset
  reading := by
    rw [perform_ledger, Ledger.reading_perform]
    exact h.reading

/-- At the given file the two sessions are the same, apart from handles. -/
structure Alike (file : CodeText) (pool : List (Finding π)) (now : Int) (s t : Session π) :
    Prop where
  left : s.Hosts pool now
  right : t.Hosts pool now
  settings_eq : s.ledger.settings = t.ledger.settings
  disposed_iff : s.ledger.store = .disposed ↔ t.ledger.store = .disposed
  contents_eq : s.ledger.contents? file = t.ledger.contents? file

theorem Alike.symm (h : Alike file pool now s t) : Alike file pool now t s where
  left := h.right
  right := h.left
  settings_eq := h.settings_eq.symm
  disposed_iff := h.disposed_iff.symm
  contents_eq := h.contents_eq.symm

theorem Alike.now_eq (h : Alike file pool now s t) : s.ledger.clock.now = t.ledger.clock.now :=
  (h.left.reading _).trans (h.right.reading _).symm

theorem Alike.slot?_eq_none (h : Alike file pool now s t) (hslot : s.ledger.slot? file = none) :
    t.ledger.slot? file = none := by
  have hcontents := h.contents_eq
  rw [Ledger.contents?, hslot, Option.map_none] at hcontents
  exact Option.map_eq_none_iff.1 hcontents.symm

theorem Alike.exists_slot? (h : Alike file pool now s t) {items : List (Finding π)}
    (hslot : s.ledger.slot? file = some items) :
    ∃ items', t.ledger.slot? file = some items' ∧
      items.map Finding.toContent = items'.map Finding.toContent := by
  have hcontents := h.contents_eq
  rw [Ledger.contents?, hslot, Option.map_some] at hcontents
  obtain ⟨items', hslot', heq⟩ := Option.map_eq_some_iff.1 hcontents.symm
  exact ⟨items', hslot', heq.symm⟩

/-- A call on another file can be left out of one of the runs. -/
theorem Alike.other (h : Alike file pool now s t) (hc : c.OnLedger) (hitems : c.items ⊆ pool)
    (hother : c.concerns file = false) : Alike file pool now (s.perform c).2 t where
  left := h.left.perform hc hitems
  right := h.right
  settings_eq := (s.settings_after (.call c)).trans h.settings_eq
  disposed_iff := by
    have hne : c ≠ .dispose := by
      rintro rfl
      simp [Call.concerns] at hother
    rw [perform_ledger, Ledger.disposed_perform_iff hc hne]
    exact h.disposed_iff
  contents_eq := by
    rw [perform_ledger, Ledger.contents?, Ledger.slot?_perform_of_other hother]
    exact h.contents_eq

/-- What rejects a call in one of the sessions rejects it in the other one. -/
theorem Alike.rejects (h : Alike file pool now s t) (hfile : c.concerns file = true)
    {e : LedgerError} (hr : s.ledger.Rejects c e) : t.ledger.Rejects c e := by
  cases hr with
  | repeatedReport hd => exact .repeatedReport hd
  | disposedTrack hd hs => exact .disposedTrack hd (h.disposed_iff.1 hs)
  | disposedRebase hs => exact .disposedRebase (h.disposed_iff.1 hs)
  | unknownFile hs hslot =>
      obtain rfl := of_decide_eq_true hfile
      exact .unknownFile (mt h.disposed_iff.2 hs) (h.slot?_eq_none hslot)
  | repeatedIssue hslot hd =>
      obtain rfl := of_decide_eq_true hfile
      obtain ⟨current, hslot', -⟩ := h.exists_slot? hslot
      exact .repeatedIssue hslot' hd
  | disposedReset hs => exact .disposedReset (h.disposed_iff.1 hs)

theorem Alike.error (h : Alike file pool now s t) (hc : c.OnLedger)
    (hfile : c.concerns file = true) {e : SessionError} (he : (s.perform c).1 = .error e) :
    (t.perform c).1 = .error e := by
  obtain ⟨cause, hrejects, rfl⟩ := (h.left.sound.error_iff hc).1 he
  exact (h.right.sound.error_iff hc).2 ⟨cause, h.rejects hfile hrejects, rfl⟩

/-- Both sessions give the same answer to the call, and leave the same in the slot of the file. -/
structure SameAnswer (file : CodeText) (c : Call (Finding π)) (s t : Session π) : Prop where
  answer_eq : (s.perform c).1.map Reply.contents = (t.perform c).1.map Reply.contents
  contents_eq : (s.perform c).2.ledger.contents? file = (t.perform c).2.ledger.contents? file

/-- Both give findings that hold the same, and keep them. -/
theorem sameAnswer_of_findings {out out' : List (Finding π)}
    (hok : (s.perform c).1 = .ok (.findings out)) (hok' : (t.perform c).1 = .ok (.findings out'))
    (hslot : (s.perform c).2.ledger.slot? file = some out)
    (hslot' : (t.perform c).2.ledger.slot? file = some out')
    (hout : out.map Finding.toContent = out'.map Finding.toContent) : SameAnswer file c s t where
  answer_eq := by
    rw [hok, hok']
    exact congrArg Except.ok hout
  contents_eq := by
    rw [Ledger.contents?, Ledger.contents?, hslot, hslot']
    exact congrArg some hout

theorem Alike.sameAnswer_track (h : Alike file pool now s t) {items : List (Finding π)}
    {reply : Reply π} (hok : (s.perform (.track file items)).1 = .ok reply)
    {reply' : Reply π} (hok' : (t.perform (.track file items)).1 = .ok reply') :
    SameAnswer file (.track file items) s t := by
  obtain ⟨-, -, hd, -⟩ := settled_of_track hok
  cases hslot : s.ledger.slot? file with
  | none =>
      obtain ⟨-, hout, hnext⟩ := perform_track_unknown hslot hok
      obtain ⟨-, hout', hnext'⟩ := perform_track_unknown (h.slot?_eq_none hslot) hok'
      exact sameAnswer_of_findings hout hout' hnext hnext' rfl
  | some previous =>
      obtain ⟨previous', hslot', hprevious⟩ := h.exists_slot? hslot
      obtain ⟨out, p, hout, hnext, hanalysed⟩ := h.left.sound.perform_track_known hslot hd
      obtain ⟨out', p', hout', hnext', hanalysed'⟩ := h.right.sound.perform_track_known hslot' hd
      refine sameAnswer_of_findings hout hout' hnext hnext' ?_
      exact hanalysed.contents_congr hanalysed' h.settings_eq h.now_eq hd
        (h.left.sound.slot_distinct file previous hslot)
        (h.right.sound.slot_distinct file previous' hslot') hprevious

theorem Alike.sameAnswer_rebase (h : Alike file pool now s t) {base : List (Finding π)}
    {reply : Reply π} (hok : (s.perform (.rebase file base)).1 = .ok reply) :
    SameAnswer file (.rebase file base) s t := by
  obtain ⟨current, -, -, hd, hslot, -⟩ := settled_of_rebase hok
  obtain ⟨current', hslot', hcurrent⟩ := h.exists_slot? hslot
  obtain ⟨out, p, hout, hnext, hrebased⟩ := h.left.sound.perform_rebase_known hslot hd
  obtain ⟨out', p', hout', hnext', hrebased'⟩ := h.right.sound.perform_rebase_known hslot' hd
  refine sameAnswer_of_findings hout hout' hnext hnext' ?_
  exact hrebased.contents_congr hrebased' h.settings_eq h.now_eq hd
    (h.left.sound.slot_distinct file current hslot)
    (h.right.sound.slot_distinct file current' hslot') hcurrent

/-- A call that both sessions make gives the same answer. -/
theorem Alike.sameAnswer (h : Alike file pool now s t) (hc : c.OnLedger)
    (hfile : c.concerns file = true) : SameAnswer file c s t := by
  cases hs : (s.perform c).1 with
  | error e =>
      have ht := h.error hc hfile hs
      refine ⟨by rw [hs, ht], ?_⟩
      rw [h.left.sound.eq_of_error hs, h.right.sound.eq_of_error ht]
      exact h.contents_eq
  | ok reply =>
      cases ht : (t.perform c).1 with
      | error e => exact absurd (h.symm.error hc hfile ht) (by simp [hs])
      | ok reply' =>
          cases c with
          | track other items =>
              obtain rfl := of_decide_eq_true hfile
              exact h.sameAnswer_track hs ht
          | rebase other base =>
              obtain rfl := of_decide_eq_true hfile
              exact h.sameAnswer_rebase hs
          | reset =>
              cases hstore : s.ledger.store with
              | disposed =>
                  rw [perform_reset_of_disposed hstore] at hs
                  simp at hs
              | live slots =>
                  cases hstore' : t.ledger.store with
                  | disposed => exact absurd (h.disposed_iff.2 hstore') (by simp [hstore])
                  | live slots' =>
                      constructor
                      · rw [perform_reset_of_live hstore, perform_reset_of_live hstore']
                      · rw [perform_reset_of_live hstore, perform_reset_of_live hstore']
                        rfl
          | dispose =>
              constructor
              · rw [perform_dispose, perform_dispose]
              · rw [perform_dispose, perform_dispose]
                rfl
          | useStore op => exact absurd hc id

/-- A call that both sessions make keeps them alike. -/
theorem Alike.same (h : Alike file pool now s t) (hc : c.OnLedger) (hitems : c.items ⊆ pool)
    (hfile : c.concerns file = true) :
    Alike file pool now (s.perform c).2 (t.perform c).2 where
  left := h.left.perform hc hitems
  right := h.right.perform hc hitems
  settings_eq := (s.settings_after (.call c)).trans
    (h.settings_eq.trans (t.settings_after (.call c)).symm)
  disposed_iff := by
    by_cases hdispose : c = .dispose
    · subst hdispose
      rw [perform_dispose, perform_dispose]
    · rw [perform_ledger, perform_ledger, Ledger.disposed_perform_iff hc hdispose,
        Ledger.disposed_perform_iff hc hdispose]
      exact h.disposed_iff
  contents_eq := (h.sameAnswer hc hfile).contents_eq

/-- All calls are made in the one session, and those that concern the file in the other one. -/
theorem Alike.exchanges (h : Alike file pool now s t) {calls : List (Call (Finding π))}
    (hcalls : ∀ c ∈ calls, c.OnLedger ∧ c.items ⊆ pool) :
    ((s.exchanges (calls.map .call)).filter fun x => x.call.concerns file).map Exchange.reading =
        (t.exchanges ((calls.filter fun c => c.concerns file).map .call)).map Exchange.reading ∧
      Alike file pool now (s.afterAll (calls.map .call))
        (t.afterAll ((calls.filter fun c => c.concerns file).map .call)) := by
  -- the first session makes every call, so the second one lags behind at calls on other files
  induction calls generalizing s t with
  | nil => exact ⟨rfl, h⟩
  | cons c calls ih =>
      obtain ⟨⟨hc, hitems⟩, hrest⟩ := List.forall_mem_cons.1 hcalls
      cases hfile : c.concerns file with
      | false =>
          obtain ⟨hreadings, halike⟩ := ih (h.other hc hitems hfile) hrest
          rw [List.filter_cons_of_neg (by simp [hfile])]
          refine ⟨?_, halike⟩
          rw [List.map_cons, Session.exchanges, List.filter_cons_of_neg (by simp [exchange, hfile])]
          exact hreadings
      | true =>
          obtain ⟨hreadings, halike⟩ := ih (h.same hc hitems hfile) hrest
          rw [List.filter_cons_of_pos (by simp [hfile])]
          refine ⟨?_, halike⟩
          have hfirst : (s.exchange c).reading = (t.exchange c).reading :=
            congrArg (Prod.mk c) (h.sameAnswer hc hfile).answer_eq
          rw [List.map_cons, List.map_cons, Session.exchanges, Session.exchanges,
            List.filter_cons_of_pos (by simp [exchange, hfile]), List.map_cons, List.map_cons,
            hfirst]
          exact congrArg (List.cons _) hreadings

end Session

section Theorem

variable {π : Type} {s : Session π}

/-- **Files do not interfere.**  The clock always reads the same, and all calls bring findings that
existed before.  Then the analyses and the rebases of other files can be left out: the other calls
give the same answers, and in the end the slot of the file holds the same, if findings are read
without their handles. -/
theorem files_do_not_interfere (hs : Reachable s) {now : Int}
    (hclock : ∀ n, s.ledger.clock.reading n = now) (file : CodeText)
    {calls : List (Call (Finding π))} (hcalls : ∀ c ∈ calls, c.OnLedger ∧ c.items ⊆ s.built) :
    let concerning := calls.filter fun c => c.concerns file
    ((s.exchanges (calls.map .call)).filter fun x => x.call.concerns file).map Exchange.reading =
        (s.exchanges (concerning.map .call)).map Exchange.reading ∧
      (s.afterAll (calls.map .call)).ledger.contents? file =
        (s.afterAll (concerning.map .call)).ledger.contents? file := by
  have hhosts : s.Hosts s.built now := ⟨hs.sound, List.Subset.refl _, hclock⟩
  have halike : Session.Alike file s.built now s s := ⟨hhosts, hhosts, rfl, Iff.rfl, rfl⟩
  obtain ⟨hreadings, hafter⟩ := halike.exchanges hcalls
  exact ⟨hreadings, hafter.contents_eq⟩

/-- The analysis of another file in between shifts the handles, and nothing else. -/
theorem files_do_not_interfere_noted :
    let s := (Session.start (.new {} (.steady 100 0) .off)).afterAll (Event.noted.take 3)
    let plain := Finding.noted 1 3 none none
    let linked := Finding.noted 2 5 (some ("K", false)) (some 70)
    let resolved := Finding.noted 3 3 (some ("L", true)) (some 80)
    let full := s.afterAll [.call (.track "a.py" [plain]), .call (.track "b.py" [plain, linked]),
      .call (.rebase "b.py" [resolved]), .call (.track "a.py" [linked, resolved])]
    let kept := s.afterAll [.call (.track "a.py" [plain]), .call (.track "a.py" [linked, resolved])]
    Reachable s ∧ full.ledger.contents? "a.py" = kept.ledger.contents? "a.py" ∧
      (full.ledger.slot? "a.py").map (List.map Finding.handle) = some [6, 7] ∧
      (kept.ledger.slot? "a.py").map (List.map Finding.handle) = some [4, 5] := by
  intro s plain linked resolved full kept
  have hs : Reachable s := ⟨{}, .steady 100 0, .off, Event.noted.take 3,
    fun e he => Event.onLedger_noted e (List.mem_of_mem_take he), Session.Admits.run (by decide)⟩
  have hclock : ∀ n, s.ledger.clock.reading n = 100 := fun n => by
    show (100 : Int) + 0 * n = 100
    omega
  have hcalls : ∀ c ∈ [Call.track "a.py" [plain], .track "b.py" [plain, linked],
      .rebase "b.py" [resolved], .track "a.py" [linked, resolved]],
      c.OnLedger ∧ c.items ⊆ s.built := by
    simp only [List.forall_mem_cons]
    exact ⟨⟨trivial, by decide⟩, ⟨trivial, by decide⟩, ⟨trivial, by decide⟩,
      ⟨trivial, by decide⟩, by simp⟩
  exact ⟨hs, (files_do_not_interfere hs hclock "a.py" hcalls).2, by decide, by decide⟩

end Theorem
end FindingLedger
