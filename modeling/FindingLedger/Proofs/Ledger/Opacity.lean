import FindingLedger.Proofs.Ledger.Disguise
import FindingLedger.Proofs.Ledger.Transcript

/-!
# What a ledger sees of its findings

**Input.**  A run of a session from a new ledger, and a disguise of findings.

**Algorithm.**  The run is repeated with disguised findings on a ledger of its own.  A fingerprint
is a value like any other here: where the run fingerprints a finding, the repetition supplies the
disguised finding with its disguised hashes.

**Results.**
* `Ledger.Disguises`: the second ledger is the first one in disguise; `Disguises.perform`: every
  call keeps this, and answers in disguise.
* `Session.Disguises.after`: so does every event.
* `ledger_sees_only_equalities`: answers and slots of the repetition are those of the run in
  disguise, and the errors, the reports and, apart from their stamps, the records are the same.
-/

namespace FindingLedger

variable {π ρ : Type}

/-- The call with disguised findings. -/
def Call.disguise (D : Disguise π ρ) (c : Call (Finding π)) : Call (Finding ρ) :=
  c.withItems (c.items.map (Finding.disguise D))

/-- The reply with disguised findings. -/
def Reply.disguise (D : Disguise π ρ) : Reply π → Reply ρ
  | findings items => findings (items.map (Finding.disguise D))
  | store (.items values) => store (.items (values.map (Finding.disguise D)))
  | store (.flag value) => store (.flag value)
  | store (.files names) => store (.files names)
  | store .done => store .done

namespace Ledger

/-- The second ledger holds the findings of the first one in disguise.  The logs may differ, if only
both or neither of them are switched on. -/
structure Disguises (D : Disguise π ρ) (L : Ledger π) (L' : Ledger ρ) : Prop where
  settings_eq : L'.settings = L.settings
  store_eq : L'.store = L.store.mapItems (Finding.disguise D)
  lastReport_eq : L'.lastReport = L.lastReport
  clock_eq : L'.clock = L.clock
  nextHandle_eq : L'.nextHandle = L.nextHandle
  enabled_eq : L'.log.enabled = L.log.enabled

variable {D : Disguise π ρ} {L : Ledger π} {L' : Ledger ρ} {file : CodeText}

theorem Heading.report_disguise (h : Heading) (outcomes : List (Outcome π)) :
    h.report (outcomes.map (Outcome.disguise D)) = h.report outcomes := by
  simp [report, Tally.ofOutcomes_disguise]

theorem enabled_note (l : Audit.Log) (r : Report) : (l.note r).enabled = l.enabled := by
  unfold Audit.Log.note
  split
  · exact Audit.Log.append_enabled l _
  · rfl

theorem Disguises.withClock (h : Disguises D L L') (clock : Clock) :
    Disguises D { L with clock := clock } { L' with clock := clock } where
  settings_eq := h.settings_eq
  store_eq := h.store_eq
  lastReport_eq := h.lastReport_eq
  clock_eq := rfl
  nextHandle_eq := h.nextHandle_eq
  enabled_eq := h.enabled_eq

theorem Disguises.store_of_live (h : Disguises D L L') {slots : Slots (Finding π)}
    (hs : L.store = .live slots) : L'.store = .live (slots.mapItems (Finding.disguise D)) := by
  rw [h.store_eq, hs]
  rfl

theorem Disguises.store_of_disposed (h : Disguises D L L') (hs : L.store = .disposed) :
    L'.store = .disposed := by
  rw [h.store_eq, hs]
  rfl

/-- The second call ends as the first one does, in disguise. -/
structure Follows (D : Disguise π ρ)
    (r : Except LedgerError (List (Finding π)) × Ledger π)
    (r' : Except LedgerError (List (Finding ρ)) × Ledger ρ) : Prop where
  answer_eq : r'.1 = r.1.map (List.map (Finding.disguise D))
  disguises : Disguises D r.2 r'.2

theorem Follows.findings_eq {r : Except LedgerError (List (Finding π)) × Ledger π}
    {r' : Except LedgerError (List (Finding ρ)) × Ledger ρ} (h : Follows D r r') :
    r'.1.map Reply.findings = (r.1.map Reply.findings).map (Reply.disguise D) := by
  rw [h.answer_eq]
  cases r.1 <;> rfl

theorem Disguises.follows_error (h : Disguises D L L') (e : LedgerError) :
    Follows D (.error e, L) (.error e, L') :=
  ⟨rfl, h⟩

theorem Disguises.follows_succeed (h : Disguises D L L') (slots : Slots (Finding π))
    (heading : Heading) (outcomes : List (Outcome π)) :
    Follows D (L.succeed slots heading outcomes)
      (L'.succeed (slots.mapItems (Finding.disguise D)) heading
        (outcomes.map (Outcome.disguise D))) := by
  constructor
  · simp only [succeed, settle, h.nextHandle_eq, Outcome.resolveAll_disguise]
    rfl
  · refine ⟨h.settings_eq, ?_, ?_, h.clock_eq, ?_, ?_⟩
    · simp only [succeed, settle, h.nextHandle_eq, Outcome.resolveAll_disguise, Slots.put_mapItems]
      rfl
    · simp only [succeed, settle, Heading.report_disguise]
    · simp only [succeed, settle, h.nextHandle_eq, Outcome.resolveAll_disguise]
    · simp only [succeed, settle, enabled_note, h.enabled_eq]

theorem get?_mapItems_of_none (slots : Slots (Finding π)) (hslot : slots.get? file = none) :
    (slots.mapItems (Finding.disguise D)).get? file = none := by
  rw [Slots.get?_mapItems, hslot, Option.map_none]

theorem get?_mapItems_of_some (slots : Slots (Finding π)) {items : List (Finding π)}
    (hslot : slots.get? file = some items) :
    (slots.mapItems (Finding.disguise D)).get? file = some (items.map (Finding.disguise D)) := by
  rw [Slots.get?_mapItems, hslot, Option.map_some]

theorem map_trackOutcome_disguise (D : Disguise π ρ) {p : Pairing (Finding π) (Finding π)}
    {items : List (Finding π)} (hp : p.Proper) (hlefts : p.lefts = items) (now : Int) :
    (items.map (Finding.disguise D)).map
        (trackOutcome (p.map (Finding.disguise D) (Finding.disguise D)) now) =
      (items.map (trackOutcome p now)).map (Outcome.disguise D) := by
  rw [List.map_map, List.map_map]
  exact List.map_congr_left fun item hitem =>
    trackOutcome_disguise D hp (hlefts.symm ▸ hitem) now

theorem map_rebaseOutcome_disguise (D : Disguise π ρ) {p : Pairing (Finding π) (Finding π)}
    {current : List (Finding π)} (hp : p.Proper) (hrights : p.rights = current) (now : Int)
    (inheritSeverity : Bool) :
    (current.map (Finding.disguise D)).map
        (rebaseOutcome (p.map (Finding.disguise D) (Finding.disguise D)) now inheritSeverity) =
      (current.map (rebaseOutcome p now inheritSeverity)).map (Outcome.disguise D) := by
  rw [List.map_map, List.map_map]
  exact List.map_congr_left fun item hitem =>
    rebaseOutcome_disguise D hp (hrights.symm ▸ hitem) now inheritSeverity

/-- An analysis of disguised findings, if the slot of the file lists no finding twice. -/
theorem Disguises.follows_track (h : Disguises D L L')
    (hdistinct : ∀ previous, L.slot? file = some previous → Distinct previous)
    (items : List (Finding π)) :
    Follows D (L.track file items) (L'.track file (items.map (Finding.disguise D))) := by
  have hends := L.track_ends file items
  generalize L.track file items = r at hends ⊢
  cases hends with
  | duplicate hd =>
      rw [track_eq_duplicate (mt (distinct_disguise_iff D).1 hd)]
      exact h.follows_error _
  | disposed hd hs =>
      rw [track_eq_disposed ((distinct_disguise_iff D).2 hd) (h.store_of_disposed hs)]
      exact h.follows_error _
  | @first slots hd hs hslot =>
      have hsucceed := h.follows_succeed slots ⟨.track, file, true, items.length, 0⟩
        (items.map .passthrough)
      rw [track_eq_first ((distinct_disguise_iff D).2 hd) (h.store_of_live hs)
        (get?_mapItems_of_none slots hslot), List.length_map]
      rw [List.map_map] at hsucceed ⊢
      exact hsucceed
  | @clash slots previous cause hd hs hslot hp =>
      -- the cascade fails on repeated findings only, and the slot has none
      have hprevious := hdistinct previous ((slot?_of_live hs file).trans hslot)
      exact absurd (hp.symm.trans (Plain.pairBy_spec _ hd hprevious).1) (by simp)
  | @later slots previous p hd hs hslot hp =>
      have hprevious := hdistinct previous ((slot?_of_live hs file).trans hslot)
      obtain ⟨hproper, hlefts, -, hpair⟩ := Cascade.pairBy_disguise_of_ok D hd hprevious hp
      rw [← h.settings_eq] at hpair
      rw [track_eq_settle ((distinct_disguise_iff D).2 hd) (h.store_of_live hs)
          (get?_mapItems_of_some slots hslot) hpair, h.clock_eq,
        map_trackOutcome_disguise D hproper hlefts L.clock.now,
        (hproper.faithful_disguise D).unmatchedRights_map, List.length_map, List.length_map]
      exact (h.withClock L.clock.tick).follows_succeed slots _ _

/-- A rebase on disguised issues of the server, if the slot of the file lists no finding twice. -/
theorem Disguises.follows_rebase (h : Disguises D L L')
    (hdistinct : ∀ current, L.slot? file = some current → Distinct current)
    (base : List (Finding π)) :
    Follows D (L.rebase file base) (L'.rebase file (base.map (Finding.disguise D))) := by
  have hends := L.rebase_ends file base
  generalize L.rebase file base = r at hends ⊢
  cases hends with
  | disposed hs =>
      rw [rebase_eq_disposed (h.store_of_disposed hs)]
      exact h.follows_error _
  | @unknown slots hs hslot =>
      rw [rebase_eq_unknown (h.store_of_live hs) (get?_mapItems_of_none slots hslot)]
      exact h.follows_error _
  | @duplicate slots current hs hslot hd =>
      rw [rebase_eq_duplicate (h.store_of_live hs) (get?_mapItems_of_some slots hslot)
        (mt (distinct_disguise_iff D).1 hd)]
      exact h.follows_error _
  | @empty slots hs hslot hd =>
      rw [rebase_eq_empty (h.store_of_live hs) (get?_mapItems_of_some slots hslot)
        ((distinct_disguise_iff D).2 hd), List.length_map]
      exact h.follows_succeed slots _ []
  | @clash slots current cause hs hslot hd hne hp =>
      have hcurrent := hdistinct current ((slot?_of_live hs file).trans hslot)
      exact absurd (hp.symm.trans (Plain.pairBy_spec _ hd hcurrent).1) (by simp)
  | @later slots current p hs hslot hd hne hp =>
      have hcurrent := hdistinct current ((slot?_of_live hs file).trans hslot)
      obtain ⟨hproper, -, hrights, hpair⟩ := Cascade.pairBy_disguise_of_ok D hd hcurrent hp
      rw [← h.settings_eq] at hpair
      have hinherit := congrArg Settings.inheritSeverity h.settings_eq
      rw [rebase_eq_settle (h.store_of_live hs) (get?_mapItems_of_some slots hslot)
          ((distinct_disguise_iff D).2 hd) (mt List.map_eq_nil_iff.1 hne) hpair, h.clock_eq,
        hinherit,
        map_rebaseOutcome_disguise D hproper hrights L.clock.now L.settings.inheritSeverity,
        (hproper.faithful_disguise D).unmatchedLefts_map, List.length_map, List.length_map]
      exact (h.withClock L.clock.tick).follows_succeed slots _ _

/-- No slot of the ledger lists a finding twice. -/
def Orderly (L : Ledger π) : Prop :=
  ∀ file items, L.slot? file = some items → Distinct items

/-- A call with disguised findings has the same answer in disguise. -/
theorem Disguises.perform (h : Disguises D L L') (hslots : L.Orderly) {c : Call (Finding π)}
    (hc : c.OnLedger) :
    (L'.perform (c.disguise D)).1 = (L.perform c).1.map (Reply.disguise D) ∧
      Disguises D (L.perform c).2 (L'.perform (c.disguise D)).2 := by
  cases c with
  | track file items =>
      have hfollows := h.follows_track (hslots file) items
      exact ⟨hfollows.findings_eq, hfollows.disguises⟩
  | rebase file base =>
      have hfollows := h.follows_rebase (hslots file) base
      exact ⟨hfollows.findings_eq, hfollows.disguises⟩
  | reset =>
      show (L'.perform .reset).1 = _ ∧ Disguises D _ (L'.perform .reset).2
      cases hs : L.store with
      | disposed =>
          rw [Ledger.perform, Ledger.perform, reset_eq_disposed hs,
            reset_eq_disposed (h.store_of_disposed hs)]
          exact ⟨rfl, h⟩
      | live slots =>
          rw [Ledger.perform, Ledger.perform, reset_eq_live hs,
            reset_eq_live (h.store_of_live hs)]
          exact ⟨rfl, h.settings_eq, rfl, rfl, h.clock_eq, h.nextHandle_eq, h.enabled_eq⟩
  | dispose =>
      show (L'.perform .dispose).1 = _ ∧ Disguises D _ (L'.perform .dispose).2
      rw [Ledger.perform, Ledger.perform, dispose_eq, dispose_eq]
      exact ⟨rfl, h.settings_eq, rfl, h.lastReport_eq, h.clock_eq, h.nextHandle_eq, h.enabled_eq⟩
  | useStore op => exact absurd hc id

/-- The records of the two calls differ in nothing but their stamps. -/
theorem Disguises.records (h : Disguises D L L') (hslots : L.Orderly) {c : Call (Finding π)}
    (hc : c.OnLedger) :
    (L'.records (c.disguise D)).map Audit.Record.unstamped =
      (L.records c).map Audit.Record.unstamped := by
  obtain ⟨hanswer, hnext⟩ := h.perform hslots hc
  unfold Ledger.records
  rw [hanswer, hnext.lastReport_eq, h.enabled_eq]
  cases (L.perform c).1 with
  | error e => rfl
  | ok reply =>
      cases reply with
      | store answer => cases answer <;> rfl
      | findings items =>
          simp only [Except.map, Reply.disguise]
          split
          · rw [List.map_map, List.map_map]
            rfl
          · rfl

end Ledger

/-- What is seen of the call with disguised findings. -/
def Exchange.disguise (D : Disguise π ρ) (x : Exchange π) : Exchange ρ where
  call := x.call.disguise D
  answer := x.answer.map (Reply.disguise D)
  report := x.report
  records := x.records

/-- What is seen of the call, without the stamps of the records. -/
def Exchange.unstamped (x : Exchange π) : Exchange π :=
  { x with records := x.records.map Audit.Record.unstamped }

section Supply

/-- The events that supply the disguised finding with the disguised hashes of its location, if it
has a location. -/
def Content.supply (D : Disguise π ρ) (c : Snapshot π) (source : String) : List (Event ρ) :=
  if c.isFileLevel then [] else [.enter (.draft ((c.located source).draft.disguise D))]

/-- The events that do with disguised findings what an event does with the findings. -/
def Event.disguise (D : Disguise π ρ) : Event π → List (Event ρ)
  | enter (.known handle) => [enter (.known handle)]
  | enter (.draft d) => [enter (.draft (d.disguise D))]
  | enter (.located d source) =>
      enter (.draft (d.disguise D)) ::
        match Draft.check d with
        | .ok c => c.supply D source
        | .error _ => []
  | evolve handle changes => [evolve handle (changes.map (Change.disguise D))]
  | fingerprint item source => item.toContent.supply D source
  | setClock time step => [setClock time step]
  | call c => [call (c.disguise D)]

end Supply

namespace Registry

variable (D : Disguise π ρ) (r : Registry π)

/-- The registry with all findings in disguise. -/
def disguise : Registry ρ :=
  ⟨r.next, r.built.map (Finding.disguise D)⟩

theorem build_disguise (d : Draft π) :
    ((r.disguise D).build (d.disguise D)).2 = (r.build d).2.disguise D := by
  cases h : Draft.check d with
  | error e =>
      simp only [build, Finding.build, Draft.check_disguise, h, Except.map, note]
      rfl
  | ok c =>
      simp only [build, Finding.build, Draft.check_disguise, h, Except.map, note]
      rfl

theorem get_disguise (handle : Nat) :
    (r.disguise D).get handle = (r.get handle).map (Finding.disguise D) := by
  have hfind : (r.disguise D).find? handle = (r.find? handle).map (Finding.disguise D) :=
    List.find?_map
  unfold get
  rw [hfind]
  cases r.find? handle <;> rfl

theorem evolve_disguise (handle : Nat) (changes : List (Change π)) :
    ((r.disguise D).evolve handle (changes.map (Change.disguise D))).2 =
      (r.evolve handle changes).2.disguise D := by
  unfold evolve
  rw [get_disguise]
  cases r.get handle with
  | error e => rfl
  | ok f =>
      simp only [Except.map, Finding.evolve, Change.refusal?_disguise]
      cases Change.refusal? changes with
      | some e => rfl
      | none =>
          have hbuild := r.build_disguise D (changes.foldl Change.apply f.toContent.draft)
          rw [← Change.foldl_apply_disguise] at hbuild
          exact hbuild

theorem enter_located_of_error {d : Draft π} {e : Rejection} (h : Draft.check d = .error e)
    (source : String) : (r.enter (.located d source)).2 = (r.build d).2 := by
  simp [enter, build, Finding.build, h, note]

theorem enter_located_of_ok {d : Draft π} {c : Snapshot π} (h : Draft.check d = .ok c)
    (source : String) : (r.enter (.located d source)).2 =
      ((r.build d).2.fingerprint (Finding.mint r.next c).1 source).2 := by
  simp [enter, build, Finding.build, h, note]

/-- Fingerprinting a finding that has a location is building one with the hashes. -/
theorem fingerprint_eq_build {f : Finding π} (hf : f.isFileLevel = false) (source : String) :
    (r.fingerprint f source).2 = (r.build (f.toContent.located source).draft).2 := by
  have hcheck : Draft.check (f.toContent.located source).draft = .ok (f.toContent.located source) :=
    Draft.check_eq_ok_iff.2 rfl
  simp [fingerprint, Finding.fingerprint, hf, build, Finding.build, hcheck, note]

end Registry
namespace Session

variable {D : Disguise π ρ} {s : Session π} {s' : Session ρ}

/-- The second session is the first one in disguise. -/
structure Disguises (D : Disguise π ρ) (s : Session π) (s' : Session ρ) : Prop where
  ledger : s.ledger.Disguises D s'.ledger
  built_eq : s'.built = s.built.map (Finding.disguise D)

theorem Disguises.registry_eq (h : Disguises D s s') : s'.registry = s.registry.disguise D := by
  rw [registry, h.built_eq, h.ledger.nextHandle_eq]
  rfl

theorem Disguises.withRegistry (h : Disguises D s s') (r : Registry π) :
    Disguises D (s.withRegistry r) (s'.withRegistry (r.disguise D)) where
  ledger := {
    settings_eq := h.ledger.settings_eq
    store_eq := h.ledger.store_eq
    lastReport_eq := h.ledger.lastReport_eq
    clock_eq := h.ledger.clock_eq
    nextHandle_eq := rfl
    enabled_eq := h.ledger.enabled_eq }
  built_eq := rfl

/-- A call with disguised findings has the same answer in disguise. -/
theorem Disguises.perform (h : Disguises D s s') (hs : s.Sound) {c : Call (Finding π)}
    (hc : c.OnLedger) :
    (s'.perform (c.disguise D)).1 = (s.perform c).1.map (Reply.disguise D) ∧
      Disguises D (s.perform c).2 (s'.perform (c.disguise D)).2 := by
  obtain ⟨hanswer, hnext⟩ := h.ledger.perform hs.slot_distinct hc
  unfold Session.perform
  -- the second ledger enters the call only through its answer and its next state
  generalize s.ledger.perform c = r at hanswer hnext
  generalize s'.ledger.perform (c.disguise D) = r' at hanswer hnext
  obtain ⟨answer, L⟩ := r
  obtain ⟨answer', L'⟩ := r'
  obtain rfl : answer' = answer.map (Reply.disguise D) := hanswer
  cases answer with
  | error e => exact ⟨rfl, hnext, h.built_eq⟩
  | ok reply =>
      cases reply with
      | store answer => cases answer <;> exact ⟨rfl, hnext, h.built_eq⟩
      | findings items =>
          refine ⟨rfl, hnext, ?_⟩
          simp only [Except.map, Reply.disguise, h.ledger.nextHandle_eq, h.built_eq,
            List.map_append, List.filter_map]
          rfl

theorem Disguises.exchange (h : Disguises D s s') (hs : s.Sound) {c : Call (Finding π)}
    (hc : c.OnLedger) :
    (s'.exchange (c.disguise D)).unstamped = ((s.exchange c).disguise D).unstamped := by
  obtain ⟨hanswer, hnext⟩ := h.perform hs hc
  have hrecords := h.ledger.records hs.slot_distinct hc
  simp only [Session.exchange, Exchange.unstamped, Exchange.disguise, hanswer,
    hnext.ledger.lastReport_eq, hrecords]

theorem Disguises.enter_draft (h : Disguises D s s') (d : Draft π) :
    Disguises D (s.withRegistry (s.registry.build d).2)
      (s'.after (.enter (.draft (d.disguise D)))) := by
  have hbuild := s.registry.build_disguise D d
  rw [← h.registry_eq] at hbuild
  show Disguises D _ (s'.withRegistry (s'.registry.build _).2)
  rw [hbuild]
  exact h.withRegistry _

/-- Supplying the disguised finding with its hashes does what fingerprinting the finding does. -/
theorem Disguises.supply (h : Disguises D s s') (f : Finding π) (source : String) :
    Disguises D (s.withRegistry (s.registry.fingerprint f source).2)
      (s'.afterAll (f.toContent.supply D source)) := by
  cases hf : f.isFileLevel with
  | true =>
      have hsame : (s.registry.fingerprint f source).2 = s.registry := by
        simp [Registry.fingerprint, hf]
      rw [Content.supply, if_pos hf, hsame]
      exact h
  | false =>
      rw [Content.supply, if_neg (by simp [hf]), s.registry.fingerprint_eq_build hf]
      exact h.enter_draft _

/-- The events of a supply are no calls and bring nothing along. -/
theorem exchanges_supply (s' : Session ρ) (c : Snapshot π) (source : String) :
    s'.exchanges (c.supply D source) = [] := by
  unfold Content.supply
  split <;> rfl

theorem admits_supply (s' : Session ρ) (c : Snapshot π) (source : String) :
    s'.Admits (c.supply D source) := by
  unfold Content.supply
  split
  · trivial
  · exact ⟨List.nil_subset _, trivial⟩

/-- An event on disguised findings leads to the disguised session. -/
theorem Disguises.after (h : Disguises D s s') (hs : s.Sound) {e : Event π} (he : e.OnLedger) :
    Disguises D (s.after e) (s'.afterAll (e.disguise D)) := by
  cases e with
  | enter entry =>
      cases entry with
      | known handle => exact h
      | draft d => exact h.enter_draft d
      | located d source =>
          rw [Session.after, Event.disguise]
          cases hcheck : Draft.check d with
          | error e =>
              rw [s.registry.enter_located_of_error hcheck]
              exact h.enter_draft d
          | ok c =>
              rw [s.registry.enter_located_of_ok hcheck]
              exact (h.enter_draft d).supply (Finding.mint s.registry.next c).1 source
  | evolve handle changes =>
      have hevolve := s.registry.evolve_disguise D handle changes
      rw [← h.registry_eq] at hevolve
      show Disguises D _ (s'.withRegistry (s'.registry.evolve _ _).2)
      rw [hevolve]
      exact h.withRegistry _
  | fingerprint item source => exact h.supply item source
  | setClock time step =>
      show Disguises D (s.step _).2 (s'.step _).2
      simp only [Session.step, h.ledger.clock_eq]
      split
      · exact ⟨h.ledger.withClock _, h.built_eq⟩
      · exact h
  | call c => exact (h.perform hs he).2

/-- The disguised event brings along findings that exist. -/
theorem Disguises.admits (h : Disguises D s s') {e : Event π} (hitems : e.items ⊆ s.built) :
    s'.Admits (e.disguise D) := by
  cases e with
  | enter entry =>
      cases entry with
      | known handle => exact ⟨List.nil_subset _, trivial⟩
      | draft d => exact ⟨List.nil_subset _, trivial⟩
      | located d source =>
          refine ⟨List.nil_subset _, ?_⟩
          cases Draft.check d with
          | error e => trivial
          | ok c => exact admits_supply _ c source
  | evolve handle changes => exact ⟨List.nil_subset _, trivial⟩
  | fingerprint item source => exact admits_supply _ _ source
  | setClock time step => exact ⟨List.nil_subset _, trivial⟩
  | call c =>
      refine ⟨?_, trivial⟩
      rw [h.built_eq]
      exact List.Subset.trans (Call.items_withItems_subset c _) (List.map_subset _ hitems)

/-- What is seen of a disguised event is what is seen of the event, in disguise. -/
theorem Disguises.exchanges (h : Disguises D s s') (hs : s.Sound) {e : Event π}
    (he : e.OnLedger) :
    (s'.exchanges (e.disguise D)).map Exchange.unstamped =
      (s.exchanges [e]).map fun x => (x.disguise D).unstamped := by
  cases e with
  | enter entry =>
      cases entry with
      | known handle => rfl
      | draft d => rfl
      | located d source =>
          show ((s'.after _).exchanges _).map _ = []
          cases Draft.check d with
          | error e => rfl
          | ok c => exact congrArg _ (exchanges_supply _ c source)
  | evolve handle changes => rfl
  | fingerprint item source => exact congrArg _ (exchanges_supply _ _ source)
  | setClock time step => rfl
  | call c => exact congrArg (fun x => [x]) (h.exchange hs he)

end Session

section Runs

variable {D : Disguise π ρ} {s t : Session π} {s' : Session ρ} {es : List (Event π)}

theorem Content.onLedger_supply (c : Snapshot π) (source : String) :
    ∀ e ∈ c.supply D source, e.OnLedger := by
  unfold Content.supply
  split <;> simp [Event.OnLedger]

theorem Event.onLedger_disguise {e : Event π} (he : e.OnLedger) :
    ∀ e' ∈ e.disguise D, e'.OnLedger := by
  cases e with
  | enter entry =>
      cases entry with
      | known handle => simp [disguise, OnLedger]
      | draft d => simp [disguise, OnLedger]
      | located d source =>
          refine List.forall_mem_cons.2 ⟨trivial, ?_⟩
          cases Draft.check d with
          | error e => simp
          | ok c => exact Content.onLedger_supply c source
  | evolve handle changes => simp [disguise, OnLedger]
  | fingerprint item source => exact Content.onLedger_supply _ source
  | setClock time step => simp [disguise, OnLedger]
  | call c =>
      have hc : (c.disguise D).OnLedger := (c.onLedger_withItems _).2 he
      simpa [disguise, OnLedger] using hc

/-- The run on disguised findings leads to the disguised session, and looks like the run. -/
theorem Run.disguise (hrun : Run s es t) (h : Session.Disguises D s s') (hs : s.Sound)
    (hes : ∀ e ∈ es, e.OnLedger) :
    Run s' (es.flatMap (Event.disguise D)) (s'.afterAll (es.flatMap (Event.disguise D))) ∧
      Session.Disguises D t (s'.afterAll (es.flatMap (Event.disguise D))) ∧
      (s'.exchanges (es.flatMap (Event.disguise D))).map Exchange.unstamped =
        (s.exchanges es).map fun x => (x.disguise D).unstamped := by
  induction hrun with
  | nil => exact ⟨Run.nil, h, rfl⟩
  | @snoc es t e hrun hitems ih =>
      have hes' : ∀ e ∈ es, e.OnLedger := fun e' he' => hes e' (List.mem_append_left _ he')
      have he : e.OnLedger := hes e (by simp)
      obtain ⟨hrun', hnext, hseen⟩ := ih hes'
      have hsound := hrun.sound hs hes'
      have hafter : ∀ es', s'.afterAll (es.flatMap (Event.disguise D) ++ es') =
          (s'.afterAll (es.flatMap (Event.disguise D))).afterAll es' :=
        fun es' => List.foldl_append
      rw [List.flatMap_append, List.flatMap_singleton, hafter]
      refine ⟨hrun'.trans (hnext.admits hitems).run, hnext.after hsound he, ?_⟩
      rw [Session.exchanges_append, Session.exchanges_append, List.map_append, List.map_append,
        hseen, hnext.exchanges hsound he, ← hrun.eq_afterAll]

end Runs

section Theorem

/-- **A ledger sees of its findings only which of their values are equal.**  A run from a new ledger
is repeated with disguised findings on another new ledger, with the same settings and the same
clock, and with a log that is written if the log of the first one is.  The repetition is a run, too.
Each call has the same answer in disguise, or the same error, and after it the ledger keeps the same
report; the records of the call differ in their stamps only, and the logs consist of the records.
In the end the same handles are given out, and the findings in the slots are the disguised ones. -/
theorem ledger_sees_only_equalities (D : Disguise π ρ) (settings : Settings) (clock : Clock)
    {log log' : Audit.Log} (hlog : log'.enabled = log.enabled) {es : List (Event π)}
    (hes : ∀ e ∈ es, e.OnLedger) {t : Session π}
    (hrun : Run (.start (.new settings clock log)) es t) :
    let s : Session π := .start (.new settings clock log)
    let s' : Session ρ := .start (.new settings clock log')
    let es' := es.flatMap (Event.disguise D)
    let t' := s'.afterAll es'
    Run s' es' t' ∧ (∀ e ∈ es', e.OnLedger) ∧
      (s'.exchanges es').map Exchange.unstamped =
        (s.exchanges es).map (fun x => (x.disguise D).unstamped) ∧
      t'.ledger.store = t.ledger.store.mapItems (Finding.disguise D) ∧
      t'.built = t.built.map (Finding.disguise D) ∧
      t'.ledger.nextHandle = t.ledger.nextHandle ∧
      t'.ledger.lastReport = t.ledger.lastReport ∧
      t'.ledger.clock = t.ledger.clock ∧
      t.ledger.log = ((s.exchanges es).flatMap Exchange.records).foldl Audit.Log.append log ∧
      t'.ledger.log =
        ((s'.exchanges es').flatMap Exchange.records).foldl Audit.Log.append log' := by
  intro s s' es' t'
  have hstart : Session.Disguises D s s' := ⟨⟨rfl, rfl, rfl, rfl, rfl, hlog⟩, rfl⟩
  obtain ⟨hrun', hdisguises, hseen⟩ :=
    hrun.disguise hstart (Session.sound_start settings clock log) hes
  refine ⟨hrun', ?_, hseen, hdisguises.ledger.store_eq, hdisguises.built_eq,
    hdisguises.ledger.nextHandle_eq, hdisguises.ledger.lastReport_eq, hdisguises.ledger.clock_eq,
    ?_, s'.log_afterAll es'⟩
  · intro e' he'
    obtain ⟨e, he, hmem⟩ := List.mem_flatMap.1 he'
    exact Event.onLedger_disguise (hes e he) e' hmem
  · rw [hrun.eq_afterAll]
    exact s.log_afterAll es

/-- Texts are given a prefix, lines are shifted, hashes change their signs, and text ranges and
payloads are forgotten. -/
def Disguise.noted : Disguise Unit Nat where
  ruleKey text := "rule " ++ text
  message text := "message " ++ text
  line n := n + 10
  textRange _ := ⟨1, 0, 1, 0⟩
  lineHash n := -n
  textRangeHash n := -n
  serverIssueKey text := "key " ++ text
  payload _ := 0
  ruleKey_injective := fun _ _ => (String.append_right_inj _).1
  message_injective := fun _ _ => (String.append_right_inj _).1
  line_injective := fun a b (h : a + 10 = b + 10) => by omega
  lineHash_injective := fun _ _ => Int.neg_inj.1
  textRangeHash_injective := fun _ _ => Int.neg_inj.1
  serverIssueKey_injective := fun _ _ => (String.append_right_inj _).1

/-- The repetition of a run, with a log that has stamps of its own. -/
theorem ledger_sees_only_equalities_noted :
    let log : Audit.Log := { Audit.Log.off with enabled := true }
    let log' : Audit.Log := { log with stamp := fun _ => ⟨"later", 3⟩ }
    let s : Session Unit := .start (.new {} (.steady 100 1) log)
    let s' : Session Nat := .start (.new {} (.steady 100 1) log')
    let es' := Event.noted.flatMap (Event.disguise Disguise.noted)
    log'.enabled = log.enabled ∧ Run s Event.noted (s.afterAll Event.noted) ∧
      Run s' es' (s'.afterAll es') ∧
      (s'.afterAll es').ledger.store =
        (s.afterAll Event.noted).ledger.store.mapItems (Finding.disguise Disguise.noted) ∧
      ((s'.exchanges es').map Exchange.unstamped).map Exchange.report =
        ((s.exchanges Event.noted).map fun x =>
          (x.disguise Disguise.noted).unstamped).map Exchange.report ∧
      ((s'.afterAll es').ledger.slot? "a.py").map (List.map fun f => (f.handle, f.line)) =
        some [(6, some 13), (5, some 13)] := by
  intro log log' s s' es'
  have hlog : log'.enabled = log.enabled := rfl
  have hrun : Run s Event.noted (s.afterAll Event.noted) := Session.Admits.run (by decide)
  obtain ⟨hrun', -, hseen, hstore, -⟩ :=
    ledger_sees_only_equalities Disguise.noted {} (.steady 100 1) hlog Event.onLedger_noted hrun
  refine ⟨hlog, hrun, hrun', ?_, ?_, ?_⟩
  · rw [hstore]
  · rw [hseen]
  · decide +kernel

end Theorem
end FindingLedger
