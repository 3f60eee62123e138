import FindingLedger.Proofs.Ledger.Calls

/-!
# Runs of a session

**Input.**  A session, and events: findings are built, changed or fingerprinted, the clock is set,
and calls are made on the ledger.  A call may bring any findings that exist at that time.

**Algorithm.**  `Session.after` is the session after one event; a `Run` is a sequence of events.  A
session is `Reachable` when a run leads to it from a new ledger on which only the ledger's own calls
are made.  What a call does is what `Session.perform` does, whether its record is written or not.

**Results.**
* `Session.Sound`: handles tell all findings apart, and every slot lists findings that exist, each
  of them once.
* `Run.sound`, `Reachable.sound`: this holds along every run.
* `Run.grows`: along a run no finding is forgotten and no handle is given out again.
* `Reachable.step`, `Reachable.runAll`: sessions stay reachable while requests are answered.
-/

namespace FindingLedger

namespace Call

variable {ι : Type}

/-- The call is one of the ledger's own, and no direct use of its store. -/
def OnLedger : Call ι → Prop
  | useStore _ => False
  | _ => True

theorem onLedger_withItems {κ : Type} (c : Call ι) (items : List κ) :
    (c.withItems items).OnLedger ↔ c.OnLedger := by
  cases c <;> exact Iff.rfl

theorem items_withItems_subset {κ : Type} (c : Call ι) (items : List κ) :
    (c.withItems items).items ⊆ items := by
  cases c with
  | track file old => exact List.Subset.refl _
  | rebase file old => exact List.Subset.refl _
  | reset => exact List.nil_subset _
  | dispose => exact List.nil_subset _
  | useStore op =>
      cases op with
      | replace file old => exact List.Subset.refl _
      | _ => exact List.nil_subset _

end Call

/-- The request makes no direct use of the store. -/
def Request.OnLedger {π : Type} : Request π → Prop
  | call c => c.OnLedger
  | setClock _ _ => True

/-- One event in a session. -/
inductive Event (π : Type)
  | enter (entry : Entry π)
  | evolve (handle : Nat) (changes : List (Change π))
  | fingerprint (item : Finding π) (source : String)
  | setClock (time step : Int)
  | call (call : Call (Finding π))

namespace Event

variable {π : Type}

/-- The findings that an event brings along. -/
def items : Event π → List (Finding π)
  | fingerprint item _ => [item]
  | call c => c.items
  | _ => []

/-- The event makes no direct use of the store. -/
def OnLedger : Event π → Prop
  | call c => c.OnLedger
  | _ => True

end Event

namespace Session

variable {π : Type}

/-- The session after an event. -/
def after (s : Session π) : Event π → Session π
  | .enter entry => s.withRegistry (s.registry.enter entry).2
  | .evolve handle changes => s.withRegistry (s.registry.evolve handle changes).2
  | .fingerprint item source => s.withRegistry (s.registry.fingerprint item source).2
  | .setClock time step => (s.step (.setClock time step)).2
  | .call c => (s.perform c).2

end Session

/-- The events lead from one session to the other, each with findings that exist when it happens. -/
inductive Run {π : Type} (s : Session π) : List (Event π) → Session π → Prop
  | nil : Run s [] s
  | snoc {es : List (Event π)} {t : Session π} (e : Event π) :
      Run s es t → e.items ⊆ t.built → Run s (es ++ [e]) (t.after e)

/-- The session is reached from a new ledger by the ledger's own calls. -/
def Reachable {π : Type} (s : Session π) : Prop :=
  ∃ settings clock log es, (∀ e ∈ es, e.OnLedger) ∧
    Run (.start (.new settings clock log)) es s

namespace Registry

variable {π : Type}

/-- Handles tell the built findings apart, and are given out already. -/
structure Sound (r : Registry π) : Prop where
  distinct : Ledger.Distinct r.built
  lt_next : ∀ f ∈ r.built, f.handle < r.next

/-- The second registry is the first one after some findings were built. -/
structure Extends (r r' : Registry π) : Prop where
  built_subset : r.built ⊆ r'.built
  sound : r.Sound → r'.Sound

theorem Extends.refl (r : Registry π) : Extends r r :=
  ⟨List.Subset.refl _, id⟩

theorem Extends.trans {r₁ r₂ r₃ : Registry π} (h : Extends r₁ r₂) (h' : Extends r₂ r₃) :
    Extends r₁ r₃ :=
  ⟨List.Subset.trans h.built_subset h'.built_subset, fun hs => h'.sound (h.sound hs)⟩

/-- A finding with the next handle can be built. -/
theorem extends_cons (r : Registry π) (content : Snapshot π) :
    Extends r ⟨r.next + 1, ⟨content, r.next⟩ :: r.built⟩ where
  built_subset := List.subset_cons_self _ _
  sound := by
    intro hs
    refine ⟨List.nodup_cons.2 ⟨?_, hs.distinct⟩, ?_⟩
    · intro hmem
      obtain ⟨f, hf, heq⟩ := List.mem_map.1 hmem
      exact absurd heq (Nat.ne_of_lt (hs.lt_next f hf))
    · intro f hf
      rcases List.mem_cons.1 hf with rfl | hf
      · exact Nat.lt_succ_self r.next
      · exact Nat.lt_succ_of_lt (hs.lt_next f hf)

/-- Handles can be used up. -/
theorem extends_skip (r : Registry π) {next : Nat} (h : r.next ≤ next) :
    Extends r { r with next := next } :=
  ⟨List.Subset.refl _, fun hs => ⟨hs.distinct, fun f hf => Nat.lt_of_lt_of_le (hs.lt_next f hf) h⟩⟩

theorem extends_note_build (r : Registry π) (d : Draft π) :
    Extends r (r.note (Finding.build r.next d)).2 := by
  cases h : Draft.check d with
  | ok content => simpa [Finding.build, h, note, Finding.mint] using extends_cons r content
  | error e => simpa [Finding.build, h, note] using extends_skip r (Nat.le_succ r.next)

theorem extends_evolve (r : Registry π) (handle : Nat) (changes : List (Change π)) :
    Extends r (r.evolve handle changes).2 := by
  cases hget : r.get handle with
  | error e => simpa [evolve, hget] using Extends.refl r
  | ok f =>
      cases hrefuse : Change.refusal? changes with
      | some e =>
          simpa [evolve, hget, Finding.evolve, hrefuse, note] using
            extends_skip r (Nat.le_refl r.next)
      | none =>
          simpa [evolve, hget, Finding.evolve, hrefuse] using extends_note_build r _

theorem extends_fingerprint (r : Registry π) (f : Finding π) (source : String) :
    Extends r (r.fingerprint f source).2 := by
  by_cases h : f.isFileLevel
  · simpa [fingerprint, h] using Extends.refl r
  · simpa [fingerprint, Finding.fingerprint, h, Finding.mint] using
      extends_cons r (f.toContent.located source)

theorem extends_enter (r : Registry π) (entry : Entry π) : Extends r (r.enter entry).2 := by
  cases entry with
  | known handle => exact Extends.refl r
  | draft d => exact extends_note_build r d
  | located d source =>
      have hbuild : Extends r (r.build d).2 := extends_note_build r d
      cases h : r.build d with
      | mk outcome r' =>
          rw [h] at hbuild
          cases outcome with
          | error e => simpa [enter, h] using hbuild
          | ok f => simpa [enter, h] using hbuild.trans (extends_fingerprint r' f source)

theorem extends_enterAll (r : Registry π) (entries : List (Entry π)) :
    Extends r (r.enterAll entries).2 := by
  induction entries generalizing r with
  | nil => exact Extends.refl r
  | cons entry entries ih =>
      have hfirst := extends_enter r entry
      cases henter : r.enter entry with
      | mk outcome r' =>
          rw [henter] at hfirst
          cases outcome with
          | error e => simpa [enterAll, henter] using hfirst
          | ok f =>
              have hrest := ih r'
              cases hall : r'.enterAll entries with
              | mk outcome r'' =>
                  rw [hall] at hrest
                  cases outcome <;> simpa [enterAll, henter, hall] using hfirst.trans hrest

theorem mem_built_of_get {r : Registry π} {handle : Nat} {f : Finding π}
    (h : r.get handle = .ok f) : f ∈ r.built := by
  cases hfind : r.find? handle with
  | none => simp [get, hfind] at h
  | some g =>
      obtain rfl : g = f := by simpa [get, hfind] using h
      exact List.mem_of_find?_eq_some hfind

theorem mem_built_of_build {r : Registry π} {d : Draft π} {f : Finding π}
    (h : (r.build d).1 = .ok f) : f ∈ (r.build d).2.built := by
  cases hcheck : Draft.check d with
  | error e => simp [build, Finding.build, hcheck, note] at h
  | ok content =>
      obtain rfl : (Finding.mint r.next content).1 = f := by
        simpa [build, Finding.build, hcheck, note] using h
      simp [build, Finding.build, hcheck, note]

/-- What an entry stands for exists once it is entered. -/
theorem mem_built_of_enter {r : Registry π} {entry : Entry π} {f : Finding π}
    (h : (r.enter entry).1 = .ok f) : f ∈ (r.enter entry).2.built := by
  cases entry with
  | known handle => exact mem_built_of_get h
  | draft d => exact mem_built_of_build h
  | located d source =>
      have hbuild := @mem_built_of_build π r d
      cases hd : r.build d with
      | mk outcome r' =>
          rw [hd] at hbuild
          cases outcome with
          | error e => simp [enter, hd] at h
          | ok g =>
              have hg : g ∈ r'.built := hbuild rfl
              obtain rfl : (r'.fingerprint g source).1 = f := by simpa [enter, hd] using h
              by_cases hlevel : g.isFileLevel
              · simpa [enter, hd, fingerprint, Finding.fingerprint, hlevel] using hg
              · simp [enter, hd, fingerprint, hlevel]

variable (r : Registry π)

theorem le_next_note_build (d : Draft π) : r.next ≤ (r.note (Finding.build r.next d)).2.next := by
  cases h : Draft.check d <;> simp [Finding.build, h, note, Finding.mint]

theorem le_next_evolve (handle : Nat) (changes : List (Change π)) :
    r.next ≤ (r.evolve handle changes).2.next := by
  cases hget : r.get handle with
  | error e => simp [evolve, hget]
  | ok f =>
      cases hrefuse : Change.refusal? changes with
      | some e => simp [evolve, hget, Finding.evolve, hrefuse, note]
      | none => simpa [evolve, hget, Finding.evolve, hrefuse] using r.le_next_note_build _

theorem le_next_fingerprint (f : Finding π) (source : String) :
    r.next ≤ (r.fingerprint f source).2.next := by
  by_cases h : f.isFileLevel <;> simp [fingerprint, Finding.fingerprint, h, Finding.mint]

/-- However findings are built, no handle is given out again. -/
theorem le_next_enter (entry : Entry π) : r.next ≤ (r.enter entry).2.next := by
  cases entry with
  | known handle => exact Nat.le_refl _
  | draft d => exact r.le_next_note_build d
  | located d source =>
      have hbuild : r.next ≤ (r.build d).2.next := r.le_next_note_build d
      cases h : r.build d with
      | mk outcome r' =>
          rw [h] at hbuild
          cases outcome with
          | error e => simpa [enter, h] using hbuild
          | ok f =>
              simpa [enter, h] using Nat.le_trans hbuild (r'.le_next_fingerprint f source)

end Registry

theorem exists_of_map_eq_ok {ε α β : Type} {f : α → β} {answer : Except ε α} {b : β}
    (h : answer.map f = .ok b) : ∃ a, b = f a ∧ answer = .ok a := by
  cases answer with
  | error e => simp [Except.map] at h
  | ok a => exact ⟨a, (Except.ok.inj h).symm, rfl⟩

namespace Session

variable {π : Type}

/-- Handles tell the built findings apart, and every slot lists some of them, each once. -/
structure Sound (s : Session π) : Prop where
  registry : s.registry.Sound
  slot_distinct : ∀ file items, s.ledger.slot? file = some items → Ledger.Distinct items
  slot_built : ∀ file items, s.ledger.slot? file = some items → items ⊆ s.built

theorem sound_start (settings : Settings) (clock : Clock) (log : Audit.Log) :
    Sound (start (.new settings clock log : Ledger π)) where
  registry := ⟨List.nodup_nil, by simp [start, registry]⟩
  slot_distinct := by simp [start, Ledger.new, Ledger.slot?, Store.empty, Slots.get?]
  slot_built := by simp [start, Ledger.new, Ledger.slot?, Store.empty, Slots.get?]

/-- Building findings touches no slot. -/
theorem Sound.withRegistry {s : Session π} (h : s.Sound) {r : Registry π}
    (hr : s.registry.Extends r) : (s.withRegistry r).Sound where
  registry := hr.sound h.registry
  slot_distinct := h.slot_distinct
  slot_built := fun file items hslot => List.Subset.trans (h.slot_built file items hslot)
    hr.built_subset

/-- The findings that exist after a call which gave `out`. -/
def builtAfter (s : Session π) (out : List (Finding π)) : List (Finding π) :=
  out.filter (fun f => decide (s.ledger.nextHandle ≤ f.handle)) ++ s.built

/-- A call fails. -/
structure Refused (s s' : Session π) : Prop where
  ledger : s.ledger.Refused s'.ledger
  built_eq : s'.built = s.built

/-- A call settles a file. -/
structure Settled (s : Session π) (file : CodeText) (subjects out : List (Finding π))
    (s' : Session π) : Prop where
  ledger : s.ledger.Settled file subjects out s'.ledger
  built_eq : s'.built = s.builtAfter out

/-- A call forgets every file. -/
structure Forgets (s s' : Session π) : Prop where
  slot?_eq : ∀ file, s'.ledger.slot? file = none
  nextHandle_eq : s'.ledger.nextHandle = s.ledger.nextHandle
  built_eq : s'.built = s.built

/-- A call on a session answers what the ledger answers. -/
theorem perform_fst (s : Session π) (c : Call (Finding π)) :
    (s.perform c).1 = (s.ledger.perform c).1.mapError .ledger := by
  unfold perform
  split <;> rename_i heq <;> rw [heq] <;> rfl

theorem perform_ledger (s : Session π) (c : Call (Finding π)) :
    (s.perform c).2.ledger = (s.ledger.perform c).2 := by
  unfold perform
  split <;> rename_i heq <;> rw [heq]

/-- What a session answers, its ledger answers. -/
theorem ledger_perform_of_ok {s : Session π} {c : Call (Finding π)} {reply : Reply π}
    (hok : (s.perform c).1 = .ok reply) : (s.ledger.perform c).1 = .ok reply := by
  rw [perform_fst] at hok
  cases h : (s.ledger.perform c).1 with
  | error e => simp [h, Except.mapError] at hok
  | ok answer => simpa [h, Except.mapError] using hok

theorem exists_track_of_ok {s : Session π} {file : CodeText} {items : List (Finding π)}
    {reply : Reply π} (hok : (s.perform (.track file items)).1 = .ok reply) :
    ∃ out, reply = .findings out ∧ (s.ledger.track file items).1 = .ok out :=
  exists_of_map_eq_ok (ledger_perform_of_ok hok)

theorem exists_rebase_of_ok {s : Session π} {file : CodeText} {base : List (Finding π)}
    {reply : Reply π} (hok : (s.perform (.rebase file base)).1 = .ok reply) :
    ∃ out, reply = .findings out ∧ (s.ledger.rebase file base).1 = .ok out :=
  exists_of_map_eq_ok (ledger_perform_of_ok hok)

theorem perform_track_of_ok {s : Session π} {file : CodeText} {items out : List (Finding π)}
    (h : (s.ledger.track file items).1 = .ok out) :
    (s.perform (.track file items)).1 = .ok (.findings out) ∧
      (s.perform (.track file items)).2 = ⟨(s.ledger.track file items).2, s.builtAfter out⟩ := by
  constructor
  · simp only [perform, Ledger.perform, h, Except.map]
  · simp only [perform, Ledger.perform, h, Except.map]
    rfl

theorem perform_rebase_of_ok {s : Session π} {file : CodeText} {base out : List (Finding π)}
    (h : (s.ledger.rebase file base).1 = .ok out) :
    (s.perform (.rebase file base)).1 = .ok (.findings out) ∧
      (s.perform (.rebase file base)).2 = ⟨(s.ledger.rebase file base).2, s.builtAfter out⟩ := by
  constructor
  · simp only [perform, Ledger.perform, h, Except.map]
  · simp only [perform, Ledger.perform, h, Except.map]
    rfl

theorem perform_track_cases (s : Session π) (file : CodeText) (items : List (Finding π)) :
    (∃ e, (s.perform (.track file items)).1 = .error e ∧
        s.Refused (s.perform (.track file items)).2) ∨
      ∃ out, (s.perform (.track file items)).1 = .ok (.findings out) ∧ Ledger.Distinct items ∧
        s.Settled file items out (s.perform (.track file items)).2 := by
  rcases Ledger.track_cases s.ledger file items with ⟨e, he, hl⟩ | ⟨out, ho, hd, hl⟩
  · left
    simp only [perform, Ledger.perform, he, Except.map]
    exact ⟨_, rfl, hl.refused, rfl⟩
  · right
    obtain ⟨hok, hnext⟩ := perform_track_of_ok ho
    exact ⟨out, hok, hd, hnext ▸ ⟨hl, rfl⟩⟩

theorem perform_rebase_cases (s : Session π) (file : CodeText) (base : List (Finding π)) :
    (∃ e, (s.perform (.rebase file base)).1 = .error e ∧
        s.Refused (s.perform (.rebase file base)).2) ∨
      ∃ current out, (s.perform (.rebase file base)).1 = .ok (.findings out) ∧
        Ledger.Distinct base ∧ s.ledger.slot? file = some current ∧
        s.Settled file current out (s.perform (.rebase file base)).2 := by
  rcases Ledger.rebase_cases s.ledger file base with ⟨e, he, hl⟩ | ⟨current, out, ho, hd, hc, hl⟩
  · left
    simp only [perform, Ledger.perform, he, Except.map]
    exact ⟨_, rfl, hl.refused, rfl⟩
  · right
    obtain ⟨hok, hnext⟩ := perform_rebase_of_ok ho
    exact ⟨current, out, hok, hd, hc, hnext ▸ ⟨hl, rfl⟩⟩

/-- What an analysis that succeeds does. -/
theorem settled_of_track {s : Session π} {file : CodeText} {items : List (Finding π)}
    {reply : Reply π} (hok : (s.perform (.track file items)).1 = .ok reply) :
    ∃ out, reply = .findings out ∧ Ledger.Distinct items ∧
      s.Settled file items out (s.perform (.track file items)).2 := by
  rcases s.perform_track_cases file items with ⟨e, he, -⟩ | ⟨out, ho, hd, hs⟩
  · rw [he] at hok
    simp at hok
  · exact ⟨out, Except.ok.inj (hok.symm.trans ho), hd, hs⟩

/-- What a rebase that succeeds does. -/
theorem settled_of_rebase {s : Session π} {file : CodeText} {base : List (Finding π)}
    {reply : Reply π} (hok : (s.perform (.rebase file base)).1 = .ok reply) :
    ∃ current out, reply = .findings out ∧ Ledger.Distinct base ∧
      s.ledger.slot? file = some current ∧
      s.Settled file current out (s.perform (.rebase file base)).2 := by
  rcases s.perform_rebase_cases file base with ⟨e, he, -⟩ | ⟨current, out, ho, hd, hslot, hs⟩
  · rw [he] at hok
    simp at hok
  · exact ⟨current, out, Except.ok.inj (hok.symm.trans ho), hd, hslot, hs⟩

theorem perform_reset_of_disposed {s : Session π} (hs : s.ledger.store = .disposed) :
    s.perform .reset = (.error (.ledger (.store .disposed)), s) := by
  simp [perform, Ledger.perform, Ledger.reset_eq_disposed hs, Except.map]

theorem perform_reset_of_live {s : Session π} {slots : Slots (Finding π)}
    (hs : s.ledger.store = .live slots) :
    s.perform .reset = (.ok (.store .done),
      ⟨{ s.ledger with store := .live [], lastReport := none }, s.built⟩) := by
  simp [perform, Ledger.perform, Ledger.reset_eq_live hs, Except.map]

theorem perform_dispose (s : Session π) :
    s.perform .dispose = (.ok (.store .done), ⟨{ s.ledger with store := .disposed }, s.built⟩) := by
  simp [perform, Ledger.perform, Ledger.dispose_eq, Except.map]

theorem perform_reset_cases (s : Session π) :
    (∃ e, (s.perform .reset).1 = .error e ∧ s.Refused (s.perform .reset).2) ∨
      ∃ reply, (s.perform .reset).1 = .ok reply ∧ s.Forgets (s.perform .reset).2 := by
  cases hs : s.ledger.store with
  | disposed =>
      rw [perform_reset_of_disposed hs]
      exact Or.inl ⟨_, rfl, ⟨rfl, rfl, rfl⟩, rfl⟩
  | live slots =>
      rw [perform_reset_of_live hs]
      exact Or.inr ⟨_, rfl, fun _ => rfl, rfl, rfl⟩

theorem forgets_dispose (s : Session π) : s.Forgets (s.perform .dispose).2 := by
  rw [perform_dispose]
  exact ⟨fun _ => rfl, rfl, rfl⟩

theorem Sound.refused {s s' : Session π} (h : s.Sound) (hr : s.Refused s') : s'.Sound := by
  have hregistry : s'.registry = s.registry := by
    simp [Session.registry, hr.ledger.nextHandle_eq, hr.built_eq]
  refine ⟨hregistry ▸ h.registry, ?_, ?_⟩
  · intro file items hslot
    rw [hr.ledger.slot?_eq] at hslot
    exact h.slot_distinct file items hslot
  · intro file items hslot
    rw [hr.ledger.slot?_eq] at hslot
    rw [hr.built_eq]
    exact h.slot_built file items hslot

theorem Sound.forgets {s s' : Session π} (h : s.Sound) (hf : s.Forgets s') : s'.Sound := by
  have hregistry : s'.registry = s.registry := by
    simp [Session.registry, hf.nextHandle_eq, hf.built_eq]
  exact ⟨hregistry ▸ h.registry, by simp [hf.slot?_eq], by simp [hf.slot?_eq]⟩

theorem Sound.settled {s s' : Session π} (h : s.Sound) {file : CodeText}
    {subjects out : List (Finding π)} (hs : s.Settled file subjects out s')
    (hd : Ledger.Distinct subjects) (hsub : subjects ⊆ s.built) : s'.Sound := by
  have hout : Ledger.Distinct out :=
    hs.ledger.distinct_out hd fun f hf => h.registry.lt_next f (hsub hf)
  have hmem : out ⊆ s'.built := by
    intro f hf
    rw [hs.built_eq, builtAfter, List.mem_append, List.mem_filter]
    rcases hs.ledger.mem_out f hf with ⟨hlow, -⟩ | hf'
    · exact Or.inl ⟨hf, decide_eq_true hlow⟩
    · exact Or.inr (hsub hf')
  have hold : s.built ⊆ s'.built := by
    rw [hs.built_eq]
    exact List.subset_append_right _ _
  refine ⟨⟨?_, ?_⟩, ?_, ?_⟩
  · -- the new findings have handles that no older one has
    rw [Session.registry, hs.built_eq, builtAfter, Ledger.Distinct, List.map_append]
    refine List.Nodup.append (hout.sublist (List.filter_sublist.map _)) h.registry.distinct ?_
    intro x hx hx'
    obtain ⟨f, hf, rfl⟩ := List.mem_map.1 hx
    obtain ⟨g, hg, hsame⟩ := List.mem_map.1 hx'
    have hlow : s.ledger.nextHandle ≤ f.handle := of_decide_eq_true (List.mem_filter.1 hf).2
    have hlt : g.handle < s.ledger.nextHandle := h.registry.lt_next g hg
    omega
  · intro f hf
    have hle := hs.ledger.le_nextHandle
    rw [Session.registry, hs.built_eq, builtAfter, List.mem_append, List.mem_filter] at hf
    show f.handle < s'.ledger.nextHandle
    rcases hf with ⟨hf, -⟩ | hf
    · rcases hs.ledger.mem_out f hf with ⟨-, hlt⟩ | hf'
      · exact hlt
      · exact Nat.lt_of_lt_of_le (h.registry.lt_next f (hsub hf')) hle
    · exact Nat.lt_of_lt_of_le (h.registry.lt_next f hf) hle
  · intro g items hslot
    by_cases hg : g = file
    · subst hg
      rw [hs.ledger.slot?_self] at hslot
      obtain rfl := Option.some.inj hslot
      exact hout
    · rw [hs.ledger.slot?_other g hg] at hslot
      exact h.slot_distinct g items hslot
  · intro g items hslot
    by_cases hg : g = file
    · subst hg
      rw [hs.ledger.slot?_self] at hslot
      obtain rfl := Option.some.inj hslot
      exact hmem
    · rw [hs.ledger.slot?_other g hg] at hslot
      exact List.Subset.trans (h.slot_built g items hslot) hold

/-- A call on the ledger keeps the session sound. -/
theorem Sound.perform {s : Session π} (h : s.Sound) {c : Call (Finding π)} (hc : c.OnLedger)
    (hitems : c.items ⊆ s.built) : (s.perform c).2.Sound := by
  cases c with
  | track file items =>
      rcases perform_track_cases s file items with ⟨-, -, hr⟩ | ⟨out, -, hd, hs⟩
      · exact h.refused hr
      · exact h.settled hs hd hitems
  | rebase file base =>
      rcases perform_rebase_cases s file base with ⟨-, -, hr⟩ | ⟨current, out, -, -, hslot, hs⟩
      · exact h.refused hr
      · exact h.settled hs (h.slot_distinct file current hslot) (h.slot_built file current hslot)
  | reset =>
      rcases perform_reset_cases s with ⟨-, -, hr⟩ | ⟨-, -, hf⟩
      · exact h.refused hr
      · exact h.forgets hf
  | dispose => exact h.forgets (forgets_dispose s)
  | useStore op => exact absurd hc id

/-- Setting the clock touches nothing but the clock. -/
theorem step_setClock (s : Session π) (time step : Int) :
    ∃ clock, (s.step (.setClock time step)).2 = ⟨{ s.ledger with clock := clock }, s.built⟩ := by
  by_cases h : s.ledger.clock.adjustable
  · exact ⟨s.ledger.clock.set time step, by simp [Session.step, h]⟩
  · exact ⟨s.ledger.clock, by simp [Session.step, h]⟩

theorem Sound.setClock {s : Session π} (h : s.Sound) (time step : Int) :
    (s.step (.setClock time step)).2.Sound := by
  obtain ⟨clock, hclock⟩ := s.step_setClock time step
  rw [hclock]
  exact ⟨h.registry, h.slot_distinct, h.slot_built⟩

/-- An event keeps the session sound. -/
theorem Sound.after {s : Session π} (h : s.Sound) {e : Event π} (he : e.OnLedger)
    (hitems : e.items ⊆ s.built) : (s.after e).Sound := by
  cases e with
  | enter entry => exact h.withRegistry (s.registry.extends_enter entry)
  | evolve handle changes => exact h.withRegistry (s.registry.extends_evolve handle changes)
  | fingerprint item source => exact h.withRegistry (s.registry.extends_fingerprint item source)
  | setClock time step => exact h.setClock time step
  | call c => exact h.perform he hitems

section Growing

variable {s t u : Session π}

/-- No finding is forgotten, and no handle is given out again. -/
structure Grows (s t : Session π) : Prop where
  built_subset : s.built ⊆ t.built
  le_nextHandle : s.ledger.nextHandle ≤ t.ledger.nextHandle

theorem Grows.refl (s : Session π) : s.Grows s :=
  ⟨List.Subset.refl _, Nat.le_refl _⟩

theorem Grows.trans (h : s.Grows t) (h' : t.Grows u) : s.Grows u :=
  ⟨List.Subset.trans h.built_subset h'.built_subset,
    Nat.le_trans h.le_nextHandle h'.le_nextHandle⟩

theorem Refused.grows (h : s.Refused t) : s.Grows t :=
  ⟨h.built_eq ▸ List.Subset.refl _, Nat.le_of_eq h.ledger.nextHandle_eq.symm⟩

theorem Forgets.grows (h : s.Forgets t) : s.Grows t :=
  ⟨h.built_eq ▸ List.Subset.refl _, Nat.le_of_eq h.nextHandle_eq.symm⟩

theorem Settled.grows {file : CodeText} {subjects out : List (Finding π)}
    (h : s.Settled file subjects out t) : s.Grows t :=
  ⟨h.built_eq ▸ List.subset_append_right _ _, h.ledger.le_nextHandle⟩

theorem grows_perform (s : Session π) (c : Call (Finding π)) : s.Grows (s.perform c).2 := by
  cases c with
  | track file items =>
      rcases s.perform_track_cases file items with ⟨-, -, hr⟩ | ⟨_, -, -, hs⟩
      · exact hr.grows
      · exact hs.grows
  | rebase file base =>
      rcases s.perform_rebase_cases file base with ⟨-, -, hr⟩ | ⟨_, _, -, -, -, hs⟩
      · exact hr.grows
      · exact hs.grows
  | reset =>
      rcases s.perform_reset_cases with ⟨-, -, hr⟩ | ⟨-, -, hf⟩
      · exact hr.grows
      · exact hf.grows
  | dispose => exact s.forgets_dispose.grows
  | useStore op =>
      cases hop : s.ledger.store.perform op with
      | mk answer store =>
          cases answer <;> simp only [perform, Ledger.perform, Ledger.useStore, hop, Except.map] <;>
            exact ⟨List.Subset.refl _, Nat.le_refl _⟩

theorem grows_after (s : Session π) (e : Event π) : s.Grows (s.after e) := by
  cases e with
  | enter entry =>
      exact ⟨(s.registry.extends_enter entry).built_subset, s.registry.le_next_enter entry⟩
  | evolve handle changes =>
      exact ⟨(s.registry.extends_evolve handle changes).built_subset,
        s.registry.le_next_evolve handle changes⟩
  | fingerprint item source =>
      exact ⟨(s.registry.extends_fingerprint item source).built_subset,
        s.registry.le_next_fingerprint item source⟩
  | setClock time step =>
      obtain ⟨clock, hclock⟩ := s.step_setClock time step
      rw [after, hclock]
      exact ⟨List.Subset.refl _, Nat.le_refl _⟩
  | call c => exact s.grows_perform c

end Growing
end Session

section Runs

variable {π : Type} {s t : Session π} {es : List (Event π)}

/-- What every event of a run keeps, the run keeps. -/
theorem Run.induction {motive : Session π → Prop} (hrun : Run s es t) (h₀ : motive s)
    (hstep : ∀ u, ∀ e ∈ es, e.items ⊆ u.built → motive u → motive (u.after e)) : motive t := by
  induction hrun with
  | nil => exact h₀
  | snoc e _ hitems ih =>
      apply hstep _ e (by simp) hitems
      exact ih fun u e' he' => hstep u e' (List.mem_append_left _ he')

/-- **No handle is given out twice along a run**, and what was built stays known. -/
theorem Run.grows (hrun : Run s es t) : s.Grows t :=
  hrun.induction (motive := s.Grows) (.refl s) fun u e _ _ h => h.trans (u.grows_after e)

/-- Calls on the ledger keep a session sound along every run. -/
theorem Run.sound (hrun : Run s es t) (hs : s.Sound) (hes : ∀ e ∈ es, e.OnLedger) : t.Sound :=
  hrun.induction hs fun _ e he hitems hu => hu.after (hes e he) hitems

theorem Reachable.sound (h : Reachable s) : s.Sound := by
  obtain ⟨settings, clock, log, es, hes, hrun⟩ := h
  exact hrun.sound (Session.sound_start settings clock log) hes

theorem Run.single (s : Session π) (e : Event π) (h : e.items ⊆ s.built) :
    Run s [e] (s.after e) :=
  Run.snoc e Run.nil h

theorem Run.trans {u : Session π} {es' : List (Event π)} (h : Run s es t) (h' : Run t es' u) :
    Run s (es ++ es') u := by
  induction h' with
  | nil => simpa using h
  | snoc e _ hitems ih =>
      rw [← List.append_assoc]
      exact ih.snoc e hitems

/-- Entering a list is a run of single entries, and what it gives exists afterwards. -/
theorem exists_run_enterAll (s : Session π) (entries : List (Entry π)) :
    ∃ es, (∀ e ∈ es, e.OnLedger) ∧ Run s es (s.withRegistry (s.registry.enterAll entries).2) ∧
      ∀ items, (s.registry.enterAll entries).1 = .ok items →
        items ⊆ (s.registry.enterAll entries).2.built := by
  induction entries generalizing s with
  | nil => exact ⟨[], by simp, Run.nil, by simp [Registry.enterAll]⟩
  | cons entry entries ih =>
      have hfirst := Run.single s (.enter entry) (List.nil_subset _)
      have hmem := @Registry.mem_built_of_enter π s.registry entry
      cases henter : s.registry.enter entry with
      | mk outcome r =>
          simp only [Session.after, henter] at hfirst hmem
          cases outcome with
          | error e =>
              simp only [Registry.enterAll, henter]
              exact ⟨_, by simp [Event.OnLedger], hfirst, by simp⟩
          | ok f =>
              obtain ⟨es, hes, hrun, hsub⟩ := ih (s.withRegistry r)
              have hrun : Run s (.enter entry :: es) (s.withRegistry (r.enterAll entries).2) :=
                hfirst.trans hrun
              have hes : ∀ e ∈ .enter entry :: es, e.OnLedger :=
                List.forall_mem_cons.2 ⟨trivial, hes⟩
              have hf : f ∈ (r.enterAll entries).2.built :=
                (Registry.extends_enterAll r entries).built_subset (hmem rfl)
              have hsub : ∀ items, (r.enterAll entries).1 = .ok items →
                  items ⊆ (r.enterAll entries).2.built := hsub
              cases hall : r.enterAll entries with
              | mk outcome r' =>
                  rw [hall] at hrun hf hsub
                  cases outcome with
                  | error e =>
                      simp only [Registry.enterAll, henter, hall]
                      exact ⟨_, hes, hrun, by simp⟩
                  | ok items =>
                      simp only [Registry.enterAll, henter, hall]
                      refine ⟨_, hes, hrun, ?_⟩
                      rintro _ ⟨⟩
                      exact List.cons_subset.2 ⟨hf, hsub items rfl⟩

/-- Answering a request is a run, with direct use of the store only where the request asks so. -/
theorem exists_run_step (s : Session π) (q : Request π) :
    ∃ es, Run s es (s.step q).2 ∧ (q.OnLedger → ∀ e ∈ es, e.OnLedger) := by
  cases q with
  | setClock time step =>
      refine ⟨_, Run.single s (.setClock time step) (List.nil_subset _), ?_⟩
      simp [Event.OnLedger]
  | call c =>
      obtain ⟨es, hes, hrun, hsub⟩ := exists_run_enterAll s c.items
      cases hall : s.registry.enterAll c.items with
      | mk outcome r =>
          rw [hall] at hrun hsub
          cases outcome with
          | error e => exact ⟨es, by simpa [Session.step, hall] using hrun, fun _ => hes⟩
          | ok items =>
              have hitems : (c.withItems items).items ⊆ (s.withRegistry r).built :=
                List.Subset.trans (c.items_withItems_subset items) (hsub items rfl)
              have hcall := hrun.snoc (.call (c.withItems items)) hitems
              refine ⟨_, by simpa [Session.step, hall, Session.after] using hcall, ?_⟩
              intro hq e he
              rcases List.mem_append.1 he with he | he
              · exact hes e he
              · rw [List.mem_singleton.1 he]
                exact (c.onLedger_withItems items).2 hq

/-- Answering a request of the ledger's own leads to a reachable session again. -/
theorem Reachable.step (h : Reachable s) {q : Request π} (hq : q.OnLedger) :
    Reachable (s.step q).2 := by
  obtain ⟨settings, clock, log, es, hes, hrun⟩ := h
  obtain ⟨es', hrun', hes'⟩ := exists_run_step s q
  refine ⟨settings, clock, log, es ++ es', ?_, hrun.trans hrun'⟩
  intro e he
  rcases List.mem_append.1 he with he | he
  · exact hes e he
  · exact hes' hq e he

/-- All sessions seen while requests are answered are reachable. -/
theorem Reachable.runAll (h : Reachable s) {qs : List (Request π)} (hqs : ∀ q ∈ qs, q.OnLedger) :
    ∀ o ∈ s.runAll qs, Reachable o.2 := by
  induction qs generalizing s with
  | nil => simp [Session.runAll]
  | cons q qs ih =>
      obtain ⟨hq, hqs⟩ := List.forall_mem_cons.1 hqs
      have hnext := h.step hq
      exact List.forall_mem_cons.2 ⟨hnext, ih hnext hqs⟩

end Runs

section Samples

/-- A draft of one rule, with the line and the key of the server if there are any. -/
def Draft.noted (line : Option Int) (textRange : Option TextRange) (key : Option String) :
    Draft Unit where
  ruleKey := "unused"
  message := "Unused import"
  line := line
  textRange := textRange
  lineHash := none
  textRangeHash := none
  creationDate := none
  serverIssueKey := key
  resolved := false
  severity := none
  issueType := none
  payload := ()

/-- Four findings: an issue of the server, one with a text range only, and two on one line. -/
def Session.noted : Session Unit :=
  ((start (.new {} (.steady 100 1) .off)).step (.call (.track "b.py"
    [.draft (.noted (some 3) none none), .draft (.noted (some 3) none none),
      .draft (.noted none (some ⟨1, 0, 1, 4⟩) none),
      .draft (.noted (some 3) none (some "K"))]))).2

theorem Session.reachable_noted : Reachable Session.noted :=
  Reachable.step ⟨{}, .steady 100 1, .off, [], by simp, Run.nil⟩ trivial

end Samples
end FindingLedger
