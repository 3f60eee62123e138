import FindingLedger.Ledger.Session
import FindingLedger.Proofs.Pairing.Plain

/-!
# What a call on the ledger can do

Every successful call ends in `Ledger.settle`, which resolves one outcome for each of its subjects:
the reported findings for `track`, the findings of the state for `rebase`.  A failing call leaves
store and handles alone.

**Results.**
* `key_congr`: the criteria of an analysis read nothing but the site of a finding.
* `map_toContent_resolveAll`, `map_site_resolveAll`: what the resolved findings hold, position by
  position; rule, message and location are always those of the subjects.
* `distinct_resolveAll`: resolving findings that differ gives findings that differ.
* `Rejects`, `Clashes`: the checks of a call in their order, and the one way to fail behind them.
* `track_ends`, `rebase_ends`: all the ways in which a call can end, with its answer and the ledger
  afterwards.
* `track_cases`, `rebase_cases`: a call fails, or settles its file and touches no other.
* `track_spec`, `rebase_spec`: what exactly is settled if the lists of a call are in order.
-/

namespace FindingLedger

open Identified

/-- Where and what a finding is: all that a fresh analysis says about its identity. -/
structure Site where
  ruleKey : String
  message : String
  line : Option Int
  textRange : Option TextRange
  lineHash : Option Int
  textRangeHash : Option Int
deriving DecidableEq, Repr

/-- The site of a finding. -/
def Content.site {σ τ π : Type} (c : Content σ τ π) : Site :=
  ⟨c.ruleKey, c.message, c.line, c.textRange, c.lineHash, c.textRangeHash⟩

/-- Apart from the key of the server, criteria read nothing of a finding but its site. -/
theorem Content.key_congr {π : Type} {a b : Snapshot π} (h : a.site = b.site) {c : Criterion}
    (hc : c ≠ .serverIssueKey) : c.key a.traits = c.key b.traits := by
  simp only [Content.site, Site.mk.injEq] at h
  obtain ⟨hrule, hmessage, hline, hrange, hlineHash, hrangeHash⟩ := h
  cases c with
  | serverIssueKey => exact absurd rfl hc
  | _ =>
      simp [Criterion.key, Criterion.parts, Content.traits, hrule, hmessage, hline, hrange,
        hlineHash, hrangeHash]

theorem Criterion.ne_serverIssueKey {fileLevel : Bool} {c : Criterion}
    (h : c ∈ Criterion.forAnalysis fileLevel) : c ≠ .serverIssueKey := by
  rintro rfl
  revert fileLevel
  decide

namespace Outcome

variable {π : Type}

/-- What the finding holds that an outcome leads to. -/
def content (o : Outcome π) : Snapshot π :=
  o.successor.getD o.subject.toContent

@[simp] theorem content_combined (base moved : Finding π) (inheritSeverity : Bool) :
    (combined base moved inheritSeverity).content =
      base.toContent.combine moved.toContent inheritSeverity :=
  rfl

@[simp] theorem content_leaked (item : Finding π) (now : Int) :
    (leaked item now).content = { item.toContent with creationDate := some now } :=
  rfl

@[simp] theorem content_disconnected (item : Finding π) :
    (disconnected item).content =
      { item.toContent with serverIssueKey := none, resolved := false } :=
  rfl

@[simp] theorem content_passthrough (item : Finding π) :
    (passthrough item).content = item.toContent :=
  rfl

theorem toContent_resolve (next : Nat) (o : Outcome π) :
    (o.resolve next).1.toContent = o.content := by
  cases o <;> rfl

/-- No outcome changes the site of its subject. -/
theorem site_content (o : Outcome π) : o.content.site = o.subject.site := by
  cases o <;> rfl

/-- An outcome gives its subject back, or makes a finding with the next handle. -/
theorem resolve_cases (next : Nat) (o : Outcome π) :
    o.resolve next = (o.subject, next) ∨
      (o.resolve next).1.handle = next ∧ (o.resolve next).2 = next + 1 := by
  cases o with
  | passthrough item => exact Or.inl rfl
  | combined base moved inheritSeverity => exact Or.inr ⟨rfl, rfl⟩
  | leaked item now => exact Or.inr ⟨rfl, rfl⟩
  | disconnected item => exact Or.inr ⟨rfl, rfl⟩

theorem map_toContent_resolveAll (next : Nat) (os : List (Outcome π)) :
    (resolveAll next os).1.map Finding.toContent = os.map content := by
  induction os generalizing next with
  | nil => rfl
  | cons o os ih => simp [resolveAll, toContent_resolve, ih]

/-- What the resolved finding at a position holds. -/
theorem exists_getElem?_resolveAll (next : Nat) {os : List (Outcome π)} {i : Nat} {o : Outcome π}
    (h : os[i]? = some o) : ∃ f, (resolveAll next os).1[i]? = some f ∧ f.toContent = o.content := by
  have hcontents := congrArg (fun contents => contents[i]?) (map_toContent_resolveAll next os)
  simp only [List.getElem?_map, h, Option.map_some] at hcontents
  exact Option.map_eq_some_iff.1 hcontents

theorem map_site_resolveAll (next : Nat) (os : List (Outcome π)) :
    ((resolveAll next os).1.map fun f => f.site) = os.map fun o => o.subject.site := by
  have h := congrArg (List.map Content.site) (map_toContent_resolveAll next os)
  rw [List.map_map, List.map_map] at h
  simpa [Function.comp_def, site_content] using h

/-- Findings that are passed through stay the very same, and use up no handle. -/
theorem resolveAll_passthrough (next : Nat) (items : List (Finding π)) :
    resolveAll next (items.map passthrough) = (items, next) := by
  induction items with
  | nil => rfl
  | cons item items ih => simp [resolveAll, resolve, successor, subject, ih]

theorem le_resolveAll (next : Nat) (os : List (Outcome π)) : next ≤ (resolveAll next os).2 := by
  induction os generalizing next with
  | nil => exact Nat.le_refl next
  | cons o os ih =>
      have hrest := ih (o.resolve next).2
      rcases resolve_cases next o with h | ⟨-, h⟩
      · rw [h] at hrest
        simpa [resolveAll, h] using hrest
      · rw [h] at hrest
        simp only [resolveAll, h]
        omega

/-- A resolved finding is new, or is one of the subjects. -/
theorem mem_resolveAll {next : Nat} {os : List (Outcome π)} {f : Finding π}
    (h : f ∈ (resolveAll next os).1) :
    next ≤ f.handle ∧ f.handle < (resolveAll next os).2 ∨ f ∈ os.map subject := by
  induction os generalizing next with
  | nil => simp [resolveAll] at h
  | cons o os ih =>
      have hle := le_resolveAll (o.resolve next).2 os
      simp only [resolveAll, List.mem_cons, List.map_cons] at h ⊢
      rcases h with rfl | h
      · rcases resolve_cases next o with hr | ⟨hhandle, hnext⟩
        · exact Or.inr (Or.inl (by rw [hr]))
        · left
          omega
      · rcases ih h with ⟨hlow, hhigh⟩ | hsubject
        · refine Or.inl ⟨?_, hhigh⟩
          rcases resolve_cases next o with hr | ⟨-, hnext⟩
          · rwa [hr] at hlow
          · omega
        · exact Or.inr (Or.inr hsubject)

/-- Findings that differ, with handles that are given out already, lead to findings that differ. -/
theorem distinct_resolveAll {next : Nat} {os : List (Outcome π)}
    (hd : Ledger.Distinct (os.map subject)) (hlt : ∀ f ∈ os.map subject, f.handle < next) :
    Ledger.Distinct (resolveAll next os).1 := by
  induction os generalizing next with
  | nil => simp [resolveAll, Ledger.Distinct]
  | cons o os ih =>
      obtain ⟨hnew, hrest⟩ := List.nodup_cons.1 hd
      obtain ⟨hsubject, hlt⟩ := List.forall_mem_cons.1 hlt
      simp only [resolveAll]
      refine List.nodup_cons.2 ⟨?_, ?_⟩
      · intro hmem
        obtain ⟨f, hf, hsame⟩ := List.mem_map.1 hmem
        rcases resolve_cases next o with hr | ⟨hhandle, hnext⟩
        · rw [hr] at hf hsame
          rcases mem_resolveAll hf with ⟨hlow, -⟩ | hf
          · simp only at hsame
            omega
          · exact hnew (hsame ▸ List.mem_map_of_mem hf)
        · rcases mem_resolveAll hf with ⟨hlow, -⟩ | hf
          · omega
          · have := hlt f hf
            omega
      · apply ih hrest
        intro f hf
        have := hlt f hf
        rcases resolve_cases next o with hr | ⟨-, hnext⟩
        · rwa [hr]
        · omega

theorem subject_ofUnmatched (item : Finding π) (now : Int) (allowLeak : Bool) :
    (ofUnmatched item now allowLeak).subject = item := by
  unfold ofUnmatched
  split
  · rfl
  · split <;> rfl

theorem kind_ofUnmatched_ne_combined (item : Finding π) (now : Int) (allowLeak : Bool) :
    (ofUnmatched item now allowLeak).kind ≠ .combined := by
  unfold ofUnmatched
  split
  · simp [kind]
  · split <;> simp [kind]

end Outcome

/-- The pairing of findings that a cascade of criteria gives without its shortcuts. -/
def Plain.pairBy {π : Type} (criteria : List Criterion) (lefts rights : List (Finding π)) :
    Pairing (Finding π) (Finding π) :=
  Plain.pair (criteria.map Criterion.pass) lefts rights

theorem Plain.pairBy_spec {π : Type} (criteria : List Criterion) {lefts rights : List (Finding π)}
    (hl : Ledger.Distinct lefts) (hr : Ledger.Distinct rights) :
    Cascade.pairBy criteria lefts rights = .ok (Plain.pairBy criteria lefts rights) ∧
      (Plain.pairBy criteria lefts rights).Proper ∧
      (Plain.pairBy criteria lefts rights).lefts = lefts ∧
      (Plain.pairBy criteria lefts rights).rights = rights := by
  obtain ⟨hpair, hproper, hgrows⟩ := Plain.pair_proper (criteria.map Criterion.pass) hl hr
  exact ⟨hpair, hproper, hgrows.lefts_eq, hgrows.rights_eq⟩

namespace Ledger

variable {π : Type}

/-- The findings of a file, if the file is known. -/
def slot? (L : Ledger π) (file : CodeText) : Option (List (Finding π)) :=
  match L.store with
  | .live slots => slots.get? file
  | .disposed => none

theorem exists_live_of_slot? {L : Ledger π} {file : CodeText} {items : List (Finding π)}
    (h : L.slot? file = some items) :
    ∃ slots, L.store = .live slots ∧ slots.get? file = some items := by
  cases hs : L.store with
  | live slots => exact ⟨slots, rfl, by simpa [slot?, hs] using h⟩
  | disposed => simp [slot?, hs] at h

/-- A call fails and leaves store, handles and settings as they were. -/
structure Refused (L L' : Ledger π) : Prop where
  store_eq : L'.store = L.store
  nextHandle_eq : L'.nextHandle = L.nextHandle
  settings_eq : L'.settings = L.settings

theorem Refused.slot?_eq {L L' : Ledger π} (h : Refused L L') (file : CodeText) :
    L'.slot? file = L.slot? file := by
  rw [slot?, slot?, h.store_eq]

/-- The error that a call must end in, by the order in which the call makes its checks: `track`
looks at the reported findings first, `rebase` at the store first. -/
inductive Rejects (L : Ledger π) : Call (Finding π) → LedgerError → Prop
  | repeatedReport {file : CodeText} {items : List (Finding π)} (hd : ¬ Distinct items) :
      Rejects L (.track file items) (.duplicate file)
  | disposedTrack {file : CodeText} {items : List (Finding π)} (hd : Distinct items)
      (hs : L.store = .disposed) : Rejects L (.track file items) (.store .disposed)
  | disposedRebase {file : CodeText} {base : List (Finding π)} (hs : L.store = .disposed) :
      Rejects L (.rebase file base) (.store .disposed)
  | unknownFile {file : CodeText} {base : List (Finding π)} (hs : L.store ≠ .disposed)
      (hslot : L.slot? file = none) :
      Rejects L (.rebase file base) (.store (.neverAnalyzed file))
  | repeatedIssue {file : CodeText} {base current : List (Finding π)}
      (hslot : L.slot? file = some current) (hd : ¬ Distinct base) :
      Rejects L (.rebase file base) (.duplicate file)
  | disposedReset (hs : L.store = .disposed) : Rejects L .reset (.store .disposed)

/-- The call passes its checks, but the cascade fails on the list that the store has. -/
inductive Clashes (L : Ledger π) : Call (Finding π) → Clash → Prop
  | track {file : CodeText} {items previous : List (Finding π)} {cause : Clash}
      (hd : Distinct items) (hslot : L.slot? file = some previous)
      (hp : Cascade.pairBy (Criterion.forAnalysis L.settings.matchFileLevel) items previous =
        .error cause) :
      Clashes L (.track file items) cause
  | rebase {file : CodeText} {base current : List (Finding π)} {cause : Clash}
      (hd : Distinct base) (hslot : L.slot? file = some current)
      (hp : Cascade.pairBy (Criterion.forServer L.settings.matchFileLevel) base current =
        .error cause) :
      Clashes L (.rebase file base) cause

/-- How a call fails and what it leaves: only the cascade fails after the clock was read. -/
inductive Fails (L : Ledger π) (c : Call (Finding π)) : LedgerError → Ledger π → Prop
  | rejected {e : LedgerError} (h : L.Rejects c e) : Fails L c e L
  | clash {cause : Clash} (h : L.Clashes c cause) :
      Fails L c (.clash cause) { L with clock := L.clock.tick }

theorem Fails.refused {L L' : Ledger π} {c : Call (Finding π)} {e : LedgerError}
    (h : L.Fails c e L') : Refused L L' := by
  cases h with
  | rejected h => exact ⟨rfl, rfl, rfl⟩
  | clash h => exact ⟨rfl, rfl, rfl⟩

/-- A call gives `out`, one finding for each subject, and puts it into the slot of the file. -/
structure Settled (L : Ledger π) (file : CodeText) (subjects out : List (Finding π))
    (L' : Ledger π) : Prop where
  slot?_self : L'.slot? file = some out
  slot?_other : ∀ g, g ≠ file → L'.slot? g = L.slot? g
  settings_eq : L'.settings = L.settings
  site_eq : (out.map fun f => f.site) = subjects.map fun f => f.site
  le_nextHandle : L.nextHandle ≤ L'.nextHandle
  mem_out : ∀ f ∈ out,
    L.nextHandle ≤ f.handle ∧ f.handle < L'.nextHandle ∨ f ∈ subjects
  distinct_out : Distinct subjects → (∀ f ∈ subjects, f.handle < L.nextHandle) → Distinct out

theorem settled_settle {L : Ledger π} {slots : Slots (Finding π)} (hs : L.store = .live slots)
    (clock : Clock) (h : Heading) (outcomes : List (Outcome π)) :
    Settled L h.file (outcomes.map Outcome.subject)
      (({ L with clock := clock } : Ledger π).settle slots h outcomes).1
      (({ L with clock := clock } : Ledger π).settle slots h outcomes).2 where
  slot?_self := by
    simp [settle, slot?, Slots.get?_put]
  slot?_other := by
    intro g hg
    simp [settle, slot?, hs, Slots.get?_put, hg]
  settings_eq := rfl
  site_eq := by
    rw [List.map_map]
    exact Outcome.map_site_resolveAll L.nextHandle outcomes
  le_nextHandle := Outcome.le_resolveAll L.nextHandle outcomes
  mem_out := fun _ hf => Outcome.mem_resolveAll hf
  distinct_out := Outcome.distinct_resolveAll

/-- The answer of a call that settles its file, and the ledger afterwards. -/
def succeed (L : Ledger π) (slots : Slots (Finding π)) (h : Heading)
    (outcomes : List (Outcome π)) : Except LedgerError (List (Finding π)) × Ledger π :=
  (.ok (L.settle slots h outcomes).1, (L.settle slots h outcomes).2)

theorem slot?_of_live {L : Ledger π} {slots : Slots (Finding π)} (hs : L.store = .live slots)
    (file : CodeText) : L.slot? file = slots.get? file := by
  rw [slot?, hs]

section Outcomes

variable {p : Pairing (Finding π) (Finding π)} {item partner : Finding π}

theorem trackOutcome_of_some (now : Int) (h : p.rightFor item = some partner) :
    trackOutcome p now item = .combined partner item false := by
  simp [trackOutcome, h]

theorem trackOutcome_of_none (now : Int) (h : p.rightFor item = none) :
    trackOutcome p now item = .ofUnmatched item now true := by
  simp [trackOutcome, h]

theorem rebaseOutcome_of_some (now : Int) (inheritSeverity : Bool)
    (h : p.leftFor item = some partner) :
    rebaseOutcome p now inheritSeverity item = .combined partner item inheritSeverity := by
  simp [rebaseOutcome, h]

theorem rebaseOutcome_of_none (now : Int) (inheritSeverity : Bool) (h : p.leftFor item = none) :
    rebaseOutcome p now inheritSeverity item = .ofUnmatched item now false := by
  simp [rebaseOutcome, h]

end Outcomes

theorem subject_trackOutcome (p : Pairing (Finding π) (Finding π)) (now : Int)
    (item : Finding π) : (trackOutcome p now item).subject = item := by
  cases h : p.rightFor item with
  | some known => rw [trackOutcome_of_some now h, Outcome.subject]
  | none => rw [trackOutcome_of_none now h, Outcome.subject_ofUnmatched]

theorem subject_rebaseOutcome (p : Pairing (Finding π) (Finding π)) (now : Int)
    (inheritSeverity : Bool) (item : Finding π) :
    (rebaseOutcome p now inheritSeverity item).subject = item := by
  cases h : p.leftFor item with
  | some external => rw [rebaseOutcome_of_some now inheritSeverity h, Outcome.subject]
  | none => rw [rebaseOutcome_of_none now inheritSeverity h, Outcome.subject_ofUnmatched]

/-- Outcomes that are about given findings have these findings as subjects. -/
theorem map_subject {outcome : Finding π → Outcome π} (h : ∀ item, (outcome item).subject = item)
    (items : List (Finding π)) : (items.map outcome).map Outcome.subject = items := by
  rw [List.map_map]
  conv_rhs => rw [← List.map_id items]
  exact List.map_congr_left fun item _ => h item

section Track

variable {L : Ledger π} {file : CodeText} {items previous : List (Finding π)}
variable {slots : Slots (Finding π)}

theorem track_eq_duplicate (hd : ¬ Distinct items) :
    L.track file items = (.error (.duplicate file), L) := by
  simp [track, hd]

theorem track_eq_disposed (hd : Distinct items) (hs : L.store = .disposed) :
    L.track file items = (.error (.store .disposed), L) := by
  simp [track, hd, hs]

/-- The first analysis of a file becomes its state. -/
theorem track_eq_first (hd : Distinct items) (hs : L.store = .live slots)
    (hslot : slots.get? file = none) :
    let done := L.settle slots ⟨.track, file, true, items.length, 0⟩ (items.map .passthrough)
    L.track file items = (.ok done.1, done.2) := by
  simp [track, hd, hs, hslot]

theorem track_first_spec (hd : Distinct items) (hs : L.store = .live slots)
    (hslot : slots.get? file = none) :
    (L.track file items).1 = .ok items ∧ Settled L file items items (L.track file items).2 := by
  let h : Heading := ⟨.track, file, true, items.length, 0⟩
  have hsettled : Settled L file ((items.map Outcome.passthrough).map Outcome.subject)
      (L.settle slots h (items.map .passthrough)).1
      (L.settle slots h (items.map .passthrough)).2 := settled_settle hs L.clock h _
  have hout : (L.settle slots h (items.map .passthrough)).1 = items :=
    congrArg Prod.fst (Outcome.resolveAll_passthrough L.nextHandle items)
  rw [map_subject fun _ => rfl, hout] at hsettled
  rw [track_eq_first hd hs hslot]
  exact ⟨congrArg Except.ok hout, hsettled⟩

theorem track_eq_clash (hd : Distinct items) (hs : L.store = .live slots)
    (hslot : slots.get? file = some previous) {e : Clash}
    (hp : Cascade.pairBy (Criterion.forAnalysis L.settings.matchFileLevel) items previous =
      .error e) :
    L.track file items = (.error (.clash e), { L with clock := L.clock.tick }) := by
  simp [track, hd, hs, hslot, hp]

/-- A later analysis settles the outcomes of its findings, once the cascade has paired them. -/
theorem track_eq_settle (hd : Distinct items) (hs : L.store = .live slots)
    (hslot : slots.get? file = some previous) {p : Pairing (Finding π) (Finding π)}
    (hp : Cascade.pairBy (Criterion.forAnalysis L.settings.matchFileLevel) items previous =
      .ok p) :
    let done := ({ L with clock := L.clock.tick } : Ledger π).settle slots
      ⟨.track, file, false, items.length, p.unmatchedRights.length⟩
      (items.map (trackOutcome p L.clock.now))
    L.track file items = (.ok done.1, done.2) := by
  simp [track, hd, hs, hslot, hp]

/-- What the analysis of a known file does. -/
theorem track_spec (hslot : L.slot? file = some previous) (hd : Distinct items)
    (hprevious : Distinct previous) :
    let p := Plain.pairBy (Criterion.forAnalysis L.settings.matchFileLevel) items previous
    let outcomes := items.map (trackOutcome p L.clock.now)
    let out := (Outcome.resolveAll L.nextHandle outcomes).1
    (L.track file items).1 = .ok out ∧ Settled L file items out (L.track file items).2 ∧
      (L.track file items).2.lastReport = some (Heading.report
        ⟨.track, file, false, items.length, p.unmatchedRights.length⟩ outcomes) := by
  intro p outcomes out
  obtain ⟨slots, hs, hget⟩ := exists_live_of_slot? hslot
  obtain ⟨hpair, -⟩ :=
    Plain.pairBy_spec (Criterion.forAnalysis L.settings.matchFileLevel) hd hprevious
  have h := settled_settle hs L.clock.tick
    ⟨.track, file, false, items.length, p.unmatchedRights.length⟩ outcomes
  rw [map_subject (subject_trackOutcome _ _)] at h
  rw [track_eq_settle hd hs hget hpair]
  exact ⟨rfl, h, rfl⟩

/-- All the ways in which an analysis can end. -/
inductive TrackEnds (L : Ledger π) (file : CodeText) (items : List (Finding π)) :
    Except LedgerError (List (Finding π)) × Ledger π → Prop
  | duplicate (hd : ¬ Distinct items) : TrackEnds L file items (.error (.duplicate file), L)
  | disposed (hd : Distinct items) (hs : L.store = .disposed) :
      TrackEnds L file items (.error (.store .disposed), L)
  | first {slots : Slots (Finding π)} (hd : Distinct items) (hs : L.store = .live slots)
      (hslot : slots.get? file = none) :
      TrackEnds L file items
        (L.succeed slots ⟨.track, file, true, items.length, 0⟩ (items.map .passthrough))
  | clash {slots : Slots (Finding π)} {previous : List (Finding π)} {cause : Clash}
      (hd : Distinct items) (hs : L.store = .live slots) (hslot : slots.get? file = some previous)
      (hp : Cascade.pairBy (Criterion.forAnalysis L.settings.matchFileLevel) items previous =
        .error cause) :
      TrackEnds L file items (.error (.clash cause), { L with clock := L.clock.tick })
  | later {slots : Slots (Finding π)} {previous : List (Finding π)}
      {p : Pairing (Finding π) (Finding π)} (hd : Distinct items) (hs : L.store = .live slots)
      (hslot : slots.get? file = some previous)
      (hp : Cascade.pairBy (Criterion.forAnalysis L.settings.matchFileLevel) items previous =
        .ok p) :
      TrackEnds L file items (({ L with clock := L.clock.tick } : Ledger π).succeed slots
        ⟨.track, file, false, items.length, p.unmatchedRights.length⟩
        (items.map (trackOutcome p L.clock.now)))

theorem track_ends (L : Ledger π) (file : CodeText) (items : List (Finding π)) :
    L.TrackEnds file items (L.track file items) := by
  by_cases hd : Distinct items
  · cases hs : L.store with
    | disposed =>
        rw [track_eq_disposed hd hs]
        exact .disposed hd hs
    | live slots =>
        cases hslot : slots.get? file with
        | none =>
            rw [track_eq_first hd hs hslot]
            exact .first hd hs hslot
        | some previous =>
            cases hp : Cascade.pairBy (Criterion.forAnalysis L.settings.matchFileLevel) items
                previous with
            | error cause =>
                rw [track_eq_clash hd hs hslot hp]
                exact .clash hd hs hslot hp
            | ok p =>
                rw [track_eq_settle hd hs hslot hp]
                exact .later hd hs hslot hp
  · rw [track_eq_duplicate hd]
    exact .duplicate hd

theorem track_cases (L : Ledger π) (file : CodeText) (items : List (Finding π)) :
    (∃ e, (L.track file items).1 = .error e ∧
        L.Fails (.track file items) e (L.track file items).2) ∨
      ∃ out, (L.track file items).1 = .ok out ∧ Distinct items ∧
        Settled L file items out (L.track file items).2 := by
  have hends := L.track_ends file items
  generalize L.track file items = r at hends ⊢
  cases hends with
  | duplicate hd => exact Or.inl ⟨_, rfl, .rejected (.repeatedReport hd)⟩
  | disposed hd hs => exact Or.inl ⟨_, rfl, .rejected (.disposedTrack hd hs)⟩
  | clash hd hs hslot hp =>
      exact Or.inl ⟨_, rfl, .clash (.track hd ((slot?_of_live hs file).trans hslot) hp)⟩
  | first hd hs hslot =>
      have h := settled_settle hs L.clock ⟨.track, file, true, items.length, 0⟩
        (items.map .passthrough)
      rw [map_subject fun _ => rfl] at h
      exact Or.inr ⟨_, rfl, hd, h⟩
  | @later slots previous p hd hs hslot hp =>
      have h := settled_settle hs L.clock.tick
        ⟨.track, file, false, items.length, p.unmatchedRights.length⟩
        (items.map (trackOutcome p L.clock.now))
      rw [map_subject (subject_trackOutcome _ _)] at h
      exact Or.inr ⟨_, rfl, hd, h⟩

end Track

section Rebase

variable {L : Ledger π} {file : CodeText} {base current : List (Finding π)}
variable {slots : Slots (Finding π)}

theorem rebase_eq_disposed (hs : L.store = .disposed) :
    L.rebase file base = (.error (.store .disposed), L) := by
  simp [rebase, hs]

theorem rebase_eq_unknown (hs : L.store = .live slots) (hslot : slots.get? file = none) :
    L.rebase file base = (.error (.store (.neverAnalyzed file)), L) := by
  simp [rebase, hs, hslot]

theorem rebase_eq_duplicate (hs : L.store = .live slots)
    (hslot : slots.get? file = some current) (hd : ¬ Distinct base) :
    L.rebase file base = (.error (.duplicate file), L) := by
  simp [rebase, hs, hslot, hd]

/-- A file without findings has nothing to be rebased. -/
theorem rebase_eq_empty (hs : L.store = .live slots) (hslot : slots.get? file = some [])
    (hd : Distinct base) :
    let done := L.settle slots ⟨.rebase, file, false, base.length, base.length⟩ []
    L.rebase file base = (.ok done.1, done.2) := by
  simp [rebase, hs, hslot, hd]

theorem rebase_eq_clash (hs : L.store = .live slots) (hslot : slots.get? file = some current)
    (hd : Distinct base) (hne : current ≠ []) {e : Clash}
    (hp : Cascade.pairBy (Criterion.forServer L.settings.matchFileLevel) base current =
      .error e) :
    L.rebase file base = (.error (.clash e), { L with clock := L.clock.tick }) := by
  simp [rebase, hs, hslot, hd, hne, hp]

/-- A rebase settles the outcomes of the state, once the cascade has paired the server issues. -/
theorem rebase_eq_settle (hs : L.store = .live slots) (hslot : slots.get? file = some current)
    (hd : Distinct base) (hne : current ≠ []) {p : Pairing (Finding π) (Finding π)}
    (hp : Cascade.pairBy (Criterion.forServer L.settings.matchFileLevel) base current = .ok p) :
    let done := ({ L with clock := L.clock.tick } : Ledger π).settle slots
      ⟨.rebase, file, false, base.length, p.unmatchedLefts.length⟩
      (current.map (rebaseOutcome p L.clock.now L.settings.inheritSeverity))
    L.rebase file base = (.ok done.1, done.2) := by
  simp [rebase, hs, hslot, hd, hne, hp]

/-- What a rebase of a known file does.  Without findings nothing is paired, so that the cascade
need not run. -/
theorem rebase_spec (hslot : L.slot? file = some current) (hd : Distinct base)
    (hcurrent : Distinct current) :
    let p := Plain.pairBy (Criterion.forServer L.settings.matchFileLevel) base current
    let outcomes := current.map (rebaseOutcome p L.clock.now L.settings.inheritSeverity)
    let out := (Outcome.resolveAll L.nextHandle outcomes).1
    (L.rebase file base).1 = .ok out ∧ Settled L file current out (L.rebase file base).2 ∧
      (L.rebase file base).2.lastReport = some (Heading.report
        ⟨.rebase, file, false, base.length, p.unmatchedLefts.length⟩ outcomes) := by
  intro p outcomes out
  obtain ⟨slots, hs, hget⟩ := exists_live_of_slot? hslot
  obtain ⟨hpair, hproper, hlefts, hrights⟩ :=
    Plain.pairBy_spec (Criterion.forServer L.settings.matchFileLevel) hd hcurrent
  by_cases hne : current = []
  · subst hne
    have hfree : p.unmatchedLefts = base := by
      rw [Pairing.unmatchedLefts, hlefts, List.filter_eq_self]
      intro external hexternal
      rw [Option.isNone_iff_eq_none, hproper.rightFor_eq_none_iff (hlefts.symm ▸ hexternal)]
      intro item hitem
      have := hproper.right_mem _ hitem
      simp [hrights] at this
    have h := settled_settle hs L.clock ⟨.rebase, file, false, base.length, base.length⟩ []
    rw [rebase_eq_empty hs hget hd]
    refine ⟨rfl, h, ?_⟩
    rw [hfree]
    rfl
  · have h := settled_settle hs L.clock.tick
      ⟨.rebase, file, false, base.length, p.unmatchedLefts.length⟩ outcomes
    rw [map_subject (subject_rebaseOutcome _ _ _)] at h
    rw [rebase_eq_settle hs hget hd hne hpair]
    exact ⟨rfl, h, rfl⟩

/-- All the ways in which a rebase can end. -/
inductive RebaseEnds (L : Ledger π) (file : CodeText) (base : List (Finding π)) :
    Except LedgerError (List (Finding π)) × Ledger π → Prop
  | disposed (hs : L.store = .disposed) : RebaseEnds L file base (.error (.store .disposed), L)
  | unknown {slots : Slots (Finding π)} (hs : L.store = .live slots)
      (hslot : slots.get? file = none) :
      RebaseEnds L file base (.error (.store (.neverAnalyzed file)), L)
  | duplicate {slots : Slots (Finding π)} {current : List (Finding π)}
      (hs : L.store = .live slots) (hslot : slots.get? file = some current)
      (hd : ¬ Distinct base) : RebaseEnds L file base (.error (.duplicate file), L)
  | empty {slots : Slots (Finding π)} (hs : L.store = .live slots)
      (hslot : slots.get? file = some []) (hd : Distinct base) :
      RebaseEnds L file base
        (L.succeed slots ⟨.rebase, file, false, base.length, base.length⟩ [])
  | clash {slots : Slots (Finding π)} {current : List (Finding π)} {cause : Clash}
      (hs : L.store = .live slots) (hslot : slots.get? file = some current) (hd : Distinct base)
      (hne : current ≠ [])
      (hp : Cascade.pairBy (Criterion.forServer L.settings.matchFileLevel) base current =
        .error cause) :
      RebaseEnds L file base (.error (.clash cause), { L with clock := L.clock.tick })
  | later {slots : Slots (Finding π)} {current : List (Finding π)}
      {p : Pairing (Finding π) (Finding π)} (hs : L.store = .live slots)
      (hslot : slots.get? file = some current) (hd : Distinct base) (hne : current ≠ [])
      (hp : Cascade.pairBy (Criterion.forServer L.settings.matchFileLevel) base current =
        .ok p) :
      RebaseEnds L file base (({ L with clock := L.clock.tick } : Ledger π).succeed slots
        ⟨.rebase, file, false, base.length, p.unmatchedLefts.length⟩
        (current.map (rebaseOutcome p L.clock.now L.settings.inheritSeverity)))

theorem rebase_ends (L : Ledger π) (file : CodeText) (base : List (Finding π)) :
    L.RebaseEnds file base (L.rebase file base) := by
  cases hs : L.store with
  | disposed =>
      rw [rebase_eq_disposed hs]
      exact .disposed hs
  | live slots =>
      cases hslot : slots.get? file with
      | none =>
          rw [rebase_eq_unknown hs hslot]
          exact .unknown hs hslot
      | some current =>
          by_cases hd : Distinct base
          · by_cases hne : current = []
            · subst hne
              rw [rebase_eq_empty hs hslot hd]
              exact .empty hs hslot hd
            · cases hp : Cascade.pairBy (Criterion.forServer L.settings.matchFileLevel) base
                  current with
              | error cause =>
                  rw [rebase_eq_clash hs hslot hd hne hp]
                  exact .clash hs hslot hd hne hp
              | ok p =>
                  rw [rebase_eq_settle hs hslot hd hne hp]
                  exact .later hs hslot hd hne hp
          · rw [rebase_eq_duplicate hs hslot hd]
            exact .duplicate hs hslot hd

theorem rebase_cases (L : Ledger π) (file : CodeText) (base : List (Finding π)) :
    (∃ e, (L.rebase file base).1 = .error e ∧
        L.Fails (.rebase file base) e (L.rebase file base).2) ∨
      ∃ current out, (L.rebase file base).1 = .ok out ∧ Distinct base ∧
        L.slot? file = some current ∧ Settled L file current out (L.rebase file base).2 := by
  have hends := L.rebase_ends file base
  generalize L.rebase file base = r at hends ⊢
  cases hends with
  | disposed hs => exact Or.inl ⟨_, rfl, .rejected (.disposedRebase hs)⟩
  | unknown hs hslot =>
      have hunknown : L.Rejects (.rebase file base) (.store (.neverAnalyzed file)) :=
        .unknownFile (by simp [hs]) ((slot?_of_live hs file).trans hslot)
      exact Or.inl ⟨_, rfl, .rejected hunknown⟩
  | duplicate hs hslot hd =>
      exact Or.inl ⟨_, rfl, .rejected (.repeatedIssue ((slot?_of_live hs file).trans hslot) hd)⟩
  | clash hs hslot hd hne hp =>
      exact Or.inl ⟨_, rfl, .clash (.rebase hd ((slot?_of_live hs file).trans hslot) hp)⟩
  | empty hs hslot hd =>
      have h := settled_settle hs L.clock ⟨.rebase, file, false, base.length, base.length⟩ []
      exact Or.inr ⟨[], _, rfl, hd, (slot?_of_live hs file).trans hslot, h⟩
  | @later slots current p hs hslot hd hne hp =>
      have h := settled_settle hs L.clock.tick
        ⟨.rebase, file, false, base.length, p.unmatchedLefts.length⟩
        (current.map (rebaseOutcome p L.clock.now L.settings.inheritSeverity))
      rw [map_subject (subject_rebaseOutcome _ _ _)] at h
      exact Or.inr ⟨current, _, rfl, hd, (slot?_of_live hs file).trans hslot, h⟩

end Rebase

section Forgetting

variable {L : Ledger π}

theorem reset_eq_disposed (hs : L.store = .disposed) :
    L.reset = (.error (.store .disposed), L) := by
  cases L
  cases hs
  rfl

theorem reset_eq_live {slots : Slots (Finding π)} (hs : L.store = .live slots) :
    L.reset = (.ok .done, { L with store := .live [], lastReport := none }) := by
  simp [reset, useStore, Store.perform, Store.answer, hs]

/-- Disposing works on a disposed store, too. -/
theorem dispose_eq (L : Ledger π) : L.dispose = (.ok .done, { L with store := .disposed }) := by
  cases hs : L.store <;> simp [dispose, useStore, Store.perform, Store.answer, hs]

end Forgetting
end Ledger
end FindingLedger
