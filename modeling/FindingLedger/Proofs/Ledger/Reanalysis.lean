import FindingLedger.Proofs.Ledger.Run
import FindingLedger.Proofs.Pairing.Repetition

/-!
# Analysing an unchanged file again

**Input.**  A file is analysed; then come events that neither analyse it nor forget it, among them
any rebases of it; then it is analysed again and every finding is where it was.

**Results.**
* `Run.exists_slot_same_sites`: no such event changes the number or the sites of the findings.
* `not_keyed_iff`: which findings have no key at all.
* `mem_pairs_of_same_sites`: findings at the same sites are paired position by position.
* `track_again_keeps_identity`: so every finding that has a key keeps its identity.
-/

namespace FindingLedger

section Sites

variable {π : Type}

/-- The finding has a search key under some criterion of an analysis. -/
def Finding.Keyed (f : Finding π) (fileLevel : Bool) : Prop :=
  ∃ c ∈ Criterion.forAnalysis fileLevel, c.key f.traits ≠ none

/-- A finding without a key has neither a line nor a hash; and it has a text range, or findings
without a location are not to be matched. -/
theorem Finding.not_keyed_iff {f : Finding π} {fileLevel : Bool} :
    ¬ f.Keyed fileLevel ↔
      f.line = none ∧ f.lineHash = none ∧ f.textRangeHash = none ∧
        (f.textRange ≠ none ∨ fileLevel = false) := by
  simp only [Keyed, Criterion.forAnalysis, Criterion.byLocation]
  cases hline : f.line with
  | some line =>
      simp [Criterion.key, Criterion.parts, Content.traits, hline]
  | none =>
      cases hlineHash : f.lineHash with
      | some hash => simp [Criterion.key, Criterion.parts, Content.traits, hline, hlineHash]
      | none =>
          cases hrangeHash : f.textRangeHash with
          | some hash => simp [Criterion.key, Criterion.parts, Content.traits, hline, hrangeHash]
          | none =>
              cases hrange : f.textRange <;> cases fileLevel <;>
                simp [Criterion.key, Criterion.parts, Content.traits, hline, hlineHash, hrangeHash,
                  hrange]

/-- Findings at the same sites are paired position by position, if they have a key. -/
theorem mem_pairs_of_same_sites {items previous : List (Finding π)} {fileLevel : Bool}
    (hitems : Ledger.Distinct items) (hprevious : Ledger.Distinct previous)
    (hsites : (items.map fun f => f.site) = previous.map fun f => f.site)
    {item known : Finding π} :
    (item, known) ∈ (Plain.pairBy (Criterion.forAnalysis fileLevel) items previous).pairs ↔
      (item, known) ∈ items.zip previous ∧ item.Keyed fileLevel := by
  have hlen : items.length = previous.length := by
    simpa using congrArg List.length hsites
  have haligned : ∀ pass ∈ (Criterion.forAnalysis fileLevel).map Criterion.pass,
      Plain.Aligned (items.zip previous) pass := by
    intro pass hpass z hz
    obtain ⟨c, hc, rfl⟩ := List.mem_map.1 hpass
    exact Content.key_congr (eq_of_mem_zip hsites z hz) (Criterion.ne_serverIssueKey hc)
  rw [Plain.pairBy, Plain.mem_pairs_pair_of_aligned hitems hprevious hlen haligned]
  simp only [List.mem_map, exists_exists_and_eq_and]
  exact Iff.rfl

/-- A finding that is combined with an earlier one keeps identity and triage of the earlier one, and
everything else of its own. -/
theorem content_trackOutcome_of_rightFor {p : Pairing (Finding π) (Finding π)} (now : Int)
    {item known : Finding π} (h : p.rightFor item = some known) :
    Ledger.trackOutcome p now item = .combined known item false ∧
      (Ledger.trackOutcome p now item).content =
        { item.toContent with
          creationDate := known.creationDate <|> item.creationDate
          serverIssueKey := known.serverIssueKey
          resolved := known.resolved } := by
  have hcombined : Ledger.trackOutcome p now item = .combined known item false := by
    simp [Ledger.trackOutcome, h]
  refine ⟨hcombined, ?_⟩
  simp [hcombined, Outcome.content, Outcome.successor, Content.combine]

end Sites

section Runs

variable {π : Type} {file : CodeText}

/-- The event neither analyses the file nor forgets it, nor uses the store directly. -/
def Event.Spares (file : CodeText) : Event π → Prop
  | .call (.track other _) => other ≠ file
  | .call (.rebase _ _) => True
  | .call _ => False
  | _ => True

theorem Event.Spares.onLedger {e : Event π} (h : e.Spares file) : e.OnLedger := by
  cases e with
  | call c =>
      cases c with
      | useStore op => exact absurd h id
      | _ => trivial
  | _ => trivial

/-- After such an event the slot holds as many findings as before, at the same sites. -/
theorem Event.Spares.exists_slot_same_sites {e : Event π} (he : e.Spares file) {s : Session π}
    {S : List (Finding π)} (hS : s.ledger.slot? file = some S) :
    ∃ S', (s.after e).ledger.slot? file = some S' ∧
      (S'.map fun f => f.site) = S.map fun f => f.site := by
  cases e with
  | enter entry => exact ⟨S, hS, rfl⟩
  | evolve handle changes => exact ⟨S, hS, rfl⟩
  | fingerprint item source => exact ⟨S, hS, rfl⟩
  | setClock time step =>
      obtain ⟨clock, hclock⟩ := s.step_setClock time step
      refine ⟨S, ?_, rfl⟩
      simp only [Session.after, hclock]
      exact hS
  | call c =>
      cases c with
      | track other items =>
          refine ⟨S, ?_, rfl⟩
          rw [← hS]
          rcases s.perform_track_cases other items with ⟨-, -, hr⟩ | ⟨out, -, -, hsettled⟩
          · exact hr.ledger.slot?_eq file
          · exact hsettled.ledger.slot?_other file (Ne.symm he)
      | rebase other base =>
          rcases s.perform_rebase_cases other base with
            ⟨-, -, hr⟩ | ⟨current, out, -, -, hcurrent, hsettled⟩
          · exact ⟨S, (hr.ledger.slot?_eq file).trans hS, rfl⟩
          · by_cases hfile : file = other
            · subst hfile
              obtain rfl : S = current := Option.some.inj (hS.symm.trans hcurrent)
              exact ⟨out, hsettled.ledger.slot?_self, hsettled.ledger.site_eq⟩
            · exact ⟨S, (hsettled.ledger.slot?_other file hfile).trans hS, rfl⟩
      | reset => exact absurd he id
      | dispose => exact absurd he id
      | useStore op => exact absurd he id

variable {s t : Session π} {es : List (Event π)}

/-- Along a run that spares the file, its findings stay at their sites. -/
theorem Run.exists_slot_same_sites (hrun : Run s es t) (hes : ∀ e ∈ es, e.Spares file)
    {S : List (Finding π)} (hS : s.ledger.slot? file = some S) :
    ∃ S', t.ledger.slot? file = some S' ∧
      (S'.map fun f => f.site) = S.map fun f => f.site := by
  refine hrun.induction (motive := fun u => ∃ S', u.ledger.slot? file = some S' ∧
    (S'.map fun f => f.site) = S.map fun f => f.site) ⟨S, hS, rfl⟩ ?_
  rintro u e he - ⟨S', hS', hsites⟩
  obtain ⟨S'', hS'', hsites'⟩ := (hes e he).exists_slot_same_sites hS'
  exact ⟨S'', hS'', hsites'.trans hsites⟩

/-- A successful analysis fills the slot with findings at the sites of the given ones. -/
theorem exists_slot_of_track {X : List (Finding π)} {reply : Reply π}
    (hok : (s.perform (.track file X)).1 = .ok reply) :
    ∃ S, (s.perform (.track file X)).2.ledger.slot? file = some S ∧
      (S.map fun f => f.site) = X.map fun f => f.site := by
  obtain ⟨out, -, -, hsettled⟩ := Session.settled_of_track hok
  exact ⟨out, hsettled.ledger.slot?_self, hsettled.ledger.site_eq⟩

/-- **Analysing an unchanged file again keeps the identity of its findings.**  Between the two
analyses the file may be rebased, and other files may be analysed and rebased.  Then every finding
that has a key is combined with the finding of the state at the same position. -/
theorem track_again_keeps_identity {X Y : List (Finding π)} {reply : Reply π} (hs : Reachable s)
    (hX : X ⊆ s.built) (hok : (s.perform (.track file X)).1 = .ok reply)
    (hrun : Run (s.perform (.track file X)).2 es t) (hes : ∀ e ∈ es, e.Spares file)
    (hY : Ledger.Distinct Y) (hXY : (Y.map fun f => f.site) = X.map fun f => f.site) :
    ∃ (S : List (Finding π)) (p : Pairing (Finding π) (Finding π)) (out : List (Finding π)),
      t.ledger.slot? file = some S ∧ S.length = Y.length ∧
      Cascade.pairBy (Criterion.forAnalysis t.ledger.settings.matchFileLevel) Y S = .ok p ∧
      (t.perform (.track file Y)).1 = .ok (.findings out) ∧
      out = (Outcome.resolveAll t.ledger.nextHandle
        (Y.map (Ledger.trackOutcome p t.ledger.clock.now))).1 ∧
      ∀ (i : Nat) (item : Finding π), Y[i]? = some item → ∃ known f : Finding π,
        S[i]? = some known ∧ out[i]? = some f ∧
        (item.Keyed t.ledger.settings.matchFileLevel →
          p.rightFor item = some known ∧
          Ledger.trackOutcome p t.ledger.clock.now item = .combined known item false ∧
          f.toContent = { item.toContent with
            creationDate := known.creationDate <|> item.creationDate
            serverIssueKey := known.serverIssueKey
            resolved := known.resolved }) ∧
        (¬ item.Keyed t.ledger.settings.matchFileLevel → p.rightFor item = none) ∧
        (¬ item.Keyed t.ledger.settings.matchFileLevel ↔
          item.line = none ∧ item.lineHash = none ∧ item.textRangeHash = none ∧
            (item.textRange ≠ none ∨ t.ledger.settings.matchFileLevel = false)) := by
  obtain ⟨S₀, hS₀, hfirst⟩ := exists_slot_of_track hok
  obtain ⟨S, hS, hlater⟩ := hrun.exists_slot_same_sites hes hS₀
  have hsites : (Y.map fun f => f.site) = S.map fun f => f.site :=
    hXY.trans (hlater.trans hfirst).symm
  have hlen : Y.length = S.length := by
    simpa using congrArg List.length hsites
  have hsound : t.Sound :=
    hrun.sound (hs.sound.perform trivial hX) fun e he => (hes e he).onLedger
  have hdistinct := hsound.slot_distinct file S hS
  obtain ⟨hpair, hproper, hlefts, -⟩ :=
    Plain.pairBy_spec (Criterion.forAnalysis t.ledger.settings.matchFileLevel) hY hdistinct
  obtain ⟨htrack, -, -⟩ := Ledger.track_spec hS hY hdistinct
  let p := Plain.pairBy (Criterion.forAnalysis t.ledger.settings.matchFileLevel) Y S
  refine ⟨S, p, _, hS, hlen.symm, hpair, (Session.perform_track_of_ok htrack).1, rfl, ?_⟩
  intro i item hitem
  obtain ⟨hi, -⟩ := List.getElem?_eq_some_iff.1 hitem
  have hi' : i < S.length := hlen ▸ hi
  have hknown : S[i]? = some S[i] := List.getElem?_eq_getElem hi'
  have houtcome : (Y.map (Ledger.trackOutcome p t.ledger.clock.now))[i]? =
      some (Ledger.trackOutcome p t.ledger.clock.now item) := by
    rw [List.getElem?_map, hitem, Option.map_some]
  obtain ⟨f, hf, hcontent⟩ :=
    Outcome.exists_getElem?_resolveAll t.ledger.nextHandle houtcome
  have hmem : item ∈ p.lefts := hlefts.symm ▸ List.mem_of_getElem? hitem
  refine ⟨S[i], f, hknown, hf, ?_, ?_, Finding.not_keyed_iff⟩
  · intro hkeyed
    have hzip : (item, S[i]) ∈ Y.zip S :=
      List.mem_of_getElem? (List.getElem?_zip_eq_some.2 ⟨hitem, hknown⟩)
    have hpaired : (item, S[i]) ∈ p.pairs :=
      (mem_pairs_of_same_sites hY hdistinct hsites).2 ⟨hzip, hkeyed⟩
    have hright : p.rightFor item = some S[i] :=
      (hproper.rightFor_eq_some_iff hmem).2 hpaired
    obtain ⟨hcombined, hfields⟩ :=
      content_trackOutcome_of_rightFor t.ledger.clock.now hright
    exact ⟨hright, hcombined, hcontent.trans hfields⟩
  · intro hkeyless
    rw [hproper.rightFor_eq_none_iff hmem]
    intro known hpaired
    exact hkeyless ((mem_pairs_of_same_sites hY hdistinct hsites).1 hpaired).2

/-- Of two findings on one line, the one that was linked to the server between two analyses is
linked to it afterwards. -/
theorem track_again_keeps_identity_noted :
    let X := Session.noted.built.drop 1
    let s := (Session.noted.perform (.track "a.py" X)).2
    let t := s.after (.call (.rebase "a.py" (Session.noted.built.take 1)))
    ∃ out, (t.perform (.track "a.py" X)).1 = .ok (.findings out) ∧
      (out[1]?.bind fun f => f.serverIssueKey) = some "K" := by
  intro X s t
  have hok : (Session.noted.perform (.track "a.py" X)).1 = .ok (.findings X) := rfl
  have hrun : Run s [.call (.rebase "a.py" (Session.noted.built.take 1))] t :=
    Run.single s _ (by decide)
  obtain ⟨S, p, out, hS, -, -, hout, -, hkeep⟩ :=
    track_again_keeps_identity Session.reachable_noted (List.drop_subset _ _) hok hrun
      (by simp [Event.Spares]) (by decide) rfl
  obtain ⟨known, f, hknown, hf, hkeyed, -, -⟩ := hkeep 1 _ rfl
  obtain ⟨-, -, hcontent⟩ := hkeyed ⟨.lineAndMessage, by decide, by decide⟩
  have hkey : ((t.ledger.slot? "a.py").bind fun S => S[1]?.bind fun f => f.serverIssueKey) =
      some "K" := by
    decide
  refine ⟨out, hout, ?_⟩
  rw [hS, Option.bind_some, hknown, Option.bind_some] at hkey
  rw [hf, Option.bind_some, hcontent, hkey]

end Runs
end FindingLedger
