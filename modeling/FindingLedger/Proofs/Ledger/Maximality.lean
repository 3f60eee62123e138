import FindingLedger.Proofs.Ledger.History
import FindingLedger.Proofs.Ledger.Resync
import FindingLedger.Proofs.Pairing.Compatibility

/-!
# No compatible finding is left over

**Input.**  Two lists that name no item twice, and the criteria of an analysis or of a rebase; or a
reachable session with a known file, which is analysed once more.

**Results.**
* `mem_unmatchedRights_iff`: a finding of the state is dropped exactly if no reported finding is
  combined with it.
* `no_compatible_pair_is_left`: the standard cascades are maximal, and an analysis drops no finding
  that is compatible with a reported one which it leaves without a counterpart.
-/

namespace FindingLedger

open Identified

section Dropping

variable {π : Type} {p : Pairing (Finding π) (Finding π)} {item known : Finding π}

theorem Ledger.kind_trackOutcome_ne_combined_iff (now : Int) :
    (trackOutcome p now item).kind ≠ .combined ↔ p.rightFor item = none := by
  cases h : p.rightFor item with
  | none => simp [trackOutcome_of_none now h, Outcome.kind_ofUnmatched_ne_combined]
  | some known => simp [trackOutcome_of_some now h, Outcome.kind]

theorem Ledger.trackOutcome_eq_combined_iff (now : Int) :
    trackOutcome p now item = .combined known item false ↔ p.rightFor item = some known := by
  constructor
  · intro h
    cases hright : p.rightFor item with
    | none =>
        exact absurd (congrArg Outcome.kind h) ((kind_trackOutcome_ne_combined_iff now).2 hright)
    | some other =>
        rw [trackOutcome_of_some now hright] at h
        exact congrArg some (Outcome.combined.inj h).1
  · exact trackOutcome_of_some now

/-- A finding of the state is dropped if no reported finding is combined with it. -/
theorem Pairing.Proper.mem_unmatchedRights_iff (hp : p.Proper) (now : Int) :
    known ∈ p.unmatchedRights ↔ known ∈ p.rights ∧
      ∀ item ∈ p.lefts, Ledger.trackOutcome p now item ≠ .combined known item false := by
  rw [hp.mem_unmatchedRights]
  refine and_congr_right fun _ => ⟨fun hfree item hitem hcombined => ?_, fun hfree item hpair => ?_⟩
  · have hright := (Ledger.trackOutcome_eq_combined_iff now).1 hcombined
    exact hfree item ((hp.rightFor_eq_some_iff hitem).1 hright)
  · have hitem := hp.left_mem _ hpair
    have hright := (hp.rightFor_eq_some_iff hitem).2 hpair
    exact hfree item hitem ((Ledger.trackOutcome_eq_combined_iff now).2 hright)

end Dropping

section Theorem

/-- **No compatible pair is left over.**  Each of the standard cascades pairs compatible items,
leaves no two of them over, and pairs at least half as many as any other choice of compatible pairs
does.  So the analysis of a known file drops no finding of the state that is compatible with a
reported finding which becomes a leak, loses its link or is passed through. -/
theorem no_compatible_pair_is_left :
    (∀ (α β : Type) [Matchable α] [Matchable β] (server fileLevel : Bool) (lefts : List α)
        (rights : List β), (lefts.map handle).Nodup → (rights.map handle).Nodup →
      ∃ p, Cascade.pairBy (Criterion.standard server fileLevel) lefts rights = .ok p ∧
        p.Maximal server fileLevel lefts rights) ∧
    ∀ (π : Type) (s : Session π) (file : CodeText) (items previous : List (Finding π)),
      Reachable s → s.ledger.slot? file = some previous → Ledger.Distinct items →
      ∃ p out, Cascade.pairBy (Criterion.forAnalysis s.ledger.settings.matchFileLevel) items
          previous = .ok p ∧
        (s.perform (.track file items)).1 = .ok (.findings out) ∧
        out = (Outcome.resolveAll s.ledger.nextHandle
          (items.map (Ledger.trackOutcome p s.ledger.clock.now))).1 ∧
        ((s.perform (.track file items)).2.ledger.lastReport.map Report.dropped =
          some p.unmatchedRights.length) ∧
        ∀ known ∈ previous,
          (known ∈ p.unmatchedRights ↔ ∀ item ∈ items,
            Ledger.trackOutcome p s.ledger.clock.now item ≠ .combined known item false) ∧
          (known ∈ p.unmatchedRights → ∀ item ∈ items,
            (Ledger.trackOutcome p s.ledger.clock.now item).kind ≠ .combined →
            ¬ CompatiblePair false s.ledger.settings.matchFileLevel (item, known)) := by
  refine ⟨fun α β _ _ server fileLevel lefts rights hl hr => pairBy_maximal server fileLevel hl hr,
    fun π s file items previous hs hslot hd => ?_⟩
  have hprevious := hs.sound.slot_distinct file previous hslot
  obtain ⟨hok, -, hreport⟩ := Ledger.track_spec hslot hd hprevious
  obtain ⟨hpair, hproper, hlefts, hrights⟩ :=
    Plain.pairBy_spec (Criterion.forAnalysis s.ledger.settings.matchFileLevel) hd hprevious
  obtain ⟨p, hpair', hmaximal⟩ :=
    pairBy_maximal false s.ledger.settings.matchFileLevel hd hprevious
  obtain rfl := Except.ok.inj (hpair.symm.trans hpair')
  obtain ⟨hreply, hnext⟩ := Session.perform_track_of_ok hok
  refine ⟨_, _, hpair, hreply, rfl, by rw [hnext, hreport]; rfl, fun known hknown => ⟨?_, ?_⟩⟩
  · rw [hproper.mem_unmatchedRights_iff s.ledger.clock.now, hlefts, hrights]
    exact and_iff_right hknown
  · intro hdropped item hitem hfree
    have hright := (Ledger.kind_trackOutcome_ne_combined_iff s.ledger.clock.now).1 hfree
    refine hmaximal.leftover item (List.mem_filter.2 ⟨hlefts.symm ▸ hitem, ?_⟩) known hdropped
    exact Option.isNone_iff_eq_none.2 hright

/-- A candidate with a line, a message and the hash of the line. -/
def Candidate.noted (handle : Nat) (line : Int) (message : String) (hash : Int) : Candidate where
  handle := handle
  traits := ⟨"unused", some message, some line, false, some hash, none, none⟩

/-- A strong pass pairs two items of which each could have been paired with another one.  And an
analysis that reports only a finding at line 5 drops the two at line 3. -/
theorem no_compatible_pair_is_left_noted :
    let lefts := [Candidate.noted 1 1 "a" 5, Candidate.noted 2 3 "b" 6]
    let rights := [Candidate.noted 3 1 "a" 6, Candidate.noted 4 2 "c" 5]
    let s := Session.blank.afterAll Event.noted
    let linked := Finding.noted 2 5 (some ("K", false)) (some 70)
    let previous := [Finding.noted 6 3 (some ("L", true)) (some 80),
      Finding.noted 5 3 none (some 100)]
    (∃ p, Cascade.pairBy (Criterion.standard true false) lefts rights = .ok p ∧
      p.Maximal true false lefts rights ∧ p.matchedCount = 1 ∧
      ∀ q ∈ lefts.zip rights.reverse, CompatiblePair true false q) ∧
    s.ledger.slot? "a.py" = some previous ∧
    ∃ p, p.unmatchedRights = previous ∧
      (Ledger.trackOutcome p s.ledger.clock.now linked).kind = .disconnected ∧
      ∀ known ∈ p.unmatchedRights, ¬ CompatiblePair false true (linked, known) := by
  intro lefts rights s linked previous
  obtain ⟨hcascades, hanalyses⟩ := no_compatible_pair_is_left
  have hslot : s.ledger.slot? "a.py" = some previous := by decide
  refine ⟨?_, hslot, ?_⟩
  · obtain ⟨p, hp, hmaximal⟩ :=
      hcascades Candidate Candidate true false lefts rights (by decide) (by decide)
    have hcount : (Cascade.pairBy (Criterion.standard true false) lefts rights).toOption.map
        Pairing.matchedCount = some 1 := by
      decide
    rw [hp] at hcount
    exact ⟨p, hp, hmaximal, Option.some.inj hcount, by decide⟩
  · have hs : Reachable s :=
      ⟨{}, .steady 100 1, .off, Event.noted, Event.onLedger_noted, Run.noted⟩
    obtain ⟨p, -, hp, -, -, -, hdropped⟩ :=
      hanalyses Unit s "a.py" [linked] previous hs hslot (by decide)
    have hleft : (Cascade.pairBy (Criterion.forAnalysis s.ledger.settings.matchFileLevel) [linked]
        previous).toOption.map (fun p => (p.unmatchedRights,
          (Ledger.trackOutcome p s.ledger.clock.now linked).kind)) =
        some (previous, .disconnected) := by
      decide
    rw [hp] at hleft
    obtain ⟨hrights, hkind⟩ := Prod.mk.inj (Option.some.inj hleft)
    refine ⟨p, hrights, hkind, fun known hknown => ?_⟩
    refine (hdropped known (hrights ▸ hknown)).2 hknown linked (List.mem_singleton_self _) ?_
    rw [hkind]
    decide

end Theorem
end FindingLedger
