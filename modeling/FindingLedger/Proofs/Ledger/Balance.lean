import FindingLedger.Proofs.Ledger.Dating
import FindingLedger.Proofs.Pairing.Symmetry

/-!
# The balance of a report

A report counts the outcomes of a call by kind, and what the call dropped.  The two calls drop items
of opposite sides: an analysis drops findings of the state, a rebase drops issues of the server.

**Input.**  A reachable session, and a call on a file that succeeds.

**Algorithm.**  The kind of each outcome can be seen from outside, without looking at the outcome: a
finding that comes out `Shows` a kind by its counterpart, its date, its link, and by being the very
same as before or not.

**Results.**
* `Tally.total_ofOutcomes`: the four counts of a tally add up.
* `Outcome.Fits.shows_iff`: a finding shows the kind of the outcome that it came from, and no other.
* `Ledger.Heading.counts_report`: so a report counts each finding under the kind that made it.
* `NewlyDated.date_eq`: a date that was not there before is the reading of the clock.
* `reports_conserve_findings`: what was given or stored is either combined or dropped, and the rest
  of each report balances.
-/

namespace FindingLedger

open Identified

section Kinds

variable {π : Type}

/-- The finding has a date, but neither the finding that it came from had one nor the counterpart
of that. -/
def NewlyDated (counterpart : Finding π → Option (Finding π)) (item f : Finding π) : Prop :=
  f.creationDate ≠ none ∧ item.creationDate = none ∧
    ∀ partner, counterpart item = some partner → partner.creationDate = none

/-- The finding `f`, which came from `item`, shows the kind of the outcome that lies between. -/
def Shows (counterpart : Finding π → Option (Finding π)) (item f : Finding π) :
    OutcomeKind → Prop
  | .combined => counterpart item ≠ none
  | .leaked => NewlyDated counterpart item f
  | .disconnected =>
      counterpart item = none ∧ item.serverIssueKey ≠ none ∧ f.serverIssueKey = none
  | .passthrough => f = item

section Shows

variable {counterpart : Finding π → Option (Finding π)} {item f : Finding π}

theorem not_newlyDated_of_date_eq (h : f.creationDate = item.creationDate) :
    ¬ NewlyDated counterpart item f := by
  rintro ⟨hdated, hitem, -⟩
  exact hdated (h.trans hitem)

theorem not_shows_disconnected_of_key_eq (h : f.serverIssueKey = item.serverIssueKey) :
    ¬ Shows counterpart item f .disconnected := by
  rintro ⟨-, hlinked, hunlinked⟩
  exact hlinked (h.symm.trans hunlinked)

end Shows

/-- A report counts each of `subjects`, which became those of `out`, under the one kind that it
shows. -/
structure Report.Counts (r : Report) (counterpart : Finding π → Option (Finding π))
    (subjects out : List (Finding π)) : Prop where
  length_eq : out.length = subjects.length
  outputCount_eq : r.outputCount = out.length
  total_eq : r.counts.combined + r.counts.leaked + r.counts.disconnected + r.counts.passthrough =
    r.outputCount
  kinds : ∃ kinds : List OutcomeKind, (∀ k, r.counts.count k = kinds.count k) ∧
    List.Forall₂ (fun k z => ∀ k', Shows counterpart z.1 z.2 k' ↔ k' = k) kinds
      (subjects.zip out)

end Kinds

section Tallies

variable {π : Type}

theorem Tally.count_ofOutcomes (os : List (Outcome π)) (k : OutcomeKind) :
    (Tally.ofOutcomes os).count k = (os.map Outcome.kind).count k := by
  rw [List.count, List.countP_map]
  cases k <;> exact List.countP_congr fun o _ => by simp

/-- Every outcome is of one of the four kinds. -/
theorem Tally.total_ofOutcomes (os : List (Outcome π)) :
    (Tally.ofOutcomes os).combined + (Tally.ofOutcomes os).leaked +
      (Tally.ofOutcomes os).disconnected + (Tally.ofOutcomes os).passthrough = os.length := by
  induction os with
  | nil => rfl
  | cons o os ih =>
      simp only [Tally.ofOutcomes, List.countP_cons, List.length_cons] at ih ⊢
      cases hkind : o.kind <;> simp <;> omega

end Tallies

namespace Outcome

variable {π : Type}

/-- What a finding holds that an outcome leads to, and whether it is a new one. -/
structure Makes (next : Nat) (o : Outcome π) (f : Finding π) : Prop where
  content_eq : f.toContent = o.content
  same : o.kind = .passthrough → f = o.subject
  fresh : o.kind ≠ .passthrough → next ≤ f.handle

theorem makes_resolve (next : Nat) (o : Outcome π) : o.Makes next (o.resolve next).1 := by
  refine ⟨toContent_resolve next o, ?_, ?_⟩
  · cases o <;> simp [kind, resolve, successor, subject]
  · cases o <;> simp [kind, resolve, successor, Finding.mint]

theorem makes_resolveAll (next : Nat) (os : List (Outcome π)) :
    List.Forall₂ (Makes next) os (resolveAll next os).1 := by
  induction os generalizing next with
  | nil => exact .nil
  | cons o os ih =>
      refine .cons (makes_resolve next o) ((ih (o.resolve next).2).imp fun o' f h => ?_)
      have hle := le_resolveAll next [o]
      simp only [resolveAll] at hle
      exact ⟨h.content_eq, h.same, fun hk => Nat.le_trans hle (h.fresh hk)⟩

/-- The outcome is one that a finding with this counterpart can have. -/
inductive Fits (counterpart : Finding π → Option (Finding π)) : Outcome π → Prop
  | combined {base item : Finding π} (inheritSeverity : Bool)
      (h : counterpart item = some base) : Fits counterpart (.combined base item inheritSeverity)
  | leaked {item : Finding π} (now : Int) (h : counterpart item = none)
      (hdate : item.creationDate = none) : Fits counterpart (.leaked item now)
  | disconnected {item : Finding π} (h : counterpart item = none)
      (hkey : item.serverIssueKey ≠ none) : Fits counterpart (.disconnected item)
  | passthrough {item : Finding π} (h : counterpart item = none) :
      Fits counterpart (.passthrough item)

theorem fits_ofUnmatched {counterpart : Finding π → Option (Finding π)} {item : Finding π}
    (h : counterpart item = none) (now : Int) (allowLeak : Bool) :
    (ofUnmatched item now allowLeak).Fits counterpart := by
  unfold ofUnmatched
  split
  · rename_i hkey
    exact .disconnected h (Option.isSome_iff_ne_none.1 hkey)
  · split
    · rename_i hleak
      rw [Bool.and_eq_true, Option.isNone_iff_eq_none] at hleak
      exact .leaked now h hleak.2
    · exact .passthrough h

/-- A finding shows the kind of the outcome that it came from, and no other. -/
theorem Fits.shows_iff {counterpart : Finding π → Option (Finding π)} {o : Outcome π}
    (hfits : o.Fits counterpart) {next : Nat} {f : Finding π} (hf : o.Makes next f)
    (hold : o.subject.handle < next) (k : OutcomeKind) :
    Shows counterpart o.subject f k ↔ k = o.kind := by
  have hdate := congrArg Content.creationDate hf.content_eq
  have hkey := congrArg Content.serverIssueKey hf.content_eq
  have hnew : o.kind ≠ .passthrough → f ≠ o.subject := by
    rintro hkind rfl
    have := hf.fresh hkind
    omega
  cases hfits with
  | @combined base item inheritSeverity h =>
      cases k with
      | combined => simp [Shows, subject, kind, h]
      | leaked =>
          -- the date of a combined finding is that of its counterpart, or its own
          refine iff_of_false ?_ (by simp [kind])
          rintro ⟨hdated, hitem, hpartner⟩
          have hbase : base.creationDate = none := hpartner base h
          have hown : item.creationDate = none := hitem
          exact hdated (by simp [hdate, Content.combine, hbase, hown])
      | disconnected => simp [Shows, subject, kind, h]
      | passthrough => simpa [Shows, kind] using hnew
  | @leaked item now h hnone =>
      cases k with
      | combined => simp [Shows, subject, kind, h]
      | leaked =>
          refine iff_of_true ⟨?_, hnone, by simp [subject, h]⟩ rfl
          simp [hdate]
      | disconnected =>
          exact iff_of_false (not_shows_disconnected_of_key_eq hkey) (by simp [kind])
      | passthrough => simpa [Shows, kind] using hnew
  | @disconnected item h hlinked =>
      cases k with
      | combined => simp [Shows, subject, kind, h]
      | leaked => exact iff_of_false (not_newlyDated_of_date_eq hdate) (by simp [kind])
      | disconnected => exact iff_of_true ⟨h, hlinked, hkey⟩ rfl
      | passthrough => simpa [Shows, kind] using hnew
  | @passthrough item h =>
      obtain rfl : f = item := hf.same rfl
      cases k with
      | combined => simp [Shows, subject, kind, h]
      | leaked => exact iff_of_false (not_newlyDated_of_date_eq rfl) (by simp [kind])
      | disconnected =>
          exact iff_of_false (not_shows_disconnected_of_key_eq rfl) (by simp [kind])
      | passthrough => exact iff_of_true rfl rfl

end Outcome

section Counting

variable {π : Type} {counterpart : Finding π → Option (Finding π)}

theorem forall₂_shows {os : List (Outcome π)} {out : List (Finding π)} {next : Nat}
    (hmakes : List.Forall₂ (Outcome.Makes next) os out) (hfits : ∀ o ∈ os, o.Fits counterpart)
    (hold : ∀ f ∈ os.map Outcome.subject, f.handle < next) :
    List.Forall₂ (fun k z => ∀ k', Shows counterpart z.1 z.2 k' ↔ k' = k) (os.map Outcome.kind)
      ((os.map Outcome.subject).zip out) := by
  induction hmakes with
  | nil => exact .nil
  | cons ho _ ih =>
      obtain ⟨hfit, hfits⟩ := List.forall_mem_cons.1 hfits
      obtain ⟨hlt, hold⟩ := List.forall_mem_cons.1 hold
      exact .cons (hfit.shows_iff ho hlt) (ih hfits hold)

/-- The report of a call counts its findings right, if their outcomes fit to what they were paired
with. -/
theorem Ledger.Heading.counts_report (h : Ledger.Heading) {os : List (Outcome π)} {next : Nat}
    (hfits : ∀ o ∈ os, o.Fits counterpart)
    (hold : ∀ f ∈ os.map Outcome.subject, f.handle < next) :
    (h.report os).Counts counterpart (os.map Outcome.subject)
      (Outcome.resolveAll next os).1 := by
  have hmakes := Outcome.makes_resolveAll next os
  have hlength := hmakes.length_eq
  refine ⟨?_, hlength, Tally.total_ofOutcomes os, os.map Outcome.kind, ?_, ?_⟩
  · rw [List.length_map, hlength]
  · exact Tally.count_ofOutcomes os
  · exact forall₂_shows hmakes hfits hold

variable {p : Pairing (Finding π) (Finding π)}

theorem fits_trackOutcome (now : Int) (item : Finding π) :
    (Ledger.trackOutcome p now item).Fits p.rightFor := by
  cases h : p.rightFor item with
  | some known =>
      rw [Ledger.trackOutcome_of_some now h]
      exact .combined false h
  | none =>
      rw [Ledger.trackOutcome_of_none now h]
      exact Outcome.fits_ofUnmatched h now true

theorem fits_rebaseOutcome (now : Int) (inheritSeverity : Bool) (item : Finding π) :
    (Ledger.rebaseOutcome p now inheritSeverity item).Fits p.leftFor := by
  cases h : p.leftFor item with
  | some external =>
      rw [Ledger.rebaseOutcome_of_some now inheritSeverity h]
      exact .combined inheritSeverity h
  | none =>
      rw [Ledger.rebaseOutcome_of_none now inheritSeverity h]
      exact Outcome.fits_ofUnmatched h now false

/-- An analysis combines as many findings as there are pairs. -/
theorem Pairing.Proper.combined_trackOutcome (hp : p.Proper) (now : Int) :
    (Tally.ofOutcomes (p.lefts.map (Ledger.trackOutcome p now))).combined = p.matchedCount := by
  rw [← hp.countP_lefts]
  simp only [Tally.ofOutcomes, List.countP_map]
  apply List.countP_congr
  intro item _
  cases h : p.rightFor item with
  | some known => simp [Ledger.trackOutcome_of_some now h, Outcome.kind]
  | none =>
      simp [Ledger.trackOutcome_of_none now h, Outcome.kind_ofUnmatched_ne_combined]

/-- So does a rebase. -/
theorem Pairing.Proper.combined_rebaseOutcome (hp : p.Proper) (now : Int)
    (inheritSeverity : Bool) :
    (Tally.ofOutcomes (p.rights.map (Ledger.rebaseOutcome p now inheritSeverity))).combined =
      p.matchedCount := by
  rw [← hp.countP_rights]
  simp only [Tally.ofOutcomes, List.countP_map]
  apply List.countP_congr
  intro item _
  cases h : p.leftFor item with
  | some external => simp [Ledger.rebaseOutcome_of_some now inheritSeverity h, Outcome.kind]
  | none =>
      simp [Ledger.rebaseOutcome_of_none now inheritSeverity h,
        Outcome.kind_ofUnmatched_ne_combined]

theorem Ledger.kind_rebaseOutcome_ne_leaked (now : Int) (inheritSeverity : Bool)
    (item : Finding π) : (rebaseOutcome p now inheritSeverity item).kind ≠ .leaked := by
  cases h : p.leftFor item with
  | some external => simp [rebaseOutcome_of_some now inheritSeverity h, Outcome.kind]
  | none =>
      rw [rebaseOutcome_of_none now inheritSeverity h, Outcome.ofUnmatched]
      split <;> simp [Outcome.kind]

end Counting

section Calls

variable {π : Type}

/-- A report of a call that was given `given` and paired `subjects` with `partners`: the findings
that come out are counted right, and every partner is either combined or dropped. -/
structure Report.Balances (r : Report) (operation : Operation) (file : CodeText)
    (firstAnalysis : Bool) (given partners : List (Finding π))
    (counterpart : Finding π → Option (Finding π)) (subjects out : List (Finding π)) : Prop
    extends r.Counts counterpart subjects out where
  operation_eq : r.operation = operation
  file_eq : r.file = file
  firstAnalysis_eq : r.firstAnalysis = firstAnalysis
  inputCount_eq : r.inputCount = given.length
  partners_eq : r.counts.combined + r.dropped = partners.length

variable {s : Session π} {file : CodeText} {items base previous current out : List (Finding π)}
variable {p : Pairing (Finding π) (Finding π)}

/-- A date that was not there before is the reading of the clock. -/
theorem NewlyDated.date_eq (h : s.Analysed items previous out p) {i : Nat} {item f : Finding π}
    (hitem : items[i]? = some item) (hf : out[i]? = some f)
    (hnew : NewlyDated p.rightFor item f) : f.creationDate = some s.ledger.clock.now := by
  have hdated := h.dated hitem hf
  by_cases hunknown : p.Unknown item
  · exact hdated.stamped hunknown
  · obtain ⟨hdate, hown, hpartner⟩ := hnew
    refine absurd ?_ hdate
    rw [hdated.not_stamped hunknown, hown]
    cases hright : p.rightFor item with
    | none => rfl
    | some known => simp [hpartner known hright]

theorem Session.Sound.old_of_built (h : s.Sound) (hitems : items ⊆ s.built) :
    ∀ f ∈ items, f.handle < s.ledger.nextHandle :=
  fun f hf => h.registry.lt_next f (hitems hf)

/-- The report of a call balances, if each outcome is about its subject and fits to what that was
paired with, and if every partner is either combined or dropped. -/
theorem Ledger.Heading.balances_report (heading : Ledger.Heading)
    {given partners subjects : List (Finding π)} {counterpart : Finding π → Option (Finding π)}
    {outcome : Finding π → Outcome π} {next : Nat}
    (hsubject : ∀ item, (outcome item).subject = item)
    (hfits : ∀ item, (outcome item).Fits counterpart) (hold : ∀ f ∈ subjects, f.handle < next)
    (hgiven : heading.inputCount = given.length)
    (hpartners : (Tally.ofOutcomes (subjects.map outcome)).combined + heading.dropped =
      partners.length) :
    (heading.report (subjects.map outcome)).Balances heading.operation heading.file
      heading.firstAnalysis given partners counterpart subjects
      (Outcome.resolveAll next (subjects.map outcome)).1 := by
  have hsubjects := Ledger.map_subject hsubject subjects
  have hcounts : (heading.report (subjects.map outcome)).Counts counterpart
      ((subjects.map outcome).map Outcome.subject)
      (Outcome.resolveAll next (subjects.map outcome)).1 :=
    heading.counts_report (List.forall_mem_map.2 fun item _ => hfits item) (hsubjects.symm ▸ hold)
  rw [hsubjects] at hcounts
  exact ⟨hcounts, rfl, rfl, rfl, hgiven, hpartners⟩

theorem Ledger.lastReport_track_first {L : Ledger π} (hslot : L.slot? file = none)
    (hok : (L.track file items).1 = .ok out) :
    (L.track file items).2.lastReport = some (Heading.report
      ⟨.track, file, true, items.length, 0⟩ (items.map .passthrough)) := by
  have hends := L.track_ends file items
  generalize L.track file items = ended at hends hok ⊢
  cases hends with
  | first => rfl
  | later _ hs hget _ =>
      rw [slot?_of_live hs, hget] at hslot
      simp at hslot
  | _ => simp at hok

/-- The report of the first analysis of a file. -/
theorem Session.Sound.balances_first (h : s.Sound) (hslot : s.ledger.slot? file = none)
    (hitems : items ⊆ s.built) {reply : Reply π}
    (hok : (s.perform (.track file items)).1 = .ok reply) :
    ∃ r, reply = .findings items ∧
      (s.perform (.track file items)).2.ledger.lastReport = some r ∧
      r.Balances .track file true items [] (fun _ => none) items items ∧
      r.counts = ⟨0, 0, 0, items.length⟩ := by
  obtain ⟨-, hreply, -⟩ := Session.perform_track_unknown hslot hok
  let heading : Ledger.Heading := ⟨.track, file, true, items.length, 0⟩
  have hreport : (s.perform (.track file items)).2.ledger.lastReport =
      some (heading.report (items.map .passthrough)) := by
    obtain ⟨out, -, htrack⟩ := Session.exists_track_of_ok hok
    rw [Session.perform_ledger]
    exact Ledger.lastReport_track_first hslot htrack
  have htally : Tally.ofOutcomes (items.map Outcome.passthrough) = ⟨0, 0, 0, items.length⟩ := by
    simp [Tally.ofOutcomes, List.countP_map, Function.comp_def, Outcome.kind]
  have hbalances : (heading.report (items.map .passthrough)).Balances .track file true items []
      (fun _ => none) items
      (Outcome.resolveAll s.ledger.nextHandle (items.map .passthrough)).1 := by
    apply heading.balances_report
    · exact fun _ => rfl
    · exact fun _ => .passthrough rfl
    · exact h.old_of_built hitems
    · rfl
    · rw [htally]
      rfl
  rw [Outcome.resolveAll_passthrough] at hbalances
  exact ⟨_, Except.ok.inj (hok.symm.trans hreply), hreport, hbalances, htally⟩

/-- The report of a later analysis. -/
theorem Session.Sound.balances_track (h : s.Sound) (hslot : s.ledger.slot? file = some previous)
    (hitems : items ⊆ s.built) {reply : Reply π}
    (hok : (s.perform (.track file items)).1 = .ok reply) :
    ∃ out r p, reply = .findings out ∧
      (s.perform (.track file items)).2.ledger.lastReport = some r ∧
      s.Analysed items previous out p ∧
      r.Balances .track file false items previous p.rightFor items out := by
  obtain ⟨-, -, hd, -⟩ := Session.settled_of_track hok
  have hprevious := h.slot_distinct file previous hslot
  obtain ⟨out, p, rfl, -, hanalysed⟩ := h.analysed_of_ok hslot hok
  obtain ⟨hout, -, hreport⟩ := Ledger.track_spec hslot hd hprevious
  rw [← hanalysed.eq_pairBy hd hprevious] at hout hreport
  obtain ⟨hreply, hnext⟩ := Session.perform_track_of_ok hout
  obtain rfl := Reply.findings.inj (Except.ok.inj (hok.symm.trans hreply))
  refine ⟨_, _, p, rfl, by rw [hnext]; exact hreport, hanalysed, ?_⟩
  apply Ledger.Heading.balances_report
    ⟨.track, file, false, items.length, p.unmatchedRights.length⟩
  · exact Ledger.subject_trackOutcome p _
  · exact fits_trackOutcome _
  · exact h.old_of_built hitems
  · rfl
  · have hcombined := hanalysed.proper.combined_trackOutcome s.ledger.clock.now
    rw [hanalysed.lefts_eq] at hcombined
    rw [hcombined, hanalysed.proper.length_unmatchedRights, hanalysed.rights_eq]

/-- The report of a rebase. -/
theorem Session.Sound.balances_rebase (h : s.Sound) {reply : Reply π}
    (hok : (s.perform (.rebase file base)).1 = .ok reply) :
    ∃ current out r p, s.ledger.slot? file = some current ∧ reply = .findings out ∧
      (s.perform (.rebase file base)).2.ledger.lastReport = some r ∧
      s.Rebased base current out p ∧
      r.Balances .rebase file false base base p.leftFor current out ∧ r.counts.leaked = 0 := by
  obtain ⟨-, -, -, hd, -⟩ := Session.settled_of_rebase hok
  obtain ⟨current, out, p, hslot, rfl, -, hrebased⟩ := h.rebased_of_ok hok
  have hcurrent := h.slot_distinct file current hslot
  obtain ⟨hout, -, hreport⟩ := Ledger.rebase_spec hslot hd hcurrent
  rw [← hrebased.eq_pairBy hd hcurrent] at hout hreport
  obtain ⟨hreply, hnext⟩ := Session.perform_rebase_of_ok hout
  obtain rfl := Reply.findings.inj (Except.ok.inj (hok.symm.trans hreply))
  refine ⟨current, _, _, p, hslot, rfl, by rw [hnext]; exact hreport, hrebased, ?_, ?_⟩
  · apply Ledger.Heading.balances_report
      ⟨.rebase, file, false, base.length, p.unmatchedLefts.length⟩
    · exact Ledger.subject_rebaseOutcome p _ _
    · exact fits_rebaseOutcome _ _
    · exact h.old_of_built (h.slot_built file current hslot)
    · rfl
    · have hcombined := hrebased.proper.combined_rebaseOutcome s.ledger.clock.now
        s.ledger.settings.inheritSeverity
      rw [hrebased.rights_eq] at hcombined
      rw [hcombined, hrebased.proper.length_unmatchedLefts, hrebased.lefts_eq]
  · simp only [Ledger.Heading.report, Tally.ofOutcomes, List.countP_map, List.countP_eq_zero]
    intro item _
    simpa using Ledger.kind_rebaseOutcome_ne_leaked s.ledger.clock.now _ item

end Calls

section Reports

variable {π : Type} {s : Session π}

/-- **Reports conserve findings.**  What comes out of a call is counted right, each finding under
the kind that it shows.  An analysis combines or drops each finding of the state, a rebase each
issue of the server, also when the file has no findings; only an analysis of a known file dates
findings, by the clock; a first analysis gives its findings back. -/
theorem reports_conserve_findings (hs : Reachable s) (file : CodeText) :
    (∀ items reply, items ⊆ s.built → (s.perform (.track file items)).1 = .ok reply →
      ∃ out r, reply = .findings out ∧
        (s.perform (.track file items)).2.ledger.lastReport = some r ∧
        (s.ledger.slot? file = none → out = items ∧
          r.Balances .track file true items [] (fun _ => none) items out ∧
          r.counts = ⟨0, 0, 0, items.length⟩ ∧ r.dropped = 0) ∧
        ∀ previous, s.ledger.slot? file = some previous → ∃ p,
          s.Analysed items previous out p ∧
          r.Balances .track file false items previous p.rightFor items out ∧
          r.outputCount = r.inputCount ∧
          ∀ (i : Nat) (item f : Finding π), items[i]? = some item → out[i]? = some f →
            NewlyDated p.rightFor item f → f.creationDate = some s.ledger.clock.now) ∧
      ∀ base reply, (s.perform (.rebase file base)).1 = .ok reply →
        ∃ current out r p, s.ledger.slot? file = some current ∧ reply = .findings out ∧
          (s.perform (.rebase file base)).2.ledger.lastReport = some r ∧
          s.Rebased base current out p ∧
          r.Balances .rebase file false base base p.leftFor current out ∧
          r.outputCount = current.length ∧ r.counts.leaked = 0 := by
  have hsound := hs.sound
  constructor
  · intro items reply hitems hok
    cases hslot : s.ledger.slot? file with
    | none =>
        obtain ⟨r, hreply, hreport, hbalances, hcounts⟩ := hsound.balances_first hslot hitems hok
        refine ⟨items, r, hreply, hreport, fun _ => ⟨rfl, hbalances, hcounts, ?_⟩, by simp⟩
        have hdropped := hbalances.partners_eq
        rw [hcounts] at hdropped
        simpa using hdropped
    | some previous =>
        obtain ⟨out, r, p, hreply, hreport, hanalysed, hbalances⟩ :=
          hsound.balances_track hslot hitems hok
        refine ⟨out, r, hreply, hreport, by simp, ?_⟩
        rintro _ ⟨⟩
        refine ⟨p, hanalysed, hbalances, ?_, fun _ _ _ hitem hf => ?_⟩
        · rw [hbalances.outputCount_eq, hbalances.length_eq, hbalances.inputCount_eq]
        · exact NewlyDated.date_eq hanalysed hitem hf
  · intro base reply hok
    obtain ⟨current, out, r, p, hslot, hreply, hreport, hrebased, hbalances, hleaked⟩ :=
      hsound.balances_rebase hok
    refine ⟨current, out, r, p, hslot, hreply, hreport, hrebased, hbalances, ?_, hleaked⟩
    rw [hbalances.outputCount_eq, hbalances.length_eq]

/-- One finding is combined, one loses its link, and one of the state is dropped. -/
theorem reports_conserve_findings_noted :
    let s := Session.blank.afterAll Event.noted
    let items := [Finding.noted 2 5 (some ("K", false)) (some 70), Finding.noted 1 3 none none]
    Reachable s ∧ items ⊆ s.built ∧
      ∃ previous r, s.ledger.slot? "a.py" = some previous ∧ previous.length = 2 ∧
        (s.perform (.track "a.py" items)).2.ledger.lastReport = some r ∧
        r.counts = ⟨1, 0, 1, 0⟩ ∧ r.dropped = 1 ∧
        r.counts.combined + r.dropped = previous.length := by
  intro s items
  have hs : Reachable s := Session.reachable_afterAll_noted
  have hitems : items ⊆ s.built := by decide
  have hlength : (s.ledger.slot? "a.py").map List.length = some 2 := by decide
  obtain ⟨previous, hslot, hprevious⟩ := Option.map_eq_some_iff.1 hlength
  have hcounts : ((s.perform (.track "a.py" items)).2.ledger.lastReport.map fun r =>
      (r.counts, r.dropped)) = some (⟨1, 0, 1, 0⟩, 1) := by
    decide
  have hd : Ledger.Distinct items := by decide
  obtain ⟨_, _, hok, -⟩ := hs.sound.perform_track_known hslot hd
  obtain ⟨_, r, -, hreport, -, hknown⟩ := (reports_conserve_findings hs "a.py").1 items _ hitems hok
  obtain ⟨_, -, hbalances, -⟩ := hknown previous hslot
  rw [hreport, Option.map_some, Option.some.injEq, Prod.mk.injEq] at hcounts
  exact ⟨hs, hitems, previous, r, hslot, hprevious, hreport, hcounts.1, hcounts.2,
    hbalances.partners_eq⟩

end Reports
end FindingLedger
