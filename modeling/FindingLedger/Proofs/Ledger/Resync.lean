import FindingLedger.Proofs.Ledger.Run
import FindingLedger.Proofs.Pairing.Repetition
import FindingLedger.Proofs.Pairing.Ties

/-!
# Rebasing twice on the same server issues

**Input.**  A file is rebased on a list of server issues, whose keys differ where they have one, and
then it is rebased on the same list again.

**Algorithm.**  The first rebase writes keys of the server into the state.  In the second one the
first pass therefore finds at once the pairs whose server issue has a key, and the other passes run
on what is left.

**Results.**
* `Rebases.serverIssueKey_eq_some_iff`: a rebased finding has the key of its server issue, and no
  other.
* `Resync.mem_pairs_again`: the second cascade records the same pairs as the first one.
* `rebase_twice`: the second rebase changes nothing but handles.
-/

namespace FindingLedger

section Lists

/-- A list is the image of any list of different items that has its length. -/
theorem exists_map_eq {α : Type} {key : α → Nat} {as bs : List α} (hn : (as.map key).Nodup)
    (hlen : bs.length = as.length) : ∃ e : α → α, bs = as.map e := by
  induction as generalizing bs with
  | nil => exact ⟨id, List.length_eq_zero_iff.1 hlen⟩
  | cons a as ih =>
      cases bs with
      | nil => simp at hlen
      | cons b bs =>
          obtain ⟨hnew, hrest⟩ := List.nodup_cons.1 hn
          obtain ⟨e, rfl⟩ := ih hrest (Nat.succ.inj hlen)
          refine ⟨fun x => if key x = key a then b else e x, ?_⟩
          rw [List.map_cons, if_pos rfl]
          congr 1
          apply List.map_congr_left
          intro x hx
          have hne : key x ≠ key a := by
            intro h
            exact hnew (h ▸ List.mem_map_of_mem hx)
          rw [if_neg hne]

/-- Items that have a key in common are the same, if no key occurs twice. -/
theorem eq_of_key_eq {α γ : Type} {key : α → Option γ} {as : List α}
    (hn : (as.filterMap key).Nodup) {a b : α} (ha : a ∈ as) (hb : b ∈ as) {k : γ}
    (hka : key a = some k) (hkb : key b = some k) : a = b := by
  induction as with
  | nil => simp at ha
  | cons x as ih =>
      have hfirst : ∀ y ∈ as, key x = some k → key y ≠ some k := by
        intro y hy hx hy'
        rw [List.filterMap_cons_some hx, List.nodup_cons] at hn
        exact hn.1 (List.mem_filterMap.2 ⟨y, hy, hy'⟩)
      have hrest : (as.filterMap key).Nodup :=
        hn.sublist ((List.sublist_cons_self x as).filterMap key)
      rcases List.mem_cons.1 ha with rfl | ha'
      · rcases List.mem_cons.1 hb with rfl | hb'
        · rfl
        · exact absurd hkb (hfirst b hb' hka)
      · rcases List.mem_cons.1 hb with rfl | hb'
        · exact absurd hka (hfirst a ha' hkb)
        · exact ih hrest ha' hb'

end Lists

section Outcomes

variable {π : Type}

/-- Combining with the same finding once more changes nothing. -/
theorem Content.combine_combine (base moved : Snapshot π) (inheritSeverity : Bool) :
    base.combine (base.combine moved inheritSeverity) inheritSeverity =
      base.combine moved inheritSeverity := by
  cases inheritSeverity <;> cases hdate : base.creationDate <;>
    cases hseverity : base.severity <;> cases htype : base.issueType <;>
      simp [Content.combine, hdate, hseverity, htype]

/-- A finding without a counterpart has no key of the server afterwards. -/
theorem Outcome.serverIssueKey_ofUnmatched (item : Finding π) (now : Int) (allowLeak : Bool) :
    (Outcome.ofUnmatched item now allowLeak).content.serverIssueKey = none := by
  cases hkey : item.serverIssueKey with
  | none =>
      by_cases hleak : (allowLeak && item.creationDate.isNone) = true
      · simp [ofUnmatched, hkey, hleak, content, successor]
      · simp [ofUnmatched, hkey, hleak, content, successor, subject]
  | some k => simp [ofUnmatched, hkey, content, successor]

/-- A finding without a key stays the very same when the server does not know it. -/
theorem Outcome.ofUnmatched_eq_passthrough {item : Finding π} (h : item.serverIssueKey = none)
    (now : Int) : Outcome.ofUnmatched item now false = .passthrough item := by
  simp [ofUnmatched, h]

end Outcomes

section Copies

variable {π : Type} {p : Pairing (Finding π) (Finding π)} {e : Finding π → Finding π}

/-- `e` gives each finding of the state its copy after a rebase. -/
def Rebases (p : Pairing (Finding π) (Finding π)) (inheritSeverity : Bool)
    (e : Finding π → Finding π) : Prop :=
  ∃ now, ∀ item ∈ p.rights,
    (e item).toContent = (Ledger.rebaseOutcome p now inheritSeverity item).content

/-- The findings that a rebase makes of the state are such copies. -/
theorem exists_copies (hd : Ledger.Distinct p.rights) (next : Nat) (now : Int)
    (inheritSeverity : Bool) :
    ∃ e, (Outcome.resolveAll next
        (p.rights.map (Ledger.rebaseOutcome p now inheritSeverity))).1 = p.rights.map e ∧
      Rebases p inheritSeverity e := by
  have hcontents := Outcome.map_toContent_resolveAll next
    (p.rights.map (Ledger.rebaseOutcome p now inheritSeverity))
  have hlen : (Outcome.resolveAll next
      (p.rights.map (Ledger.rebaseOutcome p now inheritSeverity))).1.length = p.rights.length := by
    simpa using congrArg List.length hcontents
  obtain ⟨e, he⟩ := exists_map_eq hd hlen
  refine ⟨e, he, now, ?_⟩
  rw [he, List.map_map, List.map_map, List.map_inj_left] at hcontents
  exact hcontents

variable {inheritSeverity : Bool} (h : Rebases p inheritSeverity e)
include h

theorem Rebases.site_eq {item : Finding π} (hitem : item ∈ p.rights) :
    (e item).site = item.site := by
  obtain ⟨now, h⟩ := h
  rw [h item hitem, Outcome.site_content, Ledger.subject_rebaseOutcome]

/-- A finding with a counterpart on the server becomes the combination of both. -/
theorem Rebases.content_of_leftFor {item external : Finding π} (hitem : item ∈ p.rights)
    (hleft : p.leftFor item = some external) :
    (e item).toContent = external.toContent.combine item.toContent inheritSeverity := by
  obtain ⟨now, h⟩ := h
  simp [h item hitem, Ledger.rebaseOutcome, hleft, Outcome.content, Outcome.successor]

theorem Rebases.serverIssueKey_of_leftFor_none {item : Finding π} (hitem : item ∈ p.rights)
    (hleft : p.leftFor item = none) : (e item).serverIssueKey = none := by
  obtain ⟨now, h⟩ := h
  rw [h item hitem]
  simp [Ledger.rebaseOutcome, hleft, Outcome.serverIssueKey_ofUnmatched]

/-- A rebased finding has the key of its server issue, and no other. -/
theorem Rebases.serverIssueKey_eq_some_iff (hp : p.Proper) {item : Finding π}
    (hitem : item ∈ p.rights) {k : String} :
    (e item).serverIssueKey = some k ↔
      ∃ external, (external, item) ∈ p.pairs ∧ external.serverIssueKey = some k := by
  cases hleft : p.leftFor item with
  | none =>
      rw [h.serverIssueKey_of_leftFor_none hitem hleft]
      have hfree := (hp.leftFor_eq_none_iff hitem).1 hleft
      simp [hfree]
  | some external =>
      have hpair := (hp.leftFor_eq_some_iff hitem).1 hleft
      rw [h.content_of_leftFor hitem hleft]
      constructor
      · exact fun hk => ⟨external, hpair, hk⟩
      · rintro ⟨external', hpair', hk⟩
        rwa [hp.left_unique hpair hpair']

/-- The criteria of an analysis read the same keys off a finding and its rebased copy. -/
theorem Rebases.key_eq {item : Finding π} (hitem : item ∈ p.rights) {fileLevel : Bool}
    {c : Criterion} (hc : c ∈ Criterion.forAnalysis fileLevel) :
    c.key (e item).traits = c.key item.traits :=
  Content.key_congr (h.site_eq hitem) (Criterion.ne_serverIssueKey hc)

end Copies

section Again

variable {π : Type} {B S : List (Finding π)} {e : Finding π → Finding π}
variable {fileLevel inheritSeverity : Bool}

/-- The pass that reads the keys of the server. -/
abbrev serverPass : Pass (Finding π) (Finding π) Key :=
  Criterion.pass .serverIssueKey

/-- The pairing of server issues with the findings of a state. -/
abbrev serverPairing (fileLevel : Bool) (B S : List (Finding π)) :
    Pairing (Finding π) (Finding π) :=
  Plain.pairBy (Criterion.forServer fileLevel) B S

/-- The keys of the server come first, and then the criteria of an analysis. -/
theorem serverPairing_eq_run (fileLevel : Bool) (B S : List (Finding π)) :
    serverPairing fileLevel B S =
      Plain.run ((Criterion.forAnalysis fileLevel).map Criterion.pass)
        (Plain.sweep (Pairing.start B S) serverPass) :=
  rfl

theorem serverIssueKey_key (f : Finding π) :
    Criterion.serverIssueKey.key f.traits =
      f.serverIssueKey.map fun k => [.text "server_issue_key", .text k] := by
  cases hf : f.serverIssueKey <;>
    simp [Criterion.key, Criterion.parts, Criterion.name, Content.traits, hf]

theorem serverPass_agrees_iff {external item : Finding π} :
    serverPass.Agrees external item ↔
      ∃ k, external.serverIssueKey = some k ∧ item.serverIssueKey = some k := by
  have hleft : serverPass.leftKey external =
      external.serverIssueKey.map fun k => [.text "server_issue_key", .text k] :=
    serverIssueKey_key external
  have hright : serverPass.rightKey item =
      item.serverIssueKey.map fun k => [.text "server_issue_key", .text k] :=
    serverIssueKey_key item
  rw [Pass.Agrees, hleft, hright]
  cases external.serverIssueKey <;> cases item.serverIssueKey <;> simp [eq_comm]

/-- A state `S` was rebased on `B`, which gave copies by `e`, and is to be rebased on `B` again. -/
structure Resync (fileLevel inheritSeverity : Bool) (B S : List (Finding π))
    (e : Finding π → Finding π) : Prop where
  base_distinct : Ledger.Distinct B
  keys_nodup : (B.filterMap fun b => b.serverIssueKey).Nodup
  state_distinct : Ledger.Distinct S
  copies_distinct : Ledger.Distinct (S.map e)
  rebases : Rebases (serverPairing fileLevel B S) inheritSeverity e

variable {external item : Finding π} (h : Resync fileLevel inheritSeverity B S e)
include h

theorem Resync.proper : (serverPairing fileLevel B S).Proper :=
  (Plain.pairBy_spec _ h.base_distinct h.state_distinct).2.1

theorem Resync.proper_again : (serverPairing fileLevel B (S.map e)).Proper :=
  (Plain.pairBy_spec _ h.base_distinct h.copies_distinct).2.1

theorem Resync.lefts_eq : (serverPairing fileLevel B S).lefts = B :=
  (Plain.pairBy_spec _ h.base_distinct h.state_distinct).2.2.1

theorem Resync.lefts_eq_again : (serverPairing fileLevel B (S.map e)).lefts = B :=
  (Plain.pairBy_spec _ h.base_distinct h.copies_distinct).2.2.1

theorem Resync.rights_eq : (serverPairing fileLevel B S).rights = S :=
  (Plain.pairBy_spec _ h.base_distinct h.state_distinct).2.2.2

theorem Resync.rights_eq_again : (serverPairing fileLevel B (S.map e)).rights = S.map e :=
  (Plain.pairBy_spec _ h.base_distinct h.copies_distinct).2.2.2

/-- A server issue has its key in common with the copy of the finding that it was paired with, and
with no other copy. -/
theorem Resync.agrees_iff (hexternal : external ∈ B) (hitem : item ∈ S) :
    serverPass.Agrees external (e item) ↔
      (external, item) ∈ (serverPairing fileLevel B S).pairs ∧
        external.serverIssueKey ≠ none := by
  have hright : item ∈ (serverPairing fileLevel B S).rights := h.rights_eq.symm ▸ hitem
  simp only [serverPass_agrees_iff, h.rebases.serverIssueKey_eq_some_iff h.proper hright]
  constructor
  · rintro ⟨k, hk, other, hpair, hk'⟩
    have hother : other ∈ B := h.lefts_eq ▸ h.proper.left_mem _ hpair
    obtain rfl : external = other := eq_of_key_eq h.keys_nodup hexternal hother hk hk'
    exact ⟨hpair, by simp [hk]⟩
  · rintro ⟨hpair, hne⟩
    obtain ⟨k, hk⟩ := Option.ne_none_iff_exists'.1 hne
    exact ⟨k, hk, external, hpair, hk⟩

theorem Resync.unambiguous : Unambiguous serverPass B (S.map e) where
  right_unique := by
    intro l hl r' hr' r'' hr'' h' h''
    obtain ⟨r₁, hr₁, rfl⟩ := List.mem_map.1 hr'
    obtain ⟨r₂, hr₂, rfl⟩ := List.mem_map.1 hr''
    have h₁ := ((h.agrees_iff hl hr₁).1 h').1
    have h₂ := ((h.agrees_iff hl hr₂).1 h'').1
    exact congrArg e (h.proper.right_unique h₁ h₂)
  left_unique := by
    intro r' hr' l₁ hl₁ l₂ hl₂ h' h''
    obtain ⟨r, hr, rfl⟩ := List.mem_map.1 hr'
    have h₁ := ((h.agrees_iff hl₁ hr).1 h').1
    have h₂ := ((h.agrees_iff hl₂ hr).1 h'').1
    exact h.proper.left_unique h₁ h₂

/-- In the first pass of the second cascade, a server issue that has a key meets the finding that
took this key over from it. -/
theorem Resync.mem_first_sweep (hitem : item ∈ S) :
    (external, e item) ∈ (Plain.sweep (Pairing.start B (S.map e)) serverPass).pairs ↔
      (external, item) ∈ (serverPairing fileLevel B S).pairs ∧
        external.serverIssueKey ≠ none := by
  have hstart := Pairing.proper_start h.base_distinct h.copies_distinct
  rw [Plain.mem_pairs_sweep_of_unambiguous hstart h.unambiguous, hstart.mem_unmatchedLefts,
    hstart.mem_unmatchedRights]
  simp only [Pairing.start, List.not_mem_nil, not_false_eq_true, implies_true, and_true, false_or]
  constructor
  · rintro ⟨hl, -, hagree⟩
    exact (h.agrees_iff hl hitem).1 hagree
  · rintro ⟨hpair, hne⟩
    have hl : external ∈ B := h.lefts_eq ▸ h.proper.left_mem _ hpair
    exact ⟨hl, List.mem_map_of_mem hitem, (h.agrees_iff hl hitem).2 ⟨hpair, hne⟩⟩

/-- After its first pass, the second cascade stands where the first one stood after its own, and has
besides the pairs with a key that the first one ended with. -/
theorem Resync.ahead :
    Plain.Ahead
      (fun l r => (l, r) ∈ (serverPairing fileLevel B S).pairs ∧ l.serverIssueKey ≠ none) e
      (Plain.sweep (Pairing.start B S) serverPass)
      (Plain.sweep (Pairing.start B (S.map e)) serverPass) := by
  have hstart := Pairing.proper_start h.base_distinct h.state_distinct
  have hstart' := Pairing.proper_start h.base_distinct h.copies_distinct
  have hgrows := Plain.grows_sweep serverPass (Pairing.start B S)
  have hgrows' := Plain.grows_sweep serverPass (Pairing.start B (S.map e))
  refine ⟨Plain.proper_sweep hstart _, Plain.proper_sweep hstart' _, ?_, ?_, ?_⟩
  · rw [hgrows'.lefts_eq, hgrows.lefts_eq]
    rfl
  · rw [hgrows'.rights_eq, hgrows.rights_eq]
    rfl
  · intro l r hr
    rw [hgrows.rights_eq] at hr
    rw [h.mem_first_sweep hr]
    refine (or_iff_right_of_imp fun hpair => ⟨?_, ?_⟩).symm
    · rw [serverPairing_eq_run]
      exact (Plain.grows_run _ _).pairs_subset hpair
    · rcases (Plain.mem_pairs_sweep hstart).1 hpair with hold | hnew
      · simp [Pairing.start] at hold
      · obtain ⟨k, hk, -⟩ := serverPass_agrees_iff.1 hnew.agrees
        simp [hk]

/-- **The second cascade records the same pairs as the first one.** -/
theorem Resync.mem_pairs_again (hitem : item ∈ S) :
    (external, e item) ∈ (serverPairing fileLevel B (S.map e)).pairs ↔
      (external, item) ∈ (serverPairing fileLevel B S).pairs := by
  have hrights := (Plain.grows_sweep serverPass (Pairing.start B S)).rights_eq
  rw [serverPairing_eq_run fileLevel B (S.map e), serverPairing_eq_run fileLevel B S]
  apply h.ahead.run
  · exact fun l r hpair => hpair.1
  · intro pass hpass r hr
    obtain ⟨c, hc, rfl⟩ := List.mem_map.1 hpass
    rw [hrights] at hr
    exact h.rebases.key_eq (h.rights_eq.symm ▸ hr) hc
  · rw [hrights]
    exact hitem

theorem Resync.leftFor_again (hitem : item ∈ S) :
    (serverPairing fileLevel B (S.map e)).leftFor (e item) =
      (serverPairing fileLevel B S).leftFor item := by
  have hcopy : e item ∈ S.map e := List.mem_map_of_mem hitem
  apply Option.ext
  intro external
  rw [h.proper.leftFor_eq_some_iff (h.rights_eq.symm ▸ hitem),
    h.proper_again.leftFor_eq_some_iff (h.rights_eq_again.symm ▸ hcopy)]
  exact h.mem_pairs_again hitem

/-- Both rebases drop the same server issues. -/
theorem Resync.unmatchedLefts_again :
    (serverPairing fileLevel B (S.map e)).unmatchedLefts =
      (serverPairing fileLevel B S).unmatchedLefts := by
  rw [Pairing.unmatchedLefts, Pairing.unmatchedLefts, h.lefts_eq, h.lefts_eq_again]
  apply List.filter_congr
  intro external hexternal
  rw [Bool.eq_iff_iff, Option.isNone_iff_eq_none, Option.isNone_iff_eq_none,
    h.proper.rightFor_eq_none_iff (h.lefts_eq.symm ▸ hexternal),
    h.proper_again.rightFor_eq_none_iff (h.lefts_eq_again.symm ▸ hexternal)]
  constructor
  · intro hfree item hpair
    have hitem : item ∈ S := h.rights_eq ▸ h.proper.right_mem _ hpair
    exact hfree (e item) ((h.mem_pairs_again hitem).2 hpair)
  · intro hfree copy hpair
    have hcopy : copy ∈ S.map e := h.rights_eq_again ▸ h.proper_again.right_mem _ hpair
    obtain ⟨item, hitem, rfl⟩ := List.mem_map.1 hcopy
    exact hfree item ((h.mem_pairs_again hitem).1 hpair)

/-- The second rebase gives a finding back as it is: combined with the same server issue as in the
first one, or passed through. -/
theorem Resync.rebaseOutcome_again (now now' : Int) (hitem : item ∈ S) :
    let first := Ledger.rebaseOutcome (serverPairing fileLevel B S) now inheritSeverity item
    let second := Ledger.rebaseOutcome (serverPairing fileLevel B (S.map e)) now' inheritSeverity
      (e item)
    second.content = (e item).toContent ∧ second.kind ≠ .disconnected ∧
      (second.kind = .combined ↔ first.kind = .combined) := by
  have hright : item ∈ (serverPairing fileLevel B S).rights := h.rights_eq.symm ▸ hitem
  have hsame := h.leftFor_again hitem
  cases hleft : (serverPairing fileLevel B S).leftFor item with
  | some external =>
      have hcontent := h.rebases.content_of_leftFor hright hleft
      simp only [Ledger.rebaseOutcome, hsame, hleft]
      refine ⟨?_, by simp [Outcome.kind], by simp [Outcome.kind]⟩
      rw [hcontent]
      simp [Outcome.content, Outcome.successor, hcontent, Content.combine_combine]
  | none =>
      have hnone := h.rebases.serverIssueKey_of_leftFor_none hright hleft
      simp only [Ledger.rebaseOutcome, hsame, hleft, Outcome.ofUnmatched_eq_passthrough hnone]
      refine ⟨rfl, by simp [Outcome.kind], iff_of_false (by simp [Outcome.kind]) ?_⟩
      exact Outcome.kind_ofUnmatched_ne_combined item now false

end Again

section Twice

variable {π : Type} {s : Session π} {file : CodeText} {B S : List (Finding π)}

/-- **Rebasing twice on the same server issues changes nothing but handles**, and the second report
shows as many combined findings and dropped issues as the first one, and no lost link. -/
theorem rebase_twice (hs : Reachable s) (hS : s.ledger.slot? file = some S)
    (hB : Ledger.Distinct B) (hkeys : (B.filterMap fun b => b.serverIssueKey).Nodup) :
    let first := s.perform (.rebase file B)
    let second := first.2.perform (.rebase file B)
    ∃ out₁ out₂ r₁ r₂, first.1 = .ok (.findings out₁) ∧ second.1 = .ok (.findings out₂) ∧
      first.2.ledger.lastReport = some r₁ ∧ second.2.ledger.lastReport = some r₂ ∧
      out₂.map Finding.toContent = out₁.map Finding.toContent ∧
      r₂.counts.combined = r₁.counts.combined ∧ r₂.dropped = r₁.dropped ∧
      r₂.counts.disconnected = 0 := by
  intro first second
  have hsound := hs.sound
  have hdistinct := hsound.slot_distinct file S hS
  have hold : ∀ f ∈ S, f.handle < s.ledger.nextHandle := fun f hf =>
    hsound.registry.lt_next f (hsound.slot_built file S hS hf)
  obtain ⟨-, -, -, hrights⟩ :=
    Plain.pairBy_spec (Criterion.forServer s.ledger.settings.matchFileLevel) hB hdistinct
  obtain ⟨hok, hsettled, hreport⟩ := Ledger.rebase_spec hS hB hdistinct
  -- the state after the first rebase consists of copies of the findings before it
  obtain ⟨e, he, hrebases⟩ := exists_copies (hrights.symm ▸ hdistinct) s.ledger.nextHandle
    s.ledger.clock.now s.ledger.settings.inheritSeverity
  rw [hrights] at he
  rw [he] at hok hsettled
  have hcopies : Ledger.Distinct (S.map e) := hsettled.distinct_out hdistinct hold
  have hresync : Resync _ _ B S e := ⟨hB, hkeys, hdistinct, hcopies, hrebases⟩
  obtain ⟨hfirst, hnext⟩ := Session.perform_rebase_of_ok hok
  have hledger : first.2.ledger = (s.ledger.rebase file B).2 := by
    rw [hnext]
  have hslot : first.2.ledger.slot? file = some (S.map e) := hledger ▸ hsettled.slot?_self
  have hsettings : first.2.ledger.settings = s.ledger.settings := hledger ▸ hsettled.settings_eq
  obtain ⟨hok', -, hreport'⟩ := Ledger.rebase_spec hslot hB hcopies
  rw [hsettings] at hok' hreport'
  obtain ⟨hsecond, hnext'⟩ := Session.perform_rebase_of_ok hok'
  have hledger' : second.2.ledger = (first.2.ledger.rebase file B).2 := by
    rw [hnext']
  have hagain := fun item => @Resync.rebaseOutcome_again π B S e _ _ item hresync
    s.ledger.clock.now first.2.ledger.clock.now
  refine ⟨_, _, _, _, hfirst, hsecond, hledger ▸ hreport, hledger' ▸ hreport', ?_, ?_, ?_, ?_⟩
  · rw [Outcome.map_toContent_resolveAll, List.map_map, List.map_map, List.map_map]
    exact List.map_congr_left fun item hitem => (hagain item hitem).1
  · simp only [Ledger.Heading.report, Tally.ofOutcomes, List.countP_map]
    apply List.countP_congr
    intro item hitem
    simpa using (hagain item hitem).2.2
  · exact congrArg List.length hresync.unmatchedLefts_again
  · simp only [Ledger.Heading.report, Tally.ofOutcomes, List.countP_map, List.countP_eq_zero]
    intro item hitem
    simpa using (hagain item hitem).2.1

/-- One issue of the server has a key, and the state takes it over; another finding of the state is
linked to nothing. -/
theorem rebase_twice_noted :
    let s := (Session.noted.step (.call (.track "a.py" [.known 3, .known 2, .known 1]))).2
    let first := s.perform (.rebase "a.py" Session.noted.built)
    let second := first.2.perform (.rebase "a.py" Session.noted.built)
    (first.2.ledger.lastReport.map fun r => (r.counts.combined, r.dropped)) = some (2, 2) ∧
      (second.2.ledger.lastReport.map fun r =>
        (r.counts.combined, r.dropped, r.counts.disconnected)) = some (2, 2, 0) := by
  intro s first second
  have hs : Reachable s := Session.reachable_noted.step trivial
  have hS : s.ledger.slot? "a.py" = some (Session.noted.built.drop 1) := by decide
  have hB : Ledger.Distinct Session.noted.built := by decide
  obtain ⟨out₁, out₂, r₁, r₂, -, -, hr₁, hr₂, -, hcombined, hdropped, hdisconnected⟩ :=
    rebase_twice hs hS hB (by decide)
  have hnumbers : (first.2.ledger.lastReport.map fun r => (r.counts.combined, r.dropped)) =
      some (2, 2) := by
    decide
  refine ⟨hnumbers, ?_⟩
  rw [hr₁, Option.map_some, Option.some.injEq, Prod.mk.injEq] at hnumbers
  rw [hr₂, Option.map_some, hcombined, hdropped, hdisconnected, hnumbers.1, hnumbers.2]

end Twice
end FindingLedger
