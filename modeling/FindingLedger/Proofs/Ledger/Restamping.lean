import FindingLedger.Proofs.Ledger.Dating
import FindingLedger.Proofs.Ledger.Reanalysis
import FindingLedger.Proofs.Pairing.Compatibility

/-!
# Findings that are stamped again

**Input.**  A file is analysed twice with the same findings, and between the two analyses nothing
happens but that time goes on.

**Results.**
* `Analysed.keyed_of_rightFor`: only findings with a key are combined.
* `Sound.exists_again`: what the second analysis makes of each finding.
* `combine_content_trackOutcome`: combining a finding with its own copy gives the copy.
* `keyless_findings_are_stamped_again`: the second analysis keeps every finding that has a key, but
  one without a key is treated as new each time.
-/

namespace FindingLedger

/-- The session with another clock. -/
def Session.withClock {π : Type} (s : Session π) (clock : Clock) : Session π :=
  ⟨{ s.ledger with clock := clock }, s.built⟩

theorem Session.Sound.withClock {π : Type} {s : Session π} (h : s.Sound) (clock : Clock) :
    (s.withClock clock).Sound :=
  ⟨h.registry, h.slot_distinct, h.slot_built⟩

section Outcomes

variable {π : Type} {item : Finding π}

theorem Outcome.content_ofUnmatched_of_link (now : Int) (h : item.serverIssueKey ≠ none) :
    (Outcome.ofUnmatched item now true).content =
      { item.toContent with serverIssueKey := none, resolved := false } := by
  simp [Outcome.ofUnmatched, Option.isSome_iff_ne_none.2 h]

theorem Outcome.content_ofUnmatched_of_date (now : Int) (hlink : item.serverIssueKey = none)
    (h : item.creationDate ≠ none) :
    (Outcome.ofUnmatched item now true).content = item.toContent := by
  simp [Outcome.ofUnmatched, hlink, h]

theorem Outcome.content_ofUnmatched_of_unknown (now : Int) (hlink : item.serverIssueKey = none)
    (hdate : item.creationDate = none) :
    (Outcome.ofUnmatched item now true).content =
      { item.toContent with creationDate := some now } := by
  simp [Outcome.ofUnmatched, hlink, hdate]

/-- The time of an analysis shows only on a finding without a link and without a date. -/
theorem Outcome.content_ofUnmatched_eq_iff {now later : Int} :
    (Outcome.ofUnmatched item now true).content = (Outcome.ofUnmatched item later true).content ↔
      item.serverIssueKey ≠ none ∨ item.creationDate ≠ none ∨ now = later := by
  by_cases hlink : item.serverIssueKey = none
  · by_cases hdate : item.creationDate = none
    · rw [content_ofUnmatched_of_unknown _ hlink hdate,
        content_ofUnmatched_of_unknown _ hlink hdate]
      simp [hlink, hdate]
    · rw [content_ofUnmatched_of_date _ hlink hdate, content_ofUnmatched_of_date _ hlink hdate]
      simp [hdate]
  · rw [content_ofUnmatched_of_link _ hlink, content_ofUnmatched_of_link _ hlink]
    simp [hlink]

/-- Without a counterpart only a finding that has a date and no link stays as it is. -/
theorem Outcome.content_ofUnmatched_eq_self_iff {now : Int} :
    (Outcome.ofUnmatched item now true).content = item.toContent ↔
      item.serverIssueKey = none ∧ item.creationDate ≠ none := by
  by_cases hlink : item.serverIssueKey = none
  · by_cases hdate : item.creationDate = none
    · rw [content_ofUnmatched_of_unknown _ hlink hdate]
      simp only [hlink, hdate, ne_eq, not_true_eq_false, and_false, iff_false]
      intro h
      have := congrArg Content.creationDate h
      simp [hdate] at this
    · rw [content_ofUnmatched_of_date _ hlink hdate]
      simp [hlink, hdate]
  · rw [content_ofUnmatched_of_link _ hlink]
    simp only [hlink, false_and, iff_false]
    intro h
    exact hlink (congrArg Content.serverIssueKey h).symm

theorem Content.combine_self (c : Snapshot π) : c.combine c false = c := by
  obtain ⟨rule, message, line, range, lineHash, rangeHash, date, key, resolved, _, _, _⟩ := c
  cases date <;> rfl

/-- Combining a finding with the copy that an analysis made of it gives the copy. -/
theorem combine_content_trackOutcome (p : Pairing (Finding π) (Finding π)) (now : Int)
    (item : Finding π) :
    (Ledger.trackOutcome p now item).content.combine item.toContent false =
      (Ledger.trackOutcome p now item).content := by
  cases hright : p.rightFor item with
  | some known =>
      rw [Ledger.trackOutcome_of_some now hright]
      cases hdate : known.creationDate <;> simp [Content.combine, hdate]
  | none =>
      rw [Ledger.trackOutcome_of_none now hright]
      by_cases hlink : item.serverIssueKey = none
      · by_cases hdate : item.creationDate = none
        · rw [Outcome.content_ofUnmatched_of_unknown _ hlink hdate]
          simp [Content.combine]
        · rw [Outcome.content_ofUnmatched_of_date _ hlink hdate, Content.combine_self]
      · rw [Outcome.content_ofUnmatched_of_link _ hlink]
        cases hdate : item.creationDate <;> simp [Content.combine, hdate]

end Outcomes

section Calls

variable {π : Type} {s : Session π} {file : CodeText} {items previous out : List (Finding π)}
variable {p : Pairing (Finding π) (Finding π)} {item known : Finding π}

/-- Only a finding that has a key is combined with another one. -/
theorem Session.Analysed.keyed_of_rightFor (h : s.Analysed items previous out p)
    (hd : Ledger.Distinct previous) (hd' : Ledger.Distinct items) (hitem : item ∈ items)
    (hright : p.rightFor item = some known) : item.Keyed s.ledger.settings.matchFileLevel := by
  let passes : List (Pass (Finding π) (Finding π) Key) :=
    (Criterion.forAnalysis s.ledger.settings.matchFileLevel).map Criterion.pass
  have hstable : Plain.Stable passes (Plain.pair passes items previous) :=
    Plain.stable_pair passes hd' hd
  obtain rfl := h.eq_pairBy hd' hd
  obtain ⟨pass, hpass, hagree⟩ := hstable.exists_agrees (h.pair_of_rightFor hitem hright)
  obtain ⟨c, hc, rfl⟩ := List.mem_map.1 hpass
  exact ⟨c, hc, hagree.2⟩

theorem Session.Analysed.rightFor_eq_none (h : s.Analysed items previous out p)
    (hd : Ledger.Distinct previous) (hd' : Ledger.Distinct items) (hitem : item ∈ items)
    (hkeyless : ¬ item.Keyed s.ledger.settings.matchFileLevel) : p.rightFor item = none := by
  cases hright : p.rightFor item with
  | none => rfl
  | some known => exact absurd (h.keyed_of_rightFor hd hd' hitem hright) hkeyless

/-- What the analysis of a known file makes of findings that are where those of the state are. -/
theorem Session.Sound.exists_again (h : s.Sound) (hslot : s.ledger.slot? file = some previous)
    (hd : Ledger.Distinct items)
    (hsites : (items.map fun f => f.site) = previous.map fun f => f.site) :
    ∃ out, (s.perform (.track file items)).1 = .ok (.findings out) ∧
      ∀ (i : Nat) (item known f : Finding π), items[i]? = some item → previous[i]? = some known →
        out[i]? = some f →
        (item.Keyed s.ledger.settings.matchFileLevel →
          f.toContent = known.toContent.combine item.toContent false) ∧
        (¬ item.Keyed s.ledger.settings.matchFileLevel →
          f.toContent = (Outcome.ofUnmatched item s.ledger.clock.now true).content) := by
  have hprevious := h.slot_distinct file previous hslot
  obtain ⟨out, p, hok, -, hanalysed⟩ := h.perform_track_known hslot hd
  refine ⟨out, hok, fun i item known f hitem hknown hf => ?_⟩
  have hcontent : f.toContent = _ := eq_at_of_map_eq hanalysed.contents_eq hf hitem
  have hmem : item ∈ items := List.mem_of_getElem? hitem
  rw [hcontent]
  constructor
  · intro hkeyed
    have hzip : (item, known) ∈ items.zip previous :=
      List.mem_of_getElem? (List.getElem?_zip_eq_some.2 ⟨hitem, hknown⟩)
    obtain rfl := hanalysed.eq_pairBy hd hprevious
    have hpaired := (mem_pairs_of_same_sites hd hprevious hsites).2 ⟨hzip, hkeyed⟩
    have hright : Pairing.rightFor _ item = some known :=
      (hanalysed.proper.rightFor_eq_some_iff (hanalysed.lefts_eq.symm ▸ hmem)).2 hpaired
    rw [Ledger.trackOutcome_of_some _ hright, Outcome.content_combined]
  · intro hkeyless
    have hright := hanalysed.rightFor_eq_none hprevious hd hmem hkeyless
    rw [Ledger.trackOutcome_of_none _ hright]

/-- An analysis gives its findings back in order, each where it was. -/
theorem Session.sites_of_track (hok : (s.perform (.track file items)).1 = .ok (.findings out)) :
    (out.map fun f => f.site) = items.map fun f => f.site := by
  obtain ⟨out', hreply, -, hsettled⟩ := settled_of_track hok
  obtain rfl := Reply.findings.inj hreply
  exact hsettled.ledger.site_eq

/-- What the first of two analyses makes of each finding, by whether the file was known. -/
theorem Session.Sound.exists_first (h : s.Sound) (hd : Ledger.Distinct items)
    (hlive : s.ledger.store ≠ .disposed) :
    ∃ out, (s.perform (.track file items)).1 = .ok (.findings out) ∧
      (s.perform (.track file items)).2.ledger.slot? file = some out ∧
      ∀ (i : Nat) (item f : Finding π), items[i]? = some item → out[i]? = some f →
        f.toContent.combine item.toContent false = f.toContent ∧
        (s.ledger.slot? file = none → f = item) ∧
        (s.ledger.slot? file ≠ none → ¬ item.Keyed s.ledger.settings.matchFileLevel →
          f.toContent = (Outcome.ofUnmatched item s.ledger.clock.now true).content) := by
  cases hslot : s.ledger.slot? file with
  | none =>
      cases hs : s.ledger.store with
      | disposed => exact absurd hs hlive
      | live slots =>
          have hget : slots.get? file = none := by simpa [Ledger.slot?, hs] using hslot
          obtain ⟨hitems, hsettled⟩ := Ledger.track_first_spec hd hs hget
          obtain ⟨hreply, hnext⟩ := perform_track_of_ok hitems
          refine ⟨items, hreply, by rw [hnext]; exact hsettled.slot?_self, ?_⟩
          intro i item f hitem hf
          obtain rfl := Option.some.inj (hitem.symm.trans hf)
          exact ⟨Content.combine_self _, fun _ => rfl, fun hne => absurd rfl hne⟩
  | some previous =>
      obtain ⟨out, p, hok, hnext, hanalysed⟩ := h.perform_track_known hslot hd
      refine ⟨out, hok, hnext, fun i item f hitem hf => ?_⟩
      have hcontent : f.toContent = _ := eq_at_of_map_eq hanalysed.contents_eq hf hitem
      rw [hcontent]
      refine ⟨combine_content_trackOutcome _ _ _, by simp, fun _ hkeyless => ?_⟩
      have hright := hanalysed.rightFor_eq_none (h.slot_distinct file previous hslot) hd
        (List.mem_of_getElem? hitem) hkeyless
      rw [Ledger.trackOutcome_of_none _ hright]

end Calls

section Theorem

variable {π : Type} {s : Session π} {file : CodeText} {X : List (Finding π)}

/-- **A finding without a key is stamped again by every analysis.**  The same distinct findings are
analysed twice, with any clock the second time.  A finding that has a key comes out of the second
analysis as it came out of the first.  One without a key, that is one that has neither a line nor a
hash and cannot be matched by its message alone, is treated as new both times: it loses its link to
the server if it has one, and otherwise is dated by the second clock if it was given no date.  Where
the file was known before, it comes out the same only if it has a link or a date or the two times
are equal; where the file was not known, only if it has a date and no link. -/
theorem keyless_findings_are_stamped_again (hs : Reachable s) (hX : X ⊆ s.built)
    (hd : Ledger.Distinct X) (hlive : s.ledger.store ≠ .disposed) (clock : Clock) :
    ∃ out out' : List (Finding π),
      (s.perform (.track file X)).1 = .ok (.findings out) ∧
      (((s.perform (.track file X)).2.withClock clock).perform (.track file X)).1 =
        .ok (.findings out') ∧
      out.length = X.length ∧ out'.length = X.length ∧
      ∀ (i : Nat) (item f f' : Finding π), X[i]? = some item → out[i]? = some f →
        out'[i]? = some f' →
        (item.Keyed s.ledger.settings.matchFileLevel → f'.toContent = f.toContent) ∧
        (¬ item.Keyed s.ledger.settings.matchFileLevel →
          f'.toContent = (Outcome.ofUnmatched item clock.now true).content ∧
          (item.serverIssueKey = none → item.creationDate = none →
            f'.creationDate = some clock.now) ∧
          (f'.toContent = f.toContent ↔
            (s.ledger.slot? file ≠ none ∧ (item.serverIssueKey ≠ none ∨
              item.creationDate ≠ none ∨ clock.now = s.ledger.clock.now)) ∨
            (s.ledger.slot? file = none ∧ item.serverIssueKey = none ∧
              item.creationDate ≠ none))) ∧
        (¬ item.Keyed s.ledger.settings.matchFileLevel ↔
          item.line = none ∧ item.lineHash = none ∧ item.textRangeHash = none ∧
            (item.textRange ≠ none ∨ s.ledger.settings.matchFileLevel = false)) := by
  -- the slot before the second analysis is what the first one gave, finding by finding
  let fileLevel := s.ledger.settings.matchFileLevel
  let t := (s.perform (.track file X)).2.withClock clock
  obtain ⟨out, hok, hslot, hfirst⟩ := hs.sound.exists_first hd hlive
  have hsites := Session.sites_of_track hok
  have hsound : t.Sound :=
    Session.Sound.withClock (hs.sound.perform (c := .track file X) trivial hX) clock
  have hsettings : t.ledger.settings.matchFileLevel = fileLevel :=
    congrArg Settings.matchFileLevel (s.settings_after (.call (.track file X)))
  obtain ⟨out', hok', hagain⟩ := hsound.exists_again hslot hd hsites.symm
  have hsites' := Session.sites_of_track hok'
  rw [hsettings] at hagain
  refine ⟨out, out', hok, hok', by simpa using congrArg List.length hsites,
    by simpa using congrArg List.length hsites', ?_⟩
  intro i item f f' hitem hf hf'
  obtain ⟨hcombine, hunknown, hknown⟩ := hfirst i item f hitem hf
  obtain ⟨hkeyed, hunmatched⟩ := hagain i item f f' hitem hf hf'
  have hkeyless : ¬ item.Keyed fileLevel →
      f'.toContent = (Outcome.ofUnmatched item clock.now true).content := hunmatched
  refine ⟨fun h => (hkeyed h).trans hcombine, fun h => ⟨hkeyless h, ?_, ?_⟩,
    Finding.not_keyed_iff⟩
  · intro hlink hdate
    rw [hkeyless h, Outcome.content_ofUnmatched_of_unknown _ hlink hdate]
  · rw [hkeyless h]
    by_cases hslot : s.ledger.slot? file = none
    · rw [hunknown hslot, Outcome.content_ofUnmatched_eq_self_iff]
      simp [hslot]
    · rw [hknown hslot h, Outcome.content_ofUnmatched_eq_iff]
      simp [hslot]

/-- A finding with a text range only is dated 100 by the first analysis and 101 by the second. -/
theorem keyless_findings_are_stamped_again_noted :
    let X := (Session.noted.built.drop 1).take 1
    let t := (Session.noted.perform (.track "b.py" X)).2
    ∃ f f' : Finding Unit, (Session.noted.perform (.track "b.py" X)).1 = .ok (.findings [f]) ∧
      (t.perform (.track "b.py" X)).1 = .ok (.findings [f']) ∧
      f'.creationDate = some 101 ∧ f'.toContent ≠ f.toContent := by
  intro X t
  obtain ⟨out, out', hok, hok', hlen, hlen', hall⟩ :=
    keyless_findings_are_stamped_again (X := X) Session.reachable_noted
      (List.Subset.trans (List.take_subset _ _) (List.drop_subset _ _)) (by decide) (by decide)
      t.ledger.clock
  obtain ⟨f, rfl⟩ := List.length_eq_one_iff.1 hlen
  obtain ⟨f', rfl⟩ := List.length_eq_one_iff.1 hlen'
  obtain ⟨-, hkeyless, hiff⟩ := hall 0 _ f f' rfl rfl rfl
  obtain ⟨-, hdate, hsame⟩ := hkeyless (hiff.2 (by decide))
  exact ⟨f, f', hok, hok', hdate rfl rfl, mt hsame.1 (by decide)⟩

end Theorem
end FindingLedger
