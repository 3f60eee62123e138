import FindingLedger.Proofs.Ledger.History

/-!
# The date of creation

**Input.**  A run of a session, and one file.

**Results.**
* `DatedByAnalysis`, `DatedByRebase`: how a call dates each finding that it gives.  Only an analysis
  of a known file writes the reading of the clock, and only on a finding that nobody knows.
* `Run.dates_from`: every date in a slot was supplied for the file, or is such a reading.
* `Lineage`: the copies of a finding along a run; `Lineage.dated`: a date is never lost on the way.
* `creation_dates_persist`: all of this for a ledger from its beginning.
-/

namespace FindingLedger

section Outcomes

variable {π : Type} {p : Pairing (Finding π) (Finding π)} {now : Int} {item : Finding π}

/-- Nobody knows the finding: it has no counterpart, no date and no key of the server. -/
def Pairing.Unknown (p : Pairing (Finding π) (Finding π)) (item : Finding π) : Prop :=
  p.rightFor item = none ∧ item.creationDate = none ∧ item.serverIssueKey = none

theorem creationDate_of_unknown (h : p.Unknown item) :
    (Ledger.trackOutcome p now item).content.creationDate = some now := by
  obtain ⟨hright, hdate, hkey⟩ := h
  simp [Ledger.trackOutcome_of_none now hright, Outcome.ofUnmatched, hdate, hkey]

/-- The clock has no part in the date of a finding that somebody knows. -/
theorem creationDate_of_not_unknown (h : ¬ p.Unknown item) :
    (Ledger.trackOutcome p now item).content.creationDate =
      (((p.rightFor item).bind fun known => known.creationDate) <|> item.creationDate) := by
  cases hright : p.rightFor item with
  | some known => simp [Ledger.trackOutcome_of_some now hright, Content.combine]
  | none =>
      rw [Ledger.trackOutcome_of_none now hright]
      cases hkey : item.serverIssueKey with
      | some k => simp [Outcome.ofUnmatched, hkey]
      | none =>
          have hdate : item.creationDate ≠ none := fun hdate => h ⟨hright, hdate, hkey⟩
          simp [Outcome.ofUnmatched, hkey, hdate]

theorem creationDate_rebaseOutcome (inheritSeverity : Bool) :
    (Ledger.rebaseOutcome p now inheritSeverity item).content.creationDate =
      (((p.leftFor item).bind fun external => external.creationDate) <|> item.creationDate) := by
  cases hleft : p.leftFor item with
  | some external => simp [Ledger.rebaseOutcome_of_some now _ hleft, Content.combine]
  | none =>
      rw [Ledger.rebaseOutcome_of_none now _ hleft]
      cases hkey : item.serverIssueKey <;> simp [Outcome.ofUnmatched, hkey]

end Outcomes

section Calls

variable {π : Type} {s : Session π} {file : CodeText}
variable {items base previous current out : List (Finding π)}
variable {p : Pairing (Finding π) (Finding π)}

/-- An analysis of a known file takes one reading of the clock. -/
theorem Session.Sound.clock_track (h : s.Sound) (hslot : s.ledger.slot? file = some previous)
    {reply : Reply π} (hok : (s.perform (.track file items)).1 = .ok reply) :
    (s.perform (.track file items)).2.ledger.clock = s.ledger.clock.tick := by
  obtain ⟨-, -, hd, -⟩ := Session.settled_of_track hok
  obtain ⟨slots, hs, hget⟩ := Ledger.exists_live_of_slot? hslot
  obtain ⟨hpair, -⟩ := Plain.pairBy_spec (Criterion.forAnalysis s.ledger.settings.matchFileLevel)
    hd (h.slot_distinct file previous hslot)
  rw [Session.perform_ledger, Ledger.perform, Ledger.track_eq_settle hd hs hget hpair]
  rfl

/-- An analysis whose clock reads `now` dates `f`, the copy that it makes of `item`. -/
structure DatedByAnalysis (p : Pairing (Finding π) (Finding π)) (now : Int)
    (item f : Finding π) : Prop where
  of_known : ∀ known d, p.rightFor item = some known → known.creationDate = some d →
    f.creationDate = some d
  stamped : p.Unknown item → f.creationDate = some now
  not_stamped : ¬ p.Unknown item → f.creationDate =
    (((p.rightFor item).bind fun known => known.creationDate) <|> item.creationDate)

/-- A rebase dates `f`, the copy that it makes of `item`. -/
structure DatedByRebase (p : Pairing (Finding π) (Finding π)) (item f : Finding π) : Prop where
  not_lost : item.creationDate ≠ none → f.creationDate ≠ none
  of_external : f.creationDate ≠ item.creationDate → ∃ external, p.leftFor item = some external ∧
    external.creationDate ≠ none ∧ f.creationDate = external.creationDate

theorem Session.Analysed.dated (h : s.Analysed items previous out p) {i : Nat} {item f : Finding π}
    (hitem : items[i]? = some item) (hf : out[i]? = some f) :
    DatedByAnalysis p s.ledger.clock.now item f := by
  have hcontent : f.toContent = _ := eq_at_of_map_eq h.contents_eq hf hitem
  refine ⟨?_, ?_, ?_⟩
  · intro known d hright hdate
    have hknown : ¬ p.Unknown item := fun hunknown => by simp [hunknown.1] at hright
    rw [hcontent, creationDate_of_not_unknown hknown, hright, Option.bind_some, hdate]
    rfl
  · intro hunknown
    rw [hcontent, creationDate_of_unknown hunknown]
  · intro hknown
    rw [hcontent, creationDate_of_not_unknown hknown]

theorem Session.Rebased.dated (h : s.Rebased base current out p) {i : Nat} {item f : Finding π}
    (hitem : current[i]? = some item) (hf : out[i]? = some f) : DatedByRebase p item f := by
  have hcontent : f.toContent = _ := eq_at_of_map_eq h.contents_eq hf hitem
  have hdate : f.creationDate =
      (((p.leftFor item).bind fun external => external.creationDate) <|> item.creationDate) := by
    rw [hcontent, creationDate_rebaseOutcome]
  cases hleft : p.leftFor item with
  | none =>
      have hsame : f.creationDate = item.creationDate := by simpa [hleft] using hdate
      exact ⟨fun hitem => hsame ▸ hitem, fun hne => absurd hsame hne⟩
  | some external =>
      cases hexternal : external.creationDate with
      | none =>
          have hsame : f.creationDate = item.creationDate := by simpa [hleft, hexternal] using hdate
          exact ⟨fun hitem => hsame ▸ hitem, fun hne => absurd hsame hne⟩
      | some d =>
          have hd : f.creationDate = some d := by simpa [hleft, hexternal] using hdate
          refine ⟨fun _ => by simp [hd], fun _ => ⟨external, hleft, by simp [hexternal], ?_⟩⟩
          rw [hd, hexternal]

end Calls

section Sources

variable {π : Type} {s : Session π} {d : Int} {f : Finding π}
variable {items base previous current out : List (Finding π)}
variable {p : Pairing (Finding π) (Finding π)}

theorem Session.Analysed.date_from (h : s.Analysed items previous out p) (hf : f ∈ out)
    (hd : f.creationDate = some d) : (∃ known ∈ previous, known.creationDate = some d) ∨
      (∃ item ∈ items, item.creationDate = some d) ∨ d = s.ledger.clock.now := by
  obtain ⟨item, hitem, hcontent⟩ := exists_mem_of_map_eq h.contents_eq hf
  rw [hcontent] at hd
  by_cases hunknown : p.Unknown item
  · rw [creationDate_of_unknown hunknown] at hd
    exact Or.inr (Or.inr (Option.some.inj hd).symm)
  · rw [creationDate_of_not_unknown hunknown, Option.orElse_eq_orElse, Option.orElse_eq_or,
      Option.or_eq_some_iff] at hd
    rcases hd with hknown | ⟨-, hown⟩
    · obtain ⟨known, hright, hdate⟩ := Option.bind_eq_some_iff.1 hknown
      exact Or.inl ⟨known, h.known_mem hitem hright, hdate⟩
    · exact Or.inr (Or.inl ⟨item, hitem, hown⟩)

theorem Session.Rebased.date_from (h : s.Rebased base current out p) (hf : f ∈ out)
    (hd : f.creationDate = some d) : (∃ external ∈ base, external.creationDate = some d) ∨
      ∃ item ∈ current, item.creationDate = some d := by
  obtain ⟨item, hitem, hcontent⟩ := exists_mem_of_map_eq h.contents_eq hf
  rw [hcontent, creationDate_rebaseOutcome, Option.orElse_eq_orElse, Option.orElse_eq_or,
    Option.or_eq_some_iff] at hd
  rcases hd with hexternal | ⟨-, hown⟩
  · obtain ⟨external, hleft, hdate⟩ := Option.bind_eq_some_iff.1 hexternal
    exact Or.inl ⟨external, h.external_mem hitem hleft, hdate⟩
  · exact Or.inr ⟨item, hitem, hown⟩

/-- The deed supplied the date, or read it off the clock in an analysis of the known file. -/
def Deed.Brings (d : Int) (deed : Deed π) : Prop :=
  (∃ g ∈ deed.items, g.creationDate = some d) ∨ ∃ items, deed = .laterAnalysis items d

end Sources

section Runs

variable {π : Type} {settings : Settings} {clock : Clock} {log : Audit.Log}
variable {es : List (Event π)} {t : Session π} {file : CodeText}

/-- Every date in a slot was brought by a deed of the file. -/
theorem Run.dates_from (hrun : Run (.start (.new settings clock log)) es t)
    (hes : ∀ e ∈ es, e.OnLedger) (file : CodeText) {S : List (Finding π)}
    (hS : t.ledger.slot? file = some S) {f : Finding π} (hf : f ∈ S) {d : Int}
    (hd : f.creationDate = some d) :
    ∃ deed ∈ (Session.start (.new settings clock log)).history file es, deed.Brings d := by
  refine hrun.induction_history (Session.sound_start settings clock log) hes file
    (motive := fun u deeds => ∀ S, u.ledger.slot? file = some S → ∀ f ∈ S, ∀ d,
      f.creationDate = some d → ∃ deed ∈ deeds, deed.Brings d) ?_ ?_ S hS f hf d hd
  · intro S hS
    simp [Session.start, Ledger.new, Ledger.slot?, Store.empty, Slots.get?] at hS
  · intro u deeds e _ _ hturn ih S hS f hf d hd
    -- an older deed that brought the date is still in the history
    have hold : ∀ deed, (∃ older ∈ deeds, older.Brings d) →
        ∃ older ∈ deeds ++ [deed], older.Brings d := by
      rintro deed ⟨older, holder, hbrings⟩
      exact ⟨older, List.mem_append_left _ holder, hbrings⟩
    have hnew : ∀ deed : Deed π, deed.Brings d → ∃ newer ∈ deeds ++ [deed], newer.Brings d :=
      fun deed hbrings => ⟨deed, by simp, hbrings⟩
    cases hturn with
    | kept hslot hdeeds =>
        rw [hslot] at hS
        rw [hdeeds]
        exact ih S hS f hf d hd
    | forgotten hslot hdeeds =>
        rw [hslot] at hS
        simp at hS
    | first hbefore hslot hdeeds =>
        obtain rfl := Option.some.inj (hslot.symm.trans hS)
        rw [hdeeds]
        exact hnew _ (Or.inl ⟨f, hf, hd⟩)
    | later hbefore hanalysed hslot hdeeds =>
        obtain rfl := Option.some.inj (hslot.symm.trans hS)
        rw [hdeeds]
        rcases hanalysed.date_from hf hd with ⟨known, hknown, hdate⟩ | hsupplied | rfl
        · exact hold _ (ih _ hbefore known hknown d hdate)
        · exact hnew _ (Or.inl hsupplied)
        · exact hnew _ (Or.inr ⟨_, rfl⟩)
    | rebased hbefore hrebased hslot hdeeds =>
        obtain rfl := Option.some.inj (hslot.symm.trans hS)
        rw [hdeeds]
        rcases hrebased.date_from hf hd with hsupplied | ⟨item, hitem, hdate⟩
        · exact hnew _ (Or.inl hsupplied)
        · exact hold _ (ih _ hbefore item hitem d hdate)

/-- After the event, `g` is in the slot of the file as the copy of `f`, which was in it before: a
reported finding that was combined with `f`, the finding at the place of `f` after a rebase, or `f`
itself if the slot was left alone. -/
inductive Copied (file : CodeText) (s : Session π) : Event π → Finding π → Finding π → Prop
  | kept {e : Event π} {S : List (Finding π)} {f : Finding π}
      (before : s.ledger.slot? file = some S) (kept : (s.after e).ledger.slot? file = some S)
      (mem : f ∈ S) :
      Copied file s e f f
  | combined {items previous out : List (Finding π)} {p : Pairing (Finding π) (Finding π)}
      {i : Nat} {item f g : Finding π} (before : s.ledger.slot? file = some previous)
      (paired : Cascade.pairBy (Criterion.forAnalysis s.ledger.settings.matchFileLevel) items
        previous = .ok p)
      (ok : (s.perform (.track file items)).1 = .ok (.findings out))
      (item_at : items[i]? = some item) (known : p.rightFor item = some f)
      (copy_at : out[i]? = some g) :
      Copied file s (.call (.track file items)) f g
  | rebased {base current out : List (Finding π)} {i : Nat} {f g : Finding π}
      (before : s.ledger.slot? file = some current)
      (ok : (s.perform (.rebase file base)).1 = .ok (.findings out))
      (item_at : current[i]? = some f) (copy_at : out[i]? = some g) :
      Copied file s (.call (.rebase file base)) f g

/-- A chain of copies along a run, from a finding `f` of the slot to a finding at its end. -/
inductive Lineage (file : CodeText) (s : Session π) (f : Finding π) :
    List (Event π) → Session π → Finding π → Prop
  | nil : Lineage file s f [] s f
  | snoc {es : List (Event π)} {t : Session π} {g h : Finding π} (e : Event π) :
      Lineage file s f es t g → e.items ⊆ t.built → Copied file t e g h →
      Lineage file s f (es ++ [e]) (t.after e) h

theorem Lineage.run {s : Session π} {f g : Finding π} (h : Lineage file s f es t g) :
    Run s es t := by
  induction h with
  | nil => exact Run.nil
  | snoc e _ hitems _ ih => exact ih.snoc e hitems

theorem Copied.dated {s : Session π} {e : Event π} {f g : Finding π} (h : Copied file s e f g)
    (hs : s.Sound) (hf : f.creationDate ≠ none) : g.creationDate ≠ none := by
  cases h with
  | kept => exact hf
  | combined before paired ok item_at known copy_at =>
      -- reply and pairing are those of the one analysis that was made
      obtain ⟨out, p, hout, -, hanalysed⟩ := hs.analysed_of_ok before ok
      obtain rfl := Reply.findings.inj hout
      obtain rfl := Except.ok.inj (hanalysed.pairBy_eq.symm.trans paired)
      obtain ⟨d, hd⟩ := Option.ne_none_iff_exists'.1 hf
      simp [(hanalysed.dated item_at copy_at).of_known _ d known hd]
  | rebased before ok item_at copy_at =>
      obtain ⟨current, out, p, hslot, hout, -, hrebased⟩ := hs.rebased_of_ok ok
      obtain rfl := Option.some.inj (before.symm.trans hslot)
      obtain rfl := Reply.findings.inj hout
      exact (hrebased.dated item_at copy_at).not_lost hf

/-- A date is never lost along a chain of copies. -/
theorem Lineage.dated {s : Session π} {f g : Finding π} (h : Lineage file s f es t g)
    (hs : s.Sound) (hes : ∀ e ∈ es, e.OnLedger) (hf : f.creationDate ≠ none) :
    g.creationDate ≠ none := by
  induction h with
  | nil => exact hf
  | snoc e hlineage _ hcopied ih =>
      have hes' := fun e' he' => hes e' (List.mem_append_left _ he')
      exact hcopied.dated (hlineage.run.sound hs hes') (ih hes')

/-- How the next event dates the findings of the file. -/
structure Session.DatesCarefully (file : CodeText) (s : Session π) : Prop where
  first_analysis : ∀ items reply, s.ledger.slot? file = none →
    (s.perform (.track file items)).1 = .ok reply →
    reply = .findings items ∧ (s.perform (.track file items)).2.ledger.slot? file = some items
  later_analysis : ∀ items previous reply, s.ledger.slot? file = some previous →
    (s.perform (.track file items)).1 = .ok reply →
    (s.perform (.track file items)).2.ledger.clock = s.ledger.clock.tick ∧ ∃ p out,
      Cascade.pairBy (Criterion.forAnalysis s.ledger.settings.matchFileLevel) items previous =
        .ok p ∧
      reply = .findings out ∧ (s.perform (.track file items)).2.ledger.slot? file = some out ∧
      out.length = items.length ∧
      ∀ (i : Nat) item f, items[i]? = some item → out[i]? = some f →
        DatedByAnalysis p s.ledger.clock.now item f
  rebase : ∀ base current reply, s.ledger.slot? file = some current →
    (s.perform (.rebase file base)).1 = .ok reply → ∃ p out,
      Cascade.pairBy (Criterion.forServer s.ledger.settings.matchFileLevel) base current = .ok p ∧
      reply = .findings out ∧ (s.perform (.rebase file base)).2.ledger.slot? file = some out ∧
      out.length = current.length ∧
      ∀ (i : Nat) item f, current[i]? = some item → out[i]? = some f → DatedByRebase p item f
  otherwise : ∀ e : Event π, e.OnLedger →
    (∃ items, e = .call (.track file items)) ∨ (∃ base, e = .call (.rebase file base)) ∨
      (s.after e).ledger.slot? file = s.ledger.slot? file ∨ (s.after e).ledger.slot? file = none

theorem Session.Sound.datesCarefully {s : Session π} (h : s.Sound) (file : CodeText) :
    s.DatesCarefully file where
  first_analysis items reply hslot hok := by
    obtain ⟨-, hitems, hnext⟩ := Session.perform_track_unknown hslot hok
    exact ⟨Except.ok.inj (hok.symm.trans hitems), hnext⟩
  later_analysis items previous reply hslot hok := by
    obtain ⟨out, p, hreply, hnext, hanalysed⟩ := h.analysed_of_ok hslot hok
    refine ⟨h.clock_track hslot hok, p, out, hanalysed.pairBy_eq, hreply, hnext, ?_, ?_⟩
    · simpa using congrArg List.length hanalysed.contents_eq
    · exact fun i item f hitem hf => hanalysed.dated hitem hf
  rebase base current reply hslot hok := by
    obtain ⟨current', out, p, hslot', hreply, hnext, hrebased⟩ := h.rebased_of_ok hok
    obtain rfl := Option.some.inj (hslot.symm.trans hslot')
    refine ⟨p, out, hrebased.pairBy_eq, hreply, hnext, ?_, ?_⟩
    · simpa using congrArg List.length hrebased.contents_eq
    · exact fun i item f hitem hf => hrebased.dated hitem hf
  otherwise e he := by
    cases h.turn he file [] with
    | kept hslot => exact Or.inr (Or.inr (Or.inl hslot))
    | forgotten hslot => exact Or.inr (Or.inr (Or.inr hslot))
    | first => exact Or.inl ⟨_, rfl⟩
    | later => exact Or.inl ⟨_, rfl⟩
    | rebased => exact Or.inr (Or.inl ⟨_, rfl⟩)

/-- **The life cycle of dates.**  In every session that a ledger gets to, the next event dates with
care; every date in a slot was supplied to a deed of the file or is the reading of the clock in a
later analysis of it; and from there on no chain of copies loses a date. -/
theorem creation_dates_persist (hrun : Run (.start (.new settings clock log)) es t)
    (hes : ∀ e ∈ es, e.OnLedger) (file : CodeText) :
    t.DatesCarefully file ∧
      (∀ S, t.ledger.slot? file = some S → ∀ f ∈ S, ∀ d, f.creationDate = some d →
        ∃ deed ∈ (Session.start (.new settings clock log)).history file es,
          (∃ g ∈ deed.items, g.creationDate = some d) ∨
            ∃ items, deed = .laterAnalysis items d) ∧
      ∀ es' u f g, (∀ e ∈ es', e.OnLedger) → Lineage file t f es' u g →
        f.creationDate ≠ none → g.creationDate ≠ none := by
  have hsound : t.Sound := hrun.sound (Session.sound_start settings clock log) hes
  refine ⟨hsound.datesCarefully file, ?_, ?_⟩
  · intro S hS f hf d hd
    exact hrun.dates_from hes file hS hf hd
  · intro es' u f g hes' hlineage
    exact hlineage.dated hsound hes'

/-- One finding has its date from the second analysis of the file.  The other one keeps the date that
it was reported with, also when its link to the server is lost. -/
theorem creation_dates_persist_noted :
    let t := Session.blank.afterAll Event.noted
    let unlink : Event Unit := .call (.rebase "a.py" [])
    let linked := Finding.noted 6 3 (some ("L", true)) (some 80)
    let unlinked := Finding.noted 7 3 none (some 80)
    t.ledger.slot? "a.py" = some [linked, Finding.noted 5 3 none (some 100)] ∧
      (∃ deed ∈ Session.blank.history "a.py" Event.noted,
        (∃ g ∈ deed.items, g.creationDate = some 100) ∨ ∃ items, deed = .laterAnalysis items 100) ∧
      Lineage "a.py" t linked [unlink] (t.after unlink) unlinked ∧
      unlinked.creationDate ≠ none := by
  intro t unlink linked unlinked
  have hS : t.ledger.slot? "a.py" = some [linked, Finding.noted 5 3 none (some 100)] := by decide
  have hnext : (t.perform (.rebase "a.py" [])).2.ledger.slot? "a.py" =
      some [unlinked, Finding.noted 5 3 none (some 100)] := by
    decide
  have hsound : t.Sound := Run.noted.sound (Session.sound_start _ _ _) Event.onLedger_noted
  have hnone : Ledger.Distinct ([] : List (Finding Unit)) := List.nodup_nil
  obtain ⟨out, -, hok, hout, -⟩ := hsound.perform_rebase_known hS hnone
  have hcopy : out[0]? = some unlinked := by
    rw [Option.some.inj (hout.symm.trans hnext)]
    rfl
  have hcopied : Copied "a.py" t unlink linked unlinked := Copied.rebased (i := 0) hS hok rfl hcopy
  have hlineage : Lineage "a.py" t linked [unlink] (t.after unlink) unlinked :=
    Lineage.snoc unlink Lineage.nil (List.nil_subset _) hcopied
  obtain ⟨-, hfrom, hkeep⟩ := creation_dates_persist Run.noted Event.onLedger_noted "a.py"
  refine ⟨hS, ?_, hlineage, ?_⟩
  · exact hfrom _ hS _ (List.mem_cons_of_mem _ (List.mem_singleton_self _)) 100 rfl
  · exact hkeep [unlink] _ linked unlinked (by simp [unlink, Event.OnLedger, Call.OnLedger])
      hlineage (by decide)

end Runs
end FindingLedger
