import FindingLedger.Proofs.Ledger.Run

/-!
# What happened to a file

**Input.**  A run of a session, and one file.

**Algorithm.**  A *deed* is a call on the file that succeeded.  `Session.history` lists the deeds of
the file in order; what lies before the files were forgotten for the last time is left out.

**Results.**
* `Analysed`, `Rebased`: what a later analysis and a rebase leave in the slot, position by position.
* `Turn`: an event leaves the file alone, forgets it, or is one of three kinds of deeds;
  `Sound.turn`: there is nothing else that an event can do to a file.
* `Run.induction_history`: what every turn keeps holds of the session and the history at the end of
  a run.
-/

namespace FindingLedger

/-- A call on a file that succeeded, with what it was given; a later analysis also has the reading
of the clock that was taken in it. -/
inductive Deed (π : Type)
  | firstAnalysis (items : List (Finding π))
  | laterAnalysis (items : List (Finding π)) (now : Int)
  | rebase (base : List (Finding π))

/-- The findings that the call was given. -/
def Deed.items {π : Type} : Deed π → List (Finding π)
  | firstAnalysis items => items
  | laterAnalysis items _ => items
  | rebase base => base

namespace Session

variable {π : Type}

/-- The deed that a call is for the file, if it is on this file and succeeds. -/
def deed? (file : CodeText) (s : Session π) : Call (Finding π) → Option (Deed π)
  | .track other items =>
      if other = file then
        match s.ledger.slot? file with
        | none => some (.firstAnalysis items)
        | some _ => some (.laterAnalysis items s.ledger.clock.now)
      else none
  | .rebase other base => if other = file then some (.rebase base) else none
  | _ => none

/-- The deeds of the file after an event, when they were `deeds` before it. -/
def deedsAfter (file : CodeText) (s : Session π) (deeds : List (Deed π)) :
    Event π → List (Deed π)
  | .call c =>
      match (s.perform c).1, c with
      | .error _, _ => deeds
      | .ok _, .reset => []
      | .ok _, .dispose => []
      | .ok _, c => deeds ++ (s.deed? file c).toList
  | _ => deeds

/-- The deeds of the file after a list of events, when they were `deeds` before it. -/
def deedsAlong (file : CodeText) (s : Session π) (deeds : List (Deed π)) :
    List (Event π) → List (Deed π)
  | [] => deeds
  | e :: es => deedsAlong file (s.after e) (s.deedsAfter file deeds e) es

/-- The deeds of the file along a list of events, since it was forgotten for the last time. -/
def history (file : CodeText) (s : Session π) (es : List (Event π)) : List (Deed π) :=
  s.deedsAlong file [] es

end Session

section Positions

variable {α β γ : Type} {f : α → γ} {g : β → γ} {as : List α} {bs : List β}

/-- Lists with the same images have, at each position, items with the same image. -/
theorem eq_at_of_map_eq (h : as.map f = bs.map g) {i : Nat} {a : α} {b : β}
    (ha : as[i]? = some a) (hb : bs[i]? = some b) : f a = g b := by
  have hi := congrArg (fun images => images[i]?) h
  simpa only [List.getElem?_map, ha, hb, Option.map_some, Option.some.injEq] using hi

theorem exists_mem_of_map_eq (h : as.map f = bs.map g) {a : α} (ha : a ∈ as) :
    ∃ b ∈ bs, f a = g b := by
  have hmem : f a ∈ bs.map g := h ▸ List.mem_map_of_mem ha
  obtain ⟨b, hb, heq⟩ := List.mem_map.1 hmem
  exact ⟨b, hb, heq.symm⟩

end Positions

namespace Session

variable {π : Type} {s : Session π} {file : CodeText}

/-- A later analysis pairs the reported `items` with the state `previous` as `p` says, and leaves
`out` in the slot. -/
structure Analysed (s : Session π) (items previous out : List (Finding π))
    (p : Pairing (Finding π) (Finding π)) : Prop where
  pairBy_eq : Cascade.pairBy (Criterion.forAnalysis s.ledger.settings.matchFileLevel) items
    previous = .ok p
  proper : p.Proper
  lefts_eq : p.lefts = items
  rights_eq : p.rights = previous
  contents_eq : out.map Finding.toContent =
    items.map fun item => (Ledger.trackOutcome p s.ledger.clock.now item).content

/-- A rebase pairs the server issues `base` with the state `current` as `p` says, and leaves `out`
in the slot. -/
structure Rebased (s : Session π) (base current out : List (Finding π))
    (p : Pairing (Finding π) (Finding π)) : Prop where
  pairBy_eq : Cascade.pairBy (Criterion.forServer s.ledger.settings.matchFileLevel) base
    current = .ok p
  proper : p.Proper
  lefts_eq : p.lefts = base
  rights_eq : p.rights = current
  contents_eq : out.map Finding.toContent =
    current.map fun item =>
      (Ledger.rebaseOutcome p s.ledger.clock.now s.ledger.settings.inheritSeverity item).content

section Calls

variable {items base previous current out : List (Finding π)}

/-- An analysis of an unknown file that succeeds gives its findings back and keeps them. -/
theorem perform_track_unknown (hslot : s.ledger.slot? file = none) {reply : Reply π}
    (hok : (s.perform (.track file items)).1 = .ok reply) :
    Ledger.Distinct items ∧ (s.perform (.track file items)).1 = .ok (.findings items) ∧
      (s.perform (.track file items)).2.ledger.slot? file = some items := by
  obtain ⟨-, -, hd, -⟩ := settled_of_track hok
  cases hs : s.ledger.store with
  | disposed =>
      rw [perform_fst, Ledger.perform, Ledger.track_eq_disposed hd hs] at hok
      simp [Except.map, Except.mapError] at hok
  | live slots =>
      have hget : slots.get? file = none := by simpa [Ledger.slot?, hs] using hslot
      obtain ⟨hitems, hsettled⟩ := Ledger.track_first_spec hd hs hget
      obtain ⟨hreply, hnext⟩ := perform_track_of_ok hitems
      exact ⟨hd, hreply, by rw [hnext]; exact hsettled.slot?_self⟩

theorem Sound.perform_track_known (h : s.Sound) (hslot : s.ledger.slot? file = some previous)
    (hd : Ledger.Distinct items) :
    ∃ out p, (s.perform (.track file items)).1 = .ok (.findings out) ∧
      (s.perform (.track file items)).2.ledger.slot? file = some out ∧
      s.Analysed items previous out p := by
  have hprevious := h.slot_distinct file previous hslot
  obtain ⟨hok, hsettled, -⟩ := Ledger.track_spec hslot hd hprevious
  obtain ⟨hpair, hproper, hlefts, hrights⟩ :=
    Plain.pairBy_spec (Criterion.forAnalysis s.ledger.settings.matchFileLevel) hd hprevious
  obtain ⟨hreply, hnext⟩ := perform_track_of_ok hok
  refine ⟨_, _, hreply, ?_, hpair, hproper, hlefts, hrights, ?_⟩
  · rw [hnext]
    exact hsettled.slot?_self
  · rw [Outcome.map_toContent_resolveAll, List.map_map]
    rfl

theorem Sound.perform_rebase_known (h : s.Sound) (hslot : s.ledger.slot? file = some current)
    (hd : Ledger.Distinct base) :
    ∃ out p, (s.perform (.rebase file base)).1 = .ok (.findings out) ∧
      (s.perform (.rebase file base)).2.ledger.slot? file = some out ∧
      s.Rebased base current out p := by
  have hcurrent := h.slot_distinct file current hslot
  obtain ⟨hok, hsettled, -⟩ := Ledger.rebase_spec hslot hd hcurrent
  obtain ⟨hpair, hproper, hlefts, hrights⟩ :=
    Plain.pairBy_spec (Criterion.forServer s.ledger.settings.matchFileLevel) hd hcurrent
  obtain ⟨hreply, hnext⟩ := perform_rebase_of_ok hok
  refine ⟨_, _, hreply, ?_, hpair, hproper, hlefts, hrights, ?_⟩
  · rw [hnext]
    exact hsettled.slot?_self
  · rw [Outcome.map_toContent_resolveAll, List.map_map]
    rfl

theorem Sound.analysed_of_ok (h : s.Sound) (hslot : s.ledger.slot? file = some previous)
    {reply : Reply π} (hok : (s.perform (.track file items)).1 = .ok reply) :
    ∃ out p, reply = .findings out ∧
      (s.perform (.track file items)).2.ledger.slot? file = some out ∧
      s.Analysed items previous out p := by
  obtain ⟨-, -, hd, -⟩ := settled_of_track hok
  obtain ⟨out, p, hout, hnext, hanalysed⟩ := h.perform_track_known hslot hd
  exact ⟨out, p, Except.ok.inj (hok.symm.trans hout), hnext, hanalysed⟩

theorem Sound.rebased_of_ok (h : s.Sound) {reply : Reply π}
    (hok : (s.perform (.rebase file base)).1 = .ok reply) :
    ∃ current out p, s.ledger.slot? file = some current ∧ reply = .findings out ∧
      (s.perform (.rebase file base)).2.ledger.slot? file = some out ∧
      s.Rebased base current out p := by
  obtain ⟨current, -, -, hd, hslot, -⟩ := settled_of_rebase hok
  obtain ⟨out, p, hout, hnext, hrebased⟩ := h.perform_rebase_known hslot hd
  exact ⟨current, out, p, hslot, Except.ok.inj (hok.symm.trans hout), hnext, hrebased⟩

end Calls

section Partners

variable {items base previous current out : List (Finding π)}
variable {p : Pairing (Finding π) (Finding π)} {item partner : Finding π}

/-- Among different findings the pairing of an analysis is that of the cascade without its
shortcuts. -/
theorem Analysed.eq_pairBy (h : s.Analysed items previous out p) (hd : Ledger.Distinct items)
    (hprevious : Ledger.Distinct previous) :
    p = Plain.pairBy (Criterion.forAnalysis s.ledger.settings.matchFileLevel) items previous :=
  Except.ok.inj (h.pairBy_eq.symm.trans (Plain.pairBy_spec _ hd hprevious).1)

theorem Rebased.eq_pairBy (h : s.Rebased base current out p) (hd : Ledger.Distinct base)
    (hcurrent : Ledger.Distinct current) :
    p = Plain.pairBy (Criterion.forServer s.ledger.settings.matchFileLevel) base current :=
  Except.ok.inj (h.pairBy_eq.symm.trans (Plain.pairBy_spec _ hd hcurrent).1)

theorem Analysed.pair_of_rightFor (h : s.Analysed items previous out p) (hitem : item ∈ items)
    (hright : p.rightFor item = some partner) : (item, partner) ∈ p.pairs :=
  (h.proper.rightFor_eq_some_iff (h.lefts_eq.symm ▸ hitem)).1 hright

theorem Analysed.known_mem (h : s.Analysed items previous out p) (hitem : item ∈ items)
    (hright : p.rightFor item = some partner) : partner ∈ previous :=
  h.rights_eq ▸ h.proper.right_mem _ (h.pair_of_rightFor hitem hright)

theorem Rebased.pair_of_leftFor (h : s.Rebased base current out p) (hitem : item ∈ current)
    (hleft : p.leftFor item = some partner) : (partner, item) ∈ p.pairs :=
  (h.proper.leftFor_eq_some_iff (h.rights_eq.symm ▸ hitem)).1 hleft

theorem Rebased.external_mem (h : s.Rebased base current out p) (hitem : item ∈ current)
    (hleft : p.leftFor item = some partner) : partner ∈ base :=
  h.lefts_eq ▸ h.proper.left_mem _ (h.pair_of_leftFor hitem hleft)

end Partners

section Turns

variable {deeds : List (Deed π)}

theorem deedsAfter_of_error {c : Call (Finding π)} {e : SessionError}
    (h : (s.perform c).1 = .error e) : s.deedsAfter file deeds (.call c) = deeds := by
  simp only [deedsAfter, h]

theorem deedsAfter_track (file : CodeText) (deeds : List (Deed π)) {other : CodeText}
    {items : List (Finding π)} {reply : Reply π}
    (h : (s.perform (.track other items)).1 = .ok reply) :
    s.deedsAfter file deeds (.call (.track other items)) =
      deeds ++ (s.deed? file (.track other items)).toList := by
  simp only [deedsAfter, h]

theorem deedsAfter_rebase (file : CodeText) (deeds : List (Deed π)) {other : CodeText}
    {base : List (Finding π)} {reply : Reply π}
    (h : (s.perform (.rebase other base)).1 = .ok reply) :
    s.deedsAfter file deeds (.call (.rebase other base)) =
      deeds ++ (s.deed? file (.rebase other base)).toList := by
  simp only [deedsAfter, h]

/-- All that an event can do to a file, `deeds` being the deeds of the file before it. -/
inductive Turn (file : CodeText) (s : Session π) (deeds : List (Deed π)) : Event π → Prop
  | kept {e : Event π}
      (slot_eq : (s.after e).ledger.slot? file = s.ledger.slot? file)
      (deeds_eq : s.deedsAfter file deeds e = deeds) :
      Turn file s deeds e
  | forgotten {e : Event π}
      (slot_eq : (s.after e).ledger.slot? file = none)
      (deeds_eq : s.deedsAfter file deeds e = []) :
      Turn file s deeds e
  | first {items : List (Finding π)}
      (before : s.ledger.slot? file = none)
      (slot_eq : (s.after (.call (.track file items))).ledger.slot? file = some items)
      (deeds_eq : s.deedsAfter file deeds (.call (.track file items)) =
        deeds ++ [.firstAnalysis items]) :
      Turn file s deeds (.call (.track file items))
  | later {items previous out : List (Finding π)} {p : Pairing (Finding π) (Finding π)}
      (before : s.ledger.slot? file = some previous)
      (analysed : s.Analysed items previous out p)
      (slot_eq : (s.after (.call (.track file items))).ledger.slot? file = some out)
      (deeds_eq : s.deedsAfter file deeds (.call (.track file items)) =
        deeds ++ [.laterAnalysis items s.ledger.clock.now]) :
      Turn file s deeds (.call (.track file items))
  | rebased {base current out : List (Finding π)} {p : Pairing (Finding π) (Finding π)}
      (before : s.ledger.slot? file = some current)
      (rebased : s.Rebased base current out p)
      (slot_eq : (s.after (.call (.rebase file base))).ledger.slot? file = some out)
      (deeds_eq : s.deedsAfter file deeds (.call (.rebase file base)) = deeds ++ [.rebase base]) :
      Turn file s deeds (.call (.rebase file base))

/-- A call that fails leaves every file alone. -/
theorem Refused.turn {c : Call (Finding π)} {e : SessionError} (hr : s.Refused (s.perform c).2)
    (he : (s.perform c).1 = .error e) : Turn file s deeds (.call c) :=
  .kept (hr.ledger.slot?_eq file) (deedsAfter_of_error he)

theorem Sound.turn_track (h : s.Sound) (file other : CodeText) (deeds : List (Deed π))
    (items : List (Finding π)) : Turn file s deeds (.call (.track other items)) := by
  rcases s.perform_track_cases other items with ⟨e, he, hr⟩ | ⟨out, hok, -, hsettled⟩
  · exact hr.turn he
  · have hdeeds := deedsAfter_track file deeds hok
    by_cases hfile : other = file
    · subst hfile
      cases hslot : s.ledger.slot? other with
      | none =>
          obtain ⟨-, -, hnext⟩ := perform_track_unknown hslot hok
          exact .first hslot hnext (by simp [hdeeds, deed?, hslot])
      | some previous =>
          obtain ⟨out, p, -, hnext, hanalysed⟩ := h.analysed_of_ok hslot hok
          exact .later hslot hanalysed hnext (by simp [hdeeds, deed?, hslot])
    · exact .kept (hsettled.ledger.slot?_other file (Ne.symm hfile))
        (by simp [hdeeds, deed?, hfile])

theorem Sound.turn_rebase (h : s.Sound) (file other : CodeText) (deeds : List (Deed π))
    (base : List (Finding π)) : Turn file s deeds (.call (.rebase other base)) := by
  rcases s.perform_rebase_cases other base with ⟨e, he, hr⟩ | ⟨_, out, hok, -, -, hsettled⟩
  · exact hr.turn he
  · have hdeeds := deedsAfter_rebase file deeds hok
    by_cases hfile : other = file
    · subst hfile
      obtain ⟨current, out, p, hslot, -, hnext, hrebased⟩ := h.rebased_of_ok hok
      exact .rebased hslot hrebased hnext (by simp [hdeeds, deed?])
    · exact .kept (hsettled.ledger.slot?_other file (Ne.symm hfile))
        (by simp [hdeeds, deed?, hfile])

/-- There is nothing else that an event can do to a file. -/
theorem Sound.turn (h : s.Sound) {e : Event π} (he : e.OnLedger) (file : CodeText)
    (deeds : List (Deed π)) : Turn file s deeds e := by
  cases e with
  | enter entry => exact .kept rfl rfl
  | evolve handle changes => exact .kept rfl rfl
  | fingerprint item source => exact .kept rfl rfl
  | setClock time step =>
      obtain ⟨clock, hclock⟩ := s.step_setClock time step
      refine .kept ?_ rfl
      rw [Session.after, hclock]
      rfl
  | call c =>
      cases c with
      | track other items => exact h.turn_track file other deeds items
      | rebase other base => exact h.turn_rebase file other deeds base
      | reset =>
          rcases s.perform_reset_cases with ⟨e, he, hr⟩ | ⟨reply, hok, hf⟩
          · exact hr.turn he
          · exact .forgotten (hf.slot?_eq file) (by simp only [deedsAfter, hok])
      | dispose =>
          refine .forgotten (s.forgets_dispose.slot?_eq file) ?_
          simp only [deedsAfter, perform_dispose]
      | useStore op => exact absurd he id

end Turns

/-- No event changes the settings. -/
theorem settings_after (s : Session π) (e : Event π) :
    (s.after e).ledger.settings = s.ledger.settings := by
  cases e with
  | enter entry => rfl
  | evolve handle changes => rfl
  | fingerprint item source => rfl
  | setClock time step =>
      obtain ⟨clock, hclock⟩ := s.step_setClock time step
      rw [Session.after, hclock]
  | call c =>
      cases c with
      | track file items =>
          rcases s.perform_track_cases file items with ⟨-, -, hr⟩ | ⟨_, -, -, hs⟩
          · exact hr.ledger.settings_eq
          · exact hs.ledger.settings_eq
      | rebase file base =>
          rcases s.perform_rebase_cases file base with ⟨-, -, hr⟩ | ⟨_, _, -, -, -, hs⟩
          · exact hr.ledger.settings_eq
          · exact hs.ledger.settings_eq
      | reset =>
          cases hs : s.ledger.store with
          | disposed => rw [Session.after, perform_reset_of_disposed hs]
          | live slots => rw [Session.after, perform_reset_of_live hs]
      | dispose => rw [Session.after, perform_dispose]
      | useStore op =>
          rw [Session.after, perform_ledger, Ledger.perform, Ledger.useStore]
          split <;> rfl

end Session

section Runs

variable {π : Type} {s t : Session π} {es : List (Event π)}

theorem Run.deedsAlong_append (hrun : Run s es t) (file : CodeText) (deeds : List (Deed π))
    (es' : List (Event π)) :
    s.deedsAlong file deeds (es ++ es') = t.deedsAlong file (s.deedsAlong file deeds es) es' := by
  induction hrun generalizing es' with
  | nil => rfl
  | snoc e _ _ ih =>
      rw [List.append_assoc, ih, ih]
      rfl

theorem Run.history_concat (hrun : Run s es t) (file : CodeText) (e : Event π) :
    s.history file (es ++ [e]) = t.deedsAfter file (s.history file es) e :=
  hrun.deedsAlong_append file [] [e]

/-- What every turn keeps, a run keeps together with its history. -/
theorem Run.induction_history {motive : Session π → List (Deed π) → Prop} (hrun : Run s es t)
    (hs : s.Sound) (hes : ∀ e ∈ es, e.OnLedger) (file : CodeText) (h₀ : motive s [])
    (hstep : ∀ u deeds e, u.Sound → u.ledger.settings = s.ledger.settings →
      u.Turn file deeds e → motive u deeds → motive (u.after e) (u.deedsAfter file deeds e)) :
    motive t (s.history file es) := by
  -- a turn needs a sound session before it, so soundness is carried along with the motive
  have hall : t.Sound ∧ t.ledger.settings = s.ledger.settings ∧ motive t (s.history file es) := by
    induction hrun with
    | nil => exact ⟨hs, rfl, h₀⟩
    | @snoc es u e hrun hitems ih =>
        obtain ⟨hsound, hsettings, hmotive⟩ := ih fun e' he' => hes e' (List.mem_append_left _ he')
        have he : e.OnLedger := hes e (by simp)
        refine ⟨hsound.after he hitems, (u.settings_after e).trans hsettings, ?_⟩
        rw [hrun.history_concat file e]
        exact hstep u _ e hsound hsettings (hsound.turn he file _) hmotive
  exact hall.2.2

/-- The session after a list of events. -/
def Session.afterAll (s : Session π) (es : List (Event π)) : Session π :=
  es.foldl Session.after s

/-- The findings that the events bring along exist when the events happen. -/
def Session.Admits (s : Session π) : List (Event π) → Prop
  | [] => True
  | e :: es => e.items ⊆ s.built ∧ (s.after e).Admits es

instance Session.decidableAdmits [DecidableEq π] (s : Session π) (es : List (Event π)) :
    Decidable (s.Admits es) :=
  match es with
  | [] => inferInstanceAs (Decidable True)
  | e :: es =>
      have := (s.after e).decidableAdmits es
      inferInstanceAs (Decidable (_ ∧ _))

theorem Run.eq_afterAll (hrun : Run s es t) : t = s.afterAll es := by
  induction hrun with
  | nil => rfl
  | snoc e _ _ ih => rw [ih, Session.afterAll, Session.afterAll, List.foldl_concat]

theorem Session.Admits.run (h : s.Admits es) : Run s es (s.afterAll es) := by
  induction es generalizing s with
  | nil => exact Run.nil
  | cons e es ih => exact (Run.single s e h.1).trans (ih h.2)

end Runs

section Samples

/-- A finding of one rule, with the line, and the link and the date if there are any. -/
def Finding.noted (handle : Nat) (line : Int) (link : Option (String × Bool))
    (date : Option Int) : Finding Unit where
  ruleKey := "unused"
  message := "Unused import"
  line := some line
  textRange := none
  lineHash := none
  textRangeHash := none
  creationDate := date
  serverIssueKey := link.map Prod.fst
  resolved := (link.map Prod.snd).getD false
  severity := none
  issueType := none
  payload := ()
  handle := handle

/-- Three findings are built.  A file is analysed, analysed again, and rebased. -/
def Event.noted : List (Event Unit) :=
  let plain := Finding.noted 1 3 none none
  let linked := Finding.noted 2 5 (some ("K", false)) (some 70)
  let resolved := Finding.noted 3 3 (some ("L", true)) (some 80)
  [.enter (.draft plain.draft), .enter (.draft linked.draft), .enter (.draft resolved.draft),
    .call (.track "a.py" [plain, linked]), .call (.track "a.py" [resolved, plain]),
    .call (.rebase "a.py" [linked, resolved])]

theorem Event.onLedger_noted : ∀ e ∈ Event.noted, e.OnLedger := by
  simp [noted, OnLedger, Call.OnLedger]

/-- A new ledger whose clock reads 100 first. -/
def Session.blank : Session Unit :=
  .start (.new {} (.steady 100 1) .off)

theorem Run.noted : Run Session.blank Event.noted (Session.blank.afterAll Event.noted) :=
  Session.Admits.run (by decide)

theorem Session.reachable_afterAll_noted : Reachable (Session.blank.afterAll Event.noted) :=
  ⟨{}, .steady 100 1, .off, Event.noted, Event.onLedger_noted, Run.noted⟩

end Samples
end FindingLedger
