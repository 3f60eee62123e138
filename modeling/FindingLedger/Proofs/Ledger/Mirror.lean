import FindingLedger.Proofs.Ledger.History

/-!
# The slot mirrors the last analysis

**Input.**  A run of a session, and one file.

**Results.**
* `Mirrors`: two lists of findings show the same sites and payloads, position by position, and the
  same severities and types where these are not taken over from the server.
* `Analysed.mirrors`, `Rebased.mirrors`: an analysis mirrors what it was given, and a rebase mirrors
  what was there.
* `Run.reflects`: so a slot mirrors the last analysis of its file, whatever came after it.
* `slot_mirrors_last_analysis`: the same position by position, and what the calls give back.
-/

namespace FindingLedger

/-- The findings that the deed analysed, if it is an analysis. -/
def Deed.analysed? {π : Type} : Deed π → Option (List (Finding π))
  | firstAnalysis items => some items
  | laterAnalysis items _ => some items
  | rebase _ => none

/-- The findings of the last analysis among the deeds. -/
def lastAnalysis? {π : Type} (deeds : List (Deed π)) : Option (List (Finding π)) :=
  (deeds.filterMap Deed.analysed?).getLast?

theorem lastAnalysis?_concat {π : Type} (deeds : List (Deed π)) (d : Deed π) :
    lastAnalysis? (deeds ++ [d]) = d.analysed?.or (lastAnalysis? deeds) := by
  cases h : d.analysed? <;> simp [lastAnalysis?, List.filterMap_append, h]

theorem lastAnalysis?_eq_none_iff {π : Type} {deeds : List (Deed π)} :
    lastAnalysis? deeds = none ↔ ∀ d ∈ deeds, d.analysed? = none := by
  rw [lastAnalysis?, List.getLast?_eq_none_iff, List.filterMap_eq_nil_iff]

section Lists

variable {π : Type}

/-- What no rebase changes of a finding. -/
def Content.face {σ τ : Type} (c : Content σ τ π) : Site × π :=
  (c.site, c.payload)

/-- How severe a finding is, and of what type. -/
def Content.labels {σ τ : Type} (c : Content σ τ π) : Option σ × Option τ :=
  (c.severity, c.issueType)

/-- The slot shows the same findings as the list `items`, position by position. -/
structure Mirrors (inheritSeverity : Bool) (slot items : List (Finding π)) : Prop where
  faces_eq : (slot.map fun f => f.face) = items.map fun f => f.face
  labels_eq : inheritSeverity = false →
    (slot.map fun f => f.labels) = items.map fun f => f.labels

/-- A slot mirrors the last analysis, or there is neither. -/
def Reflects (inheritSeverity : Bool) :
    Option (List (Finding π)) → Option (List (Finding π)) → Prop
  | none, last => last = none
  | some S, last => ∃ X, last = some X ∧ Mirrors inheritSeverity S X

theorem Mirrors.refl (inheritSeverity : Bool) (items : List (Finding π)) :
    Mirrors inheritSeverity items items :=
  ⟨rfl, fun _ => rfl⟩

theorem Mirrors.length_eq {inheritSeverity : Bool} {slot items : List (Finding π)}
    (h : Mirrors inheritSeverity slot items) : slot.length = items.length := by
  simpa using congrArg List.length h.faces_eq

theorem Mirrors.face_at {inheritSeverity : Bool} {slot items : List (Finding π)}
    (h : Mirrors inheritSeverity slot items) {i : Nat} {f x : Finding π} (hf : slot[i]? = some f)
    (hx : items[i]? = some x) : f.site = x.site ∧ f.payload = x.payload :=
  Prod.mk.inj (eq_at_of_map_eq h.faces_eq hf hx)

theorem Mirrors.labels_at {inheritSeverity : Bool} {slot items : List (Finding π)}
    (h : Mirrors inheritSeverity slot items) (hoff : inheritSeverity = false) {i : Nat}
    {f x : Finding π} (hf : slot[i]? = some f) (hx : items[i]? = some x) :
    f.severity = x.severity ∧ f.issueType = x.issueType :=
  Prod.mk.inj (eq_at_of_map_eq (h.labels_eq hoff) hf hx)

theorem Mirrors.trans {inheritSeverity : Bool} {a b c : List (Finding π)}
    (h : Mirrors inheritSeverity a b) (h' : Mirrors inheritSeverity b c) :
    Mirrors inheritSeverity a c :=
  ⟨h.faces_eq.trans h'.faces_eq, fun hoff => (h.labels_eq hoff).trans (h'.labels_eq hoff)⟩

/-- A slot that mirrors the last of some deeds is there exactly if one of them is an analysis. -/
theorem Reflects.known_iff {inheritSeverity : Bool} {slot : Option (List (Finding π))}
    {deeds : List (Deed π)} (h : Reflects inheritSeverity slot (lastAnalysis? deeds)) :
    (∃ S, slot = some S) ↔ ∃ d ∈ deeds, d.analysed? ≠ none := by
  have hlast : (∃ d ∈ deeds, d.analysed? ≠ none) ↔ lastAnalysis? deeds ≠ none := by
    rw [Ne, lastAnalysis?_eq_none_iff]
    simp
  rw [hlast]
  cases slot with
  | none => exact iff_of_false (by simp) (fun hne => hne h)
  | some S =>
      obtain ⟨X, hX, -⟩ := h
      simp [hX]

end Lists

section Outcomes

variable {π : Type} (p : Pairing (Finding π) (Finding π)) (now : Int) (item : Finding π)

theorem Outcome.face_content (o : Outcome π) : o.content.face = o.subject.face := by
  cases o <;> rfl

theorem Outcome.labels_ofUnmatched (allowLeak : Bool) :
    (Outcome.ofUnmatched item now allowLeak).content.labels = item.labels := by
  unfold ofUnmatched
  split
  · rfl
  · split <;> rfl

/-- An analysis leaves severity and type as they are reported. -/
theorem labels_trackOutcome : (Ledger.trackOutcome p now item).content.labels = item.labels := by
  cases h : p.rightFor item with
  | some known => simp [Ledger.trackOutcome_of_some now h, Content.combine, Content.labels]
  | none => simp [Ledger.trackOutcome_of_none now h, Outcome.labels_ofUnmatched]

theorem labels_rebaseOutcome :
    (Ledger.rebaseOutcome p now false item).content.labels = item.labels := by
  cases h : p.leftFor item with
  | some external => simp [Ledger.rebaseOutcome_of_some now false h, Content.combine, Content.labels]
  | none => simp [Ledger.rebaseOutcome_of_none now false h, Outcome.labels_ofUnmatched]

end Outcomes

section Calls

variable {π : Type} {s : Session π} {items base previous current out : List (Finding π)}
variable {p : Pairing (Finding π) (Finding π)}

/-- Findings that hold the contents of outcomes have the faces of the subjects. -/
theorem map_face_of_contents_eq {outcome : Finding π → Outcome π} {subjects : List (Finding π)}
    (h : out.map Finding.toContent = subjects.map fun item => (outcome item).content)
    (hsubject : ∀ item, (outcome item).subject = item) :
    (out.map fun f => f.face) = subjects.map fun f => f.face := by
  have hfaces := congrArg (List.map Content.face) h
  simpa only [List.map_map, Function.comp_def, Outcome.face_content, hsubject] using hfaces

theorem Session.Analysed.labels_eq (h : s.Analysed items previous out p) :
    (out.map fun f => f.labels) = items.map fun f => f.labels := by
  have hlabels := congrArg (List.map Content.labels) h.contents_eq
  simpa only [List.map_map, Function.comp_def, labels_trackOutcome] using hlabels

theorem Session.Analysed.mirrors (h : s.Analysed items previous out p) (inheritSeverity : Bool) :
    Mirrors inheritSeverity out items :=
  ⟨map_face_of_contents_eq h.contents_eq (Ledger.subject_trackOutcome _ _), fun _ => h.labels_eq⟩

theorem Session.Rebased.mirrors (h : s.Rebased base current out p) :
    Mirrors s.ledger.settings.inheritSeverity out current := by
  refine ⟨map_face_of_contents_eq h.contents_eq (Ledger.subject_rebaseOutcome _ _ _), ?_⟩
  intro hoff
  have hlabels := congrArg (List.map Content.labels) h.contents_eq
  rw [hoff] at hlabels
  simpa only [List.map_map, Function.comp_def, labels_rebaseOutcome] using hlabels

/-- What an analysis gives back is what the slot then holds, and mirrors what it was given. -/
theorem Session.Sound.mirrors_of_ok {file : CodeText} (h : s.Sound) {reply : Reply π}
    (hok : (s.perform (.track file items)).1 = .ok reply) :
    ∃ out, reply = .findings out ∧
      (s.perform (.track file items)).2.ledger.slot? file = some out ∧ Mirrors false out items := by
  cases hslot : s.ledger.slot? file with
  | none =>
      obtain ⟨-, hitems, hnext⟩ := Session.perform_track_unknown hslot hok
      exact ⟨items, Except.ok.inj (hok.symm.trans hitems), hnext, Mirrors.refl false items⟩
  | some previous =>
      obtain ⟨out, p, hreply, hnext, hanalysed⟩ := h.analysed_of_ok hslot hok
      exact ⟨out, hreply, hnext, hanalysed.mirrors false⟩

end Calls

section Runs

variable {π : Type} {settings : Settings} {clock : Clock} {log : Audit.Log}
variable {es : List (Event π)} {t : Session π}

/-- **A slot mirrors the last analysis of its file**, and without an analysis there is no slot. -/
theorem Run.reflects (hrun : Run (.start (.new settings clock log)) es t)
    (hes : ∀ e ∈ es, e.OnLedger) (file : CodeText) :
    Reflects settings.inheritSeverity (t.ledger.slot? file)
      (lastAnalysis? ((Session.start (.new settings clock log)).history file es)) := by
  refine hrun.induction_history (Session.sound_start settings clock log) hes file
    (motive := fun u deeds => Reflects settings.inheritSeverity (u.ledger.slot? file)
      (lastAnalysis? deeds)) rfl ?_
  intro u deeds e _ hsettings hturn ih
  cases hturn with
  | kept hslot hdeeds =>
      rw [hslot, hdeeds]
      exact ih
  | forgotten hslot hdeeds =>
      rw [hslot, hdeeds]
      rfl
  | first hbefore hslot hdeeds =>
      rw [hslot, hdeeds, lastAnalysis?_concat]
      exact ⟨_, rfl, Mirrors.refl _ _⟩
  | later hbefore hanalysed hslot hdeeds =>
      rw [hslot, hdeeds, lastAnalysis?_concat]
      exact ⟨_, rfl, hanalysed.mirrors _⟩
  | rebased hbefore hrebased hslot hdeeds =>
      -- the last analysis is still the one that the slot mirrored before
      rw [hbefore] at ih
      obtain ⟨X, hX, hcurrent⟩ := ih
      have hmirrors := hrebased.mirrors
      rw [hsettings] at hmirrors
      rw [hslot, hdeeds, lastAnalysis?_concat, hX]
      exact ⟨X, rfl, hmirrors.trans hcurrent⟩

/-- **Analyses are what fills a slot.**  A file is known exactly if it was analysed since the files
were forgotten for the last time.  Its slot then shows the findings of the last analysis position by
position, with severities and types as they were reported if these are not taken over; right after
an analysis they are as reported in any case.  What a call gives back is what the slot then holds.
A call succeeds here when it gets as far as the writing of its record. -/
theorem slot_mirrors_last_analysis (hrun : Run (.start (.new settings clock log)) es t)
    (hes : ∀ e ∈ es, e.OnLedger) (file : CodeText) {deeds : List (Deed π)}
    (hdeeds : (Session.start (.new settings clock log)).history file es = deeds) :
    ((∃ S, t.ledger.slot? file = some S) ↔ ∃ d ∈ deeds, d.analysed? ≠ none) ∧
      (∀ S, t.ledger.slot? file = some S → ∃ X, lastAnalysis? deeds = some X ∧
        S.length = X.length ∧
        ∀ (i : Nat) f x, S[i]? = some f → X[i]? = some x →
          f.site = x.site ∧ f.payload = x.payload ∧
          (settings.inheritSeverity = false →
            f.severity = x.severity ∧ f.issueType = x.issueType)) ∧
      (∀ X reply, (t.perform (.track file X)).1 = .ok reply → ∃ out, reply = .findings out ∧
        (t.perform (.track file X)).2.ledger.slot? file = some out ∧ out.length = X.length ∧
        ∀ (i : Nat) f x, out[i]? = some f → X[i]? = some x →
          f.severity = x.severity ∧ f.issueType = x.issueType) ∧
      ∀ base reply, (t.perform (.rebase file base)).1 = .ok reply → ∃ out,
        reply = .findings out ∧
        (t.perform (.rebase file base)).2.ledger.slot? file = some out := by
  subst hdeeds
  have hsound : t.Sound := hrun.sound (Session.sound_start settings clock log) hes
  have hreflects := hrun.reflects hes file
  refine ⟨hreflects.known_iff, ?_, ?_, ?_⟩
  · intro S hS
    rw [hS] at hreflects
    obtain ⟨X, hX, hmirrors⟩ := hreflects
    refine ⟨X, hX, hmirrors.length_eq, fun i f x hf hx => ?_⟩
    obtain ⟨hsite, hpayload⟩ := hmirrors.face_at hf hx
    exact ⟨hsite, hpayload, fun hoff => hmirrors.labels_at hoff hf hx⟩
  · intro X reply hok
    obtain ⟨out, hreply, hnext, hmirrors⟩ := hsound.mirrors_of_ok hok
    exact ⟨out, hreply, hnext, hmirrors.length_eq, fun i f x => hmirrors.labels_at rfl⟩
  · intro base reply hok
    obtain ⟨current, out, p, -, hreply, hnext, -⟩ := hsound.rebased_of_ok hok
    exact ⟨out, hreply, hnext⟩

/-- Both findings of the slot show what the second analysis reported, though one of them was rebased
since then. -/
theorem slot_mirrors_last_analysis_noted :
    let reported := [Finding.noted 3 3 (some ("L", true)) (some 80), Finding.noted 1 3 none none]
    lastAnalysis? (Session.blank.history "a.py" Event.noted) = some reported ∧
      ∃ S, (Session.blank.afterAll Event.noted).ledger.slot? "a.py" = some S ∧
        (S.map fun f => f.handle) = [6, 5] ∧
        ∀ (i : Nat) f x, S[i]? = some f → reported[i]? = some x →
          f.site = x.site ∧ f.payload = x.payload := by
  intro reported
  have hreported : lastAnalysis? (Session.blank.history "a.py" Event.noted) = some reported := by
    decide
  have hhandles : ((Session.blank.afterAll Event.noted).ledger.slot? "a.py").map
      (fun S => S.map fun f => f.handle) = some [6, 5] := by
    decide
  obtain ⟨S, hS, hSh⟩ := Option.map_eq_some_iff.1 hhandles
  obtain ⟨-, hslot, -, -⟩ := slot_mirrors_last_analysis Run.noted Event.onLedger_noted "a.py" rfl
  obtain ⟨X, hX, -, hat⟩ := hslot S hS
  obtain rfl := Option.some.inj (hreported.symm.trans hX)
  refine ⟨hreported, S, hS, hSh, fun i f x hf hx => ?_⟩
  obtain ⟨hsite, hpayload, -⟩ := hat i f x hf hx
  exact ⟨hsite, hpayload⟩

end Runs
end FindingLedger
