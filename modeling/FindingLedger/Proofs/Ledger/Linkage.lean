import FindingLedger.Proofs.Ledger.History
import FindingLedger.Proofs.Ledger.Resync

/-!
# The links to the server

A finding that has a key of the server is linked: the key and the flag which says that the issue is
resolved are one unit, its *link*.

**Input.**  A run in which no key occurs twice among the findings of a first analysis, nor among the
server issues of a rebase.  Later analyses may bring any keys.

**Results.**
* `link_trackOutcome`, `link_rebaseOutcome`: a call hands the links of the counterparts on, and no
  others; nothing that a later analysis reports brings a link of its own.
* `Analysed.linked`, `Rebased.linked`: since no two findings have one counterpart, keys stay
  different; `Run.linked`: so they do along a run.
* `server_links_stay_unambiguous`: so no key occurs twice in a slot, and each link of a slot is the
  link of one finding that a first analysis or a rebase was given.
-/

namespace FindingLedger

/-- The key of the server and the flag that comes with it, if the finding is linked. -/
def Content.link {σ τ π : Type} (c : Content σ τ π) : Option (String × Bool) :=
  c.serverIssueKey.map fun k => (k, c.resolved)

theorem Content.link_eq_some_iff {σ τ π : Type} {c : Content σ τ π} {k : String} {flag : Bool} :
    c.link = some (k, flag) ↔ c.serverIssueKey = some k ∧ c.resolved = flag := by
  simp [link, Option.map_eq_some_iff]

/-- The findings whose links a deed may bring into the slot. -/
def Deed.linking {π : Type} : Deed π → List (Finding π)
  | firstAnalysis items => items
  | laterAnalysis _ _ => []
  | rebase base => base

section Outcomes

variable {π : Type} (p : Pairing (Finding π) (Finding π)) (now : Int)

theorem Outcome.link_ofUnmatched (item : Finding π) (allowLeak : Bool) :
    (Outcome.ofUnmatched item now allowLeak).content.link = none := by
  rw [Content.link, Outcome.serverIssueKey_ofUnmatched, Option.map_none]

theorem link_trackOutcome (item : Finding π) :
    (Ledger.trackOutcome p now item).content.link =
      (p.rightFor item).bind fun known => known.link := by
  cases h : p.rightFor item with
  | some known => simp [Ledger.trackOutcome_of_some now h, Content.combine, Content.link]
  | none => simp [Ledger.trackOutcome_of_none now h, Outcome.link_ofUnmatched]

theorem link_rebaseOutcome (inheritSeverity : Bool) (item : Finding π) :
    (Ledger.rebaseOutcome p now inheritSeverity item).content.link =
      (p.leftFor item).bind fun external => external.link := by
  cases h : p.leftFor item with
  | some external => simp [Ledger.rebaseOutcome_of_some now _ h, Content.combine, Content.link]
  | none => simp [Ledger.rebaseOutcome_of_none now _ h, Outcome.link_ofUnmatched]

end Outcomes

section Keys

/-- If different items have different partners, and the partners different keys, then no key occurs
twice among the keys of the partners. -/
theorem nodup_filterMap_bind {α β γ : Type} {partner : α → Option β} {key : β → Option γ}
    {as : List α} {bs : List β} (has : as.Nodup) (hbs : (bs.filterMap key).Nodup)
    (hmem : ∀ a ∈ as, ∀ b, partner a = some b → b ∈ bs)
    (hinj : ∀ a ∈ as, ∀ a' ∈ as, ∀ b, partner a = some b → partner a' = some b → a = a') :
    (as.filterMap fun a => (partner a).bind key).Nodup := by
  rw [List.Nodup, List.pairwise_filterMap]
  refine List.Pairwise.imp_of_mem ?_ has
  -- two items with one key have one partner, since the partners have different keys
  rintro a a' ha ha' hne k hk k' hk' rfl
  obtain ⟨b, hb, hbk⟩ := Option.bind_eq_some_iff.1 hk
  obtain ⟨b', hb', hbk'⟩ := Option.bind_eq_some_iff.1 hk'
  obtain rfl : b = b' := eq_of_key_eq hbs (hmem a ha b hb) (hmem a' ha' b' hb') hbk hbk'
  exact hne (hinj a ha a' ha' b hb hb')

variable {π : Type}

theorem Content.serverIssueKey_eq_link {σ τ : Type} (c : Content σ τ π) :
    c.serverIssueKey = c.link.map Prod.fst := by
  cases h : c.serverIssueKey <;> simp [link, h]

/-- No key occurs twice in the slot, and each link in it is the link of one of the sources. -/
structure Linked (sources slot : List (Finding π)) : Prop where
  keys_nodup : (slot.filterMap fun f => f.serverIssueKey).Nodup
  links_from : ∀ f ∈ slot, ∀ l, f.link = some l → ∃ g ∈ sources, g.link = some l

theorem Linked.of_keys {items : List (Finding π)}
    (h : (items.filterMap fun f => f.serverIssueKey).Nodup) : Linked items items :=
  ⟨h, fun f hf _ hl => ⟨f, hf, hl⟩⟩

theorem Linked.mono {sources sources' slot : List (Finding π)} (h : Linked sources slot)
    (hsub : sources ⊆ sources') : Linked sources' slot := by
  refine ⟨h.keys_nodup, fun f hf l hl => ?_⟩
  obtain ⟨g, hg, hgl⟩ := h.links_from f hf l hl
  exact ⟨g, hsub hg, hgl⟩

section HandingOn

variable {sources partners subjects out : List (Finding π)}
variable {partner : Finding π → Option (Finding π)}

/-- A link that was handed on is the link of a partner. -/
theorem exists_partner_of_link
    (hlinks : (out.map fun f => f.link) = subjects.map fun item =>
      (partner item).bind fun g => g.link)
    (hmem : ∀ a ∈ subjects, ∀ b, partner a = some b → b ∈ partners) {f : Finding π}
    (hf : f ∈ out) {l : String × Bool} (hl : f.link = some l) : ∃ g ∈ partners, g.link = some l := by
  obtain ⟨item, hitem, heq⟩ := exists_mem_of_map_eq hlinks hf
  obtain ⟨g, hg, hgl⟩ := Option.bind_eq_some_iff.1 (heq.symm.trans hl)
  exact ⟨g, hmem item hitem g hg, hgl⟩

/-- Links that are handed on from different partners stay unambiguous. -/
theorem Linked.hand_on (h : Linked sources partners) (hsubjects : Ledger.Distinct subjects)
    (hlinks : (out.map fun f => f.link) = subjects.map fun item =>
      (partner item).bind fun g => g.link)
    (hmem : ∀ a ∈ subjects, ∀ b, partner a = some b → b ∈ partners)
    (hinj : ∀ a ∈ subjects, ∀ a' ∈ subjects, ∀ b, partner a = some b → partner a' = some b →
      a = a') : Linked sources out := by
  constructor
  · have hkeys : (out.filterMap fun f => f.serverIssueKey) =
        subjects.filterMap fun item => (partner item).bind fun g => g.serverIssueKey := by
      have := congrArg (List.filterMap fun l : Option (String × Bool) => l.map Prod.fst) hlinks
      simpa [List.filterMap_map, Function.comp_def, Option.map_bind,
        ← Content.serverIssueKey_eq_link] using this
    rw [hkeys]
    exact nodup_filterMap_bind (hsubjects.of_map _) h.keys_nodup hmem hinj
  · intro f hf l hl
    obtain ⟨g, hg, hgl⟩ := exists_partner_of_link hlinks hmem hf hl
    exact h.links_from g hg l hgl

end HandingOn
end Keys

section Calls

variable {π : Type} {s : Session π} {sources out : List (Finding π)}
variable {p : Pairing (Finding π) (Finding π)}

theorem Session.Analysed.links_eq {items previous : List (Finding π)}
    (h : s.Analysed items previous out p) :
    (out.map fun f => f.link) = items.map fun item =>
      (p.rightFor item).bind fun known => known.link := by
  have hlinks := congrArg (List.map Content.link) h.contents_eq
  simpa only [List.map_map, Function.comp_def, link_trackOutcome] using hlinks

theorem Session.Rebased.links_eq {base current : List (Finding π)}
    (h : s.Rebased base current out p) :
    (out.map fun f => f.link) = current.map fun item =>
      (p.leftFor item).bind fun external => external.link := by
  have hlinks := congrArg (List.map Content.link) h.contents_eq
  simpa only [List.map_map, Function.comp_def, link_rebaseOutcome] using hlinks

theorem Session.Analysed.linked {items previous : List (Finding π)}
    (h : s.Analysed items previous out p) (hprevious : Linked sources previous) :
    Linked sources out := by
  refine hprevious.hand_on (h.lefts_eq ▸ h.proper.lefts_nodup) h.links_eq ?_ ?_
  · exact fun a ha b hb => h.known_mem ha hb
  · intro a ha a' ha' b hb hb'
    exact h.proper.left_unique (h.pair_of_rightFor ha hb) (h.pair_of_rightFor ha' hb')

theorem Session.Rebased.linked {base current : List (Finding π)}
    (h : s.Rebased base current out p) (hbase : Linked sources base) : Linked sources out := by
  refine hbase.hand_on (h.rights_eq ▸ h.proper.rights_nodup) h.links_eq ?_ ?_
  · exact fun a ha b hb => h.external_mem ha hb
  · intro a ha a' ha' b hb hb'
    exact h.proper.right_unique (h.pair_of_leftFor ha hb) (h.pair_of_leftFor ha' hb')

end Calls

section Runs

variable {π : Type} {settings : Settings} {clock : Clock} {log : Audit.Log}
variable {es : List (Event π)} {t : Session π}

/-- Along a run the links of a slot stay unambiguous, and come from its linking deeds. -/
theorem Run.linked (hrun : Run (.start (.new settings clock log)) es t)
    (hes : ∀ e ∈ es, e.OnLedger) (file : CodeText)
    (hkeys : ∀ d ∈ (Session.start (.new settings clock log)).history file es,
      (d.linking.filterMap fun f => f.serverIssueKey).Nodup)
    {S : List (Finding π)} (hS : t.ledger.slot? file = some S) :
    Linked (((Session.start (.new settings clock log)).history file es).flatMap Deed.linking)
      S := by
  refine hrun.induction_history (Session.sound_start settings clock log) hes file
    (motive := fun u deeds => (∀ d ∈ deeds, (d.linking.filterMap fun f => f.serverIssueKey).Nodup) →
      ∀ S, u.ledger.slot? file = some S → Linked (deeds.flatMap Deed.linking) S) ?_ ?_ hkeys S hS
  · intro _ S hS
    simp [Session.start, Ledger.new, Ledger.slot?, Store.empty, Slots.get?] at hS
  · intro u deeds e _ _ hturn ih hkeys S hS
    cases hturn with
    | kept hslot hdeeds =>
        rw [hslot] at hS
        rw [hdeeds] at hkeys ⊢
        exact ih hkeys S hS
    | forgotten hslot hdeeds =>
        rw [hslot] at hS
        simp at hS
    | first hbefore hslot hdeeds =>
        obtain rfl := Option.some.inj (hslot.symm.trans hS)
        rw [hdeeds] at hkeys ⊢
        have hitems := hkeys _ (List.mem_append_right _ (List.mem_singleton_self _))
        refine (Linked.of_keys hitems).mono ?_
        simp [Deed.linking]
    | later hbefore hanalysed hslot hdeeds =>
        obtain rfl := Option.some.inj (hslot.symm.trans hS)
        rw [hdeeds] at hkeys ⊢
        have hprevious := ih (fun d hd => hkeys d (List.mem_append_left _ hd)) _ hbefore
        refine (hanalysed.linked hprevious).mono ?_
        simp
    | rebased hbefore hrebased hslot hdeeds =>
        obtain rfl := Option.some.inj (hslot.symm.trans hS)
        rw [hdeeds] at hkeys ⊢
        -- the links of the slot before play no part: a rebase hands on none of them
        have hbase := hkeys _ (List.mem_append_right _ (List.mem_singleton_self _))
        refine (hrebased.linked (Linked.of_keys hbase)).mono ?_
        simp [Deed.linking]

/-- **Links to the server stay unambiguous.**  No key occurs twice in a slot.  Key and flag of a
linked finding are those of one finding which the first analysis of the file, or a rebase of it, was
given since the files were forgotten for the last time; a key that only later analyses brought never
gets into the slot.  After a rebase every link in the slot is one of its server issues. -/
theorem server_links_stay_unambiguous (hrun : Run (.start (.new settings clock log)) es t)
    (hes : ∀ e ∈ es, e.OnLedger) (file : CodeText) {deeds : List (Deed π)}
    (hdeeds : (Session.start (.new settings clock log)).history file es = deeds)
    (hkeys : ∀ d ∈ deeds, (d.linking.filterMap fun f => f.serverIssueKey).Nodup)
    {S : List (Finding π)} (hS : t.ledger.slot? file = some S) :
    (S.filterMap fun f => f.serverIssueKey).Nodup ∧
      (∀ f ∈ S, ∀ k, f.serverIssueKey = some k →
        ∃ d ∈ deeds, ∃ g ∈ d.linking, g.serverIssueKey = some k ∧ g.resolved = f.resolved) ∧
      (∀ k, (∀ d ∈ deeds, ∀ g ∈ d.linking, g.serverIssueKey ≠ some k) →
        ∀ f ∈ S, f.serverIssueKey ≠ some k) ∧
      ∀ base reply, (t.perform (.rebase file base)).1 = .ok reply → ∃ out,
        reply = .findings out ∧
        (t.perform (.rebase file base)).2.ledger.slot? file = some out ∧
        ∀ f ∈ out, ∀ k, f.serverIssueKey = some k →
          ∃ g ∈ base, g.serverIssueKey = some k ∧ g.resolved = f.resolved := by
  subst hdeeds
  have hlinked := hrun.linked hes file hkeys hS
  have hsource : ∀ f ∈ S, ∀ k, f.serverIssueKey = some k →
      ∃ d ∈ (Session.start (.new settings clock log)).history file es, ∃ g ∈ d.linking,
        g.serverIssueKey = some k ∧ g.resolved = f.resolved := by
    intro f hf k hk
    obtain ⟨g, hg, hgl⟩ := hlinked.links_from f hf _ (Content.link_eq_some_iff.2 ⟨hk, rfl⟩)
    obtain ⟨d, hd, hgd⟩ := List.mem_flatMap.1 hg
    exact ⟨d, hd, g, hgd, Content.link_eq_some_iff.1 hgl⟩
  refine ⟨hlinked.keys_nodup, hsource, ?_, ?_⟩
  · intro k hnone f hf hk
    obtain ⟨d, hd, g, hg, hgk, -⟩ := hsource f hf k hk
    exact hnone d hd g hg hgk
  · intro base reply hok
    have hsound : t.Sound := hrun.sound (Session.sound_start settings clock log) hes
    obtain ⟨current, out, p, -, hreply, hslot, hrebased⟩ := hsound.rebased_of_ok hok
    refine ⟨out, hreply, hslot, fun f hf k hk => ?_⟩
    obtain ⟨g, hg, hgl⟩ := exists_partner_of_link hrebased.links_eq
      (fun a ha b hb => hrebased.external_mem ha hb) hf (Content.link_eq_some_iff.2 ⟨hk, rfl⟩)
    exact ⟨g, hg, Content.link_eq_some_iff.1 hgl⟩

/-- The finding at the first place was reported with the key `L` by a later analysis, which brought
no link, and was linked by the rebase. -/
theorem server_links_stay_unambiguous_noted :
    let t := Session.blank.afterAll Event.noted
    ∃ S, t.ledger.slot? "a.py" = some S ∧
      (S.map fun f => f.link) = [some ("L", true), none] ∧
      (S.filterMap fun f => f.serverIssueKey).Nodup ∧
      ∃ d ∈ Session.blank.history "a.py" Event.noted, ∃ g ∈ d.linking,
        g.serverIssueKey = some "L" ∧ g.resolved = true := by
  intro t
  have hlinks : ((t.ledger.slot? "a.py").map fun S => S.map fun f => f.link) =
      some [some ("L", true), none] := by
    decide
  obtain ⟨S, hS, hSlinks⟩ := Option.map_eq_some_iff.1 hlinks
  obtain ⟨hnodup, hsource, -, -⟩ :=
    server_links_stay_unambiguous Run.noted Event.onLedger_noted "a.py" rfl (by decide) hS
  have hfirst : some ("L", true) ∈ S.map fun f => f.link := by simp [hSlinks]
  obtain ⟨f, hf, hlink⟩ := List.mem_map.1 hfirst
  obtain ⟨hkey, hflag⟩ := Content.link_eq_some_iff.1 hlink
  obtain ⟨d, hd, g, hg, hgkey, hgflag⟩ := hsource f hf "L" hkey
  exact ⟨S, hS, hSlinks, hnodup, d, hd, g, hg, hgkey, hgflag.trans hflag⟩

end Runs
end FindingLedger
