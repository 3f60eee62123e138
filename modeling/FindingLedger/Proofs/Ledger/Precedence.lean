import FindingLedger.Proofs.Ledger.Linkage

/-!
# Links take precedence over locations

**Input.**  A rebase of a file on server issues whose keys differ where they have one.

**Algorithm.**  The first pass of a rebase reads the keys of the server, and what it pairs no later
pass can take apart, however well other findings agree.

**Results.**
* `Plain.mem_pairs_sweep_first`: in a first sweep the only left item of a key meets the first right
  item of this key.
* `mem_serverPairing_first`: so an issue gets the first finding of the state that is linked to it.
* `server_link_keeps_its_finding`: the finding takes key, flag and date of this issue; the link to
  an issue that the server no longer knows is never kept.
-/

namespace FindingLedger

open Identified

namespace Plain

variable {α β κ : Type} [Identified α] [Identified β] [DecidableEq κ]

/-- In a first sweep the only left item of a key meets the first right item of this key. -/
theorem mem_pairs_sweep_first {pass : Pass α β κ} {lefts : List α} {before after : List β}
    {left : α} {right : β} {k : κ} (hl : (lefts.map handle).Nodup)
    (hr : ((before ++ right :: after).map handle).Nodup) (hleft : left ∈ lefts)
    (hk : pass.leftKey left = some k) (hk' : pass.rightKey right = some k)
    (honly : ∀ l ∈ lefts, pass.leftKey l = some k → l = left)
    (hbefore : ∀ r ∈ before, pass.rightKey r ≠ some k) :
    (left, right) ∈ (sweep (Pairing.start lefts (before ++ right :: after)) pass).pairs := by
  have hwaiting : waiting pass (Pairing.start lefts (before ++ right :: after)) k =
      right :: after.filter fun r => decide (pass.rightKey r = some k) := by
    have hnone : (before.filter fun r => decide (pass.rightKey r = some k)) = [] :=
      List.filter_eq_nil_iff.2 fun r hr' => by simpa using hbefore r hr'
    simp [waiting, Pairing.unmatchedRights, Pairing.start, Pairing.leftFor, hnone, hk']
  have hmem : left ∈ offering pass (Pairing.start lefts (before ++ right :: after)) k := by
    simp [offering, Pairing.unmatchedLefts, Pairing.start, Pairing.rightFor, hleft, hk]
  rw [mem_pairs_sweep (Pairing.proper_start hl hr)]
  refine Or.inr ⟨k, ?_⟩
  cases hoffering : offering pass (Pairing.start lefts (before ++ right :: after)) k with
  | nil => simp [hoffering] at hmem
  | cons first rest =>
      have hfirst : first ∈ offering pass (Pairing.start lefts (before ++ right :: after)) k := by
        simp [hoffering]
      obtain ⟨hfree, hkey⟩ := mem_offering.1 hfirst
      obtain rfl : first = left := honly first (List.mem_filter.1 hfree).1 hkey
      simp [hwaiting]

end Plain

section Calls

variable {π : Type} {B before after : List (Finding π)} {b f : Finding π} {k : String}

theorem serverPass_key_eq_some_iff {f : Finding π} :
    Criterion.serverIssueKey.key f.traits = some [.text "server_issue_key", .text k] ↔
      f.serverIssueKey = some k := by
  rw [serverIssueKey_key]
  cases f.serverIssueKey <;> simp

/-- An issue of the server gets the first finding of the state that is linked to it. -/
theorem mem_serverPairing_first (fileLevel : Bool) (hB : Ledger.Distinct B)
    (hS : Ledger.Distinct (before ++ f :: after))
    (hkeys : (B.filterMap fun b => b.serverIssueKey).Nodup) (hb : b ∈ B)
    (hbk : b.serverIssueKey = some k) (hfk : f.serverIssueKey = some k)
    (hbefore : ∀ f' ∈ before, f'.serverIssueKey ≠ some k) :
    (b, f) ∈ (serverPairing fileLevel B (before ++ f :: after)).pairs := by
  rw [serverPairing_eq_run]
  -- no later pass takes a pair apart
  apply (Plain.grows_run _ _).pairs_subset
  apply Plain.mem_pairs_sweep_first hB hS hb
  · exact serverPass_key_eq_some_iff.2 hbk
  · exact serverPass_key_eq_some_iff.2 hfk
  · intro b' hb' hk'
    exact eq_of_key_eq hkeys hb' hb (serverPass_key_eq_some_iff.1 hk') hbk
  · intro f' hf' hk'
    exact hbefore f' hf' (serverPass_key_eq_some_iff.1 hk')

variable {s : Session π} {base current out : List (Finding π)}
variable {p : Pairing (Finding π) (Finding π)}

/-- What a rebase makes of the finding at a position. -/
theorem Session.Rebased.exists_getElem? (h : s.Rebased base current out p) {i : Nat}
    {item : Finding π} (hitem : current[i]? = some item) :
    ∃ g, out[i]? = some g ∧ g.toContent = (Ledger.rebaseOutcome p s.ledger.clock.now
      s.ledger.settings.inheritSeverity item).content := by
  have hcontents := congrArg (fun contents => contents[i]?) h.contents_eq
  simp only [List.getElem?_map, hitem, Option.map_some] at hcontents
  exact Option.map_eq_some_iff.1 hcontents

/-- No finding keeps a key that the server does not know. -/
theorem Session.Rebased.serverIssueKey_ne (h : s.Rebased base current out p)
    (hunknown : ∀ external ∈ base, external.serverIssueKey ≠ some k) {g : Finding π}
    (hg : g ∈ out) : g.serverIssueKey ≠ some k := by
  intro hgk
  obtain ⟨external, hexternal, hlink⟩ := exists_partner_of_link h.links_eq
    (fun _ hitem _ hleft => h.external_mem hitem hleft) hg (Content.link_eq_some_iff.2 ⟨hgk, rfl⟩)
  exact hunknown external hexternal (Content.link_eq_some_iff.1 hlink).1

end Calls

section Theorem

variable {π : Type} {s : Session π} {file : CodeText} {B S : List (Finding π)}

/-- **A link is never moved by location.**  If the server still knows the issue of a link, the
first finding of the state that has this link is combined with the issue, wherever the two are and
whatever else is there; if it does not, no finding keeps the link. -/
theorem server_link_keeps_its_finding (hs : Reachable s) (hS : s.ledger.slot? file = some S)
    (hB : Ledger.Distinct B) (hkeys : (B.filterMap fun b => b.serverIssueKey).Nodup) :
    ∃ out p, (s.perform (.rebase file B)).1 = .ok (.findings out) ∧
      (s.perform (.rebase file B)).2.ledger.slot? file = some out ∧ s.Rebased B S out p ∧
      (∀ k, ∀ b ∈ B, b.serverIssueKey = some k → (∃ f ∈ S, f.serverIssueKey = some k) →
        ∃ before f after g, S = before ++ f :: after ∧ f.serverIssueKey = some k ∧
          (∀ f' ∈ before, f'.serverIssueKey ≠ some k) ∧
          p.leftFor f = some b ∧ out[before.length]? = some g ∧
          g.toContent = b.toContent.combine f.toContent s.ledger.settings.inheritSeverity ∧
          g.serverIssueKey = some k ∧ g.resolved = b.resolved ∧
          g.creationDate = (b.creationDate <|> f.creationDate)) ∧
      ∀ (j : Nat) (f : Finding π) (k : String), S[j]? = some f → f.serverIssueKey = some k →
        (∀ b ∈ B, b.serverIssueKey ≠ some k) →
        ∃ g, out[j]? = some g ∧ g.serverIssueKey ≠ some k := by
  have hdistinct := hs.sound.slot_distinct file S hS
  obtain ⟨out, p, hreply, hslot, hrebased⟩ := hs.sound.perform_rebase_known hS hB
  refine ⟨out, p, hreply, hslot, hrebased, ?_, ?_⟩
  · rintro k b hb hbk ⟨f₀, hf₀, hf₀k⟩
    -- the findings before the first one with the key
    have hsome : (S.find? fun f => decide (f.serverIssueKey = some k)).isSome := by
      rw [List.find?_isSome]
      exact ⟨f₀, hf₀, by simpa using hf₀k⟩
    obtain ⟨f, hfirst⟩ := Option.isSome_iff_exists.1 hsome
    obtain ⟨hfk, before, after, rfl, hbefore⟩ := List.find?_eq_some_iff_append.1 hfirst
    have hfk : f.serverIssueKey = some k := by simpa using hfk
    have hbefore : ∀ f' ∈ before, f'.serverIssueKey ≠ some k := by simpa using hbefore
    have hpair : (b, f) ∈ p.pairs := by
      rw [hrebased.eq_pairBy hB hdistinct]
      exact mem_serverPairing_first _ hB hdistinct hkeys hb hbk hfk hbefore
    have hleft : p.leftFor f = some b :=
      hrebased.proper.leftFor_eq_some_iff_exists.2 ⟨f, hpair, rfl⟩
    have hat : (before ++ f :: after)[before.length]? = some f := by simp
    obtain ⟨g, hg, hcontent⟩ := hrebased.exists_getElem? hat
    rw [Ledger.rebaseOutcome_of_some _ _ hleft, Outcome.content_combined] at hcontent
    refine ⟨before, f, after, g, rfl, hfk, hbefore, hleft, hg, hcontent, ?_, ?_, ?_⟩
    · rw [hcontent]
      exact hbk
    · rw [hcontent]
      rfl
    · rw [hcontent]
      rfl
  · intro j f k hf _ hunknown
    obtain ⟨g, hg, -⟩ := hrebased.exists_getElem? hf
    exact ⟨g, hg, hrebased.serverIssueKey_ne hunknown (List.mem_of_getElem? hg)⟩

/-- An issue without a key is where the linked finding is, and comes first; the finding still gets
the issue that it is linked to. -/
theorem server_link_keeps_its_finding_noted :
    let s := Session.blank.afterAll Event.noted
    let near := Finding.noted 90 3 none none
    let far := Finding.noted 91 7 (some ("L", false)) (some 60)
    Reachable s ∧ Ledger.Distinct [near, far] ∧
      ([near, far].filterMap fun b => b.serverIssueKey).Nodup ∧
      ∃ S out f g, s.ledger.slot? "a.py" = some S ∧
        (s.perform (.rebase "a.py" [near, far])).2.ledger.slot? "a.py" = some out ∧
        (S.map fun f => f.link) = [some ("L", true), none] ∧ S[0]? = some f ∧ out[0]? = some g ∧
        g.serverIssueKey = some "L" ∧ g.resolved = false ∧ g.creationDate = some 60 := by
  intro s near far
  have hs : Reachable s := Session.reachable_afterAll_noted
  have hB : Ledger.Distinct [near, far] := by decide
  have hkeys : ([near, far].filterMap fun b => b.serverIssueKey).Nodup := by decide
  have hlinks : ((s.ledger.slot? "a.py").map fun S => S.map fun f => f.link) =
      some [some ("L", true), none] := by
    decide
  obtain ⟨S, hS, hSlinks⟩ := Option.map_eq_some_iff.1 hlinks
  obtain ⟨out, p, -, hout, -, hkept, -⟩ := server_link_keeps_its_finding hs hS hB hkeys
  have hfirst : some ("L", true) ∈ S.map fun f => f.link := by simp [hSlinks]
  obtain ⟨f₀, hf₀, hlink⟩ := List.mem_map.1 hfirst
  obtain ⟨before, f, after, g, rfl, hfk, hbefore, -, hg, -, hgk, hflag, hdate⟩ :=
    hkept "L" far (by simp) rfl ⟨f₀, hf₀, (Content.link_eq_some_iff.1 hlink).1⟩
  cases before with
  | nil => exact ⟨hs, hB, hkeys, _, out, f, g, hS, hout, hSlinks, rfl, hg, hgk, hflag, hdate⟩
  | cons f' rest =>
      have hf' : f'.link = some ("L", true) := (List.cons.inj hSlinks).1
      exact absurd (Content.link_eq_some_iff.1 hf').1 (hbefore f' (List.mem_cons_self ..))

end Theorem
end FindingLedger
