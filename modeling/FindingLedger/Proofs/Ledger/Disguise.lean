import FindingLedger.Proofs.Ledger.Calls
import FindingLedger.Proofs.Pairing.Renaming

/-!
# Disguised findings

A disguise replaces what findings are about: rules, messages, lines, hashes and keys of the server
are renamed, each by a renaming under which different ones stay different; text ranges and payloads
are replaced at will.  What is missing stays missing; handle, date, resolution, severity and type
stay as they are.

**Results.**
* `check_disguise`, `apply_disguise`: drafts in disguise are checked and changed as those without.
* `Criterion.joins_disguise`: disguised findings share the traits that the findings share.
* `pairBy_disguise`: so the cascade pairs them alike.
* `trackOutcome_disguise`, `rebaseOutcome_disguise`, `resolveAll_disguise`: the outcomes are the
  disguised ones, and lead to the disguised findings with the same handles.
-/

namespace FindingLedger

/-- Renamings of the values that findings hold. -/
structure Disguise (π ρ : Type) where
  ruleKey : String → String
  message : String → String
  line : Int → Int
  textRange : TextRange → TextRange
  lineHash : Int → Int
  textRangeHash : Int → Int
  serverIssueKey : String → String
  payload : π → ρ
  ruleKey_injective : Function.Injective ruleKey
  message_injective : Function.Injective message
  line_injective : Function.Injective line
  lineHash_injective : Function.Injective lineHash
  textRangeHash_injective : Function.Injective textRangeHash
  serverIssueKey_injective : Function.Injective serverIssueKey

section Findings

variable {π ρ : Type}

/-- The disguised content. -/
def Content.disguise {σ τ : Type} (D : Disguise π ρ) (c : Content σ τ π) : Content σ τ ρ where
  ruleKey := D.ruleKey c.ruleKey
  message := D.message c.message
  line := c.line.map D.line
  textRange := c.textRange.map D.textRange
  lineHash := c.lineHash.map D.lineHash
  textRangeHash := c.textRangeHash.map D.textRangeHash
  creationDate := c.creationDate
  serverIssueKey := c.serverIssueKey.map D.serverIssueKey
  resolved := c.resolved
  severity := c.severity
  issueType := c.issueType
  payload := D.payload c.payload

/-- The disguised finding, under the same handle. -/
def Finding.disguise (D : Disguise π ρ) (f : Finding π) : Finding ρ :=
  ⟨f.toContent.disguise D, f.handle⟩

/-- The change that makes of the disguised finding what the change makes of the finding. -/
def Change.disguise (D : Disguise π ρ) : Change π → Change ρ
  | ruleKey v => ruleKey (D.ruleKey v)
  | message v => message (D.message v)
  | line v => line (v.map D.line)
  | textRange v => textRange (v.map D.textRange)
  | lineHash v => lineHash (v.map D.lineHash)
  | textRangeHash v => textRangeHash (v.map D.textRangeHash)
  | creationDate v => creationDate v
  | serverIssueKey v => serverIssueKey (v.map D.serverIssueKey)
  | resolved v => resolved v
  | severity v => severity v
  | issueType v => issueType v
  | payload v => payload (D.payload v)
  | handle => handle
  | unknown field => unknown field

variable (D : Disguise π ρ)

/-- The labels of a draft are checked as they are. -/
theorem Draft.check_disguise (d : Draft π) :
    Draft.check (d.disguise D) = (Draft.check d).map (Content.disguise D) := by
  unfold Draft.check
  rw [show (d.disguise D).severity = d.severity from rfl,
    show (d.disguise D).issueType = d.issueType from rfl]
  split
  · rfl
  · split <;> rfl

theorem Change.apply_disguise (d : Draft π) (change : Change π) :
    (change.disguise D).apply (d.disguise D) = (change.apply d).disguise D := by
  cases change <;> rfl

theorem Change.foldl_apply_disguise (d : Draft π) (changes : List (Change π)) :
    (changes.map (Change.disguise D)).foldl Change.apply (d.disguise D) =
      (changes.foldl Change.apply d).disguise D := by
  induction changes generalizing d with
  | nil => rfl
  | cons change changes ih =>
      rw [List.map_cons, List.foldl_cons, List.foldl_cons, apply_disguise, ih]

theorem Change.refusal?_disguise (changes : List (Change π)) :
    Change.refusal? (changes.map (Change.disguise D)) = Change.refusal? changes := by
  have hhandle : (Change.isHandle ∘ Change.disguise D) = Change.isHandle := by
    funext change
    cases change <;> rfl
  have hunknown : (Change.unknownField? ∘ Change.disguise D) = Change.unknownField? := by
    funext change
    cases change <;> rfl
  rw [refusal?, refusal?, List.any_map, List.findSome?_map, hhandle, hunknown]

theorem Ledger.distinct_disguise_iff {items : List (Finding π)} :
    Ledger.Distinct (items.map (Finding.disguise D)) ↔ Ledger.Distinct items := by
  rw [Distinct, List.map_map]
  exact Iff.rfl

end Findings

section Matching

variable {π ρ : Type} (D : Disguise π ρ)

/-- Every criterion joins two disguised findings if it joins the findings. -/
theorem Criterion.joins_disguise {σ τ : Type} (c : Criterion) (a b : Content σ τ π) :
    c.Joins (a.disguise D).traits (b.disguise D).traits ↔ c.Joins a.traits b.traits := by
  have hrule : D.ruleKey a.ruleKey = D.ruleKey b.ruleKey ↔ a.ruleKey = b.ruleKey :=
    D.ruleKey_injective.eq_iff
  have hmessage : Shared (some (D.message a.message)) (some (D.message b.message)) ↔
      Shared (some a.message) (some b.message) :=
    shared_map_iff D.message_injective (x := some a.message) (y := some b.message)
  have hline := shared_map_iff D.line_injective (x := a.line) (y := b.line)
  have hlineHash := shared_map_iff D.lineHash_injective (x := a.lineHash) (y := b.lineHash)
  have hrangeHash :=
    shared_map_iff D.textRangeHash_injective (x := a.textRangeHash) (y := b.textRangeHash)
  have hkey :=
    shared_map_iff D.serverIssueKey_injective (x := a.serverIssueKey) (y := b.serverIssueKey)
  cases c <;>
    simp only [Joins, Content.traits, Content.disguise, hrule, hmessage, hline, hlineHash,
      hrangeHash, hkey, Option.map_eq_none_iff, Option.isSome_map]

/-- The cascade pairs disguised findings as it pairs the findings. -/
theorem Plain.pairBy_disguise (criteria : List Criterion) {lefts rights : List (Finding π)}
    (hl : Ledger.Distinct lefts) (hr : Ledger.Distinct rights) :
    Plain.pairBy criteria (lefts.map (Finding.disguise D)) (rights.map (Finding.disguise D)) =
      (Plain.pairBy criteria lefts rights).map (Finding.disguise D) (Finding.disguise D) :=
  Plain.pair_pass_map criteria hl hr ((Ledger.distinct_disguise_iff D).2 hl)
    ((Ledger.distinct_disguise_iff D).2 hr)
    fun c l _ r _ => Criterion.joins_disguise D c l.toContent r.toContent

/-- Where the cascade gives a pairing of findings, it gives the disguised pairing of the disguised
findings. -/
theorem Cascade.pairBy_disguise_of_ok {criteria : List Criterion} {lefts rights : List (Finding π)}
    {p : Pairing (Finding π) (Finding π)} (hl : Ledger.Distinct lefts)
    (hr : Ledger.Distinct rights) (hp : Cascade.pairBy criteria lefts rights = .ok p) :
    p.Proper ∧ p.lefts = lefts ∧ p.rights = rights ∧
      Cascade.pairBy criteria (lefts.map (Finding.disguise D))
          (rights.map (Finding.disguise D)) =
        .ok (p.map (Finding.disguise D) (Finding.disguise D)) := by
  obtain ⟨hpair, hproper, hlefts, hrights⟩ := Plain.pairBy_spec criteria hl hr
  obtain rfl := Except.ok.inj (hpair.symm.trans hp)
  refine ⟨hproper, hlefts, hrights, ?_⟩
  rw [← Plain.pairBy_disguise D criteria hl hr]
  exact (Plain.pairBy_spec criteria ((Ledger.distinct_disguise_iff D).2 hl)
    ((Ledger.distinct_disguise_iff D).2 hr)).1

/-- Handles are kept, so a disguise confuses no findings. -/
theorem Pairing.Proper.faithful_disguise {p : Pairing (Finding π) (Finding π)} (hp : p.Proper) :
    p.Faithful (Finding.disguise D) (Finding.disguise D) :=
  ⟨hp, hp.lefts_nodup, hp.rights_nodup⟩

end Matching

section Outcomes

variable {π ρ : Type}

/-- What became of the disguised findings. -/
def Outcome.disguise (D : Disguise π ρ) : Outcome π → Outcome ρ
  | combined base moved inheritSeverity =>
      combined (base.disguise D) (moved.disguise D) inheritSeverity
  | leaked item now => leaked (item.disguise D) now
  | disconnected item => disconnected (item.disguise D)
  | passthrough item => passthrough (item.disguise D)

variable (D : Disguise π ρ)

theorem Outcome.kind_disguise (o : Outcome π) : (o.disguise D).kind = o.kind := by
  cases o <;> rfl

theorem Outcome.resolve_disguise (next : Nat) (o : Outcome π) :
    (o.disguise D).resolve next = ((o.resolve next).1.disguise D, (o.resolve next).2) := by
  cases o <;> rfl

/-- Disguised outcomes lead to the disguised findings and use up as many handles. -/
theorem Outcome.resolveAll_disguise (next : Nat) (os : List (Outcome π)) :
    resolveAll next (os.map (Outcome.disguise D)) =
      ((resolveAll next os).1.map (Finding.disguise D), (resolveAll next os).2) := by
  induction os generalizing next with
  | nil => rfl
  | cons o os ih => simp [resolveAll, resolve_disguise, ih]

theorem Outcome.ofUnmatched_disguise (item : Finding π) (now : Int) (allowLeak : Bool) :
    ofUnmatched (item.disguise D) now allowLeak = (ofUnmatched item now allowLeak).disguise D := by
  unfold ofUnmatched
  rw [show (item.disguise D).creationDate = item.creationDate from rfl,
    show (item.disguise D).serverIssueKey.isSome = item.serverIssueKey.isSome from
      Option.isSome_map]
  split
  · rfl
  · split <;> rfl

theorem Tally.ofOutcomes_disguise (os : List (Outcome π)) :
    ofOutcomes (os.map (Outcome.disguise D)) = ofOutcomes os := by
  simp [ofOutcomes, List.countP_map, Function.comp_def, Outcome.kind_disguise]

variable {p : Pairing (Finding π) (Finding π)} {item : Finding π}

theorem Ledger.trackOutcome_disguise (hp : p.Proper) (hitem : item ∈ p.lefts) (now : Int) :
    trackOutcome (p.map (Finding.disguise D) (Finding.disguise D)) now (item.disguise D) =
      (trackOutcome p now item).disguise D := by
  have hright := (hp.faithful_disguise D).rightFor_map hitem
  cases hknown : p.rightFor item with
  | none =>
      rw [hknown, Option.map_none] at hright
      rw [trackOutcome_of_none now hright, trackOutcome_of_none now hknown,
        Outcome.ofUnmatched_disguise]
  | some known =>
      rw [hknown, Option.map_some] at hright
      rw [trackOutcome_of_some now hright, trackOutcome_of_some now hknown]
      rfl

theorem Ledger.rebaseOutcome_disguise (hp : p.Proper) (hitem : item ∈ p.rights) (now : Int)
    (inheritSeverity : Bool) :
    rebaseOutcome (p.map (Finding.disguise D) (Finding.disguise D)) now inheritSeverity
        (item.disguise D) =
      (rebaseOutcome p now inheritSeverity item).disguise D := by
  have hleft := (hp.faithful_disguise D).leftFor_map hitem
  cases hexternal : p.leftFor item with
  | none =>
      rw [hexternal, Option.map_none] at hleft
      rw [rebaseOutcome_of_none now _ hleft, rebaseOutcome_of_none now _ hexternal,
        Outcome.ofUnmatched_disguise]
  | some external =>
      rw [hexternal, Option.map_some] at hleft
      rw [rebaseOutcome_of_some now _ hleft, rebaseOutcome_of_some now _ hexternal]
      rfl

end Outcomes

section Stores

variable {φ ψ : Type} (f : φ → ψ)

/-- The slots with the images of all items. -/
def Slots.mapItems (slots : Slots φ) : Slots ψ :=
  slots.map fun entry => (entry.1, entry.2.map f)

/-- The store with the images of all items. -/
def Store.mapItems : Store φ → Store ψ
  | live slots => live (slots.mapItems f)
  | disposed => disposed

theorem Slots.get?_mapItems (slots : Slots φ) (file : CodeText) :
    (slots.mapItems f).get? file = (slots.get? file).map (List.map f) := by
  induction slots with
  | nil => rfl
  | cons entry slots ih =>
      obtain ⟨other, items⟩ := entry
      by_cases hfile : other = file
      · simp [mapItems, get?, hfile]
      · simpa [mapItems, get?, hfile] using ih

theorem Slots.put_mapItems (slots : Slots φ) (file : CodeText) (items : List φ) :
    (slots.mapItems f).put file (items.map f) = (slots.put file items).mapItems f := by
  induction slots with
  | nil => rfl
  | cons entry slots ih =>
      obtain ⟨other, old⟩ := entry
      by_cases hfile : other = file
      · simp [mapItems, put, hfile]
      · simpa [mapItems, put, hfile] using ih

end Stores
end FindingLedger
