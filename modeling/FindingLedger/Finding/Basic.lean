import FindingLedger.Finding.Label
import FindingLedger.Text.Excerpt

/-!
# Findings

A finding is one snapshot of one occurrence of an issue.  Two snapshots with the same content are
still two findings: a finding is known by its handle, a number that no other snapshot has.

**Input.**  A draft: the content of a snapshot, with severity and type as they were written.

**Algorithm.**  `build` checks the two labels of a draft, the severity first, and gives the
accepted content the next handle.  The handle is used up even when the draft is rejected.

**Results.**
* `check_eq_ok_iff`: a draft is accepted exactly when it is the written form of some content.
-/

namespace FindingLedger

/-- What is known about one occurrence of an issue.  `σ` and `τ` are the forms in which severity
and type are held; `π` is the payload of the client, which is kept and never looked at. -/
structure Content (σ τ π : Type) where
  ruleKey : String
  message : String
  line : Option Int
  textRange : Option TextRange
  lineHash : Option Int
  textRangeHash : Option Int
  creationDate : Option Int
  serverIssueKey : Option String
  resolved : Bool
  severity : Option σ
  issueType : Option τ
  payload : π
deriving DecidableEq, Repr

/-- Content as a client writes it, with labels that may be wrong. -/
abbrev Draft (π : Type) := Content String String π

/-- Content with labels that are known to be right. -/
abbrev Snapshot (π : Type) := Content Severity IssueType π

/-- One snapshot of an occurrence, with the handle by which it is known. -/
structure Finding (π : Type) extends Content Severity IssueType π where
  handle : Nat
deriving DecidableEq, Repr

/-- Why a finding was not built. -/
inductive Rejection
  | unknownSeverity (written : String)
  | unknownIssueType (written : String)
  | handleGiven
  | unknownField (name : String)
deriving DecidableEq, Repr

/-- The text of a rejection. -/
def Rejection.message : Rejection → String
  | unknownSeverity written => "Unknown severity: " ++ written
  | unknownIssueType written => "Unknown issue type: " ++ written
  | handleGiven =>
      "field handle is declared with init=False, it cannot be specified with replace()"
  | unknownField name =>
      "Trackable.__init__() got an unexpected keyword argument '" ++ name ++ "'"

namespace Content

variable {σ τ π : Type}

/-- The finding concerns the whole file: it has neither a line nor a text range. -/
def isFileLevel (c : Content σ τ π) : Bool :=
  c.line.isNone && c.textRange.isNone

/-- The written form of a snapshot. -/
def draft (c : Snapshot π) : Draft π where
  ruleKey := c.ruleKey
  message := c.message
  line := c.line
  textRange := c.textRange
  lineHash := c.lineHash
  textRangeHash := c.textRangeHash
  creationDate := c.creationDate
  serverIssueKey := c.serverIssueKey
  resolved := c.resolved
  severity := c.severity.map Severity.name
  issueType := c.issueType.map IssueType.name
  payload := c.payload

end Content

/-- Reads an optional label; an unknown one is rejected. -/
def readLabel {α : Type} (ofName? : String → Option α) (reject : String → Rejection) :
    Option String → Except Rejection (Option α)
  | none => .ok none
  | some s =>
      match ofName? s with
      | some a => .ok (some a)
      | none => .error (reject s)

namespace Draft

variable {π : Type}

/-- The content of a draft with its labels read, the severity before the type. -/
def check (d : Draft π) : Except Rejection (Snapshot π) :=
  match readLabel Severity.ofName? .unknownSeverity d.severity with
  | .error e => .error e
  | .ok severity =>
      match readLabel IssueType.ofName? .unknownIssueType d.issueType with
      | .error e => .error e
      | .ok issueType =>
          .ok { d with severity := severity, issueType := issueType }

end Draft

namespace Finding

variable {π : Type}

/-- Gives the next handle to content; the next handle after it comes second. -/
def mint (next : Nat) (content : Snapshot π) : Finding π × Nat :=
  (⟨content, next⟩, next + 1)

/-- Builds a finding from a draft; the handle is used up in any case. -/
def build (next : Nat) (d : Draft π) : Except Rejection (Finding π) × Nat :=
  match Draft.check d with
  | .ok content => (.ok (mint next content).1, (mint next content).2)
  | .error e => (.error e, next + 1)

end Finding

section Checking

variable {π : Type}

theorem readLabel_eq_ok_iff {α : Type} {ofName? : String → Option α} {name : α → String}
    (reject : String → Rejection) (hread : ∀ s a, ofName? s = some a ↔ name a = s)
    (written : Option String) (label : Option α) :
    readLabel ofName? reject written = .ok label ↔ written = label.map name := by
  cases written with
  | none => cases label <;> simp [readLabel]
  | some s =>
      cases hs : ofName? s with
      | none =>
          simp only [readLabel, hs]
          constructor
          · intro h
            simp at h
          · intro h
            cases label with
            | none => simp at h
            | some a =>
                have := (hread s a).2 (by simpa using h.symm)
                simp [hs] at this
      | some a =>
          have ha := (hread s a).1 hs
          simp only [readLabel, hs, Except.ok.injEq]
          constructor
          · rintro rfl
            simp [ha]
          · intro h
            cases label with
            | none => simp at h
            | some b =>
                have hb := (hread s b).2 (by simpa using h.symm)
                simp_all

theorem Draft.check_eq_ok_iff {d : Draft π} {c : Snapshot π} :
    Draft.check d = .ok c ↔ d = c.draft := by
  have hs := readLabel_eq_ok_iff .unknownSeverity
    (fun _ _ => Severity.ofName?_eq_some_iff) d.severity
  have ht := readLabel_eq_ok_iff .unknownIssueType
    (fun _ _ => IssueType.ofName?_eq_some_iff) d.issueType
  constructor
  · intro h
    unfold Draft.check at h
    split at h
    · simp at h
    · rename_i severity hsev
      split at h
      · simp at h
      · rename_i issueType htyp
        have hc := Except.ok.inj h
        subst hc
        have h₁ := (hs severity).1 hsev
        have h₂ := (ht issueType).1 htyp
        cases d
        simp_all [Content.draft]
  · rintro rfl
    have h₁ : readLabel Severity.ofName? .unknownSeverity c.draft.severity = .ok c.severity :=
      (hs c.severity).2 rfl
    have h₂ : readLabel IssueType.ofName? .unknownIssueType c.draft.issueType = .ok c.issueType :=
      (ht c.issueType).2 rfl
    simp only [Draft.check, h₁, h₂]
    rfl

end Checking
end FindingLedger
