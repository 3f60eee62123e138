import FindingLedger.Finding.Basic

/-!
# Outcomes of matching

What became of one finding, and the snapshot that follows from it.

* *combined*: a counterpart was found.  Identity and triage come from the counterpart, position
  and content from the finding itself.
* *leaked*: the finding is new, and its creation is dated now.
* *disconnected*: the finding was linked to the server, and the link is gone.
* *passthrough*: the finding stays the very same.

**Algorithm.**  `successor` is the content of the new snapshot, if there is one; `resolve` gives it
a handle.  `resolveAll` resolves a list in order, so new snapshots get consecutive handles.
-/

namespace FindingLedger

/-- The kinds of outcomes. -/
inductive OutcomeKind
  | combined
  | leaked
  | disconnected
  | passthrough
deriving DecidableEq, Repr

namespace OutcomeKind

/-- The kinds in the order in which they are listed. -/
def all : List OutcomeKind :=
  [combined, leaked, disconnected, passthrough]

/-- The name of a kind. -/
def name : OutcomeKind → String
  | combined => "combined"
  | leaked => "leaked"
  | disconnected => "disconnected"
  | passthrough => "passthrough"

end OutcomeKind

/-- What became of one finding. -/
inductive Outcome (π : Type)
  | combined (base moved : Finding π) (inheritSeverity : Bool)
  | leaked (item : Finding π) (now : Int)
  | disconnected (item : Finding π)
  | passthrough (item : Finding π)
deriving DecidableEq, Repr

/-- Position and content of `moved` with identity and triage of `base`.  An established creation
date is never lost; severity and type come from `base` only when they are inherited and known. -/
def Content.combine {π : Type} (base moved : Snapshot π) (inheritSeverity : Bool) : Snapshot π :=
  { moved with
    creationDate := base.creationDate <|> moved.creationDate
    serverIssueKey := base.serverIssueKey
    resolved := base.resolved
    severity := if inheritSeverity then base.severity <|> moved.severity else moved.severity
    issueType := if inheritSeverity then base.issueType <|> moved.issueType else moved.issueType }

namespace Outcome

variable {π : Type}

/-- The kind of an outcome. -/
def kind : Outcome π → OutcomeKind
  | combined _ _ _ => .combined
  | leaked _ _ => .leaked
  | disconnected _ => .disconnected
  | passthrough _ => .passthrough

/-- The finding that the outcome is about. -/
def subject : Outcome π → Finding π
  | combined _ moved _ => moved
  | leaked item _ => item
  | disconnected item => item
  | passthrough item => item

/-- The content of the new snapshot, if the outcome makes one. -/
def successor : Outcome π → Option (Snapshot π)
  | combined base moved inheritSeverity =>
      some (base.toContent.combine moved.toContent inheritSeverity)
  | leaked item now => some { item.toContent with creationDate := some now }
  | disconnected item => some { item.toContent with serverIssueKey := none, resolved := false }
  | passthrough _ => none

/-- The finding after the outcome, and the next handle. -/
def resolve (next : Nat) (o : Outcome π) : Finding π × Nat :=
  match o.successor with
  | some content => Finding.mint next content
  | none => (o.subject, next)

/-- The findings after a list of outcomes, and the next handle. -/
def resolveAll (next : Nat) : List (Outcome π) → List (Finding π) × Nat
  | [] => ([], next)
  | o :: os =>
      let resolved := o.resolve next
      let rest := resolveAll resolved.2 os
      (resolved.1 :: rest.1, rest.2)

/-- The outcome of a finding without a counterpart.  A link to the server is given up; a finding
without a date becomes a leak where leaks are allowed; everything else stays as it is. -/
def ofUnmatched (item : Finding π) (now : Int) (allowLeak : Bool) : Outcome π :=
  if item.serverIssueKey.isSome then disconnected item
  else if allowLeak && item.creationDate.isNone then leaked item now
  else passthrough item

end Outcome

/-- How many outcomes there are of each kind. -/
structure Tally where
  combined : Nat
  leaked : Nat
  disconnected : Nat
  passthrough : Nat
deriving DecidableEq, Repr

namespace Tally

/-- Counts outcomes by kind. -/
def ofOutcomes {π : Type} (os : List (Outcome π)) : Tally :=
  let count (k : OutcomeKind) := os.countP fun o => decide (o.kind = k)
  ⟨count .combined, count .leaked, count .disconnected, count .passthrough⟩

/-- The number of outcomes of one kind. -/
def count (t : Tally) : OutcomeKind → Nat
  | .combined => t.combined
  | .leaked => t.leaked
  | .disconnected => t.disconnected
  | .passthrough => t.passthrough

/-- The counts with the names of their kinds. -/
def named (t : Tally) : List (String × Nat) :=
  OutcomeKind.all.map fun k => (k.name, t.count k)

end Tally
end FindingLedger
