import FindingLedger.Finding.Basic

/-!
# Changing a finding

A finding never changes.  `evolve` builds a new one, with a handle of its own, from the content of
a given one and a list of changes.

**Algorithm.**  A list that names the handle is refused first, then one that names a field which
findings do not have; these two use up no handle.  Otherwise the changes are made in order on the
written form of the content, later ones winning, and the result is built like any other draft.
-/

namespace FindingLedger

/-- One change of one field; `handle` and `unknown` are changes that no finding allows. -/
inductive Change (π : Type)
  | ruleKey (value : String)
  | message (value : String)
  | line (value : Option Int)
  | textRange (value : Option TextRange)
  | lineHash (value : Option Int)
  | textRangeHash (value : Option Int)
  | creationDate (value : Option Int)
  | serverIssueKey (value : Option String)
  | resolved (value : Bool)
  | severity (value : Option String)
  | issueType (value : Option String)
  | payload (value : π)
  | handle
  | unknown (field : String)

namespace Change

variable {π : Type}

/-- The change names the handle. -/
def isHandle : Change π → Bool
  | handle => true
  | _ => false

/-- The name of the field that findings do not have, for a change of such a field. -/
def unknownField? : Change π → Option String
  | unknown field => some field
  | _ => none

/-- The draft with one field changed. -/
def apply (d : Draft π) : Change π → Draft π
  | ruleKey v => { d with ruleKey := v }
  | message v => { d with message := v }
  | line v => { d with line := v }
  | textRange v => { d with textRange := v }
  | lineHash v => { d with lineHash := v }
  | textRangeHash v => { d with textRangeHash := v }
  | creationDate v => { d with creationDate := v }
  | serverIssueKey v => { d with serverIssueKey := v }
  | resolved v => { d with resolved := v }
  | severity v => { d with severity := v }
  | issueType v => { d with issueType := v }
  | payload v => { d with payload := v }
  | handle => d
  | unknown _ => d

/-- Why a list of changes is refused before anything is built. -/
def refusal? (changes : List (Change π)) : Option Rejection :=
  if changes.any isHandle then some .handleGiven
  else (changes.findSome? unknownField?).map .unknownField

end Change

namespace Finding

variable {π : Type}

/-- A new finding with the changed content of a given one. -/
def evolve (next : Nat) (f : Finding π) (changes : List (Change π)) :
    Except Rejection (Finding π) × Nat :=
  match Change.refusal? changes with
  | some e => (.error e, next)
  | none => build next (changes.foldl Change.apply f.toContent.draft)

end Finding
end FindingLedger
