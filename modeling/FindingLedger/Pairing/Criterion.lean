import FindingLedger.Finding.Basic
import FindingLedger.Pairing.Basic

/-!
# Criteria of sameness

Two occurrences are taken for the same issue when they agree under some criterion.  A criterion
reads a search key off an item, or nothing when the item lacks what the criterion compares; two
items agree when both have a key and the keys are equal.

Every criterion but the server key demands the same rule.  From the strongest to the weakest:

* `serverIssueKey`: the key that the server gave;
* `lineAndTextRangeHash`: line and hash of the text range;
* `textRangeHashAndMessage`: hash of the text range and message;
* `lineAndMessage`: line and message;
* `textRangeHash`: hash of the text range, so that a moved and reworded issue is found;
* `lineAndLineHash`: line and hash of the line;
* `lineHash`: hash of the line;
* `fileLevelMessage`: the message, between items without a location.
-/

namespace FindingLedger

/-- What criteria may read of an item. -/
structure Traits where
  ruleKey : String
  message : Option String
  line : Option Int
  hasTextRange : Bool
  lineHash : Option Int
  textRangeHash : Option Int
  serverIssueKey : Option String
deriving DecidableEq, Repr

/-- Items that criteria can be applied to. -/
class Matchable (α : Type) extends Identified α where
  traits : α → Traits

/-- The traits of a snapshot. -/
def Content.traits {σ τ π : Type} (c : Content σ τ π) : Traits where
  ruleKey := c.ruleKey
  message := some c.message
  line := c.line
  hasTextRange := c.textRange.isSome
  lineHash := c.lineHash
  textRangeHash := c.textRangeHash
  serverIssueKey := c.serverIssueKey

instance {π : Type} : Matchable (Finding π) where
  handle := Finding.handle
  traits f := f.toContent.traits

/-- An item of which only the handle and the traits are known. -/
structure Candidate where
  handle : Nat
  traits : Traits
deriving DecidableEq, Repr

instance : Matchable Candidate where
  handle := Candidate.handle
  traits := Candidate.traits

/-- One part of a search key. -/
inductive KeyPart
  | text (s : String)
  | number (n : Int)
deriving DecidableEq, Repr

/-- A search key: its parts in order.  The keys of a criterion begin with its name, so keys of
different criteria are never equal. -/
abbrev Key := List KeyPart

/-- A way to tell that two occurrences are the same issue. -/
inductive Criterion
  | serverIssueKey
  | lineAndTextRangeHash
  | textRangeHashAndMessage
  | lineAndMessage
  | textRangeHash
  | lineAndLineHash
  | lineHash
  | fileLevelMessage
deriving DecidableEq, Repr

namespace Criterion

/-- The name of a criterion. -/
def name : Criterion → String
  | serverIssueKey => "server_issue_key"
  | lineAndTextRangeHash => "line_and_text_range_hash"
  | textRangeHashAndMessage => "text_range_hash_and_message"
  | lineAndMessage => "line_and_message"
  | textRangeHash => "text_range_hash"
  | lineAndLineHash => "line_and_line_hash"
  | lineHash => "line_hash"
  | fileLevelMessage => "file_level_message"

/-- What a criterion compares of an item, if the item has all of it. -/
def parts (t : Traits) : Criterion → Option Key
  | serverIssueKey => do
      let key ← t.serverIssueKey
      return [.text key]
  | lineAndTextRangeHash => do
      let line ← t.line
      let hash ← t.textRangeHash
      return [.text t.ruleKey, .number line, .number hash]
  | textRangeHashAndMessage => do
      let hash ← t.textRangeHash
      let message ← t.message
      return [.text t.ruleKey, .text message, .number hash]
  | lineAndMessage => do
      let line ← t.line
      let message ← t.message
      return [.text t.ruleKey, .number line, .text message]
  | textRangeHash => do
      let hash ← t.textRangeHash
      return [.text t.ruleKey, .number hash]
  | lineAndLineHash => do
      let line ← t.line
      let hash ← t.lineHash
      return [.text t.ruleKey, .number line, .number hash]
  | lineHash => do
      let hash ← t.lineHash
      return [.text t.ruleKey, .number hash]
  | fileLevelMessage =>
      if t.line.isSome || t.hasTextRange then none
      else do
        let message ← t.message
        return [.text t.ruleKey, .text message]

/-- The search key of an item under a criterion. -/
def key (c : Criterion) (t : Traits) : Option Key :=
  (c.parts t).map (.text c.name :: ·)

/-- All criteria, strongest first. -/
def all : List Criterion :=
  [serverIssueKey, lineAndTextRangeHash, textRangeHashAndMessage, lineAndMessage, textRangeHash,
    lineAndLineHash, lineHash, fileLevelMessage]

/-- The criterion with the given name. -/
def ofName? (s : String) : Option Criterion :=
  all.find? fun c => decide (c.name = s)

/-- The criteria that compare locations. -/
def byLocation : List Criterion :=
  [lineAndTextRangeHash, textRangeHashAndMessage, lineAndMessage, textRangeHash, lineAndLineHash,
    lineHash]

/-- The criteria for a fresh analysis against the state before it. -/
def forAnalysis (fileLevel : Bool) : List Criterion :=
  byLocation ++ if fileLevel then [fileLevelMessage] else []

/-- The criteria for the issues of a server against the local state. -/
def forServer (fileLevel : Bool) : List Criterion :=
  serverIssueKey :: forAnalysis fileLevel

end Criterion
end FindingLedger
