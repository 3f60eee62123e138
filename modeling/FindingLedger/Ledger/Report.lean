import FindingLedger.CodeText
import FindingLedger.Ledger.Outcome

/-!
# Reports

The numbers of one successful call on a ledger.
-/

namespace FindingLedger

/-- The calls that change the state of a file. -/
inductive Operation
  | track
  | rebase
deriving DecidableEq, Repr

namespace Operation

/-- The operations in the order in which they are listed. -/
def all : List Operation :=
  [track, rebase]

/-- The name under which an operation is reported. -/
def name : Operation → String
  | track => "track_new_findings"
  | rebase => "rebase_against_external"

end Operation

/-- What one call did, in numbers. -/
structure Report where
  operation : Operation
  file : CodeText
  firstAnalysis : Bool
  inputCount : Nat
  outputCount : Nat
  counts : Tally
  dropped : Nat
deriving DecidableEq, Repr

end FindingLedger
