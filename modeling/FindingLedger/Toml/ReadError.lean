import FindingLedger.Decimal

/-!
# Reading errors

Why a document was not read.  Readers go through a document from front to back, so the first fault
in the text is the one that is reported.

A reader of a small part, such as a comment or a string, knows one fault only and gives an option;
`require` takes such a part into a reader of a whole.
-/

namespace FindingLedger
namespace Toml

/-- A document is malformed, holds a decimal integer of too many digits, or nests too deep. -/
inductive ReadError
  | malformed
  | tooManyDigits (count : Nat)
  | tooDeep
deriving DecidableEq, Repr

/-- The text of a reading error; a malformed document is reported without one. -/
def ReadError.message? : ReadError → Option String
  | malformed => none
  | tooManyDigits count =>
      some (digitLimitMessage (": value has " ++ toString count ++ " digits"))
  | tooDeep => some "maximum recursion depth exceeded"

/-- A document without a part that has to be there is malformed. -/
def require {α : Type} : Option α → Except ReadError α
  | some a => .ok a
  | none => .error .malformed

end Toml
end FindingLedger
