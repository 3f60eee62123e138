/-!
# Integers in decimal digits

Settings documents and audit records hold integers in decimal digits.  There is no bound on an
integer, but there is one on its written form: an integer of more than `digitLimit` digits is
neither read nor written.
-/

namespace FindingLedger

/-- The greatest number of digits that a decimal integer may have; its sign is not counted. -/
def digitLimit : Nat := 4300

/-- The text of the error about an integer of too many digits, with a remark about the integer. -/
def digitLimitMessage (remark : String) : String :=
  "Exceeds the limit (" ++ toString digitLimit ++ " digits) for integer string conversion" ++
    remark ++ "; use sys.set_int_max_str_digits() to increase the limit"

/-- An integer in decimal digits. -/
def decimal : Int → List Char
  | .ofNat n => Nat.toDigits 10 n
  | .negSucc n => '-' :: Nat.toDigits 10 (n + 1)

/-- The integer has more digits than can be written. -/
def TooLong (n : Int) : Prop :=
  digitLimit < (Nat.toDigits 10 n.natAbs).length

instance (n : Int) : Decidable (TooLong n) :=
  inferInstanceAs (Decidable (_ < _))

end FindingLedger
