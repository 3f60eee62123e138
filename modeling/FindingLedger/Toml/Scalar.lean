import FindingLedger.Toml.ReadError
import FindingLedger.Toml.Text

/-!
# Numbers and moments of a document

**Algorithm.**  A reader takes the longest written form that it knows, and leaves the rest for the
caller to refuse.
* `moment` reads a date, a date with a time and perhaps an offset, or a time.  The date must exist.
* `number` reads an integer in base 16, 8, 2 or 10, or a decimal fraction, and counts the digits of
  a decimal integer; sign and underscores do not count.
* `scalar` tries a date first, then a time, a number, and the written infinities and not-a-numbers.
  It refuses a decimal integer with more digits than `digitLimit`.
-/

namespace FindingLedger
namespace Toml

/-- The decimal value of two digits. -/
def twoDigits (c d : Char) : Option Nat :=
  if c.isDigit && d.isDigit then some (10 * (c.toNat - 48) + (d.toNat - 48)) else none

/-- Two digits with a value in the given range. -/
def pairIn (low high : Nat) : List Char → Option (Nat × List Char)
  | c :: d :: cs =>
      match twoDigits c d with
      | some n => if low ≤ n ∧ n ≤ high then some (n, cs) else none
      | none => none
  | _ => none

/-- One given character. -/
def expect (c : Char) : List Char → Option (List Char)
  | [] => none
  | d :: cs => if d = c then some cs else none

/-- How many days a month has. -/
def daysIn (year month : Nat) : Nat :=
  if month = 2 then
    if year % 4 = 0 ∧ (year % 100 ≠ 0 ∨ year % 400 = 0) then 29 else 28
  else if month = 4 ∨ month = 6 ∨ month = 9 ∨ month = 11 then 30
  else 31

/-- Reads the form of a date; the value tells whether the date exists. -/
def date (cs : List Char) : Option (Bool × List Char) := do
  let (century, cs) ← pairIn 0 99 cs
  let (year, cs) ← pairIn 0 99 cs
  let (month, cs) ← pairIn 1 12 (← expect '-' cs)
  let (day, cs) ← pairIn 1 31 (← expect '-' cs)
  let year := 100 * century + year
  return (1 ≤ year && day ≤ daysIn year month, cs)

/-- Skips a point with digits, if there is one. -/
def skipFraction : List Char → List Char
  | '.' :: c :: cs => if c.isDigit then cs.dropWhile Char.isDigit else '.' :: c :: cs
  | cs => cs

/-- Reads a time of day. -/
def time (cs : List Char) : Option (List Char) := do
  let (_, cs) ← pairIn 0 23 cs
  let (_, cs) ← pairIn 0 59 (← expect ':' cs)
  let (_, cs) ← pairIn 0 59 (← expect ':' cs)
  return skipFraction cs

/-- Reads hours and minutes of an offset. -/
def hoursAndMinutes (cs : List Char) : Option (List Char) := do
  let (_, cs) ← pairIn 0 23 cs
  let (_, cs) ← pairIn 0 59 (← expect ':' cs)
  return cs

/-- Skips an offset, if there is one. -/
def skipOffset : List Char → List Char
  | [] => []
  | c :: cs =>
      if c = 'Z' ∨ c = 'z' then cs
      else if c = '+' ∨ c = '-' then (hoursAndMinutes cs).getD (c :: cs)
      else c :: cs

/-- Skips the time of day of a date, if there is one. -/
def skipTime : List Char → List Char
  | [] => []
  | c :: cs =>
      if c = 'T' ∨ c = 't' ∨ c = ' ' then
        match time cs with
        | some rest => skipOffset rest
        | none => c :: cs
      else c :: cs

/-- Skips further digits, each with at most one underscore before it. -/
def skipDigits (isDigit : Char → Bool) : List Char → List Char
  | [] => []
  | [c] => if isDigit c then [] else [c]
  | c :: d :: cs =>
      if isDigit c then skipDigits isDigit (d :: cs)
      else if c = '_' ∧ isDigit d then skipDigits isDigit cs
      else c :: d :: cs

/-- Reads one digit and further digits, each with at most one underscore before it. -/
def digits (isDigit : Char → Bool) : List Char → Option (List Char)
  | [] => none
  | c :: cs => if isDigit c then some (skipDigits isDigit cs) else none

/-- Skips a decimal point with digits, if there is one. -/
def skipDecimals : List Char → List Char
  | '.' :: cs => (digits Char.isDigit cs).getD ('.' :: cs)
  | cs => cs

/-- Skips a sign, if there is one. -/
def skipSign : List Char → List Char
  | [] => []
  | c :: cs => if c = '+' ∨ c = '-' then cs else c :: cs

/-- Skips an exponent, if there is one. -/
def skipExponent : List Char → List Char
  | [] => []
  | c :: cs =>
      if c = 'e' ∨ c = 'E' then (digits Char.isDigit (skipSign cs)).getD (c :: cs) else c :: cs

/-- Reads a number in base 16, 8 or 2. -/
def basedNumber : List Char → Option (List Char)
  | '0' :: 'x' :: cs => digits (fun c => (hexValue? c).isSome) cs
  | '0' :: 'o' :: cs => digits (fun c => decide ('0' ≤ c ∧ c ≤ '7')) cs
  | '0' :: 'b' :: cs => digits (fun c => decide (c = '0' ∨ c = '1')) cs
  | _ => none

/-- How many digits stand between a place and a later one. -/
def digitsUpTo (cs rest : List Char) : Nat :=
  (cs.take (cs.length - rest.length)).countP Char.isDigit

/-- Reads the whole part of a number in base 10; only a zero alone may begin with zero. -/
def wholePart : List Char → Option (List Char)
  | '0' :: cs => some cs
  | cs => digits Char.isDigit cs

/-- Reads a number in base 10.  The count is that of its digits when it is an integer, and zero
when it has a fraction or an exponent. -/
def decimalNumber (cs : List Char) : Option (Nat × List Char) :=
  (wholePart (skipSign cs)).map fun whole =>
    let rest := skipExponent (skipDecimals whole)
    (if rest.length = whole.length then digitsUpTo cs whole else 0, rest)

/-- Reads a number; the count is that of the digits of a decimal integer, and zero otherwise. -/
def number (cs : List Char) : Option (Nat × List Char) :=
  (basedNumber cs).map (fun rest => (0, rest)) <|> decimalNumber cs

/-- Reads a written infinity or not-a-number. -/
def specialNumber (cs : List Char) : Option (List Char) :=
  match skipSign cs with
  | 'i' :: 'n' :: 'f' :: rest => some rest
  | 'n' :: 'a' :: 'n' :: rest => some rest
  | _ => none

/-- The text between a place and a later one. -/
def textUpTo (cs rest : List Char) : String :=
  String.ofList (cs.take (cs.length - rest.length))

/-- Reads a moment or a number. -/
def scalar (cs : List Char) : Except ReadError (Value × List Char) :=
  match date cs with
  | some (true, rest) => .ok (.moment (textUpTo cs (skipTime rest)), skipTime rest)
  | some (false, _) => .error .malformed
  | none =>
      match time cs with
      | some rest => .ok (.moment (textUpTo cs rest), rest)
      | none =>
          match number cs with
          | some (count, rest) =>
              if digitLimit < count then .error (.tooManyDigits count)
              else .ok (.number (textUpTo cs rest), rest)
          | none => (require (specialNumber cs)).map fun rest => (.number (textUpTo cs rest), rest)

end Toml
end FindingLedger
