import FindingLedger.CodeText
import FindingLedger.Decimal

/-!
# JSON in ASCII

**Input.**  A JSON value of the kinds that audit records need.  Its texts may hold surrogates.

**Algorithm.**  `render` writes a value on one line of printable ASCII characters.
* Members of an object are sorted by key, by code point; `, ` and `: ` separate.
* `escape` writes every code point outside U+0020 to U+007E, the quote and the backslash as an
  escape; code points above U+FFFF become a surrogate pair.

`render?` is `render` for the values that can be written: an integer must not have more digits than
`digitLimit`.
-/

namespace FindingLedger
namespace Json

/-- A JSON value. -/
inductive Value
  | boolean (b : Bool)
  | integer (n : Int)
  | text (t : CodeText)
  | object (members : List (String × Value))

/-- The lower-case hexadecimal digit of a number below sixteen. -/
def hexDigit (n : Nat) : Char :=
  if n < 10 then Char.ofNat (48 + n) else Char.ofNat (87 + n)

/-- The escape of a 16-bit unit by its four hexadecimal digits. -/
def escapeUnit (n : Nat) : List Char :=
  ['\\', 'u', hexDigit (n / 4096 % 16), hexDigit (n / 256 % 16), hexDigit (n / 16 % 16),
    hexDigit (n % 16)]

/-- One code point inside a JSON string. -/
def escape (p : CodePoint) : List Char :=
  if p.val = 0x22 then ['\\', '"']
  else if p.val = 0x5C then ['\\', '\\']
  else if p.val = 0x0A then ['\\', 'n']
  else if p.val = 0x0D then ['\\', 'r']
  else if p.val = 0x09 then ['\\', 't']
  else if p.val = 0x08 then ['\\', 'b']
  else if p.val = 0x0C then ['\\', 'f']
  else if 0x20 ≤ p.val ∧ p.val ≤ 0x7E then [Char.ofNat p.val]
  else if p.val < 0x10000 then escapeUnit p.val
  else
    escapeUnit (0xD800 + (p.val - 0x10000) / 0x400) ++
      escapeUnit (0xDC00 + (p.val - 0x10000) % 0x400)

/-- A text as a JSON string. -/
def quote (t : CodeText) : List Char :=
  '"' :: (t.points.flatMap escape ++ ['"'])

/-- Puts a member in front of the first one with a greater or equal key. -/
def insertMember {α : Type} (m : String × α) : List (String × α) → List (String × α)
  | [] => [m]
  | x :: xs => if x.1 < m.1 then x :: insertMember m xs else m :: x :: xs

/-- Members sorted by key. -/
def sortMembers {α : Type} : List (String × α) → List (String × α)
  | [] => []
  | m :: ms => insertMember m (sortMembers ms)

/-- A member of an object, its value already written. -/
def renderMember (m : String × List Char) : List Char :=
  quote m.1 ++ (':' :: ' ' :: m.2)

/-- Written members with separators between them. -/
def joinMembers : List (List Char) → List Char
  | [] => []
  | [m] => m
  | m :: n :: ms => m ++ (',' :: ' ' :: joinMembers (n :: ms))

mutual

/-- The written form of a value. -/
def render : Value → List Char
  | .boolean true => ['t', 'r', 'u', 'e']
  | .boolean false => ['f', 'a', 'l', 's', 'e']
  | .integer n => decimal n
  | .text t => quote t
  | .object members =>
      '{' :: (joinMembers ((sortMembers (renderValues members)).map renderMember) ++ ['}'])

/-- Members with their values written. -/
def renderValues : List (String × Value) → List (String × List Char)
  | [] => []
  | (key, value) :: members => (key, render value) :: renderValues members

end

mutual

/-- The integers in a value. -/
def Value.integers : Value → List Int
  | .integer n => [n]
  | .object members => memberIntegers members
  | _ => []

/-- The integers in the values of members. -/
def memberIntegers : List (String × Value) → List Int
  | [] => []
  | (_, value) :: members => value.integers ++ memberIntegers members

end

/-- The written form of a value, if it can be written. -/
def render? (v : Value) : Option (List Char) :=
  if ∀ n ∈ v.integers, ¬ TooLong n then some (render v) else none

end Json
end FindingLedger
