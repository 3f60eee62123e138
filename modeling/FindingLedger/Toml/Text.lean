import FindingLedger.Toml.Value

/-!
# Blanks, comments, strings and keys of a document

Every reader takes the characters that are left and gives what it read together with the rest, or
nothing when the document is malformed.

**Algorithm.**
* `skipComment` and `skipBetween` skip comments and the space between the items of an array.
* `quoted` reads a basic string character by character; its `Mode` tells what the characters
  before mean for the next one.
* `literal` and `literalBlock` read strings without escapes.
* `key` reads a dotted key.
-/

namespace FindingLedger
namespace Toml

/-- A space or a tab. -/
def isGap (c : Char) : Bool :=
  c = ' ' || c = '\t'

/-- A space, a tab or a line feed. -/
def isSpace (c : Char) : Bool :=
  isGap c || c = '\n'

/-- A character that may stand in a comment or in a string of one line. -/
def isPlain (c : Char) : Bool :=
  c = '\t' || (0x20 ≤ c.toNat && c.toNat ≠ 0x7F)

/-- Skips spaces and tabs. -/
def skipGaps (cs : List Char) : List Char :=
  cs.dropWhile isGap

/-- Skips a comment, up to the end of its line. -/
def skipComment : List Char → Option (List Char)
  | '#' :: cs =>
      match cs.dropWhile isPlain with
      | [] => some []
      | c :: rest => if c = '\n' then some (c :: rest) else none
  | cs => some cs

/-- Skips space and comments; the first argument tells whether a comment has begun. -/
def skipBetween : Bool → List Char → Option (List Char)
  | _, [] => some []
  | true, c :: cs =>
      if c = '\n' then skipBetween false cs
      else if isPlain c then skipBetween true cs
      else none
  | false, c :: cs =>
      if isSpace c then skipBetween false cs
      else if c = '#' then skipBetween true cs
      else some (c :: cs)

/-- The quote of a literal string. -/
def apostrophe : Char := '\x27'

/-- Puts a character in front of what was read. -/
def push (c : Char) (r : Option (List Char × List Char)) : Option (List Char × List Char) :=
  r.map fun t => (c :: t.1, t.2)

/-- After three closing quotes, up to two more belong to the string. -/
def closing (quote : Char) : List Char → List Char × List Char
  | [] => ([], [])
  | [c] => if c = quote then ([c], []) else ([], [c])
  | c :: d :: cs =>
      if c = quote then
        if d = quote then ([c, d], cs) else ([c], d :: cs)
      else ([], c :: d :: cs)

/-- The value of a hexadecimal digit. -/
def hexValue? (c : Char) : Option Nat :=
  if '0' ≤ c ∧ c ≤ '9' then some (c.toNat - 48)
  else if 'a' ≤ c ∧ c ≤ 'f' then some (c.toNat - 87)
  else if 'A' ≤ c ∧ c ≤ 'F' then some (c.toNat - 55)
  else none

/-- The character with the given code point. -/
def scalar? (n : Nat) : Option Char :=
  if n.isValidChar then some (Char.ofNat n) else none

/-- The character that a backslash and one more character stand for. -/
def escaped? (c : Char) : Option Char :=
  if c = 'b' then some '\x08'
  else if c = 't' then some '\t'
  else if c = 'n' then some '\n'
  else if c = 'f' then some '\x0C'
  else if c = 'r' then some '\r'
  else if c = '"' then some '"'
  else if c = '\\' then some '\\'
  else none

/-- What the characters before mean for the next one: nothing, a backslash, some digits of a
numeric escape with more to come, or a line that is continued, before and after its line feed. -/
inductive Mode
  | plain
  | backslash
  | hex (left value : Nat)
  | beforeFeed
  | afterFeed
deriving DecidableEq

/-- Reads a basic string after its opening quotes; `block` tells that there were three. -/
def quoted (block : Bool) : Mode → List Char → Option (List Char × List Char)
  | _, [] => none
  | .backslash, c :: cs =>
      if c = 'u' then quoted block (.hex 4 0) cs
      else if c = 'U' then quoted block (.hex 8 0) cs
      else if block && c = '\n' then quoted block .afterFeed cs
      else if block && isGap c then quoted block .beforeFeed cs
      else
        match escaped? c with
        | some d => push d (quoted block .plain cs)
        | none => none
  | .hex left value, c :: cs =>
      match hexValue? c with
      | none => none
      | some d =>
          if left ≤ 1 then
            match scalar? (16 * value + d) with
            | some e => push e (quoted block .plain cs)
            | none => none
          else quoted block (.hex (left - 1) (16 * value + d)) cs
  | .beforeFeed, c :: cs =>
      if isGap c then quoted block .beforeFeed cs
      else if c = '\n' then quoted block .afterFeed cs
      else none
  | mode, c :: cs =>
      if mode = .afterFeed ∧ isSpace c then quoted block .afterFeed cs
      else if c = '\\' then quoted block .backslash cs
      else if c = '"' then
        if block then
          match cs with
          | '"' :: '"' :: rest => some (closing '"' rest)
          | _ => push c (quoted block .plain cs)
        else some ([], cs)
      else if isPlain c || (block && c = '\n') then push c (quoted block .plain cs)
      else none

/-- Reads a literal string of one line after its opening quote. -/
def literal : List Char → Option (List Char × List Char)
  | [] => none
  | c :: cs =>
      if c = apostrophe then some ([], cs)
      else if isPlain c then push c (literal cs)
      else none

/-- Reads a literal string of several lines after its opening quotes. -/
def literalBlock : List Char → Option (List Char × List Char)
  | [] => none
  | c :: cs =>
      if c = apostrophe ∧ cs.take 2 = [apostrophe, apostrophe] then
        some (closing apostrophe (cs.drop 2))
      else if isPlain c || c = '\n' then push c (literalBlock cs)
      else none

/-- A line feed right after the opening quotes of a string of several lines is dropped. -/
def dropFirstFeed : List Char → List Char
  | '\n' :: cs => cs
  | cs => cs

/-- A character of a key without quotes. -/
def isBare (c : Char) : Bool :=
  c.isAlphanum || c = '-' || c = '_'

/-- Reads one part of a key. -/
def keyPart : List Char → Option (String × List Char)
  | [] => none
  | c :: cs =>
      if isBare c then
        some (String.ofList ((c :: cs).takeWhile isBare), (c :: cs).dropWhile isBare)
      else if c = '"' then (quoted false .plain cs).map fun t => (String.ofList t.1, t.2)
      else if c = apostrophe then (literal cs).map fun t => (String.ofList t.1, t.2)
      else none

/-- Reads a dotted key of at most `fuel` parts, with the space behind it. -/
def keyParts : Nat → List Char → Option (Key × List Char)
  | 0, _ => none
  | fuel + 1, cs => do
      let (part, rest) ← keyPart cs
      match skipGaps rest with
      | '.' :: rest => do
          let (parts, rest) ← keyParts fuel (skipGaps rest)
          return (part :: parts, rest)
      | rest => return ([part], rest)

/-- Reads a dotted key with the space behind it. -/
def key (cs : List Char) : Option (Key × List Char) :=
  keyParts cs.length cs

end Toml
end FindingLedger
