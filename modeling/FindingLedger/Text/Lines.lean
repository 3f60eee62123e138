import FindingLedger.Text.Split

/-!
# Lines of a source text

**Input.**  A source text, as a list of characters.

**Algorithm.**  A line ends at a line feed, at a carriage return, or at a carriage return that a
line feed follows at once, and at nothing else.
* `joinPairs` makes one line feed of each carriage return with its line feed.
* `unifyBreaks` then makes a line feed of every carriage return that is left.
* `lines` cuts at each line feed and drops an empty last piece, since a final line break opens no
  further line; the empty text keeps its one empty line.
-/

namespace FindingLedger
namespace Text

/-- Every carriage return that a line feed follows becomes one line feed with it. -/
def joinPairs : List Char → List Char
  | [] => []
  | [c] => [c]
  | c :: d :: cs =>
      if c = '\r' ∧ d = '\n' then '\n' :: joinPairs cs else c :: joinPairs (d :: cs)

/-- A carriage return becomes a line feed. -/
def feedOfReturn (c : Char) : Char :=
  if c = '\r' then '\n' else c

/-- The text with every line break written as one line feed. -/
def unifyBreaks (cs : List Char) : List Char :=
  (joinPairs cs).map feedOfReturn

/-- Drops an empty last piece, unless it is the only one. -/
def dropEmptyLast : List (List Char) → List (List Char)
  | [] => []
  | [p] => [p]
  | p :: q :: ps => if ps = [] ∧ q = [] then [p] else p :: dropEmptyLast (q :: ps)

/-- The lines of a source text, without their line breaks. -/
def lines (cs : List Char) : List (List Char) :=
  dropEmptyLast (pieces '\n' (unifyBreaks cs))

/-- The line with the given number, counted from one. -/
def line? (ls : List (List Char)) (n : Int) : Option (List Char) :=
  if n < 1 then none else ls[(n - 1).toNat]?

end Text
end FindingLedger
