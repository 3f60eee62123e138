import FindingLedger.Text.Lines

/-!
# Text ranges and their excerpts

**Input.**  The lines of a source text and a range of positions in it.

**Algorithm.**  A position is a line, counted from one, and a column, counted from zero; the end
position is excluded.  `excerpt` is the covered text, with a line feed between two lines.

A range may hold any integers.  It has an excerpt when both positions lie in the text (a column
may equal the length of its line) and the end does not come before the start.
-/

namespace FindingLedger

/-- A range of positions in a source text. -/
structure TextRange where
  startLine : Int
  startColumn : Int
  endLine : Int
  endColumn : Int
deriving DecidableEq, Repr, Inhabited

namespace Text

/-- The column lies in the line or just behind it. -/
def columnFits (column : Int) (line : List Char) : Bool :=
  decide (0 ≤ column ∧ column ≤ line.length)

/-- The text from one column of a line up to another column of the same line. -/
def withinLine (line : List Char) (startColumn endColumn : Int) : Option (List Char) :=
  if endColumn < startColumn then none
  else some ((line.take endColumn.toNat).drop startColumn.toNat)

/-- The lines strictly between two line numbers. -/
def linesBetween (ls : List (List Char)) (startLine endLine : Int) : List (List Char) :=
  (ls.take (endLine - 1).toNat).drop startLine.toNat

/-- The text that a range covers, if both its positions exist and are in order. -/
def excerpt (ls : List (List Char)) (r : TextRange) : Option (List Char) :=
  match line? ls r.startLine, line? ls r.endLine with
  | some first, some last =>
      if r.startLine ≤ r.endLine ∧ columnFits r.startColumn first ∧ columnFits r.endColumn last then
        if r.startLine = r.endLine then withinLine first r.startColumn r.endColumn
        else
          some (joinWith '\n'
            (first.drop r.startColumn.toNat ::
              (linesBetween ls r.startLine r.endLine ++ [last.take r.endColumn.toNat])))
      else none
  | _, _ => none

end Text
end FindingLedger
