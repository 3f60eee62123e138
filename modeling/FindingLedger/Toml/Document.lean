import FindingLedger.Text.Lines
import FindingLedger.Toml.Scalar

/-!
# Documents

**Input.**  The text of a document: key and value statements under table headers.

**Algorithm.**  `statements` reads the document statement by statement into a `Document`, which
holds the tables read so far and the marks that keep a key from being defined twice:
* a *declared* key is a table with a header of its own, or one that dotted keys of an earlier
  table have opened; it cannot be declared again, nor opened by a dotted key;
* a *frozen* key holds an array or an inline table; nothing can be added at it or below it;
* the keys that the dotted keys of the current table open are *pending*, and are declared when
  the next header comes.

A header of an array of tables starts a new table, for which all marks at the key and below it
are taken away.

Arrays and inline tables nest, but not without end: `value` takes the room that is left, and a
value without room is too deep.  The items of one container take fuel, for which the length of the
rest is always enough.
-/

namespace FindingLedger
namespace Toml

/-- Reads a value; the reader of nested values is a parameter of the readers of containers. -/
abbrev ValueReader := List Char → Except ReadError (Value × List Char)

/-- Reads a key, an equals sign and a value. -/
def keyValue (value : ValueReader) (cs : List Char) :
    Except ReadError (Key × Value × List Char) := do
  let (k, rest) ← require (key cs)
  let rest ← require (expect '=' rest)
  let (v, rest) ← value (skipGaps rest)
  return (k, v, rest)

/-- Reads the items of an array that is not empty, up to its closing bracket. -/
def arrayItems (value : ValueReader) : Nat → List Char → Except ReadError (List Value × List Char)
  | 0, _ => .error .malformed
  | fuel + 1, cs => do
      let (v, rest) ← value cs
      match ← require (skipBetween false rest) with
      | ']' :: rest => return ([v], rest)
      | ',' :: rest =>
          match ← require (skipBetween false rest) with
          | ']' :: rest => return ([v], rest)
          | rest => do
              let (vs, rest) ← arrayItems value fuel rest
              return (v :: vs, rest)
      | _ => .error .malformed

/-- Reads an array after its opening bracket. -/
def array (value : ValueReader) (fuel : Nat) (cs : List Char) :
    Except ReadError (Value × List Char) := do
  match ← require (skipBetween false cs) with
  | ']' :: rest => return (.array [], rest)
  | rest => do
      let (items, rest) ← arrayItems value fuel rest
      return (.array items, rest)

/-- A container cannot be added to once it is written. -/
def isContainer : Value → Bool
  | .array _ => true
  | .table _ => true
  | _ => false

/-- One of the keys is the given one or leads to it. -/
def coveredBy (keys : List Key) (k : Key) : Bool :=
  keys.any fun marked => marked.isPrefixOf k

/-- Reads the members of an inline table that is not empty, up to its closing brace. -/
def inlineMembers (value : ValueReader) :
    Nat → List Key → Table → List Char → Except ReadError (Table × List Char)
  | 0, _, _, _ => .error .malformed
  | fuel + 1, frozen, t, cs => do
      let (k, v, rest) ← keyValue value cs
      if coveredBy frozen k then .error .malformed
      else
        let t ← require (Table.place false v k t)
        match skipGaps rest with
        | '}' :: rest => return (t, rest)
        | ',' :: rest =>
            inlineMembers value fuel (if isContainer v then k :: frozen else frozen) t
              (skipGaps rest)
        | _ => .error .malformed

/-- Reads an inline table after its opening brace. -/
def inlineTable (value : ValueReader) (fuel : Nat) (cs : List Char) :
    Except ReadError (Value × List Char) :=
  match skipGaps cs with
  | '}' :: rest => .ok (.table [], rest)
  | rest => do
      let (t, rest) ← inlineMembers value fuel [] [] rest
      return (.table t, rest)

/-- A read text as a value. -/
def ofText (r : Option (List Char × List Char)) : Except ReadError (Value × List Char) :=
  (require r).map fun t => (.text (String.ofList t.1), t.2)

/-- The room of a whole value. -/
def nestingRoom : Nat := 986

/-- Reads a value that has some room.  It has to be more than two; an array takes two of it from
its items, and an inline table three from its members. -/
def value : Nat → ValueReader
  | 0, _ | 1, _ | 2, _ => .error .tooDeep
  | room + 3, cs =>
      match cs with
      | '"' :: '"' :: '"' :: rest => ofText (quoted true .plain (dropFirstFeed rest))
      | '"' :: rest => ofText (quoted false .plain rest)
      | '[' :: rest => array (value (room + 1)) rest.length rest
      | '{' :: rest => inlineTable (value room) rest.length rest
      | 't' :: 'r' :: 'u' :: 'e' :: rest => .ok (.boolean true, rest)
      | 'f' :: 'a' :: 'l' :: 's' :: 'e' :: rest => .ok (.boolean false, rest)
      | c :: rest =>
          if c = apostrophe then
            if rest.take 2 = [apostrophe, apostrophe] then
              ofText (literalBlock (dropFirstFeed (rest.drop 2)))
            else ofText (literal rest)
          else scalar cs
      | [] => .error .malformed

/-- The tables read so far, the marks, and the key of the current table. -/
structure Document where
  root : Table
  declared : List Key
  frozen : List Key
  pending : List Key
  header : Key

namespace Document

/-- Nothing has been read. -/
def empty : Document :=
  ⟨[], [], [], [], []⟩

/-- A header ends the current table: the keys that it opened are declared. -/
def settlePending (d : Document) : Document :=
  { d with declared := d.pending ++ d.declared, pending := [] }

/-- Declares a table. -/
def declare (d : Document) (k : Key) : Option Document :=
  if d.declared.contains k || coveredBy d.frozen k then none
  else do
    let root ← Table.openAt k d.root
    return { d with root := root, declared := k :: d.declared, header := k }

/-- Declares one more table of an array of tables. -/
def declareNext (d : Document) (k : Key) : Option Document :=
  if coveredBy d.frozen k then none
  else do
    let root ← Table.appendAt k d.root
    let outside := fun marked => !k.isPrefixOf marked
    return { d with
      root := root
      declared := k :: d.declared.filter outside
      frozen := d.frozen.filter outside
      header := k }

/-- The keys that a dotted key opens below the current table. -/
def openedBy (d : Document) (k : Key) : List Key :=
  (List.range (k.length - 1)).map fun i => d.header ++ k.take (i + 1)

/-- Adds a member to the current table. -/
def add (d : Document) (k : Key) (v : Value) : Option Document :=
  if (d.openedBy k).any d.declared.contains || coveredBy d.frozen (d.header ++ k.dropLast) then none
  else do
    let root ← Table.place true v (d.header ++ k) d.root
    return { d with
      root := root
      frozen := if isContainer v then (d.header ++ k) :: d.frozen else d.frozen
      pending := d.openedBy k ++ d.pending }

/-- Reads one statement, which begins with the first of the given characters. -/
def statement (d : Document) : List Char → Except ReadError (Document × List Char)
  | '[' :: '[' :: cs => do
      let (k, rest) ← require (key (skipGaps cs))
      let d ← require (d.settlePending.declareNext k)
      let rest ← require (expect ']' rest)
      let rest ← require (expect ']' rest)
      return (d, skipGaps rest)
  | '[' :: cs => do
      let (k, rest) ← require (key (skipGaps cs))
      let d ← require (d.settlePending.declare k)
      let rest ← require (expect ']' rest)
      return (d, skipGaps rest)
  | '#' :: cs => .ok (d, '#' :: cs)
  | cs => do
      let (k, v, rest) ← keyValue (value nestingRoom) cs
      let d ← require (d.add k v)
      return (d, skipGaps rest)

/-- Reads statements, one on a line. -/
def statements : Nat → Document → List Char → Except ReadError Document
  | 0, _, _ => .error .malformed
  | fuel + 1, d, cs =>
      match skipGaps cs with
      | [] => .ok d
      | '\n' :: rest => statements fuel d rest
      | cs => do
          let (d, rest) ← d.statement cs
          match ← require (skipComment rest) with
          | [] => .ok d
          | '\n' :: rest => statements fuel d rest
          | _ => .error .malformed

end Document

/-- The tables of a document.  A carriage return counts as part of the line feed behind it, and
nowhere else. -/
def read (source : String) : Except ReadError Table :=
  let cs := Text.joinPairs source.toList
  (Document.statements (cs.length + 1) .empty cs).map Document.root

end Toml
end FindingLedger
