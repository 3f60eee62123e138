/-!
# Values of a document

What a settings document can hold.  Numbers and moments in time are kept as they are written,
since no setting has them for a value.

**Algorithm.**  A table is a list of members with distinct keys.
* `Table.get?` looks a key up.
* `Table.place` puts a value under a dotted key, `Table.openAt` makes sure that a table is there,
  and `Table.appendAt` adds an empty table to an array of tables.  All three make the tables on
  the way, and refuse a way through anything that is not a table.
-/

namespace FindingLedger
namespace Toml

/-- A value.  A document cannot write `null`; a table that a program hands over can hold it. -/
inductive Value
  | null
  | boolean (b : Bool)
  | number (written : String)
  | moment (written : String)
  | text (s : String)
  | array (items : List Value)
  | table (members : List (String × Value))
deriving Inhabited

/-- The members of a table, in the order in which they were added. -/
abbrev Table := List (String × Value)

/-- A dotted key. -/
abbrev Key := List String

namespace Table

/-- The value of a key. -/
def get? (key : String) : Table → Option Value
  | [] => none
  | (k, v) :: t => if k = key then some v else get? key t

/-- Gives a key a value; a new key comes last. -/
def set (key : String) (v : Value) : Table → Table
  | [] => [(key, v)]
  | (k, old) :: t => if k = key then (k, v) :: t else (k, old) :: set key v t

/-- Changes the table that a key stands for.  A missing one is made; for an array of tables, if
`intoArrays` is set, it is the last of them. -/
def modify (intoArrays : Bool) (key : String) (change : Table → Option Table) (t : Table) :
    Option Table :=
  match get? key t with
  | none => (change []).map fun inner => set key (.table inner) t
  | some (.table inner) => (change inner).map fun inner => set key (.table inner) t
  | some (.array items) =>
      match intoArrays, items.getLast? with
      | true, some (.table inner) =>
          (change inner).map fun inner => set key (.array (items.dropLast ++ [.table inner])) t
      | _, _ => none
  | some _ => none

/-- Puts a value under a dotted key that has none yet. -/
def place (intoArrays : Bool) (v : Value) : Key → Table → Option Table
  | [], _ => none
  | [key], t => if (get? key t).isSome then none else some (set key v t)
  | key :: rest, t => modify intoArrays key (place intoArrays v rest) t

/-- Makes sure that a dotted key stands for a table. -/
def openAt : Key → Table → Option Table
  | [], t => some t
  | key :: rest, t => modify true key (openAt rest) t

/-- Adds an empty table to the array of tables under a dotted key. -/
def appendAt : Key → Table → Option Table
  | [], _ => none
  | [key], t =>
      match get? key t with
      | none => some (set key (.array [.table []]) t)
      | some (.array items) => some (set key (.array (items ++ [.table []])) t)
      | some _ => none
  | key :: rest, t => modify true key (appendAt rest) t

end Table
end Toml
end FindingLedger
