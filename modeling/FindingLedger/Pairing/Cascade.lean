import FindingLedger.Pairing.Buckets
import FindingLedger.Pairing.Criterion

/-!
# The pairing cascade

**Input.**  A left list, a right list, and passes from the strongest to the weakest.  A pass reads
a search key off the items of each side.

**Algorithm.**  The passes run in order.  Each of them sees the items that are still without a
partner, and pairs every left item, in order, with the first right item of equal key.
* `pairLefts` walks through the lefts of a pass and takes the first right out of each bucket.
* `runPass` does one pass, and nothing when no right has a key.
* `run` does all passes, and stops as soon as the pairing is complete.

Recording a pair can only fail when a list names an item twice.
-/

namespace FindingLedger

/-- One step of a cascade: a named pair of ways to read keys. -/
structure Pass (α β κ : Type) where
  name : String
  leftKey : α → Option κ
  rightKey : β → Option κ

/-- The pass that reads the keys of one criterion on both sides. -/
def Criterion.pass {α β : Type} [Matchable α] [Matchable β] (c : Criterion) : Pass α β Key where
  name := c.name
  leftKey a := c.key (Matchable.traits a)
  rightKey b := c.key (Matchable.traits b)

namespace Cascade

section Defs

variable {α β κ : Type} [Identified α] [Identified β] [DecidableEq κ]

/-- Pairs each of the given lefts with the first right in the queue of its key. -/
def pairLefts (leftKey : α → Option κ) : List α → Buckets κ β → Pairing α β →
    Except Clash (Pairing α β)
  | [], _, p => .ok p
  | left :: lefts, buckets, p =>
      match (leftKey left).bind fun k => buckets.take k with
      | none => pairLefts leftKey lefts buckets p
      | some (right, buckets) =>
          match p.record left right with
          | .ok p => pairLefts leftKey lefts buckets p
          | .error e => .error e

/-- Runs one pass over the items without a partner. -/
def runPass (pass : Pass α β κ) (p : Pairing α β) : Except Clash (Pairing α β) :=
  let buckets := Buckets.ofList pass.rightKey p.unmatchedRights
  if buckets.isEmpty then .ok p else pairLefts pass.leftKey p.unmatchedLefts buckets p

/-- Runs passes in order until the pairing is complete. -/
def run : List (Pass α β κ) → Pairing α β → Except Clash (Pairing α β)
  | [], p => .ok p
  | pass :: passes, p =>
      if p.isComplete then .ok p
      else
        match runPass pass p with
        | .ok p => run passes p
        | .error e => .error e

/-- The pairing of two lists by a cascade of passes. -/
def pair (passes : List (Pass α β κ)) (lefts : List α) (rights : List β) :
    Except Clash (Pairing α β) :=
  run passes (Pairing.start lefts rights)

/-- How many keys one pass reads. -/
structure Work where
  pass : String
  rightKeys : Nat
  leftKeys : Nat
deriving DecidableEq, Repr

/-- The keys that a pass reads: of every right, and of the lefts if a right has a key. -/
def workOfPass (pass : Pass α β κ) (p : Pairing α β) : Work where
  pass := pass.name
  rightKeys := p.unmatchedRights.length
  leftKeys :=
    if p.unmatchedRights.any fun right => (pass.rightKey right).isSome then
      p.unmatchedLefts.length
    else 0

/-- The work of a cascade, pass by pass; a pass that is not reached reads no key. -/
def work : List (Pass α β κ) → Pairing α β → List Work
  | [], _ => []
  | pass :: passes, p =>
      if p.isComplete then ⟨pass.name, 0, 0⟩ :: work passes p
      else
        workOfPass pass p ::
          match runPass pass p with
          | .ok p => work passes p
          | .error _ => []

end Defs

section Criteria

variable {α β : Type} [Matchable α] [Matchable β]

/-- The pairing of two lists by a list of criteria. -/
def pairBy (criteria : List Criterion) (lefts : List α) (rights : List β) :
    Except Clash (Pairing α β) :=
  pair (criteria.map Criterion.pass) lefts rights

end Criteria
end Cascade
end FindingLedger
