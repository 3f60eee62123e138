/-!
# Pairings of two lists

A pairing relates items of a left list to items of a right list, each item at most once.  Items
are told apart by their handles, never by what they hold; the handles of the two sides have
nothing to do with each other.

**Input.**  A left list, a right list, and attempts to record one pair.

**Algorithm.**  `record` accepts a pair when neither of its items has a partner yet.  The accepted
pairs are kept in the order in which they came, and every observation is read off them:
* `rightFor` and `leftFor` give the partner of an item;
* `matchedLefts`, `unmatchedLefts` and `unmatchedRights` keep the order of the lists;
* `matchedCount` counts the pairs, and the pairing is complete when they are as many as the lefts.

**Results.**
* `record_eq_ok_iff`: exactly the pairs of two free items are accepted.
* `rightFor_push`, `leftFor_push`: an accepted pair changes nothing for other items.
-/

namespace FindingLedger

/-- Items that are known by a handle. -/
class Identified (α : Type) where
  handle : α → Nat

instance : Identified Nat where
  handle n := n

/-- Why a pair was not recorded. -/
inductive Clash
  | leftTaken
  | rightTaken
deriving DecidableEq, Repr

/-- The text of a clash. -/
def Clash.message : Clash → String
  | leftTaken => "left item is already matched"
  | rightTaken => "right item is already matched"

/-- Two lists and the pairs recorded between them, oldest first. -/
structure Pairing (α β : Type) where
  lefts : List α
  rights : List β
  pairs : List (α × β)
deriving DecidableEq, Repr

namespace Pairing

section Defs

variable {α β : Type} [Identified α] [Identified β]

/-- Nothing is paired yet. -/
def start (lefts : List α) (rights : List β) : Pairing α β :=
  ⟨lefts, rights, []⟩

/-- The partner of a left item. -/
def rightFor (p : Pairing α β) (left : α) : Option β :=
  (p.pairs.find? fun q => decide (Identified.handle q.1 = Identified.handle left)).map Prod.snd

/-- The partner of a right item. -/
def leftFor (p : Pairing α β) (right : β) : Option α :=
  (p.pairs.find? fun q => decide (Identified.handle q.2 = Identified.handle right)).map Prod.fst

/-- The pairing with one more pair at the end. -/
def push (p : Pairing α β) (left : α) (right : β) : Pairing α β :=
  { p with pairs := p.pairs ++ [(left, right)] }

/-- Records a pair; a left item that has a partner is reported before a right one. -/
def record (p : Pairing α β) (left : α) (right : β) : Except Clash (Pairing α β) :=
  if (p.rightFor left).isSome then .error .leftTaken
  else if (p.leftFor right).isSome then .error .rightTaken
  else .ok (p.push left right)

/-- How many pairs are recorded. -/
def matchedCount (p : Pairing α β) : Nat :=
  p.pairs.length

/-- There are as many pairs as left items. -/
def isComplete (p : Pairing α β) : Bool :=
  decide (p.matchedCount = p.lefts.length)

/-- The left items that have a partner, each with it, in list order. -/
def matchedLefts (p : Pairing α β) : List (α × β) :=
  p.lefts.filterMap fun left => (p.rightFor left).map fun right => (left, right)

/-- The left items without a partner, in list order. -/
def unmatchedLefts (p : Pairing α β) : List α :=
  p.lefts.filter fun left => (p.rightFor left).isNone

/-- The right items without a partner, in list order. -/
def unmatchedRights (p : Pairing α β) : List β :=
  p.rights.filter fun right => (p.leftFor right).isNone

end Defs

section Recording

theorem record_eq_ok_iff {α β : Type} [Identified α] [Identified β] {p q : Pairing α β}
    {left : α} {right : β} :
    p.record left right = .ok q ↔
      p.rightFor left = none ∧ p.leftFor right = none ∧ q = p.push left right := by
  cases hl : p.rightFor left with
  | some _ => simp [record, hl]
  | none =>
      cases hr : p.leftFor right with
      | some _ => simp [record, hl, hr]
      | none => simp [record, push, hl, hr, eq_comm]

theorem rightFor_push {α β : Type} [Identified α] (p : Pairing α β) (left other : α) (right : β)
    (h : p.rightFor left = none) :
    (p.push left right).rightFor other =
      if Identified.handle other = Identified.handle left then some right
      else p.rightFor other := by
  by_cases ho : Identified.handle other = Identified.handle left
  · have hfree := Option.map_eq_none_iff.1 h
    simp [rightFor, push, List.find?_append, hfree, ho]
  · have hlast : ¬ Identified.handle left = Identified.handle other := fun e => ho e.symm
    simp [rightFor, push, List.find?_append, ho, hlast]

theorem leftFor_push {α β : Type} [Identified β] (p : Pairing α β) (left : α) (right other : β)
    (h : p.leftFor right = none) :
    (p.push left right).leftFor other =
      if Identified.handle other = Identified.handle right then some left
      else p.leftFor other := by
  by_cases ho : Identified.handle other = Identified.handle right
  · have hfree := Option.map_eq_none_iff.1 h
    simp [leftFor, push, List.find?_append, hfree, ho]
  · have hlast : ¬ Identified.handle right = Identified.handle other := fun e => ho e.symm
    simp [leftFor, push, List.find?_append, ho, hlast]

end Recording
end Pairing
end FindingLedger
