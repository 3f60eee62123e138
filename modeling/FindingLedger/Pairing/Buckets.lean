/-!
# Buckets

**Input.**  Items, each with a key or without one.

**Algorithm.**  A bucket holds the items of one key in a queue: `add` puts an item at the end of the
queue of its key, `take` takes the first one out.  `ofList` fills buckets with the items of a list
that have a key.

**Results.**  Everything is seen through `queue`, the items that wait under a key.
* `queue_ofList`: they are the items of the list with that key, in list order.
* `take_eq_none_iff`: nothing can be taken exactly when none waits.
* `queue_take`: taking removes the first of them and touches no other key.
-/

namespace FindingLedger

/-- Items in queues, one queue for each key. -/
abbrev Buckets (κ β : Type) := List (κ × List β)

namespace Buckets

section Defs

variable {κ β : Type} [DecidableEq κ]

/-- The items that wait under a key. -/
def queue (k : κ) : Buckets κ β → List β
  | [] => []
  | (k', items) :: rest => if k' = k then items else queue k rest

/-- Puts an item at the end of the queue of its key. -/
def add (k : κ) (b : β) : Buckets κ β → Buckets κ β
  | [] => [(k, [b])]
  | (k', items) :: rest =>
      if k' = k then (k', items ++ [b]) :: rest else (k', items) :: add k b rest

/-- Takes the first item out of the queue of a key. -/
def take (k : κ) : Buckets κ β → Option (β × Buckets κ β)
  | [] => none
  | (k', items) :: rest =>
      if k' = k then
        match items with
        | [] => none
        | b :: items => some (b, (k', items) :: rest)
      else (take k rest).map fun t => (t.1, (k', items) :: t.2)

/-- Puts an item into the queue of its key; an item without a key is left out. -/
def addItem (key : β → Option κ) (buckets : Buckets κ β) (b : β) : Buckets κ β :=
  match key b with
  | some k => add k b buckets
  | none => buckets

/-- The buckets of a list of items. -/
def ofList (key : β → Option κ) (items : List β) : Buckets κ β :=
  items.foldl (addItem key) []

end Defs

section Queues

variable {κ β : Type} [DecidableEq κ]

theorem queue_add (k k' : κ) (b : β) (buckets : Buckets κ β) :
    queue k' (add k b buckets) = if k' = k then queue k buckets ++ [b] else queue k' buckets := by
  induction buckets with
  | nil =>
      by_cases h : k' = k
      · simp [add, queue, h]
      · simp [add, queue, h, Ne.symm h]
  | cons bucket rest ih =>
      obtain ⟨k₀, items⟩ := bucket
      by_cases h₀ : k₀ = k
      · subst h₀
        by_cases h : k' = k₀
        · simp [add, queue, h]
        · simp [add, queue, h, Ne.symm h]
      · by_cases h : k₀ = k'
        · subst h
          simp [add, queue, h₀]
        · simp [add, queue, h₀, h, ih]

theorem queue_addItem (key : β → Option κ) (buckets : Buckets κ β) (b : β) (k : κ) :
    queue k (addItem key buckets b) =
      queue k buckets ++ if key b = some k then [b] else [] := by
  cases hb : key b with
  | none => simp [addItem, hb]
  | some k' =>
      simp only [addItem, hb, queue_add, Option.some.injEq]
      by_cases h : k = k'
      · simp [h]
      · simp [h, Ne.symm h]

theorem queue_foldl_addItem (key : β → Option κ) (items : List β) (buckets : Buckets κ β) (k : κ) :
    queue k (items.foldl (addItem key) buckets) =
      queue k buckets ++ items.filter (fun b => decide (key b = some k)) := by
  induction items generalizing buckets with
  | nil => simp
  | cons b items ih =>
      rw [List.foldl_cons, ih, queue_addItem]
      by_cases h : key b = some k <;> simp [h]

/-- Under a key wait the items with that key, in list order. -/
theorem queue_ofList (key : β → Option κ) (items : List β) (k : κ) :
    queue k (ofList key items) = items.filter fun b => decide (key b = some k) := by
  rw [ofList, queue_foldl_addItem]
  simp [queue]

theorem take_eq_none_iff (k : κ) (buckets : Buckets κ β) :
    take k buckets = none ↔ queue k buckets = [] := by
  induction buckets with
  | nil => simp [take, queue]
  | cons bucket rest ih =>
      obtain ⟨k₀, items⟩ := bucket
      by_cases h : k₀ = k
      · cases items <;> simp [take, queue, h]
      · simp [take, queue, h, ih]

/-- Taking gives the first item that waits under the key, and leaves the others as they were. -/
theorem queue_take {k : κ} {buckets rest : Buckets κ β} {b : β}
    (h : take k buckets = some (b, rest)) (k' : κ) :
    queue k' buckets = if k' = k then b :: queue k rest else queue k' rest := by
  induction buckets generalizing rest with
  | nil => simp [take] at h
  | cons bucket others ih =>
      obtain ⟨k₀, items⟩ := bucket
      by_cases h₀ : k₀ = k
      · subst h₀
        cases items with
        | nil => simp [take] at h
        | cons b' items =>
            simp only [take, if_true, Option.some.injEq, Prod.mk.injEq] at h
            obtain ⟨rfl, rfl⟩ := h
            by_cases hk : k' = k₀
            · simp [queue, hk]
            · simp [queue, hk, Ne.symm hk]
      · simp only [take, h₀, if_false, Option.map_eq_some_iff, Prod.mk.injEq, Prod.exists] at h
        obtain ⟨b', others', htake, rfl, rfl⟩ := h
        have ih' := ih htake
        by_cases hk : k₀ = k'
        · subst hk
          simp [queue, h₀]
        · simp [queue, hk, h₀, ih']

end Queues
end Buckets
end FindingLedger
