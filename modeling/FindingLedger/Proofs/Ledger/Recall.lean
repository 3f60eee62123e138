import FindingLedger.Ledger.Store
import Mathlib.Data.List.Induction

/-!
# What a store recalls

**Input.**  Uses of a new store, one after the other.

**Algorithm.**  The history is read backwards: `sinceClear` are the uses since the store was last
cleared, `puts` the files and items that they put, and `lastPut?` the items that were put last for a
file.  The history is read without a store, and the store is used without a history; `Recalls` is
what ties the two together, and every use of the store keeps it.

**Results.**
* `InFirstOrder.concat`: one more file comes last if it is new, and changes nothing if it is not.
* `recalls_after`: a store that is not disposed recalls its history.
* `after_of_mem`: a disposed store stays disposed.
* `store_recalls_its_history`: so the answers of a store are those of its history.
-/

namespace FindingLedger

/-- The names are those of a list, each of them once, in the order in which they first occur. -/
structure InFirstOrder (names given : List CodeText) : Prop where
  mem_iff : ∀ n, n ∈ names ↔ n ∈ given
  ordered : names.Pairwise fun a b => given.idxOf a < given.idxOf b

namespace InFirstOrder

variable {names given : List CodeText}

theorem nodup (h : InFirstOrder names given) : names.Nodup :=
  h.ordered.imp fun hlt heq => absurd (heq ▸ hlt) (Nat.lt_irrefl _)

theorem concat (h : InFirstOrder names given) (n : CodeText) :
    InFirstOrder (if n ∈ names then names else names ++ [n]) (given ++ [n]) := by
  -- Names that occurred before keep their places.
  have hplaces : ∀ a ∈ names, (given ++ [n]).idxOf a = given.idxOf a := fun a ha => by
    rw [List.idxOf_append, if_pos ((h.mem_iff a).1 ha)]
  have hordered : names.Pairwise fun a b => (given ++ [n]).idxOf a < (given ++ [n]).idxOf b :=
    h.ordered.imp_of_mem fun ha hb hlt => by rwa [hplaces _ ha, hplaces _ hb]
  by_cases hn : n ∈ names
  · rw [if_pos hn]
    refine ⟨fun a => ?_, hordered⟩
    rw [List.mem_append, List.mem_singleton, h.mem_iff]
    constructor
    · exact Or.inl
    · rintro (ha | rfl)
      · exact ha
      · exact (h.mem_iff _).1 hn
  · rw [if_neg hn]
    refine ⟨fun a => by simp [h.mem_iff], ?_⟩
    rw [List.pairwise_append]
    refine ⟨hordered, List.pairwise_singleton _ _, fun a ha b hb => ?_⟩
    obtain rfl := List.mem_singleton.1 hb
    have hnew : b ∉ given := mt (h.mem_iff b).2 hn
    rw [hplaces a ha, List.idxOf_append, if_neg hnew]
    have hlt := List.idxOf_lt_length_of_mem ((h.mem_iff a).1 ha)
    omega

end InFirstOrder

namespace Store

variable {φ : Type}

section History

/-- The use clears the store. -/
def Op.isClear : Op φ → Bool
  | clear => true
  | _ => false

/-- The file that the use puts, with its items. -/
def Op.put? : Op φ → Option (CodeText × List φ)
  | replace file items => some (file, items)
  | _ => none

/-- The uses since the store was last cleared. -/
def sinceClear (ops : List (Op φ)) : List (Op φ) :=
  (ops.reverse.takeWhile fun op => !op.isClear).reverse

/-- The files and items that were put since the store was last cleared, oldest first. -/
def puts (ops : List (Op φ)) : List (CodeText × List φ) :=
  (sinceClear ops).filterMap Op.put?

/-- The items that come last for a file. -/
def lastOf? (file : CodeText) (ps : List (CodeText × List φ)) : Option (List φ) :=
  ((ps.filter fun p => decide (p.1 = file)).getLast?).map Prod.snd

/-- The items that were put last for a file since the store was last cleared. -/
def lastPut? (ops : List (Op φ)) (file : CodeText) : Option (List φ) :=
  lastOf? file (puts ops)

theorem puts_concat (ops : List (Op φ)) (op : Op φ) :
    puts (ops ++ [op]) = if op.isClear then [] else puts ops ++ op.put?.toList := by
  cases op <;> simp [puts, sinceClear, Op.isClear, Op.put?]

theorem lastOf?_concat (file other : CodeText) (items : List φ) (ps : List (CodeText × List φ)) :
    lastOf? other (ps ++ [(file, items)]) =
      if other = file then some items else lastOf? other ps := by
  by_cases h : other = file
  · simp [lastOf?, h]
  · simp [lastOf?, h, Ne.symm h]

theorem lastPut?_eq_none_iff {ops : List (Op φ)} {file : CodeText} :
    lastPut? ops file = none ↔ ∀ items, (file, items) ∉ puts ops := by
  simp only [lastPut?, lastOf?, Option.map_eq_none_iff, List.getLast?_eq_none_iff,
    List.filter_eq_nil_iff, decide_eq_true_eq]
  constructor
  · intro h items hmem
    exact h _ hmem rfl
  · rintro h ⟨f, items⟩ hmem rfl
    exact h items hmem

end History

/-- The store after uses, one after the other. -/
def after (s : Store φ) (ops : List (Op φ)) : Store φ :=
  ops.foldl (fun s op => (s.perform op).2) s

/-- The slots hold what was put. -/
structure Recalls (ps : List (CodeText × List φ)) (slots : Slots φ) : Prop where
  get?_eq : ∀ file, slots.get? file = lastOf? file ps
  files : InFirstOrder slots.files (ps.map Prod.fst)

theorem recalls_nil : Recalls ([] : List (CodeText × List φ)) [] :=
  ⟨fun _ => rfl, fun _ => Iff.rfl, List.Pairwise.nil⟩

theorem Recalls.put {ps : List (CodeText × List φ)} {slots : Slots φ} (h : Recalls ps slots)
    (file : CodeText) (items : List φ) :
    Recalls (ps ++ [(file, items)]) (slots.put file items) := by
  refine ⟨fun other => ?_, ?_⟩
  · rw [Slots.get?_put, lastOf?_concat, h.get?_eq]
  · rw [Slots.files_put, List.map_append]
    exact h.files.concat file

theorem after_concat (s : Store φ) (ops : List (Op φ)) (op : Op φ) :
    s.after (ops ++ [op]) = ((s.after ops).perform op).2 := by
  rw [after, List.foldl_append]
  rfl

/-- **A store that is not disposed recalls its history.** -/
theorem recalls_after {ops : List (Op φ)} (h : Op.dispose ∉ ops) :
    ∃ slots, empty.after ops = live slots ∧ Recalls (puts ops) slots := by
  -- Only two uses change the slots: putting goes on with the history, clearing begins a new one.
  induction ops using List.reverseRecOn with
  | nil => exact ⟨[], rfl, recalls_nil⟩
  | append_singleton ops op ih =>
      obtain ⟨hops, hop⟩ : Op.dispose ∉ ops ∧ op ≠ .dispose := by
        simpa [eq_comm] using h
      obtain ⟨slots, hslots, hrecalls⟩ := ih hops
      rw [after_concat, hslots, puts_concat]
      cases op with
      | replace file items => exact ⟨_, rfl, hrecalls.put file items⟩
      | clear => exact ⟨_, rfl, recalls_nil⟩
      | dispose => exact absurd rfl hop
      | currentStateOrFail file =>
          refine ⟨slots, ?_, by simpa [Op.isClear, Op.put?] using hrecalls⟩
          simp only [perform, answer]
          split <;> rfl
      | _ => exact ⟨slots, rfl, by simpa [Op.isClear, Op.put?] using hrecalls⟩

theorem perform_disposed_snd (op : Op φ) : (disposed.perform op).2 = disposed := by
  cases op <;> rfl

theorem after_disposed (ops : List (Op φ)) : disposed.after ops = disposed := by
  induction ops with
  | nil => rfl
  | cons op ops ih => rw [after, List.foldl_cons, perform_disposed_snd, ← after, ih]

/-- **A disposed store stays disposed.** -/
theorem after_of_mem {ops : List (Op φ)} (h : Op.dispose ∈ ops) (s : Store φ) :
    s.after ops = disposed := by
  obtain ⟨before, behind, rfl⟩ := List.append_of_mem h
  rw [after, List.foldl_append, List.foldl_cons, ← after, ← after]
  have hdisposed : ((s.after before).perform .dispose).2 = disposed := by
    cases s.after before <;> rfl
  rw [hdisposed, after_disposed]

end Store

section Theorem

open Store

variable {φ : Type}

/-- **A store recalls its history.**  As long as it was not disposed, it knows the files that were
put since it was last cleared, each of them once, in the order in which they were first put.  The
items of a file are those that were put last for it, and the very same; where none were put, there
are no items, the next analysis is the first, and requiring the state fails, and nothing else does.
Reading changes nothing.  From the first disposal on, everything but another disposal fails, and the
store stays as it is. -/
theorem store_recalls_its_history (ops : List (Op φ)) :
    (Op.dispose ∉ ops →
      (∃ names, (empty.after ops).perform .knownFiles = (.ok (.files names), empty.after ops) ∧
        names.Nodup ∧ InFirstOrder names ((puts ops).map Prod.fst)) ∧
      (∀ file, (empty.after ops).perform (.currentState file) =
          (.ok (.items ((lastPut? ops file).getD [])), empty.after ops) ∧
        (∃ first, (empty.after ops).perform (.isFirstAnalysis file) =
            (.ok (.flag first), empty.after ops) ∧
          (first = true ↔ lastPut? ops file = none)) ∧
        (∀ items, lastPut? ops file = some items →
          (empty.after ops).perform (.currentStateOrFail file) =
            (.ok (.items items), empty.after ops)) ∧
        (lastPut? ops file = none → (empty.after ops).perform (.currentStateOrFail file) =
          (.error (.neverAnalyzed file), empty.after ops)) ∧
        (lastPut? ops file = none ↔ ∀ items, (file, items) ∉ puts ops)) ∧
      ∀ op e, ((empty.after ops).perform op).1 = .error e ↔
        ∃ file, op = .currentStateOrFail file ∧ lastPut? ops file = none ∧
          e = .neverAnalyzed file) ∧
    (Op.dispose ∈ ops → ∀ op, op ≠ .dispose →
      (empty.after ops).perform op = (.error .disposed, empty.after ops)) ∧
    ((empty.after ops).perform .dispose).1 = .ok .done := by
  refine ⟨fun h => ?_, fun h op hop => ?_, ?_⟩
  · obtain ⟨slots, hslots, hrecalls⟩ := recalls_after h
    have hget : ∀ file, slots.get? file = lastPut? ops file := hrecalls.get?_eq
    rw [hslots]
    refine ⟨⟨_, rfl, hrecalls.files.nodup, hrecalls.files⟩, fun file => ⟨?_, ⟨_, rfl, ?_⟩, ?_, ?_,
      lastPut?_eq_none_iff⟩, fun op e => ?_⟩
    · rw [← hget]
      rfl
    · rw [hget, Option.isNone_iff_eq_none]
    · intro items hitems
      rw [← hget] at hitems
      simp [perform, answer, hitems]
    · intro hnone
      rw [← hget] at hnone
      simp [perform, answer, hnone]
    · cases op with
      | currentStateOrFail file =>
          cases hfile : lastPut? ops file <;>
            simp [perform, answer, hget, hfile, eq_comm]
      | _ => simp [perform, answer]
  · rw [after_of_mem h]
    cases op with
    | dispose => exact absurd rfl hop
    | _ => rfl
  · cases empty.after ops <;> rfl

/-- Two files that are known again after the store was cleared, in another order; one of them is put
twice and ends up without items.  Then the store is disposed and used again. -/
theorem store_recalls_its_history_reopened :
    let ops : List (Op Nat) := [.replace "a" [1], .replace "b" [2], .clear, .replace "b" [3, 4],
      .currentStateOrFail "c", .replace "a" [5], .replace "b" []]
    (Op.dispose ∉ ops ∧
      (∃ names, (empty.after ops).perform .knownFiles = (.ok (.files names), empty.after ops) ∧
        InFirstOrder names ["b", "a", "b"]) ∧
      (empty.after ops).perform (.currentStateOrFail "b") = (.ok (.items []), empty.after ops) ∧
      (empty.after ops).perform (.currentState "a") = (.ok (.items [5]), empty.after ops) ∧
      ((empty.after ops).perform (.currentStateOrFail "c")).1 = .error (.neverAnalyzed "c")) ∧
    (empty.after (ops ++ [.dispose, .clear])).perform .knownFiles =
      (.error .disposed, empty.after (ops ++ [.dispose, .clear])) := by
  intro ops
  have hopen : Op.dispose ∉ ops := by simp [ops]
  have hshut : Op.dispose ∈ ops ++ [.dispose, .clear] := by simp
  obtain ⟨hrecalls, -⟩ := store_recalls_its_history ops
  obtain ⟨⟨names, hknown, -, hfirst⟩, hfile, herror⟩ := hrecalls hopen
  obtain ⟨-, hdisposed, -⟩ := store_recalls_its_history (ops ++ [.dispose, .clear])
  obtain ⟨-, -, hitems, -⟩ := hfile "b"
  refine ⟨⟨hopen, ⟨names, hknown, hfirst⟩, hitems [] rfl, (hfile "a").1, ?_⟩,
    hdisposed hshut _ (by simp)⟩
  exact (herror _ _).2 ⟨"c", rfl, rfl, rfl⟩

end Theorem
end FindingLedger
