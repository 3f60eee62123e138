import FindingLedger.CodeText

/-!
# The store of tracked state

The store keeps, for every file that was analysed, the list of its current findings.  A file with
an empty list is known; a file without a list is not.

**Algorithm.**  `Slots` is an ordered list of files with their items.  A new file comes last, a
known file keeps its place.  A disposed store answers nothing any more and is never reopened.

**Results.**
* `get?_put`: a slot holds what was last put into it, and putting touches no other file.
* `files_put`: putting adds a file at the end, or changes no place.
-/

namespace FindingLedger

/-- Files with their items, in the order in which the files were first put. -/
abbrev Slots (φ : Type) := List (CodeText × List φ)

namespace Slots

variable {φ : Type}

/-- The items of a file, if it is known. -/
def get? (file : CodeText) : Slots φ → Option (List φ)
  | [] => none
  | (f, items) :: rest => if f = file then some items else get? file rest

/-- Replaces the items of a file, or adds the file at the end. -/
def put (file : CodeText) (items : List φ) : Slots φ → Slots φ
  | [] => [(file, items)]
  | (f, old) :: rest => if f = file then (f, items) :: rest else (f, old) :: put file items rest

/-- The known files, in order. -/
def files (s : Slots φ) : List CodeText :=
  s.map Prod.fst

theorem get?_put (s : Slots φ) (file other : CodeText) (items : List φ) :
    get? other (put file items s) = if other = file then some items else get? other s := by
  induction s with
  | nil =>
      by_cases h : file = other
      · subst h
        simp [put, get?]
      · simp [put, get?, h, Ne.symm h]
  | cons entry rest ih =>
      obtain ⟨f, old⟩ := entry
      by_cases hf : f = file
      · subst hf
        by_cases ho : other = f
        · simp [put, get?, ho]
        · simp [put, get?, ho, Ne.symm ho]
      · by_cases ho : f = other
        · subst ho
          simp [put, get?, hf]
        · simp [put, get?, hf, ho, ih]

theorem files_cons (file : CodeText) (items : List φ) (s : Slots φ) :
    files ((file, items) :: s) = file :: files s :=
  rfl

theorem files_put (s : Slots φ) (file : CodeText) (items : List φ) :
    files (put file items s) = if file ∈ files s then files s else files s ++ [file] := by
  induction s with
  | nil => simp [put, files]
  | cons entry rest ih =>
      obtain ⟨f, old⟩ := entry
      by_cases hf : f = file
      · subst hf
        simp [put, files_cons]
      · have hput : put file items ((f, old) :: rest) = (f, old) :: put file items rest := by
          simp [put, hf]
        rw [hput, files_cons, ih, files_cons]
        by_cases hm : file ∈ files rest <;> simp [hm, Ne.symm hf]

end Slots

/-- The tracked state of all files, until it is disposed. -/
inductive Store (φ : Type)
  | live (slots : Slots φ)
  | disposed
deriving DecidableEq, Repr

/-- Why a store did not answer. -/
inductive StoreError
  | disposed
  | neverAnalyzed (file : CodeText)
deriving DecidableEq, Repr

/-- The text of a store error. -/
def StoreError.message : StoreError → CodeText
  | disposed => "Issue tracker cache has been disposed."
  | neverAnalyzed file => CodeText.ofString "No tracked state for file: " ++ file

namespace Store

variable {φ : Type}

/-- A store that knows no file. -/
def empty : Store φ :=
  live []

/-- A use of the store. -/
inductive Op (φ : Type)
  | isFirstAnalysis (file : CodeText)
  | currentState (file : CodeText)
  | currentStateOrFail (file : CodeText)
  | replace (file : CodeText) (items : List φ)
  | knownFiles
  | clear
  | dispose

/-- What a use of the store gives back. -/
inductive Answer (φ : Type)
  | flag (value : Bool)
  | items (values : List φ)
  | files (names : List CodeText)
  | done
deriving DecidableEq, Repr

/-- The answer of a live store, and its slots afterwards. -/
def answer (slots : Slots φ) : Op φ → Except StoreError (Answer φ) × Store φ
  | .isFirstAnalysis file => (.ok (.flag (slots.get? file).isNone), live slots)
  | .currentState file => (.ok (.items ((slots.get? file).getD [])), live slots)
  | .currentStateOrFail file =>
      match slots.get? file with
      | some values => (.ok (.items values), live slots)
      | none => (.error (.neverAnalyzed file), live slots)
  | .replace file values => (.ok .done, live (slots.put file values))
  | .knownFiles => (.ok (.files slots.files), live slots)
  | .clear => (.ok .done, live [])
  | .dispose => (.ok .done, disposed)

/-- Uses the store once; a disposed store can only be disposed again. -/
def perform (s : Store φ) (op : Op φ) : Except StoreError (Answer φ) × Store φ :=
  match s, op with
  | live slots, op => answer slots op
  | disposed, .dispose => (.ok .done, disposed)
  | disposed, _ => (.error .disposed, disposed)

end Store
end FindingLedger
