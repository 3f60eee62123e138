import FindingLedger.Text.Split

/-!
# Absolute paths

A path is the list of its names from the root; it is always absolute and normal.

**Input.**  A written path, and the path against which a relative one is taken.

**Algorithm.**  The text is cut at slashes.  Empty pieces and `.` change nothing, `..` removes the
last name and stays at the root, and any other piece is a name.  A text that begins with a slash
starts from the root.

**Results.**
* `resolve_text`: writing a path and resolving the text gives the path back, from anywhere.
-/

namespace FindingLedger

/-- A piece of a path that names something. -/
def IsName (piece : List Char) : Prop :=
  piece ≠ [] ∧ piece ≠ ['.'] ∧ piece ≠ ['.', '.'] ∧ '/' ∉ piece

instance (piece : List Char) : Decidable (IsName piece) :=
  inferInstanceAs (Decidable (_ ∧ _))

/-- An absolute path without redundant pieces. -/
structure Path where
  names : List (List Char)
  isName : ∀ n ∈ names, IsName n
deriving DecidableEq

namespace Path

open Text (pieces)

/-- The root directory. -/
def root : Path :=
  ⟨[], by simp⟩

/-- The path of an entry of a directory. -/
def child (p : Path) (name : List Char) (h : IsName name) : Path :=
  ⟨p.names ++ [name], by
    intro n hn
    rcases List.mem_append.1 hn with hn | hn
    · exact p.isName n hn
    · rw [List.mem_singleton.1 hn]
      exact h⟩

/-- The directory that a path lies in; the root lies in itself. -/
def parent (p : Path) : Path :=
  ⟨p.names.dropLast, fun n hn => p.isName n (List.dropLast_subset _ hn)⟩

/-- Goes one piece further. -/
def step (p : Path) (piece : List Char) : Path :=
  if h : IsName piece then p.child piece h
  else if piece = ['.', '.'] then p.parent
  else p

/-- Goes through pieces from left to right. -/
def walk (p : Path) (pieces : List (List Char)) : Path :=
  pieces.foldl step p

/-- The path that a text denotes when a relative text is taken from `base`. -/
def resolve (base : Path) (text : String) : Path :=
  if text.toList.head? = some '/' then walk root (pieces '/' text.toList)
  else walk base (pieces '/' text.toList)

/-- Names with a slash in front of each. -/
def slashed : List (List Char) → List Char
  | [] => []
  | n :: ns => '/' :: (n ++ slashed ns)

/-- The written form of a path. -/
def text (p : Path) : String :=
  if p.names = [] then "/" else String.ofList (slashed p.names)

/-- A directory contains itself and everything below it. -/
def contains (directory p : Path) : Bool :=
  directory.names.isPrefixOf p.names

section Resolving

/-- The pieces of written names are an empty piece and the names. -/
theorem pieces_slashed (n : List Char) (ns : List (List Char))
    (h : ∀ m ∈ n :: ns, IsName m) : pieces '/' (slashed (n :: ns)) = [] :: n :: ns := by
  have hslash : ∀ cs, pieces '/' ('/' :: cs) = [] :: pieces '/' cs := fun cs => by simp [pieces]
  induction ns generalizing n with
  | nil =>
      have hn : '/' ∉ n := (h n (by simp)).2.2.2
      rw [slashed, hslash]
      simp [slashed, Text.pieces_of_not_mem '/' hn]
  | cons m ms ih =>
      have hn : '/' ∉ n := (h n (by simp)).2.2.2
      have ih' := ih m (fun k hk => h k (List.mem_cons_of_mem _ hk))
      rw [slashed, hslash] at ih' ⊢
      have hm := (List.cons.inj ih').2
      rw [slashed, Text.pieces_append '/' hn, hm]

theorem walk_names (p : Path) (ns : List (List Char)) (h : ∀ n ∈ ns, IsName n) :
    (walk p ns).names = p.names ++ ns := by
  induction ns generalizing p with
  | nil => simp [walk]
  | cons n ns ih =>
      have hn : IsName n := h n (by simp)
      have ih' := ih (p.child n hn) (fun m hm => h m (List.mem_cons_of_mem _ hm))
      have hstep : walk p (n :: ns) = walk (p.child n hn) ns := by
        simp [walk, step, hn]
      rw [hstep, ih']
      simp [child]

theorem ext_names {p q : Path} (h : p.names = q.names) : p = q := by
  cases p
  cases q
  simp_all

/-- Resolving the written form of a path gives the path back. -/
theorem resolve_text (base p : Path) : resolve base p.text = p := by
  apply ext_names
  obtain ⟨ns, hns⟩ := p
  cases ns with
  | nil =>
      have : resolve base (text ⟨[], hns⟩) = root := by
        simp [resolve, text, pieces, walk, step, root, IsName]
      rw [this]
      rfl
  | cons n ns =>
      have htext : (text ⟨n :: ns, hns⟩).toList = slashed (n :: ns) := by simp [text]
      have hhead : (slashed (n :: ns)).head? = some '/' := rfl
      have hfirst : step root [] = root := by simp [step, IsName]
      rw [resolve, htext, if_pos hhead, pieces_slashed n ns hns]
      have hwalk : walk root ([] :: n :: ns) = walk root (n :: ns) := by
        rw [walk, List.foldl_cons, hfirst]
        rfl
      rw [hwalk, walk_names root (n :: ns) hns]
      simp [root]

end Resolving
end Path
end FindingLedger
