import FindingLedger.Json
import FindingLedger.Proofs.Text.Surrogates

/-!
# Reading JSON

**Input.**  The characters of a JSON text.

**Algorithm.**  `read` follows the grammar of JSON, as far as its values are booleans, integers,
strings and objects.  It knows all escapes, accepts hexadecimal digits of either case, blanks
between tokens and integers of any length, and joins surrogate pairs; a surrogate that stands alone
is read as itself, but not in a key.  It rejects everything else, such as control characters in
strings, leading zeros and text after the value.  Each step of the recursion uses up a character, so
that their number bounds the steps.

**Results.**
* `escaped_escape`: the four forms in which a code point is written.
* `readString_escape`, `readInteger_decimal`: texts are read back joined, and numbers as they are.
* `Value.readable`, `read_render`: what `render` writes is read as the same value with its members
  sorted and its texts joined.
* `printable_render`: it consists of printable ASCII characters, without a line feed among them.
* `member?_asRead`: sorting changes no member of an object, if no key occurs twice.
-/

namespace FindingLedger
namespace Json

section Reading

/-- The characters after the blanks in front. -/
def skipBlanks (cs : List Char) : List Char :=
  cs.dropWhile fun c => decide (c ∈ [' ', '\t', '\n', '\r'])

/-- The characters after the given one, if it comes first. -/
def skip? (c : Char) : List Char → Option (List Char)
  | [] => none
  | d :: rest => if d = c then some rest else none

/-- The value of a hexadecimal digit of either case. -/
def hexValue? (c : Char) : Option Nat :=
  if '0' ≤ c ∧ c ≤ '9' then some (c.toNat - 48)
  else if 'a' ≤ c ∧ c ≤ 'f' then some (c.toNat - 87)
  else if 'A' ≤ c ∧ c ≤ 'F' then some (c.toNat - 55)
  else none

/-- The 16-bit unit that four hexadecimal digits stand for. -/
def readUnit : List Char → Option (Nat × List Char)
  | a :: b :: c :: d :: rest => do
      let a ← hexValue? a
      let b ← hexValue? b
      let c ← hexValue? c
      let d ← hexValue? d
      pure (((a * 16 + b) * 16 + c) * 16 + d, rest)
  | _ => none

/-- What a character behind a backslash stands for. -/
def unescape? : Char → Option Char
  | '"' => some '"'
  | '\\' => some '\\'
  | '/' => some '/'
  | 'b' => some (Char.ofNat 0x08)
  | 'f' => some (Char.ofNat 0x0C)
  | 'n' => some '\n'
  | 'r' => some '\r'
  | 't' => some '\t'
  | _ => none

/-- The first code point of a string that has not ended, where each unit counts as one. -/
def readPoint : List Char → Option (CodePoint × List Char)
  | [] => none
  | '\\' :: 'u' :: rest => (readUnit rest).map fun (unit, rest) => (.ofNat unit, rest)
  | '\\' :: c :: rest => (unescape? c).map fun d => (.ofChar d, rest)
  | c :: rest => if c = '"' ∨ c = '\\' ∨ c.toNat < 0x20 then none else some (.ofChar c, rest)

/-- The code points of a string up to its closing quote. -/
def readPoints : Nat → List Char → Option (List CodePoint × List Char)
  | 0, _ => none
  | steps + 1, cs =>
      match skip? '"' cs with
      | some rest => some ([], rest)
      | none => do
          let (p, rest) ← readPoint cs
          let (ps, rest) ← readPoints steps rest
          pure (p :: ps, rest)

/-- The text of a string up to its closing quote. -/
def readString (steps : Nat) (cs : List Char) : Option (CodeText × List Char) :=
  (readPoints steps cs).map fun (ps, rest) => ((CodeText.mk ps).joined, rest)

/-- A number in decimal digits, without leading zeros. -/
def readNatural (cs : List Char) : Option (Nat × List Char) :=
  let digits := cs.takeWhile Char.isDigit
  if digits = [] ∨ digits.head? = some '0' ∧ digits ≠ ['0'] then none
  else some (Nat.ofDigitChars 10 digits 0, cs.dropWhile Char.isDigit)

/-- A number with an optional sign. -/
def readInteger (cs : List Char) : Option (Int × List Char) :=
  match skip? '-' cs with
  | some rest => (readNatural rest).map fun (n, rest) => (-(n : Int), rest)
  | none => (readNatural cs).map fun (n, rest) => ((n : Int), rest)

/-- A value that is neither a string nor an object. -/
def readPlain (cs : List Char) : Option (Value × List Char) :=
  if cs.take 4 = ['t', 'r', 'u', 'e'] then some (.boolean true, cs.drop 4)
  else if cs.take 5 = ['f', 'a', 'l', 's', 'e'] then some (.boolean false, cs.drop 5)
  else (readInteger cs).map fun (n, rest) => (.integer n, rest)

mutual

/-- A value and the characters after it. -/
def readValue : Nat → List Char → Option (Value × List Char)
  | 0, _ => none
  | steps + 1, cs =>
      let cs := skipBlanks cs
      match skip? '"' cs, skip? '{' cs with
      | some rest, _ => do
          let (text, rest) ← readString steps rest
          pure (.text text, rest)
      | none, some rest =>
          match skip? '}' (skipBlanks rest) with
          | some rest => some (.object [], rest)
          | none => do
              let (members, rest) ← readMembers steps rest
              pure (.object members, rest)
      | none, none => readPlain cs

/-- One member after the other up to the end of the object. -/
def readMembers : Nat → List Char → Option (List (String × Value) × List Char)
  | 0, _ => none
  | steps + 1, cs => do
      let rest ← skip? '"' (skipBlanks cs)
      let (text, rest) ← readString steps rest
      let key ← text.toString?
      let rest ← skip? ':' (skipBlanks rest)
      let (value, rest) ← readValue steps rest
      let rest := skipBlanks rest
      match skip? ',' rest with
      | some rest => do
          let (members, rest) ← readMembers steps rest
          pure ((key, value) :: members, rest)
      | none => do
          let rest ← skip? '}' rest
          pure ([(key, value)], rest)

end

/-- The value that a JSON text stands for. -/
def read (cs : List Char) : Option Value :=
  match readValue cs.length cs with
  | some (value, rest) => if skipBlanks rest = [] then some value else none
  | none => none

end Reading

section Characters

@[simp] theorem skip?_cons_self (c : Char) (rest : List Char) :
    skip? c (c :: rest) = some rest := by
  simp [skip?]

theorem skip?_cons_of_ne {c d : Char} (h : d ≠ c) (rest : List Char) :
    skip? c (d :: rest) = none := by
  simp [skip?, h]

/-- A character that is printable in ASCII. -/
def Printable (c : Char) : Prop :=
  0x20 ≤ c.toNat ∧ c.toNat ≤ 0x7E

instance (c : Char) : Decidable (Printable c) :=
  inferInstanceAs (Decidable (_ ∧ _))

/-- The four forms in which a code point is written inside a string: a backslash and a letter that
stands for it, its character, one unit, or two surrogates. -/
inductive Escaped (p : CodePoint) : List Char → Prop
  | letter (d c : Char) (hd : unescape? d = some c) (hc : CodePoint.ofChar c = p)
      (hp : Printable d) : Escaped p ['\\', d]
  | plain (c : Char) (hc : CodePoint.ofChar c = p) (hquote : c ≠ '"') (hbackslash : c ≠ '\\')
      (hp : Printable c) : Escaped p [c]
  | unit (h : p.val < 0x10000) : Escaped p (escapeUnit p.val)
  | pair (h : 0x10000 ≤ p.val) :
      Escaped p (escapeUnit (0xD800 + (p.val - 0x10000) / 0x400) ++
        escapeUnit (0xDC00 + (p.val - 0x10000) % 0x400))

theorem toNat_ofNat_of_lt {n : Nat} (h : n < 0xD800) : (Char.ofNat n).toNat = n := by
  rw [Char.ofNat, dif_pos (Or.inl h)]
  rfl

theorem escaped_escape (p : CodePoint) : Escaped p (escape p) := by
  unfold escape
  split
  · next h => exact .letter '"' _ rfl (Fin.ext h.symm) (by decide)
  split
  · next h => exact .letter '\\' _ rfl (Fin.ext h.symm) (by decide)
  split
  · next h => exact .letter 'n' _ rfl (Fin.ext h.symm) (by decide)
  split
  · next h => exact .letter 'r' _ rfl (Fin.ext h.symm) (by decide)
  split
  · next h => exact .letter 't' _ rfl (Fin.ext h.symm) (by decide)
  split
  · next h => exact .letter 'b' _ rfl (Fin.ext h.symm) (by decide)
  split
  · next h => exact .letter 'f' _ rfl (Fin.ext h.symm) (by decide)
  split
  · next hquote hbackslash _ _ _ _ _ hp =>
      have hchar : (Char.ofNat p.val).toNat = p.val := toNat_ofNat_of_lt (by omega)
      refine .plain _ (Fin.ext hchar) ?_ ?_ (by rwa [Printable, hchar])
      · intro h
        exact hquote (hchar.symm.trans (congrArg Char.toNat h))
      · intro h
        exact hbackslash (hchar.symm.trans (congrArg Char.toNat h))
  split
  · next h => exact .unit h
  · next h => exact .pair (Nat.le_of_not_lt h)

theorem hexValue?_hexDigit : ∀ n < 16, hexValue? (hexDigit n) = some n := by
  decide

/-- A unit can be read back from its escape. -/
theorem readPoint_escapeUnit {n : Nat} (h : n < 0x10000) (rest : List Char) :
    readPoint (escapeUnit n ++ rest) = some (CodePoint.ofNat n, rest) := by
  have hdigit : ∀ m, hexValue? (hexDigit (m % 16)) = some (m % 16) := fun m =>
    hexValue?_hexDigit (m % 16) (Nat.mod_lt m (by decide))
  have hn : ((n / 4096 % 16 * 16 + n / 256 % 16) * 16 + n / 16 % 16) * 16 + n % 16 = n := by
    omega
  simp [escapeUnit, readPoint, readUnit, hdigit, hn]

theorem skip?_quote_escapeUnit (n : Nat) (rest : List Char) :
    skip? '"' (escapeUnit n ++ rest) = none :=
  skip?_cons_of_ne (by decide) _

theorem readPoints_of_readPoint {cs rest : List Char} {p : CodePoint} (hquote : skip? '"' cs = none)
    (hp : readPoint cs = some (p, rest)) (steps : Nat) :
    readPoints (steps + 1) cs =
      (readPoints steps rest).map fun (ps, rest) => (p :: ps, rest) := by
  rw [readPoints, hquote]
  simp only [hp, Option.bind_eq_bind, Option.bind_some]
  exact Option.map_eq_bind.symm

theorem units_of_printable {c : Char} (h : Printable c) :
    (CodePoint.ofChar c).units = [.ofChar c] :=
  CodePoint.units_of_lt (Nat.lt_of_le_of_lt h.2 (by decide))

theorem units_of_unescape? {c d : Char} (h : unescape? d = some c) :
    (CodePoint.ofChar c).units = [.ofChar c] := by
  have hsmall : ∀ x ∈ unescape? d, x.toNat < 0x10000 := by
    unfold unescape?
    split <;> simp
  exact CodePoint.units_of_lt (hsmall c h)

/-- The escape of a code point is read as the units of the code point, one in each step. -/
theorem readPoints_escape_append (p : CodePoint) (cs : List Char) (steps : Nat) :
    readPoints (steps + p.units.length) (escape p ++ cs) =
      (readPoints steps cs).map fun (ps, rest) => (p.units ++ ps, rest) := by
  have hescaped := escaped_escape p
  generalize escape p = written at hescaped
  cases hescaped with
  | letter d c hd hc hp =>
      subst hc
      have hread : readPoint ('\\' :: d :: cs) = some (.ofChar c, cs) := by
        have hu : d ≠ 'u' := by
          rintro rfl
          simp [unescape?] at hd
        simp [readPoint, hd]
      rw [units_of_unescape? hd]
      exact readPoints_of_readPoint (skip?_cons_of_ne (by decide) _) hread steps
  | plain c hc hquote hbackslash hp =>
      subst hc
      have hread : readPoint (c :: cs) = some (.ofChar c, cs) := by
        simp [readPoint, hquote, hbackslash, Nat.not_lt_of_le hp.1]
      rw [units_of_printable hp]
      exact readPoints_of_readPoint (skip?_cons_of_ne hquote _) hread steps
  | unit h =>
      rw [CodePoint.units_of_lt h]
      refine readPoints_of_readPoint (skip?_quote_escapeUnit _ _) ?_ steps
      rw [readPoint_escapeUnit h, CodePoint.ofNat_val]
  | pair h =>
      have hp := p.isLt
      rw [CodePoint.units, if_neg (Nat.not_lt.2 h), List.append_assoc]
      show readPoints (steps + 1 + 1) _ = _
      rw [readPoints_of_readPoint (skip?_quote_escapeUnit _ _) (readPoint_escapeUnit (by omega) _),
        readPoints_of_readPoint (skip?_quote_escapeUnit _ _) (readPoint_escapeUnit (by omega) _),
        Option.map_map]
      rfl

/-- A text is read back from its escapes unit by unit. -/
theorem readPoints_escape (ps : List CodePoint) {steps : Nat}
    (h : (ps.flatMap CodePoint.units).length < steps) (rest : List Char) :
    readPoints steps (ps.flatMap escape ++ '"' :: rest) =
      some (ps.flatMap CodePoint.units, rest) := by
  induction ps generalizing steps with
  | nil =>
      obtain ⟨steps, rfl⟩ := Nat.exists_eq_succ_of_ne_zero (Nat.ne_zero_of_lt h)
      simp [readPoints]
  | cons p ps ih =>
      rw [List.flatMap_cons, List.length_append] at h
      obtain ⟨steps, rfl⟩ : ∃ n, steps = n + p.units.length := ⟨steps - p.units.length, by omega⟩
      rw [List.flatMap_cons, List.append_assoc, readPoints_escape_append, ih (by omega)]
      rfl

/-- So it is read back with its surrogate pairs joined. -/
theorem readString_escape (t : CodeText) {steps : Nat}
    (h : (t.points.flatMap CodePoint.units).length < steps) (rest : List Char) :
    readString steps (t.points.flatMap escape ++ '"' :: rest) = some (t.joined, rest) := by
  rw [readString, readPoints_escape t.points h]
  simp [CodeText.joined, CodeText.joinPairs_flatMap_units]

theorem length_units_le_escape (p : CodePoint) : p.units.length ≤ (escape p).length := by
  have hescaped := escaped_escape p
  generalize escape p = cs at hescaped
  have hunits : p.units.length ≤ 2 := by
    unfold CodePoint.units
    split <;> simp
  cases hescaped with
  | letter d c hd hc hp => exact hunits
  | plain c hc hquote hbackslash hp =>
      rw [← hc, units_of_printable hp]
      exact Nat.le_refl 1
  | unit h => exact Nat.le_trans hunits (by simp [escapeUnit])
  | pair h => exact Nat.le_trans hunits (by simp [escapeUnit])

theorem length_flatMap_units_le (ps : List CodePoint) :
    (ps.flatMap CodePoint.units).length ≤ (ps.flatMap escape).length := by
  induction ps with
  | nil => simp
  | cons p ps ih =>
      have hp := length_units_le_escape p
      simp only [List.flatMap_cons, List.length_append]
      omega

end Characters

section Numbers

/-- The text does not go on with a digit. -/
def NoDigit (rest : List Char) : Prop :=
  ∀ c ∈ rest.head?, c.isDigit = false

theorem exists_toDigits_eq_cons (n : Nat) :
    ∃ c cs, Nat.toDigits 10 n = c :: cs ∧ c.isDigit = true := by
  obtain ⟨c, cs, hcons⟩ := List.exists_cons_of_ne_nil (Nat.toDigits_ne_nil (b := 10) (n := n))
  refine ⟨c, cs, hcons, ?_⟩
  exact Nat.isDigit_of_mem_toDigits (by decide) (by decide) (hcons ▸ List.mem_cons_self ..)

/-- No number but zero is written with a zero in front. -/
theorem head?_toDigits_ne {n : Nat} (h : n ≠ 0) : (Nat.toDigits 10 n).head? ≠ some '0' := by
  induction n using Nat.strongRecOn with
  | ind n ih =>
      rw [Nat.toDigits_eq_if (by decide)]
      split
      · next hlt =>
          have hdigit : ∀ d < 10, d ≠ 0 → Nat.digitChar d ≠ '0' := by decide
          simpa using hdigit n hlt h
      · next hge =>
          have hhead := ih (n / 10) (by omega) (by omega)
          obtain ⟨c, cs, hcons, -⟩ := exists_toDigits_eq_cons (n / 10)
          rw [hcons] at hhead ⊢
          exact hhead

theorem readNatural_toDigits (n : Nat) {rest : List Char} (h : NoDigit rest) :
    readNatural (Nat.toDigits 10 n ++ rest) = some (n, rest) := by
  have hdigits : ∀ c ∈ Nat.toDigits 10 n, c.isDigit = true := fun c hc =>
    Nat.isDigit_of_mem_toDigits (by decide) (by decide) hc
  have htake : (Nat.toDigits 10 n ++ rest).takeWhile Char.isDigit = Nat.toDigits 10 n := by
    rw [List.takeWhile_append_of_pos hdigits]
    cases rest with
    | nil => simp
    | cons c rest => simp [h c rfl]
  have hdrop : (Nat.toDigits 10 n ++ rest).dropWhile Char.isDigit = rest := by
    rw [List.dropWhile_append_of_pos hdigits]
    cases rest with
    | nil => simp
    | cons c rest => simp [h c rfl]
  have hplain : ¬ (Nat.toDigits 10 n = [] ∨
      (Nat.toDigits 10 n).head? = some '0' ∧ Nat.toDigits 10 n ≠ ['0']) := by
    rintro (hnil | ⟨hhead, hne⟩)
    · exact Nat.toDigits_ne_nil hnil
    · by_cases hn : n = 0
      · subst hn
        exact hne rfl
      · exact head?_toDigits_ne hn hhead
  simp only [readNatural, htake, hdrop, if_neg hplain,
    Nat.ofDigitChars_toDigits (show 1 < 10 by decide) (show 10 ≤ 10 by decide)]

theorem readInteger_decimal (n : Int) {rest : List Char} (h : NoDigit rest) :
    readInteger (decimal n ++ rest) = some (n, rest) := by
  cases n with
  | ofNat m =>
      obtain ⟨c, cs, hcons, hc⟩ := exists_toDigits_eq_cons m
      have hsign : skip? '-' (Nat.toDigits 10 m ++ rest) = none := by
        rw [hcons, List.cons_append, skip?_cons_of_ne]
        rintro rfl
        simp at hc
      simp [decimal, readInteger, hsign, readNatural_toDigits m h]
  | negSucc m =>
      simp [decimal, readInteger, readNatural_toDigits (m + 1) h]
      omega

theorem exists_decimal_eq_cons (n : Int) : ∃ c cs, decimal n = c :: cs := by
  cases n with
  | ofNat m =>
      obtain ⟨c, cs, hcons, -⟩ := exists_toDigits_eq_cons m
      exact ⟨c, cs, hcons⟩
  | negSucc m => exact ⟨'-', _, rfl⟩

/-- A written number begins with a sign or a digit. -/
theorem ne_of_decimal_eq_cons {n : Int} {c d : Char} {cs : List Char} (h : decimal n = c :: cs)
    (hd : d ≠ '-' ∧ d.isDigit = false) : c ≠ d := by
  rintro rfl
  cases n with
  | ofNat m =>
      have hdigit : c.isDigit = true :=
        Nat.isDigit_of_mem_toDigits (by decide) (by decide) (h ▸ List.mem_cons_self ..)
      simp [hd.2] at hdigit
  | negSucc m => exact hd.1 (List.cons.inj h).1.symm

end Numbers

section Sorting

mutual

/-- The value as it is read: with the members of all objects in it sorted, and all texts joined. -/
def Value.asRead : Value → Value
  | .boolean b => .boolean b
  | .integer n => .integer n
  | .text t => .text t.joined
  | .object members => .object (sortMembers (membersAsRead members))

/-- The members with their values as they are read. -/
def membersAsRead : List (String × Value) → List (String × Value)
  | [] => []
  | (key, value) :: members => (key, value.asRead) :: membersAsRead members

end

/-- What holds of an object when it holds of its members holds of every value. -/
@[elab_as_elim]
theorem Value.induction {motive : Value → Prop} (boolean : ∀ b, motive (.boolean b))
    (integer : ∀ n, motive (.integer n)) (text : ∀ t, motive (.text t))
    (object : ∀ members, (∀ m ∈ members, motive m.2) → motive (.object members)) (v : Value) :
    motive v :=
  @Value.rec motive (fun members => ∀ m ∈ members, motive m.2) (fun m => motive m.2) boolean
    integer text object (by simp) (fun _ _ hm hms => List.forall_mem_cons.2 ⟨hm, hms⟩)
    (fun _ _ h => h) v

theorem membersAsRead_eq_map (members : List (String × Value)) :
    membersAsRead members = members.map (Prod.map id Value.asRead) := by
  induction members with
  | nil => rfl
  | cons m members ih => rw [membersAsRead, ih]; rfl

theorem renderValues_eq_map (members : List (String × Value)) :
    renderValues members = members.map (Prod.map id render) := by
  induction members with
  | nil => rfl
  | cons m members ih => rw [renderValues, ih]; rfl

variable {α β : Type}

theorem insertMember_map (f : α → β) (m : String × α) (ms : List (String × α)) :
    insertMember (Prod.map id f m) (ms.map (Prod.map id f)) =
      (insertMember m ms).map (Prod.map id f) := by
  induction ms with
  | nil => rfl
  | cons x ms ih =>
      by_cases h : x.1 < m.1
      · simp [insertMember, h, ih]
      · simp [insertMember, h]

/-- Sorting looks at the keys only. -/
theorem sortMembers_map (f : α → β) (ms : List (String × α)) :
    sortMembers (ms.map (Prod.map id f)) = (sortMembers ms).map (Prod.map id f) := by
  induction ms with
  | nil => rfl
  | cons m ms ih => rw [List.map_cons, sortMembers, ih, insertMember_map, sortMembers]

theorem perm_insertMember (m : String × α) (ms : List (String × α)) :
    (insertMember m ms).Perm (m :: ms) := by
  induction ms with
  | nil => exact List.Perm.refl _
  | cons x ms ih =>
      unfold insertMember
      split
      · exact (ih.cons x).trans (List.Perm.swap m x ms)
      · exact List.Perm.refl _

theorem perm_sortMembers (ms : List (String × α)) : (sortMembers ms).Perm ms := by
  induction ms with
  | nil => exact List.Perm.refl _
  | cons m ms ih => exact (perm_insertMember m _).trans (ih.cons m)

end Sorting

section RoundTrip

/-- The characters between the braces of an object. -/
theorem render_object (members : List (String × Value)) :
    render (.object members) =
      '{' :: (joinMembers (((sortMembers members).map (Prod.map id render)).map renderMember) ++
        ['}']) := by
  rw [render, renderValues_eq_map, sortMembers_map]

theorem asRead_object (members : List (String × Value)) :
    (Value.object members).asRead =
      .object ((sortMembers members).map (Prod.map id Value.asRead)) := by
  rw [Value.asRead, membersAsRead_eq_map, sortMembers_map]

theorem skipBlanks_of_ne {c : Char} (h : c ∉ [' ', '\t', '\n', '\r']) (rest : List Char) :
    skipBlanks (c :: rest) = c :: rest :=
  List.dropWhile_cons_of_neg (by rwa [decide_eq_true_iff])

/-- No written value begins with a blank. -/
theorem skipBlanks_render (v : Value) (rest : List Char) :
    skipBlanks (render v ++ rest) = render v ++ rest := by
  cases v with
  | boolean b => cases b <;> rfl
  | integer n =>
      obtain ⟨c, cs, hcons⟩ := exists_decimal_eq_cons n
      have hblank : ∀ d ∈ [' ', '\t', '\n', '\r'], d ≠ '-' ∧ d.isDigit = false := by simp
      have hmem : c ∉ [' ', '\t', '\n', '\r'] := fun hmem =>
        ne_of_decimal_eq_cons hcons (hblank c hmem) rfl
      rw [render, hcons, List.cons_append, skipBlanks_of_ne hmem]
  | text s => rfl
  | object members => rw [render_object]; rfl

theorem readValue_of_plain {steps : Nat} {cs tail : List Char} {c : Char}
    (hcs : skipBlanks cs = c :: tail) (hquote : c ≠ '"') (hbrace : c ≠ '{') :
    readValue (steps + 1) cs = readPlain (c :: tail) := by
  simp [readValue, hcs, skip?_cons_of_ne hquote, skip?_cons_of_ne hbrace]

theorem readPlain_decimal (n : Int) {rest : List Char} (h : NoDigit rest) :
    readPlain (decimal n ++ rest) = some (.integer n, rest) := by
  have hread := readInteger_decimal n h
  obtain ⟨c, cs, hcons⟩ := exists_decimal_eq_cons n
  have htrue : c ≠ 't' := ne_of_decimal_eq_cons hcons (by decide)
  have hfalse : c ≠ 'f' := ne_of_decimal_eq_cons hcons (by decide)
  rw [hcons, List.cons_append] at hread ⊢
  simp [readPlain, htrue, hfalse, hread]

theorem exists_eq_succ_of_length_le {v : Value} {steps : Nat} (h : (render v).length ≤ steps) :
    ∃ n, steps = n + 1 := by
  apply Nat.exists_eq_succ_of_ne_zero
  rintro rfl
  have hnil : render v = [] := List.length_eq_zero_iff.1 (Nat.le_zero.1 h)
  cases v with
  | boolean b => cases b <;> simp [render] at hnil
  | integer n =>
      obtain ⟨c, cs, hcons⟩ := exists_decimal_eq_cons n
      simp [render, hcons] at hnil
  | text s => simp [render, quote] at hnil
  | object members => simp [render] at hnil

/-- The text of a string can be read back from behind its opening quote. -/
theorem readString_quote (t : CodeText) {steps : Nat} (h : (quote t).length ≤ steps + 1)
    (rest : List Char) :
    readString steps (t.points.flatMap escape ++ '"' :: rest) = some (t.joined, rest) := by
  apply readString_escape
  have hlength := length_flatMap_units_le t.points
  simp only [quote, List.length_cons, List.length_append] at h
  omega

theorem readMembers_blank (steps : Nat) (cs : List Char) :
    readMembers steps (' ' :: cs) = readMembers steps cs := by
  cases steps <;> rfl

/-- The value can be read back, wherever it stands. -/
def Value.Readable (v : Value) : Prop :=
  ∀ {steps : Nat} {cs rest : List Char}, (render v).length ≤ steps → NoDigit rest →
    skipBlanks cs = render v ++ rest → readValue steps cs = some (v.asRead, rest)

/-- A member is read up to its end, and then come others or the end of the object. -/
theorem readMembers_member {key : String} {value : Value} (hvalue : value.Readable) {steps : Nat}
    {tail : List Char}
    (hsteps : (renderMember (key, render value)).length ≤ steps + 1) (htail : NoDigit tail) :
    readMembers (steps + 1) (renderMember (key, render value) ++ tail) =
      match skip? ',' (skipBlanks tail) with
      | some rest => (readMembers steps rest).map fun (members, rest) =>
          ((key, value.asRead) :: members, rest)
      | none => (skip? '}' (skipBlanks tail)).map fun rest => ([(key, value.asRead)], rest) := by
  simp only [renderMember, List.length_append, List.length_cons] at hsteps
  have hkey : readString steps
      ((CodeText.ofString key).points.flatMap escape ++
        '"' :: ':' :: ' ' :: (render value ++ tail)) =
        some (CodeText.ofString key, ':' :: ' ' :: (render value ++ tail)) := by
    rw [readString_quote key (by omega), CodeText.joined_ofString]
  have hread : readValue steps (' ' :: (render value ++ tail)) = some (value.asRead, tail) :=
    hvalue (by omega) htail (skipBlanks_render value tail)
  have hopen : skipBlanks (renderMember (key, render value) ++ tail) =
      '"' :: ((CodeText.ofString key).points.flatMap escape ++
        '"' :: ':' :: ' ' :: (render value ++ tail)) := by
    rw [renderMember, quote, List.cons_append, List.cons_append, skipBlanks_of_ne (by decide)]
    simp
  have hcolon : skipBlanks (':' :: ' ' :: (render value ++ tail)) =
      ':' :: ' ' :: (render value ++ tail) := skipBlanks_of_ne (by decide) _
  rw [readMembers, hopen]
  simp only [skip?_cons_self, Option.bind_eq_bind, Option.bind_some, hkey, hcolon, hread,
    CodeText.toString?_ofString]
  cases skip? ',' (skipBlanks tail) with
  | none => exact Option.map_eq_bind.symm
  | some rest => exact Option.map_eq_bind.symm

/-- Members whose values can be read back can be read back. -/
theorem readMembers_joinMembers {m : String × Value} {members : List (String × Value)}
    {steps : Nat} {rest : List Char} (hvalues : ∀ x ∈ m :: members, x.2.Readable)
    (hsteps : (joinMembers (((m :: members).map (Prod.map id render)).map renderMember)).length ≤
      steps) :
    readMembers steps (joinMembers (((m :: members).map (Prod.map id render)).map renderMember) ++
      '}' :: rest) = some ((m :: members).map (Prod.map id Value.asRead), rest) := by
  induction members generalizing m steps with
  | nil =>
      obtain ⟨key, value⟩ := m
      simp only [List.map_cons, List.map_nil, joinMembers, Prod.map_apply, id] at hsteps ⊢
      have hpos : steps ≠ 0 := by
        rintro rfl
        simp [renderMember] at hsteps
      obtain ⟨steps, rfl⟩ := Nat.exists_eq_succ_of_ne_zero hpos
      rw [readMembers_member (hvalues _ (List.mem_cons_self ..)) hsteps (by simp [NoDigit]),
        skipBlanks_of_ne (by decide), skip?_cons_of_ne (by decide), skip?_cons_self]
      rfl
  | cons m' members ih =>
      obtain ⟨key, value⟩ := m
      obtain ⟨hvalue, hvalues⟩ := List.forall_mem_cons.1 hvalues
      simp only [List.map_cons, joinMembers, Prod.map_apply, id, List.length_append,
        List.length_cons] at hsteps ih ⊢
      obtain ⟨steps, rfl⟩ : ∃ n, steps = n + 1 := ⟨steps - 1, by omega⟩
      have hrest := @ih m' steps hvalues (by omega)
      rw [List.append_assoc, List.cons_append, List.cons_append,
        readMembers_member hvalue (by dsimp only; omega) (by simp [NoDigit]),
        skipBlanks_of_ne (by decide), skip?_cons_self]
      simp only [readMembers_blank, hrest]
      rfl

/-- What is written of a value is read as `asRead` says. -/
theorem Value.readable (v : Value) : v.Readable := by
  intro steps cs rest hsteps hrest hcs
  obtain ⟨steps, rfl⟩ := exists_eq_succ_of_length_le hsteps
  induction v using Value.induction generalizing steps cs rest with
  | boolean b =>
      cases b <;> rw [readValue_of_plain hcs (by decide) (by decide)] <;> rfl
  | integer n =>
      obtain ⟨c, tail, hcons⟩ := exists_decimal_eq_cons n
      have hquote : c ≠ '"' := ne_of_decimal_eq_cons hcons (by decide)
      have hbrace : c ≠ '{' := ne_of_decimal_eq_cons hcons (by decide)
      have hread := readPlain_decimal n hrest
      rw [render, hcons, List.cons_append] at hcs
      rw [readValue_of_plain hcs hquote hbrace, ← List.cons_append, ← hcons, hread]
      rfl
  | text t =>
      have hcs : skipBlanks cs = '"' :: (t.points.flatMap escape ++ '"' :: rest) := by
        rw [hcs, render, quote]
        simp
      simp [readValue, hcs, readString_quote t hsteps, Value.asRead]
  | object members ih =>
      rw [render_object, List.cons_append, List.append_assoc] at hcs
      rw [render_object, List.length_cons, List.length_append] at hsteps
      rw [asRead_object]
      have hvalues : ∀ m ∈ sortMembers members, m.2.Readable := by
        intro m hm steps cs rest hle hnodigit hcs
        obtain ⟨steps, rfl⟩ := exists_eq_succ_of_length_le hle
        exact ih m ((perm_sortMembers members).mem_iff.1 hm) hnodigit hcs steps hle
      generalize sortMembers members = sorted at hcs hsteps hvalues ⊢
      have hquote := skip?_cons_of_ne (c := '"') (d := '{') (by decide)
      cases sorted with
      | nil =>
          have hcs : skipBlanks cs = '{' :: '}' :: rest := hcs
          simp [readValue, hcs, hquote, skipBlanks_of_ne]
      | cons m ms =>
          have hmembers := @readMembers_joinMembers m ms steps rest hvalues (by omega)
          have hopen : ∃ cs', joinMembers (((m :: ms).map (Prod.map id render)).map renderMember) ++
              '}' :: rest = '"' :: cs' := by
            cases ms <;> exact ⟨_, rfl⟩
          obtain ⟨cs', hopen⟩ := hopen
          have hcs : skipBlanks cs = '{' :: '"' :: cs' := hcs.trans (congrArg _ hopen)
          rw [hopen] at hmembers
          simp [readValue, hcs, hquote, skipBlanks_of_ne, skip?_cons_of_ne, hmembers]

/-- **What is written of a value can be read**, and nothing of it is lost but the order of its
members and whether a surrogate pair was one code point. -/
theorem read_render (v : Value) : read (render v) = some v.asRead := by
  have hread : readValue (render v).length (render v) = some (v.asRead, []) :=
    v.readable (Nat.le_refl _) (by simp [NoDigit]) (by simpa using skipBlanks_render v [])
  simp [read, hread, skipBlanks]

/-- Texts that `render` never writes can be read, too. -/
example : read "\x7b\t\"a\" :-10,\"b\":\"\\uD83D\\ude00\\/\" \x7d\n".toList =
    some (.object [("a", .integer (-10)), ("b", .text "😀/")]) := by
  cbv

end RoundTrip

section Printing

theorem printable_escapeUnit (n : Nat) : ∀ c ∈ escapeUnit n, Printable c := by
  have hdigit : ∀ m < 16, Printable (hexDigit m) := by decide
  simp only [escapeUnit, List.forall_mem_cons]
  exact ⟨by decide, by decide, hdigit _ (by omega), hdigit _ (by omega), hdigit _ (by omega),
    hdigit _ (by omega), by simp⟩

theorem printable_escape (p : CodePoint) : ∀ c ∈ escape p, Printable c := by
  have hescaped := escaped_escape p
  generalize escape p = cs at hescaped
  cases hescaped with
  | letter d c _ _ hp =>
      exact List.forall_mem_cons.2 ⟨by decide, List.forall_mem_singleton.2 hp⟩
  | plain c _ _ _ hp => exact List.forall_mem_singleton.2 hp
  | unit h => exact printable_escapeUnit _
  | pair h => exact List.forall_mem_append.2 ⟨printable_escapeUnit _, printable_escapeUnit _⟩

theorem printable_quote (t : CodeText) : ∀ c ∈ quote t, Printable c := by
  simp only [quote, List.forall_mem_cons, List.forall_mem_append, List.mem_flatMap]
  refine ⟨by decide, ?_, by decide, by simp⟩
  rintro c ⟨p, -, hc⟩
  exact printable_escape p c hc

theorem printable_decimal (n : Int) : ∀ c ∈ decimal n, Printable c := by
  have hdigits : ∀ m, ∀ c ∈ Nat.toDigits 10 m, Printable c := by
    intro m c hc
    have hdigit := Nat.isDigit_of_mem_toDigits (by decide) (by decide) hc
    simp only [Char.isDigit, Bool.and_eq_true, decide_eq_true_eq, ge_iff_le,
      UInt32.le_iff_toNat_le] at hdigit
    exact ⟨Nat.le_trans (by decide) hdigit.1, Nat.le_trans hdigit.2 (by decide)⟩
  cases n with
  | ofNat m => exact hdigits m
  | negSucc m => exact List.forall_mem_cons.2 ⟨by decide, hdigits (m + 1)⟩

theorem printable_joinMembers {pieces : List (List Char)}
    (h : ∀ piece ∈ pieces, ∀ c ∈ piece, Printable c) : ∀ c ∈ joinMembers pieces, Printable c := by
  induction pieces with
  | nil => simp [joinMembers]
  | cons piece pieces ih =>
      obtain ⟨hpiece, hpieces⟩ := List.forall_mem_cons.1 h
      cases pieces with
      | nil => exact hpiece
      | cons next pieces =>
          exact List.forall_mem_append.2 ⟨hpiece, List.forall_mem_cons.2 ⟨by decide,
            List.forall_mem_cons.2 ⟨by decide, ih hpieces⟩⟩⟩

/-- A written value consists of printable ASCII characters. -/
theorem printable_render (v : Value) : ∀ c ∈ render v, Printable c := by
  induction v using Value.induction with
  | boolean b => cases b <;> simp [render, Printable]
  | integer n => exact printable_decimal n
  | text t => exact printable_quote t
  | object members ih =>
      rw [render_object]
      refine List.forall_mem_cons.2 ⟨by decide, List.forall_mem_append.2
        ⟨?_, List.forall_mem_singleton.2 (by decide)⟩⟩
      apply printable_joinMembers
      simp only [List.forall_mem_map]
      intro m hm
      have hvalue := ih m ((perm_sortMembers members).mem_iff.1 hm)
      exact List.forall_mem_append.2 ⟨printable_quote m.1, List.forall_mem_cons.2 ⟨by decide,
        List.forall_mem_cons.2 ⟨by decide, hvalue⟩⟩⟩

/-- So it never breaks the line. -/
theorem lineFeed_not_mem_render (v : Value) : '\n' ∉ render v := fun h =>
  absurd (printable_render v '\n' h) (by decide)

end Printing

section Members

/-- The member of an object with the given key; if there are several, the last one. -/
def Value.member? (key : String) : Value → Option Value
  | .object members => members.reverse.lookup key
  | _ => none

theorem Value.member?_object_eq_some_iff {members : List (String × Value)}
    (hn : (members.map Prod.fst).Nodup) {key : String} {v : Value} :
    (Value.object members).member? key = some v ↔ (key, v) ∈ members := by
  rw [member?, List.lookup_eq_some_iff]
  constructor
  · rintro ⟨before, after, h, -⟩
    rw [← List.mem_reverse]
    simp [h]
  · intro hmem
    obtain ⟨before, after, rfl⟩ := List.append_of_mem hmem
    rw [List.map_append, List.map_cons] at hn
    have hnew := (List.nodup_cons.1 (hn.sublist (List.sublist_append_right _ _))).1
    refine ⟨after.reverse, before.reverse, by simp, fun m hm => ?_⟩
    have hne : key ≠ m.1 := by
      rintro rfl
      exact hnew (List.mem_map.2 ⟨m, List.mem_reverse.1 hm, rfl⟩)
    simpa using hne

/-- Sorting changes no member of an object, if no key occurs twice. -/
theorem Value.member?_asRead {members : List (String × Value)}
    (hn : (members.map Prod.fst).Nodup) (key : String) :
    (Value.object members).asRead.member? key =
      ((Value.object members).member? key).map Value.asRead := by
  have hkeys : ((members.map (Prod.map id Value.asRead)).map Prod.fst).Nodup := by
    simpa [Function.comp_def] using hn
  have hperm := perm_sortMembers (membersAsRead members)
  apply Option.ext
  intro v
  rw [Value.asRead, member?_object_eq_some_iff, hperm.mem_iff, membersAsRead_eq_map,
    Option.map_eq_some_iff]
  · simp only [member?_object_eq_some_iff hn, List.mem_map, Prod.map, Prod.mk.injEq, id]
    constructor
    · rintro ⟨⟨k, w⟩, hmem, rfl, rfl⟩
      exact ⟨w, hmem, rfl⟩
    · rintro ⟨w, hmem, rfl⟩
      exact ⟨(key, w), hmem, rfl, rfl⟩
  · rwa [(hperm.map Prod.fst).nodup_iff, membersAsRead_eq_map]

end Members

end Json
end FindingLedger
