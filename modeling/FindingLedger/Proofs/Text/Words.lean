import FindingLedger.Digest.Content
import Mathlib.Data.Int.ModEq
import Mathlib.Tactic.NormNum

/-!
# What a content hash sees

**Input.**  A text.

**Algorithm.**  The words of a text are written one after the other, in UTF-8, and digested; the
first four bytes of the digest are read as a signed number.  `Worded` says what the words are
without scanning the text: runs of characters that are not blank, with blanks before, between and
behind them.

**Results.**
* `worded_iff`: a text has its words, and no others.
* `hashedBytes_inj`: two texts are digested as the same bytes exactly when they differ in blanks
  only.
* `signed32_eq_iff`: the signed number is the only one in its range that agrees modulo `2 ^ 32`.
* `hash_sees_what_is_not_blank`: so the hash depends on the characters that are not blank.
-/

namespace FindingLedger

namespace Text

/-- A text that consists of words, with blanks before, between and behind them. -/
inductive Worded : List Char → List (List Char) → Prop
  | blank {blanks : List Char} (hblanks : ∀ c ∈ blanks, isBlank c = true) : Worded blanks []
  | word {blanks word rest : List Char} {ws : List (List Char)}
      (hblanks : ∀ c ∈ blanks, isBlank c = true)
      (hne : word ≠ []) (hword : ∀ c ∈ word, isBlank c = false)
      (hend : ∀ c, rest.head? = some c → isBlank c = true)
      (hrest : Worded rest ws) :
      Worded (blanks ++ (word ++ rest)) (word :: ws)

section Words

variable {blanks w rest cs : List Char} {ws : List (List Char)} {c : Char}

theorem words_cons_of_blank (h : isBlank c = true) : words (c :: cs) = words cs := by
  simp [words, leadingRun, h, addWord]

theorem words_blanks_append (h : ∀ c ∈ blanks, isBlank c = true) (cs : List Char) :
    words (blanks ++ cs) = words cs := by
  induction blanks with
  | nil => rfl
  | cons c blanks ih =>
      obtain ⟨hc, hblanks⟩ := List.forall_mem_cons.1 h
      rw [List.cons_append, words_cons_of_blank hc, ih hblanks]

/-- Where no word goes on, nothing is left of a run. -/
theorem leadingRun_of_end (h : ∀ c, cs.head? = some c → isBlank c = true) :
    leadingRun cs = ([], words cs) := by
  cases cs with
  | nil => rfl
  | cons c cs => simp [words, leadingRun, h c rfl, addWord]

theorem leadingRun_append (hw : ∀ c ∈ w, isBlank c = false) (rest : List Char) :
    leadingRun (w ++ rest) = (w ++ (leadingRun rest).1, (leadingRun rest).2) := by
  induction w with
  | nil => rfl
  | cons c w ih =>
      obtain ⟨hc, hw⟩ := List.forall_mem_cons.1 hw
      simp [leadingRun, hc, ih hw]

theorem words_word_append (hne : w ≠ []) (hw : ∀ c ∈ w, isBlank c = false)
    (hend : ∀ c, rest.head? = some c → isBlank c = true) :
    words (w ++ rest) = w :: words rest := by
  obtain ⟨c, cs, rfl⟩ := List.exists_cons_of_ne_nil hne
  rw [words, leadingRun_append hw, leadingRun_of_end hend, List.append_nil]
  rfl

theorem Worded.words_eq (h : Worded cs ws) : words cs = ws := by
  induction h with
  | blank hblanks =>
      have hnil := words_blanks_append hblanks []
      rwa [List.append_nil] at hnil
  | word hblanks hne hword hend _ ih =>
      rw [words_blanks_append hblanks, words_word_append hne hword hend, ih]

theorem Worded.cons_blank (hc : isBlank c = true) (h : Worded cs ws) : Worded (c :: cs) ws := by
  cases h with
  | blank hblanks => exact .blank (List.forall_mem_cons.2 ⟨hc, hblanks⟩)
  | word hblanks hne hword hend hrest =>
      exact .word (List.forall_mem_cons.2 ⟨hc, hblanks⟩) hne hword hend hrest

/-- A run in front of a worded text that begins with a blank is its first word. -/
theorem Worded.addWord (hw : ∀ c ∈ w, isBlank c = false)
    (hend : ∀ c, rest.head? = some c → isBlank c = true) (h : Worded rest ws) :
    Worded (w ++ rest) (Text.addWord w ws) := by
  cases w with
  | nil => exact h
  | cons c w =>
      have hword : Worded ([] ++ (c :: w ++ rest)) ((c :: w) :: ws) :=
        .word (by simp) (by simp) hw hend h
      exact hword

/-- The leading run of a text, and what is left of the text behind it. -/
theorem exists_leadingRun (cs : List Char) :
    ∃ rest, cs = (leadingRun cs).1 ++ rest ∧ (∀ c ∈ (leadingRun cs).1, isBlank c = false) ∧
      (∀ c, rest.head? = some c → isBlank c = true) ∧ Worded rest (leadingRun cs).2 := by
  induction cs with
  | nil => exact ⟨[], rfl, by simp [leadingRun], by simp, .blank (by simp)⟩
  | cons c cs ih =>
      obtain ⟨rest, hcs, hrun, hend, hrest⟩ := ih
      by_cases hc : isBlank c = true
      · -- The run ends here, and the run behind the blank becomes a word.
        have hworded : Worded cs (Text.addWord (leadingRun cs).1 (leadingRun cs).2) := by
          conv => arg 1; rw [hcs]
          exact hrest.addWord hrun hend
        rw [leadingRun, if_pos hc]
        exact ⟨c :: cs, rfl, by simp, by simpa using hc, hworded.cons_blank hc⟩
      · rw [leadingRun, if_neg hc]
        refine ⟨rest, ?_, List.forall_mem_cons.2 ⟨by simpa using hc, hrun⟩, hend, hrest⟩
        rw [List.cons_append, ← hcs]

theorem worded_words (cs : List Char) : Worded cs (words cs) := by
  obtain ⟨rest, hcs, hrun, hend, hrest⟩ := exists_leadingRun cs
  conv => arg 1; rw [hcs]
  exact hrest.addWord hrun hend

/-- **A text has its words, and no others.** -/
theorem worded_iff : Worded cs ws ↔ words cs = ws :=
  ⟨Worded.words_eq, fun h => h ▸ worded_words cs⟩

end Words
end Text

namespace Digest

open Text

/-- Texts are digested as the same bytes exactly when they differ in blanks only. -/
theorem hashedBytes_inj {s t : List Char} : hashedBytes s = hashedBytes t ↔
    (s.filter fun c => !isBlank c) = t.filter fun c => !isBlank c := by
  rw [hashedBytes, hashedBytes, Array.toList_inj, ← ByteArray.ext_iff, String.toUTF8_eq_toByteArray,
    String.toUTF8_eq_toByteArray, String.toByteArray_inj, String.ofList_inj, compact_eq_filter,
    compact_eq_filter]

/-- The signed number is the only one in its range that agrees modulo `2 ^ 32`. -/
theorem signed32_eq_iff {n : Nat} {z : Int} :
    signed32 n = z ↔ -2 ^ 31 ≤ z ∧ z < 2 ^ 31 ∧ z ≡ n [ZMOD 2 ^ 32] := by
  have hiff : signed32 n = z ↔ _ := Int.bmod_eq_iff (by norm_num)
  rw [hiff, Int.modEq_comm, Int.modEq_iff_dvd]
  norm_num

/-- The hash of a text by the first four bytes of its digest. -/
theorem exists_contentHash (s : List Char) :
    ∃ b₀ b₁ b₂ b₃ rest, Sha256.digest (hashedBytes s) = b₀ :: b₁ :: b₂ :: b₃ :: rest ∧
      contentHash s =
        signed32 (b₀.toNat * 2 ^ 24 + b₁.toNat * 2 ^ 16 + b₂.toNat * 2 ^ 8 + b₃.toNat) := by
  have hlength := Sha256.length_digest (hashedBytes s)
  match hdigest : Sha256.digest (hashedBytes s), hlength with
  | b₀ :: b₁ :: b₂ :: b₃ :: rest, _ =>
      refine ⟨b₀, b₁, b₂, b₃, rest, rfl, ?_⟩
      rw [contentHash, hdigest]
      congr 1
      simp only [natOfBytes, List.take_succ_cons, List.take_zero, List.foldl_cons, List.foldl_nil]
      omega

end Digest

open Text Digest in
/-- **A content hash sees the characters that are not blank, and nothing else.**  Whatever words a
text consists of, writing them one after the other deletes its blanks, wherever they stand, and what
is digested is this in UTF-8.  So two texts are digested as the same bytes exactly when they agree
after all blanks are deleted, and then they have the same hash.  The hash is the one number from
`-2 ^ 31` up to `2 ^ 31` that agrees modulo `2 ^ 32` with the first four bytes of the digest, most
significant byte first. -/
theorem hash_sees_what_is_not_blank :
    (∀ s ws, Worded s ws → ws.flatten = s.filter (fun c => !isBlank c) ∧
      hashedBytes s = (String.ofList ws.flatten).toUTF8.data.toList) ∧
    (∀ s t, hashedBytes s = hashedBytes t ↔
      (s.filter fun c => !isBlank c) = t.filter fun c => !isBlank c) ∧
    (∀ s t, (s.filter fun c => !isBlank c) = (t.filter fun c => !isBlank c) →
      contentHash s = contentHash t) ∧
    ∀ s, (∃ ws, Worded s ws) ∧
      ∃ b₀ b₁ b₂ b₃ rest, Sha256.digest (hashedBytes s) = b₀ :: b₁ :: b₂ :: b₃ :: rest ∧
        ∀ z : Int, z = contentHash s ↔ -2 ^ 31 ≤ z ∧ z < 2 ^ 31 ∧
          z ≡ b₀.toNat * 2 ^ 24 + b₁.toNat * 2 ^ 16 + b₂.toNat * 2 ^ 8 + b₃.toNat
            [ZMOD 2 ^ 32] := by
  refine ⟨fun s ws h => ?_, fun s t => hashedBytes_inj, fun s t h => ?_, fun s => ?_⟩
  · obtain rfl := worded_iff.1 h
    exact ⟨compact_eq_filter s, rfl⟩
  · rw [contentHash, contentHash, hashedBytes_inj.2 h]
  · obtain ⟨b₀, b₁, b₂, b₃, rest, hdigest, hhash⟩ := exists_contentHash s
    refine ⟨⟨_, worded_words s⟩, b₀, b₁, b₂, b₃, rest, hdigest, fun z => ?_⟩
    rw [hhash, eq_comm, signed32_eq_iff]
    push_cast
    rfl

open Text Digest in
/-- Three words among blanks of one, two and three bytes, and the same characters without a blank;
an accent is a difference. -/
theorem hash_sees_what_is_not_blank_spread :
    Worded "\t é\n\u3000x y\u0085".toList ["é".toList, "x".toList, "y".toList] ∧
      hashedBytes "\t é\n\u3000x y\u0085".toList = [0xC3, 0xA9, 0x78, 0x79] ∧
      contentHash "\t é\n\u3000x y\u0085".toList = contentHash "éxy".toList ∧
      hashedBytes "éxy".toList ≠ hashedBytes "exy".toList := by
  have hworded : Worded "\t é\n\u3000x y\u0085".toList ["é".toList, "x".toList, "y".toList] :=
    worded_iff.2 (by decide)
  obtain ⟨hjoin, hbytes, hhash, -⟩ := hash_sees_what_is_not_blank
  obtain ⟨-, hdigested⟩ := hjoin _ _ hworded
  refine ⟨hworded, hdigested.trans (by decide), hhash _ _ (by decide), ?_⟩
  rw [ne_eq, hbytes]
  decide

end FindingLedger
