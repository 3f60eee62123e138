/-!
# The SHA-256 digest

**Input.**  A message, as a list of bytes.

**Algorithm.**
* `pad` completes the message to whole blocks of 64 bytes; the last eight bytes hold its length
  in bits.
* `schedule` extends the sixteen words of a block to sixty-four.
* `compress` mixes a block into the eight words of the state, one round a scheduled word.
* `digest` compresses the blocks in order and writes the final state as 32 bytes.

Words are 32-bit and their addition wraps.  Bytes are grouped with the most significant one first.
-/

namespace FindingLedger
namespace Sha256

/-- The eight words that compression carries from block to block. -/
structure State where
  a : UInt32
  b : UInt32
  c : UInt32
  d : UInt32
  e : UInt32
  f : UInt32
  g : UInt32
  h : UInt32
deriving DecidableEq, Repr, Inhabited

/-- The state before the first block. -/
def initial : State where
  a := 0x6a09e667
  b := 0xbb67ae85
  c := 0x3c6ef372
  d := 0xa54ff53a
  e := 0x510e527f
  f := 0x9b05688c
  g := 0x1f83d9ab
  h := 0x5be0cd19

/-- One constant for each round. -/
def roundConstants : List UInt32 :=
  [0x428a2f98, 0x71374491, 0xb5c0fbcf, 0xe9b5dba5, 0x3956c25b, 0x59f111f1, 0x923f82a4, 0xab1c5ed5,
   0xd807aa98, 0x12835b01, 0x243185be, 0x550c7dc3, 0x72be5d74, 0x80deb1fe, 0x9bdc06a7, 0xc19bf174,
   0xe49b69c1, 0xefbe4786, 0x0fc19dc6, 0x240ca1cc, 0x2de92c6f, 0x4a7484aa, 0x5cb0a9dc, 0x76f988da,
   0x983e5152, 0xa831c66d, 0xb00327c8, 0xbf597fc7, 0xc6e00bf3, 0xd5a79147, 0x06ca6351, 0x14292967,
   0x27b70a85, 0x2e1b2138, 0x4d2c6dfc, 0x53380d13, 0x650a7354, 0x766a0abb, 0x81c2c92e, 0x92722c85,
   0xa2bfe8a1, 0xa81a664b, 0xc24b8b70, 0xc76c51a3, 0xd192e819, 0xd6990624, 0xf40e3585, 0x106aa070,
   0x19a4c116, 0x1e376c08, 0x2748774c, 0x34b0bcb5, 0x391c0cb3, 0x4ed8aa4a, 0x5b9cca4f, 0x682e6ff3,
   0x748f82ee, 0x78a5636f, 0x84c87814, 0x8cc70208, 0x90befffa, 0xa4506ceb, 0xbef9a3f7, 0xc67178f2]

/-- The four bytes of a word, most significant first. -/
def bytesOfWord (w : UInt32) : List UInt8 :=
  [(w >>> 24).toUInt8, (w >>> 16).toUInt8, (w >>> 8).toUInt8, w.toUInt8]

/-- The word of four bytes, most significant first. -/
def wordOfBytes (b₃ b₂ b₁ b₀ : UInt8) : UInt32 :=
  (b₃.toUInt32 <<< 24) ||| (b₂.toUInt32 <<< 16) ||| (b₁.toUInt32 <<< 8) ||| b₀.toUInt32

/-- The bytes of a message grouped into words; fewer than four bytes at the end are left out. -/
def wordsOfBytes : List UInt8 → List UInt32
  | b₃ :: b₂ :: b₁ :: b₀ :: bs => wordOfBytes b₃ b₂ b₁ b₀ :: wordsOfBytes bs
  | _ => []

/-- The eight bytes of a length below `2 ^ 64`, most significant first. -/
def lengthBytes (n : Nat) : List UInt8 :=
  [56, 48, 40, 32, 24, 16, 8, 0].map fun s => UInt8.ofNat (n >>> s)

/-- How many zero bytes stand between the marker byte and the length. -/
def zeroCount (n : Nat) : Nat :=
  (119 - n % 64) % 64

/-- The message, a marker byte, zero bytes and the length in bits, in whole blocks. -/
def pad (message : List UInt8) : List UInt8 :=
  message ++
    0x80 :: (List.replicate (zeroCount message.length) 0 ++ lengthBytes (8 * message.length))

/-- The first `n` blocks of sixteen words. -/
def blocks : Nat → List UInt32 → List (List UInt32)
  | 0, _ => []
  | n + 1, ws => ws.take 16 :: blocks n (ws.drop 16)

/-- Rotation to the right. -/
def rotate (w : UInt32) (n : UInt32) : UInt32 :=
  (w >>> n) ||| (w <<< (32 - n))

/-- The next scheduled word, from the words before it with the newest first. -/
def nextWord (newestFirst : List UInt32) : UInt32 :=
  let w (i : Nat) := newestFirst.getD i 0
  let s₀ := rotate (w 14) 7 ^^^ rotate (w 14) 18 ^^^ (w 14 >>> 3)
  let s₁ := rotate (w 1) 17 ^^^ rotate (w 1) 19 ^^^ (w 1 >>> 10)
  w 15 + s₀ + w 6 + s₁

/-- Adds `n` words to a schedule with the newest word first. -/
def extendSchedule : Nat → List UInt32 → List UInt32
  | 0, ws => ws
  | n + 1, ws => extendSchedule n (nextWord ws :: ws)

/-- The sixty-four words that a block of sixteen schedules. -/
def schedule (block : List UInt32) : List UInt32 :=
  (extendSchedule 48 block.reverse).reverse

/-- One round: a round constant and a scheduled word are mixed into the state. -/
def round (s : State) (k w : UInt32) : State :=
  let t₁ := s.h + (rotate s.e 6 ^^^ rotate s.e 11 ^^^ rotate s.e 25) +
    ((s.e &&& s.f) ^^^ (~~~s.e &&& s.g)) + k + w
  let t₂ := (rotate s.a 2 ^^^ rotate s.a 13 ^^^ rotate s.a 22) +
    ((s.a &&& s.b) ^^^ (s.a &&& s.c) ^^^ (s.b &&& s.c))
  ⟨t₁ + t₂, s.a, s.b, s.c, s.d + t₁, s.e, s.f, s.g⟩

/-- The rounds of a schedule, in order. -/
def rounds : State → List UInt32 → List UInt32 → State
  | s, k :: ks, w :: ws => rounds (round s k w) ks ws
  | s, _, _ => s

/-- Wordwise sum of two states. -/
def State.add (s t : State) : State :=
  ⟨s.a + t.a, s.b + t.b, s.c + t.c, s.d + t.d, s.e + t.e, s.f + t.f, s.g + t.g, s.h + t.h⟩

/-- Mixes one block into the state. -/
def compress (s : State) (block : List UInt32) : State :=
  s.add (rounds s roundConstants (schedule block))

/-- The bytes of a state, word by word. -/
def State.bytes (s : State) : List UInt8 :=
  [s.a, s.b, s.c, s.d, s.e, s.f, s.g, s.h].flatMap bytesOfWord

/-- The 32 bytes of the digest of a message. -/
def digest (message : List UInt8) : List UInt8 :=
  let words := wordsOfBytes (pad message)
  ((blocks (words.length / 16) words).foldl compress initial).bytes

/-- A state is written in 32 bytes. -/
theorem length_bytes (s : State) : s.bytes.length = 32 := by
  simp [State.bytes, bytesOfWord]

theorem length_digest (message : List UInt8) : (digest message).length = 32 :=
  length_bytes _

end Sha256
end FindingLedger
