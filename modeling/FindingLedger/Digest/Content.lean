import FindingLedger.Digest.Sha256
import FindingLedger.Text.Blank
import FindingLedger.Text.Excerpt

/-!
# Content hashes

**Input.**  A piece of source text.

**Algorithm.**  The text without its blank characters is written in UTF-8, digested by SHA-256,
and the first four bytes of the digest are read as a signed 32-bit number.

* `contentHash` is the hash of a text.
* `lineHash` and `textRangeHash` are the hashes of a line and of a text range of a source, when
  the source has them.
-/

namespace FindingLedger
namespace Digest

open Text

/-- The number that bytes denote, most significant byte first. -/
def natOfBytes (bs : List UInt8) : Nat :=
  bs.foldl (fun n b => 256 * n + b.toNat) 0

/-- The number in `[-2 ^ 31, 2 ^ 31)` that agrees with `n` modulo `2 ^ 32`. -/
def signed32 (n : Nat) : Int :=
  Int.bmod n 0x100000000

/-- The bytes that are hashed for a text: its words, joined, in UTF-8. -/
def hashedBytes (text : List Char) : List UInt8 :=
  (String.ofList (compact text)).toUTF8.data.toList

/-- The hash of a text; blank characters do not count. -/
def contentHash (text : List Char) : Int :=
  signed32 (natOfBytes ((Sha256.digest (hashedBytes text)).take 4))

/-- The hash of the line with the given number, if the source has it. -/
def lineHash (source : String) (n : Int) : Option Int :=
  (line? (lines source.toList) n).map contentHash

/-- The hash of the excerpt that a range covers, if the source has one. -/
def textRangeHash (source : String) (r : TextRange) : Option Int :=
  (excerpt (lines source.toList) r).map contentHash

end Digest
end FindingLedger
