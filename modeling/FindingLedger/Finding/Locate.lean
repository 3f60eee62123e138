import FindingLedger.Digest.Content
import FindingLedger.Finding.Basic

/-!
# Fingerprints of findings

A finding is given the content hashes of its location in a source text: of its line when it has
one, of its text range when it has one.  A hash without a location in the finding stays as it is;
a location that the source does not have leaves no hash.
-/

namespace FindingLedger

variable {π : Type}

/-- The content with the hashes of its location in the source. -/
def Content.located (c : Snapshot π) (source : String) : Snapshot π :=
  { c with
    lineHash := match c.line with
      | some n => Digest.lineHash source n
      | none => c.lineHash
    textRangeHash := match c.textRange with
      | some r => Digest.textRangeHash source r
      | none => c.textRangeHash }

/-- A new finding with its fingerprints, or the same one when it has no location. -/
def Finding.fingerprint (next : Nat) (f : Finding π) (source : String) : Finding π × Nat :=
  if f.isFileLevel then (f, next) else Finding.mint next (f.toContent.located source)

end FindingLedger
