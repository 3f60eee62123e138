import FindingLedger.Finding.Change
import FindingLedger.Finding.Locate

/-!
# The registry of built findings

The registry hands out handles and keeps every finding that was built, so that later requests can
name it.

**Input.**  An entry, which names a built finding, or gives a draft, or gives a draft together with
the source in which it is to be located.

**Algorithm.**  `enter` turns one entry into a finding, `enterAll` a list of them in order.  At the
first rejected draft it stops; the handles used up so far stay used up.
-/

namespace FindingLedger

/-- A way to name a finding that a request is about. -/
inductive Entry (π : Type)
  | known (handle : Nat)
  | draft (content : Draft π)
  | located (content : Draft π) (source : String)

/-- Why a request could not find or build the findings that it is about. -/
inductive EntryError
  | rejected (cause : Rejection)
  | unknownHandle (handle : Nat)
deriving DecidableEq, Repr

/-- The next handle and all findings built so far, the newest first. -/
structure Registry (π : Type) where
  next : Nat
  built : List (Finding π)

namespace Registry

variable {π : Type}

/-- No finding has been built yet. -/
def empty : Registry π :=
  ⟨1, []⟩

/-- The built finding with the given handle. -/
def find? (r : Registry π) (handle : Nat) : Option (Finding π) :=
  r.built.find? fun f => decide (f.handle = handle)

/-- Notes the outcome of building a finding. -/
def note (r : Registry π) : Except Rejection (Finding π) × Nat →
    Except EntryError (Finding π) × Registry π
  | (.ok f, next) => (.ok f, ⟨next, f :: r.built⟩)
  | (.error e, next) => (.error (.rejected e), { r with next := next })

/-- Builds a finding from a draft. -/
def build (r : Registry π) (d : Draft π) : Except EntryError (Finding π) × Registry π :=
  r.note (Finding.build r.next d)

/-- The finding with the given handle, or the error that there is none. -/
def get (r : Registry π) (handle : Nat) : Except EntryError (Finding π) :=
  match r.find? handle with
  | some f => .ok f
  | none => .error (.unknownHandle handle)

/-- Builds a changed copy of the finding with the given handle. -/
def evolve (r : Registry π) (handle : Nat) (changes : List (Change π)) :
    Except EntryError (Finding π) × Registry π :=
  match r.get handle with
  | .ok f => r.note (f.evolve r.next changes)
  | .error e => (.error e, r)

/-- Fingerprints a finding; one without a location is no new finding. -/
def fingerprint (r : Registry π) (f : Finding π) (source : String) : Finding π × Registry π :=
  let located := f.fingerprint r.next source
  (located.1, if f.isFileLevel then r else ⟨located.2, located.1 :: r.built⟩)

/-- The finding that an entry stands for. -/
def enter (r : Registry π) : Entry π → Except EntryError (Finding π) × Registry π
  | .known handle => (r.get handle, r)
  | .draft d => r.build d
  | .located d source =>
      match r.build d with
      | (.ok f, r) => (.ok (r.fingerprint f source).1, (r.fingerprint f source).2)
      | (.error e, r) => (.error e, r)

/-- The findings that a list of entries stands for, up to the first error. -/
def enterAll (r : Registry π) : List (Entry π) → Except EntryError (List (Finding π)) × Registry π
  | [] => (.ok [], r)
  | e :: es =>
      match r.enter e with
      | (.error err, r) => (.error err, r)
      | (.ok f, r) =>
          match r.enterAll es with
          | (.error err, r) => (.error err, r)
          | (.ok fs, r) => (.ok (f :: fs), r)

end Registry
end FindingLedger
