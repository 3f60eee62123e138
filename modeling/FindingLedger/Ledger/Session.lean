import FindingLedger.Finding.Registry
import FindingLedger.Ledger.Basic

/-!
# Sessions

A session is a ledger together with the findings built so far, which later requests can name.

**Input.**  Requests: calls on the ledger, whose findings are given as entries, and settings of
the clock, which only an adjustable clock accepts.

**Algorithm.**  `Session.step` builds the findings that a call is about and then makes the call.
If a finding cannot be built, the call is not made; the handles used up stay used up.

Writing its record is the last thing that a call does.  `Session.perform` makes a call up to there,
with all its effects, and `Session.call` then reports the fault if the record was not written.
-/

namespace FindingLedger

namespace Store.Op

variable {φ ψ : Type}

/-- The items that a use of the store brings along. -/
def items : Op φ → List φ
  | replace _ values => values
  | _ => []

/-- The same use of the store with other items. -/
def withItems (values : List ψ) : Op φ → Op ψ
  | isFirstAnalysis file => isFirstAnalysis file
  | currentState file => currentState file
  | currentStateOrFail file => currentStateOrFail file
  | replace file _ => replace file values
  | knownFiles => knownFiles
  | clear => clear
  | dispose => dispose

end Store.Op

/-- A call on a ledger; `ι` is how its findings are given. -/
inductive Call (ι : Type)
  | track (file : CodeText) (items : List ι)
  | rebase (file : CodeText) (items : List ι)
  | reset
  | dispose
  | useStore (op : Store.Op ι)

namespace Call

variable {ι κ : Type}

/-- The items that a call brings along. -/
def items : Call ι → List ι
  | track _ items => items
  | rebase _ items => items
  | useStore op => op.items
  | _ => []

/-- The same call with other items. -/
def withItems (items : List κ) : Call ι → Call κ
  | track file _ => track file items
  | rebase file _ => rebase file items
  | reset => reset
  | dispose => dispose
  | useStore op => useStore (op.withItems items)

end Call

/-- What a call gives back. -/
inductive Reply (π : Type)
  | findings (items : List (Finding π))
  | store (answer : Store.Answer (Finding π))

namespace Ledger

variable {π : Type}

/-- Makes one call. -/
def perform (L : Ledger π) : Call (Finding π) → Except LedgerError (Reply π) × Ledger π
  | .track file items => ((L.track file items).1.map .findings, (L.track file items).2)
  | .rebase file items => ((L.rebase file items).1.map .findings, (L.rebase file items).2)
  | .reset => (L.reset.1.map .store, L.reset.2)
  | .dispose => (L.dispose.1.map .store, L.dispose.2)
  | .useStore op => ((L.useStore op).1.map .store, (L.useStore op).2)

end Ledger

/-- A request to a session. -/
inductive Request (π : Type)
  | call (call : Call (Entry π))
  | setClock (time step : Int)

/-- Why a request failed. -/
inductive SessionError
  | entry (cause : EntryError)
  | ledger (cause : LedgerError)
  | unwritten (cause : Audit.Fault)
  | fixedClock
deriving DecidableEq, Repr

/-- A ledger and the findings built so far, newest first. -/
structure Session (π : Type) where
  ledger : Ledger π
  built : List (Finding π)

namespace Session

variable {π : Type}

/-- A session that begins with a ledger. -/
def start (L : Ledger π) : Session π :=
  ⟨L, []⟩

/-- The registry of a session. -/
def registry (s : Session π) : Registry π :=
  ⟨s.ledger.nextHandle, s.built⟩

/-- The session with another registry. -/
def withRegistry (s : Session π) (r : Registry π) : Session π :=
  ⟨{ s.ledger with nextHandle := r.next }, r.built⟩

/-- Makes a call and keeps the findings that it built.  Whether the record of the call could be
written is not asked here. -/
def perform (s : Session π) (c : Call (Finding π)) :
    Except SessionError (Reply π) × Session π :=
  match s.ledger.perform c with
  | (.error e, L) => (.error (.ledger e), ⟨L, s.built⟩)
  | (.ok (.findings items), L) =>
      (.ok (.findings items),
        ⟨L, items.filter (fun f => decide (s.ledger.nextHandle ≤ f.handle)) ++ s.built⟩)
  | (.ok (.store answer), L) => (.ok (.store answer), ⟨L, s.built⟩)

/-- Makes a call, which fails in the end if its record was not written.  All that it has done is not
undone. -/
def call (s : Session π) (c : Call (Finding π)) : Except SessionError (Reply π) × Session π :=
  let done := s.perform c
  match done.1, done.2.ledger.log.faultSince s.ledger.log with
  | .ok _, some fault => (.error (.unwritten fault), done.2)
  | _, _ => done

/-- A call whose record was not written has done the same as one whose record was. -/
@[simp] theorem call_snd (s : Session π) (c : Call (Finding π)) :
    (s.call c).2 = (s.perform c).2 := by
  simp only [call]
  split <;> rfl

/-- Answers one request. -/
def step (s : Session π) : Request π → Except SessionError (Reply π) × Session π
  | .call c =>
      match s.registry.enterAll c.items with
      | (.error e, r) => (.error (.entry e), s.withRegistry r)
      | (.ok items, r) => (s.withRegistry r).call (c.withItems items)
  | .setClock time step =>
      if s.ledger.clock.adjustable then
        (.ok (.store .done),
          { s with ledger := { s.ledger with clock := s.ledger.clock.set time step } })
      else (.error .fixedClock, s)

/-- The sessions after each request of a list, with the outcome of the request. -/
def runAll (s : Session π) : List (Request π) → List (Except SessionError (Reply π) × Session π)
  | [] => []
  | q :: qs => s.step q :: runAll (s.step q).2 qs

end Session
end FindingLedger
