import FindingLedger.Audit.Record
import FindingLedger.Ledger.Clock
import FindingLedger.Ledger.Settings
import FindingLedger.Ledger.Store
import FindingLedger.Pairing.Cascade

/-!
# The ledger

The ledger keeps the identity of findings from run to run.

**Input.**  The findings of a fresh analysis of a file (`track`), or the issues that a server
knows for the file (`rebase`).

**Algorithm.**
* The first analysis of a file becomes its state as it is.  Later ones are matched against the
  state before: a matched finding keeps the identity of its earlier copy, an unmatched one is
  classified and may be a leak, and earlier findings without a counterpart are dropped.
* A rebase matches the issues of the server against the state.  Matched findings take identity and
  triage from the server copy, unmatched ones are classified but are never leaks, and server
  issues without a counterpart are dropped.  A file without findings has nothing to be rebased.
* `settle` is the common end of both: outcomes are resolved, the slot is replaced, the report is
  kept and noted in the audit log.

The clock is read once in each call that runs the cascade, just before it.  A call that fails
leaves everything else as it was.
-/

namespace FindingLedger

/-- Everything a ledger remembers between calls. -/
structure Ledger (π : Type) where
  settings : Settings
  store : Store (Finding π)
  lastReport : Option Report
  clock : Clock
  log : Audit.Log
  nextHandle : Nat

/-- Why a call on a ledger failed. -/
inductive LedgerError
  | duplicate (file : CodeText)
  | store (cause : StoreError)
  | clash (cause : Clash)
deriving DecidableEq, Repr

/-- The text of a ledger error. -/
def LedgerError.message : LedgerError → CodeText
  | duplicate file => CodeText.ofString "Duplicate issue object in input for file: " ++ file
  | store cause => cause.message
  | clash cause => cause.message

namespace Ledger

variable {π : Type}

/-- A new ledger: no file is known, and the next handle is the first. -/
def new (settings : Settings) (clock : Clock) (log : Audit.Log) : Ledger π where
  settings := settings
  store := .empty
  lastReport := none
  clock := clock
  log := log
  nextHandle := 1

/-- No finding is listed twice. -/
def Distinct (items : List (Finding π)) : Prop :=
  (items.map Finding.handle).Nodup

instance (items : List (Finding π)) : Decidable (Distinct items) :=
  inferInstanceAs (Decidable (List.Nodup _))

/-- What the report of a call says besides the outcomes. -/
structure Heading where
  operation : Operation
  file : CodeText
  firstAnalysis : Bool
  inputCount : Nat
  dropped : Nat

/-- The report of a call with the given outcomes. -/
def Heading.report (h : Heading) (outcomes : List (Outcome π)) : Report where
  operation := h.operation
  file := h.file
  firstAnalysis := h.firstAnalysis
  inputCount := h.inputCount
  outputCount := outcomes.length
  counts := .ofOutcomes outcomes
  dropped := h.dropped

/-- Resolves the outcomes of a call, replaces the slot of its file and reports. -/
def settle (L : Ledger π) (slots : Slots (Finding π)) (h : Heading)
    (outcomes : List (Outcome π)) : List (Finding π) × Ledger π :=
  let resolved := Outcome.resolveAll L.nextHandle outcomes
  let report := h.report outcomes
  (resolved.1,
    { L with
      store := .live (slots.put h.file resolved.1)
      lastReport := some report
      log := L.log.note report
      nextHandle := resolved.2 })

/-- The outcome of a reported finding, given the pairing with the state before. -/
def trackOutcome (p : Pairing (Finding π) (Finding π)) (now : Int) (item : Finding π) :
    Outcome π :=
  match p.rightFor item with
  | some known => .combined known item false
  | none => .ofUnmatched item now true

/-- The outcome of a finding of the state, given the pairing of the server issues with it. -/
def rebaseOutcome (p : Pairing (Finding π) (Finding π)) (now : Int) (inheritSeverity : Bool)
    (item : Finding π) : Outcome π :=
  match p.leftFor item with
  | some external => .combined external item inheritSeverity
  | none => .ofUnmatched item now false

/-- Enters the findings of a fresh analysis of a file. -/
def track (L : Ledger π) (file : CodeText) (items : List (Finding π)) :
    Except LedgerError (List (Finding π)) × Ledger π :=
  if ¬ Distinct items then (.error (.duplicate file), L)
  else
    match L.store with
    | .disposed => (.error (.store .disposed), L)
    | .live slots =>
        match slots.get? file with
        | none =>
            let done := L.settle slots ⟨.track, file, true, items.length, 0⟩
              (items.map .passthrough)
            (.ok done.1, done.2)
        | some previous =>
            let now := L.clock.now
            let L := { L with clock := L.clock.tick }
            match Cascade.pairBy (Criterion.forAnalysis L.settings.matchFileLevel) items
                previous with
            | .error e => (.error (.clash e), L)
            | .ok p =>
                let done := L.settle slots
                  ⟨.track, file, false, items.length, p.unmatchedRights.length⟩
                  (items.map (trackOutcome p now))
                (.ok done.1, done.2)

/-- Rebases the state of a file on the issues that the server knows. -/
def rebase (L : Ledger π) (file : CodeText) (base : List (Finding π)) :
    Except LedgerError (List (Finding π)) × Ledger π :=
  match L.store with
  | .disposed => (.error (.store .disposed), L)
  | .live slots =>
      match slots.get? file with
      | none => (.error (.store (.neverAnalyzed file)), L)
      | some current =>
          if ¬ Distinct base then (.error (.duplicate file), L)
          else if current.isEmpty then
            let done := L.settle slots ⟨.rebase, file, false, base.length, base.length⟩ []
            (.ok done.1, done.2)
          else
            let now := L.clock.now
            let L := { L with clock := L.clock.tick }
            match Cascade.pairBy (Criterion.forServer L.settings.matchFileLevel) base current with
            | .error e => (.error (.clash e), L)
            | .ok p =>
                let done := L.settle slots
                  ⟨.rebase, file, false, base.length, p.unmatchedLefts.length⟩
                  (current.map (rebaseOutcome p now L.settings.inheritSeverity))
                (.ok done.1, done.2)

/-- Uses the store of the ledger directly. -/
def useStore (L : Ledger π) (op : Store.Op (Finding π)) :
    Except LedgerError (Store.Answer (Finding π)) × Ledger π :=
  match L.store.perform op with
  | (.ok answer, store) => (.ok answer, { L with store := store })
  | (.error e, store) => (.error (.store e), { L with store := store })

/-- Forgets the state of every file and the last report. -/
def reset (L : Ledger π) : Except LedgerError (Store.Answer (Finding π)) × Ledger π :=
  match L.useStore .clear with
  | (.ok answer, L) => (.ok answer, { L with lastReport := none })
  | (.error e, L) => (.error e, L)

/-- Disposes the store; the ledger must not be used afterwards. -/
def dispose (L : Ledger π) : Except LedgerError (Store.Answer (Finding π)) × Ledger π :=
  L.useStore .dispose

end Ledger
end FindingLedger
