import FindingLedger.Json
import FindingLedger.Ledger.Report

/-!
# Audit records

One record tells of one successful call: which file, how many findings, and what became of them.
Messages, hashes and payloads of findings never enter a record.

**Algorithm.**  A record is written as one JSON object on one line.  `Log.append` writes records at
the end of the log; a log that is switched off is never written.

Writing can fail.  What becomes of bytes that are written to a file is up to the system, so it is a
parameter, the `Writer` of the log; and an integer of too many digits has no written form.  The log
keeps why its last record was not written, and the call that made the record fails for it, after all
that it has done.
-/

namespace FindingLedger
namespace Audit

/-- When a call was made and how long it took. -/
structure Stamp where
  timestamp : String
  durationMs : Int
deriving DecidableEq, Repr

/-- The record of one call. -/
structure Record where
  timestamp : String
  operation : String
  file : CodeText
  firstAnalysis : Bool
  inputCount : Int
  outputCount : Int
  counts : List (String × Int)
  dropped : Int
  durationMs : Int
deriving DecidableEq, Repr

namespace Record

/-- The record of a report. -/
def ofReport (r : Report) (s : Stamp) : Record where
  timestamp := s.timestamp
  operation := r.operation.name
  file := r.file
  firstAnalysis := r.firstAnalysis
  inputCount := r.inputCount
  outputCount := r.outputCount
  counts := r.counts.named.map fun c => (c.1, (c.2 : Int))
  dropped := r.dropped
  durationMs := s.durationMs

/-- The record as a JSON object. -/
def json (r : Record) : Json.Value :=
  .object
    [("timestamp", .text r.timestamp),
      ("operation", .text r.operation),
      ("file", .text r.file),
      ("first_analysis", .boolean r.firstAnalysis),
      ("input_count", .integer r.inputCount),
      ("output_count", .integer r.outputCount),
      ("counts", .object (r.counts.map fun c => (c.1, .integer c.2))),
      ("dropped", .integer r.dropped),
      ("duration_ms", .integer r.durationMs)]

/-- The line of a record, with its line feed, if the record can be written. -/
def line? (r : Record) : Option String :=
  (Json.render? r.json).map fun cs => String.ofList (cs ++ ['\n'])

end Record

/-- What the system reports when it could not write to a file. -/
structure SystemError where
  name : String
  message : String
deriving DecidableEq, Repr

/-- What became of bytes that were written at the end of a file: the bytes of the file afterwards,
if there is one, and the error if there was one. -/
structure Written where
  contents : Option ByteArray
  error : Option SystemError

/-- What the system makes of bytes that are written at the end of a file, given how many times it
was written before, and what it holds if it is there. -/
abbrev Writer := Nat → Option ByteArray → ByteArray → Written

/-- The file holds what is written to it, and nothing goes wrong. -/
def Writer.keeping : Writer := fun _ contents bytes =>
  ⟨some (contents.getD ByteArray.empty ++ bytes), none⟩

/-- Why a record was not written. -/
inductive Fault
  | tooManyDigits
  | system (cause : SystemError)
deriving DecidableEq, Repr

/-- The text of a fault. -/
def Fault.message : Fault → String
  | tooManyDigits => digitLimitMessage ""
  | system cause => cause.message

/-- The audit log: whether it is written, the stamps of the records to come, how many records were
made, the bytes of its file if there is one, how the file is written, and why the last record was
not written, if it was not. -/
structure Log where
  enabled : Bool
  stamp : Nat → Stamp
  made : Nat
  contents : Option ByteArray
  writer : Writer
  fault : Option Fault

namespace Log

/-- A log that is never written. -/
def off : Log where
  enabled := false
  stamp _ := ⟨"", 0⟩
  made := 0
  contents := none
  writer := .keeping
  fault := none

/-- Writes a text at the end of the log.  An error of the system goes before the given fault. -/
def write (l : Log) (text : String) (fault : Option Fault) : Log :=
  let written := l.writer l.made l.contents text.toUTF8
  { l with
    made := l.made + 1
    contents := written.contents
    fault := written.error.map Fault.system <|> fault }

/-- Writes a record at the end of the log, whether the log is switched on or not.  For a record that
cannot be written, the file is opened nevertheless. -/
def append (l : Log) (r : Record) : Log :=
  match r.line? with
  | some line => l.write line none
  | none => l.write "" (some .tooManyDigits)

@[simp] theorem append_enabled (l : Log) (r : Record) : (l.append r).enabled = l.enabled := by
  unfold append
  split <;> rfl

@[simp] theorem append_made (l : Log) (r : Record) : (l.append r).made = l.made + 1 := by
  unfold append
  split <;> rfl

@[simp] theorem append_writer (l : Log) (r : Record) : (l.append r).writer = l.writer := by
  unfold append
  split <;> rfl

/-- Notes a report, if the log is switched on. -/
def note (l : Log) (r : Report) : Log :=
  if l.enabled then l.append (.ofReport r (l.stamp l.made)) else l

/-- Why the record that was made since an earlier state of the log was not written, if there is one
and it was not. -/
def faultSince (l before : Log) : Option Fault :=
  if before.made < l.made then l.fault else none

end Log
end Audit
end FindingLedger
