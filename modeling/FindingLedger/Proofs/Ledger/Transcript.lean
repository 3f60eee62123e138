import FindingLedger.Proofs.Ledger.History

/-!
# Transcripts

**Input.**  A session, and events.

**Algorithm.**  The transcript of the events lists, for each call among them, the call and all that
it lets the outside see: the answer, the report that the ledger keeps, and the records that go to
the audit log.  Answers are those of `Session.perform`; `fault?` is why a call gives no such answer
after all, because its record was not written.

**Results.**
* `exchanges_append`: the transcript of a run goes on with that of what follows.
* `log_perform`, `log_afterAll`: the audit log is written for the records of the transcript, and for
  nothing else.
* `records_cases`: a call makes one record, or none.
* `call_eq_perform`, `call_of_fault`: whether the record of a call was written decides what the call
  gives back.
-/

namespace FindingLedger

/-- What is seen of one call. -/
structure Exchange (π : Type) where
  call : Call (Finding π)
  answer : Except SessionError (Reply π)
  report : Option Report
  records : List Audit.Record

/-- The record without the time of the call and without its duration. -/
def Audit.Record.unstamped (r : Audit.Record) : Audit.Record :=
  { r with timestamp := "", durationMs := 0 }

namespace Ledger

variable {π : Type}

/-- The records that a call writes: one for each analysis and each rebase that succeeds, if the log
is switched on. -/
def records (L : Ledger π) (c : Call (Finding π)) : List Audit.Record :=
  match (L.perform c).1 with
  | .ok (.findings _) =>
      if L.log.enabled then
        (L.perform c).2.lastReport.toList.map fun r => .ofReport r (L.log.stamp L.log.made)
      else []
  | _ => []

/-- What a call on a file does to the clock and to the log: the clock may be read, and the log notes
the report of the call if it succeeds. -/
structure Notes (L : Ledger π) (answer : Except LedgerError (List (Finding π)))
    (L' : Ledger π) : Prop where
  reading_eq : L'.clock.reading = L.clock.reading
  log_eq : (∃ e, answer = .error e) ∧ L'.log = L.log ∨
    ∃ out r, answer = .ok out ∧ L'.lastReport = some r ∧ L'.log = L.log.note r

theorem notes_track (L : Ledger π) (file : CodeText) (items : List (Finding π)) :
    L.Notes (L.track file items).1 (L.track file items).2 := by
  have hends := L.track_ends file items
  generalize L.track file items = r at hends ⊢
  cases hends with
  | duplicate hd => exact ⟨rfl, Or.inl ⟨⟨_, rfl⟩, rfl⟩⟩
  | disposed hd hs => exact ⟨rfl, Or.inl ⟨⟨_, rfl⟩, rfl⟩⟩
  | clash hd hs hslot hp => exact ⟨rfl, Or.inl ⟨⟨_, rfl⟩, rfl⟩⟩
  | first hd hs hslot => exact ⟨rfl, Or.inr ⟨_, _, rfl, rfl, rfl⟩⟩
  | later hd hs hslot hp => exact ⟨rfl, Or.inr ⟨_, _, rfl, rfl, rfl⟩⟩

theorem notes_rebase (L : Ledger π) (file : CodeText) (base : List (Finding π)) :
    L.Notes (L.rebase file base).1 (L.rebase file base).2 := by
  have hends := L.rebase_ends file base
  generalize L.rebase file base = r at hends ⊢
  cases hends with
  | disposed hs => exact ⟨rfl, Or.inl ⟨⟨_, rfl⟩, rfl⟩⟩
  | unknown hs hslot => exact ⟨rfl, Or.inl ⟨⟨_, rfl⟩, rfl⟩⟩
  | duplicate hs hslot hd => exact ⟨rfl, Or.inl ⟨⟨_, rfl⟩, rfl⟩⟩
  | clash hs hslot hd hne hp => exact ⟨rfl, Or.inl ⟨⟨_, rfl⟩, rfl⟩⟩
  | empty hs hslot hd => exact ⟨rfl, Or.inr ⟨_, _, rfl, rfl, rfl⟩⟩
  | later hs hslot hd hne hp => exact ⟨rfl, Or.inr ⟨_, _, rfl, rfl, rfl⟩⟩

/-- Only the calls on files have anything to do with the clock and the log. -/
theorem perform_cases (L : Ledger π) (c : Call (Finding π)) :
    (∃ answer, (L.perform c).1 = Except.map .findings answer ∧ L.Notes answer (L.perform c).2) ∨
      (∃ answer, (L.perform c).1 = Except.map .store answer) ∧
        (L.perform c).2.clock = L.clock ∧ (L.perform c).2.log = L.log := by
  cases c with
  | track file items => exact Or.inl ⟨_, rfl, L.notes_track file items⟩
  | rebase file base => exact Or.inl ⟨_, rfl, L.notes_rebase file base⟩
  | reset =>
      refine Or.inr ⟨⟨_, rfl⟩, ?_⟩
      cases hs : L.store with
      | disposed => rw [perform, reset_eq_disposed hs]; exact ⟨rfl, rfl⟩
      | live slots => rw [perform, reset_eq_live hs]; exact ⟨rfl, rfl⟩
  | dispose =>
      refine Or.inr ⟨⟨_, rfl⟩, ?_⟩
      rw [perform, dispose_eq]
      exact ⟨rfl, rfl⟩
  | useStore op =>
      refine Or.inr ⟨⟨_, rfl⟩, ?_⟩
      rw [perform, useStore]
      split <;> exact ⟨rfl, rfl⟩

/-- No call changes what the clock is going to read. -/
theorem reading_perform (L : Ledger π) (c : Call (Finding π)) :
    (L.perform c).2.clock.reading = L.clock.reading := by
  rcases L.perform_cases c with ⟨answer, -, hnotes⟩ | ⟨-, hclock, -⟩
  · exact hnotes.reading_eq
  · rw [hclock]

/-- The records of a call are all that it writes. -/
theorem log_perform (L : Ledger π) (c : Call (Finding π)) :
    (L.perform c).2.log = (L.records c).foldl Audit.Log.append L.log := by
  rcases L.perform_cases c with ⟨answer, hanswer, hnotes⟩ | ⟨⟨answer, hanswer⟩, -, hlog⟩
  · rcases hnotes.log_eq with ⟨⟨e, rfl⟩, hlog⟩ | ⟨out, r, rfl, hreport, hlog⟩
    · rw [hlog, records, hanswer]
      rfl
    · rw [hlog, records, hanswer, hreport]
      cases henabled : L.log.enabled <;> simp [Except.map, Audit.Log.note, henabled]
  · rw [hlog, records, hanswer]
    cases answer <;> rfl

/-- A call that only concerns the store makes no record. -/
theorem records_of_store {L : Ledger π} {c : Call (Finding π)}
    {answer : Except LedgerError (Store.Answer (Finding π))}
    (h : (L.perform c).1 = answer.map .store) : L.records c = [] := by
  rw [records, h]
  cases answer <;> rfl

/-- A call makes one record if it succeeds on a file while the log is switched on, and else none. -/
theorem records_cases (L : Ledger π) (c : Call (Finding π)) :
    L.records c = [] ∨
      L.log.enabled = true ∧ (∃ out, (L.perform c).1 = .ok (.findings out)) ∧
        ∃ record, L.records c = [record] := by
  rcases L.perform_cases c with ⟨answer, hanswer, hnotes⟩ | ⟨⟨answer, hanswer⟩, -, -⟩
  · rcases hnotes.log_eq with ⟨⟨e, rfl⟩, -⟩ | ⟨out, r, rfl, hreport, -⟩
    · left
      rw [records, hanswer]
      rfl
    · cases henabled : L.log.enabled with
      | false =>
          left
          rw [records, hanswer]
          simp [Except.map, henabled]
      | true =>
          refine Or.inr ⟨rfl, ⟨out, hanswer⟩, .ofReport r (L.log.stamp L.log.made), ?_⟩
          rw [records, hanswer, hreport]
          simp only [Except.map, henabled, if_true]
          rfl
  · exact Or.inl (records_of_store hanswer)

end Ledger

namespace Session

variable {π : Type}

/-- Why the record of a call is not written, if the call makes one and it is not. -/
def fault? (s : Session π) (c : Call (Finding π)) : Option Audit.Fault :=
  (s.perform c).2.ledger.log.faultSince s.ledger.log

section Faults

variable {s : Session π} {c : Call (Finding π)}

/-- A call whose record is written, or that makes none, gives the answer that it worked out. -/
theorem call_eq_perform (h : s.fault? c = none) : s.call c = s.perform c := by
  simp only [fault?] at h
  simp only [call, h]
  split
  · next hnone => cases hnone
  · rfl

theorem fault?_of_records_nil (h : s.ledger.records c = []) : s.fault? c = none := by
  rw [fault?, perform_ledger, Ledger.log_perform, h, List.foldl_nil, Audit.Log.faultSince,
    if_neg (Nat.lt_irrefl _)]

theorem fault?_of_records {record : Audit.Record} (h : s.ledger.records c = [record]) :
    s.fault? c = (s.ledger.log.append record).fault := by
  rw [fault?, perform_ledger, Ledger.log_perform, h, List.foldl_cons, List.foldl_nil,
    Audit.Log.faultSince, if_pos (by rw [Audit.Log.append_made]; exact Nat.lt_succ_self _)]

/-- A call without an answer makes no record. -/
theorem fault?_of_error {e : SessionError} (h : (s.perform c).1 = .error e) :
    s.fault? c = none := by
  rcases s.ledger.records_cases c with hnil | ⟨-, ⟨out, hok⟩, -⟩
  · exact fault?_of_records_nil hnil
  · simp [perform_fst, hok, Except.mapError] at h

theorem fault?_of_off (hoff : s.ledger.log.enabled = false) (c : Call (Finding π)) :
    s.fault? c = none := by
  rcases s.ledger.records_cases c with hnil | ⟨hon, -, -⟩
  · exact fault?_of_records_nil hnil
  · simp [hoff] at hon

/-- A call whose record is not written fails for that, although it had an answer. -/
theorem call_of_fault {fault : Audit.Fault} (h : s.fault? c = some fault) :
    (∃ reply, (s.perform c).1 = .ok reply) ∧ (s.call c).1 = .error (.unwritten fault) := by
  cases hanswer : (s.perform c).1 with
  | error e => simp [fault?_of_error hanswer] at h
  | ok reply =>
      refine ⟨⟨reply, rfl⟩, ?_⟩
      simp only [fault?] at h
      simp only [call, hanswer, h]

end Faults

/-- What is seen of a call. -/
def exchange (s : Session π) (c : Call (Finding π)) : Exchange π where
  call := c
  answer := (s.perform c).1
  report := (s.perform c).2.ledger.lastReport
  records := s.ledger.records c

/-- The transcript of a list of events. -/
def exchanges (s : Session π) : List (Event π) → List (Exchange π)
  | [] => []
  | .call c :: es => s.exchange c :: (s.after (.call c)).exchanges es
  | e :: es => (s.after e).exchanges es

theorem exchanges_append (s : Session π) (es es' : List (Event π)) :
    s.exchanges (es ++ es') = s.exchanges es ++ (s.afterAll es).exchanges es' := by
  induction es generalizing s with
  | nil => rfl
  | cons e es ih =>
      cases e with
      | call c => exact congrArg (List.cons _) (ih (s.after (.call c)))
      | _ => exact ih _

/-- Nothing but calls writes to the log. -/
theorem log_after (s : Session π) (e : Event π) :
    (s.after e).ledger.log = ((s.exchanges [e]).flatMap Exchange.records).foldl Audit.Log.append
      s.ledger.log := by
  cases e with
  | setClock time step =>
      obtain ⟨clock, hclock⟩ := s.step_setClock time step
      rw [after, hclock]
      rfl
  | call c =>
      rw [after, perform_ledger, Ledger.log_perform]
      simp [exchanges, exchange]
  | _ => rfl

/-- **The log of a run is the log before it, with the records of the transcript.** -/
theorem log_afterAll (s : Session π) (es : List (Event π)) :
    (s.afterAll es).ledger.log =
      ((s.exchanges es).flatMap Exchange.records).foldl Audit.Log.append s.ledger.log := by
  induction es generalizing s with
  | nil => rfl
  | cons e es ih =>
      rw [show s.afterAll (e :: es) = (s.after e).afterAll es from rfl, ih, log_after,
        ← List.foldl_append, ← List.flatMap_append, show e :: es = [e] ++ es from rfl,
        exchanges_append]
      rfl

end Session
end FindingLedger
