import FindingLedger.Finding.Registry
import FindingLedger.Proofs.Pairing.Plain

/-!
# Snapshots and their handles

**Input.**  Attempts at building findings, one after the other: from drafts, and from findings that
were built before, with changes.

**Algorithm.**  An attempt ends in one of three ways (`Registry.Ends`): it builds a finding with the
next handle; it is rejected, and the next handle is lost if a label was the reason; or there is no
finding to change.  What changes do to a draft is said field by field: `Draft.value` is the change
that would set a field to what it holds, so a field holds its last change (`lastFor`), or else what
it held before.

**Results.**
* `check_of_severity`, `check_of_issueType`, `exists_check`: which drafts are rejected, and why.
* `value_foldl_apply`, `foldl_apply_merge`: what changes make of a draft; changes made twice in a
  row are the merged changes.
* `attempt_ends`, `Ordered.after`: handles increase in the order in which findings are built.
* `snapshots_stay_as_built`: so findings stay as they were built, and are known by their handles.
-/

namespace FindingLedger

variable {π : Type}

/-- A label that is missing, or has one of the names. -/
def Allowed (names : List String) (written : Option String) : Prop :=
  ∀ s, written = some s → s ∈ names

/-- How many handles a rejected attempt uses up. -/
def Rejection.handlesUsed : Rejection → Nat
  | unknownSeverity _ => 1
  | unknownIssueType _ => 1
  | handleGiven => 0
  | unknownField _ => 0

section Labels

variable {α : Type} {all : List α} {name : α → String} {ofName? : String → Option α} {s : String}
  {written : Option String} {d : Draft π}

theorem find?_name_eq_none_iff :
    (all.find? fun v => decide (name v = s)) = none ↔ s ∉ all.map name := by
  simp [List.find?_eq_none]

theorem exists_readLabel (reject : String → Rejection)
    (hread : ∀ s a, ofName? s = some a ↔ name a = s) (h : Allowed (all.map name) written) :
    ∃ label, readLabel ofName? reject written = .ok label := by
  cases written with
  | none => exact ⟨none, rfl⟩
  | some s =>
      obtain ⟨a, -, rfl⟩ := List.mem_map.1 (h s rfl)
      exact ⟨some a, (readLabel_eq_ok_iff reject hread _ _).2 rfl⟩

theorem allowed_map (hall : ∀ a, a ∈ all) (label : Option α) :
    Allowed (all.map name) (label.map name) := by
  intro s hs
  obtain ⟨a, -, rfl⟩ := Option.map_eq_some_iff.1 hs
  exact List.mem_map_of_mem (hall a)

/-- The severity is checked first. -/
theorem Draft.check_of_severity (hs : d.severity = some s)
    (h : s ∉ Severity.all.map Severity.name) : Draft.check d = .error (.unknownSeverity s) := by
  have hnone : Severity.ofName? s = none := find?_name_eq_none_iff.2 h
  simp [Draft.check, readLabel, hs, hnone]

theorem Draft.check_of_issueType (hsev : Allowed (Severity.all.map Severity.name) d.severity)
    (hs : d.issueType = some s) (h : s ∉ IssueType.all.map IssueType.name) :
    Draft.check d = .error (.unknownIssueType s) := by
  have hnone : IssueType.ofName? s = none := find?_name_eq_none_iff.2 h
  obtain ⟨severity, hseverity⟩ := exists_readLabel .unknownSeverity
    (fun _ _ => Severity.ofName?_eq_some_iff) hsev
  simp only [Draft.check, hseverity]
  simp [readLabel, hs, hnone]

/-- With allowed labels, a draft is the written form of a snapshot. -/
theorem Draft.exists_check (hsev : Allowed (Severity.all.map Severity.name) d.severity)
    (htype : Allowed (IssueType.all.map IssueType.name) d.issueType) :
    ∃ content : Snapshot π, Draft.check d = .ok content := by
  obtain ⟨severity, hseverity⟩ := exists_readLabel .unknownSeverity
    (fun _ _ => Severity.ofName?_eq_some_iff) hsev
  obtain ⟨issueType, hissueType⟩ := exists_readLabel .unknownIssueType
    (fun _ _ => IssueType.ofName?_eq_some_iff) htype
  simp only [Draft.check, hseverity, hissueType]
  exact ⟨_, rfl⟩

/-- A draft can only be rejected for one of its labels. -/
theorem Draft.handlesUsed_of_check {e : Rejection} (h : Draft.check d = .error e) :
    e.handlesUsed = 1 := by
  by_cases hsev : Allowed (Severity.all.map Severity.name) d.severity
  · by_cases htype : Allowed (IssueType.all.map IssueType.name) d.issueType
    · obtain ⟨content, hcontent⟩ := Draft.exists_check hsev htype
      simp [hcontent] at h
    · simp only [Allowed, not_forall] at htype
      obtain ⟨s, hs, hmem⟩ := htype
      rw [Draft.check_of_issueType hsev hs hmem] at h
      obtain rfl := Except.error.inj h
      rfl
  · simp only [Allowed, not_forall] at hsev
    obtain ⟨s, hs, hmem⟩ := hsev
    rw [Draft.check_of_severity hs hmem] at h
    obtain rfl := Except.error.inj h
    rfl

end Labels

/-- The fields of a finding that can be changed. -/
inductive Field
  | ruleKey
  | message
  | line
  | textRange
  | lineHash
  | textRangeHash
  | creationDate
  | serverIssueKey
  | resolved
  | severity
  | issueType
  | payload
deriving DecidableEq

/-- What a field holds, as the change that would set the field to it. -/
def Draft.value (d : Draft π) : Field → Change π
  | .ruleKey => .ruleKey d.ruleKey
  | .message => .message d.message
  | .line => .line d.line
  | .textRange => .textRange d.textRange
  | .lineHash => .lineHash d.lineHash
  | .textRangeHash => .textRangeHash d.textRangeHash
  | .creationDate => .creationDate d.creationDate
  | .serverIssueKey => .serverIssueKey d.serverIssueKey
  | .resolved => .resolved d.resolved
  | .severity => .severity d.severity
  | .issueType => .issueType d.issueType
  | .payload => .payload d.payload

namespace Change

/-- The field that is changed, if findings have it and let it be changed. -/
def field? : Change π → Option Field
  | ruleKey _ => some .ruleKey
  | message _ => some .message
  | line _ => some .line
  | textRange _ => some .textRange
  | lineHash _ => some .lineHash
  | textRangeHash _ => some .textRangeHash
  | creationDate _ => some .creationDate
  | serverIssueKey _ => some .serverIssueKey
  | resolved _ => some .resolved
  | severity _ => some .severity
  | issueType _ => some .issueType
  | payload _ => some .payload
  | handle => none
  | unknown _ => none

/-- The last change of a field. -/
def lastFor (k : Field) (changes : List (Change π)) : Option (Change π) :=
  (changes.filter fun c => decide (c.field? = some k)).getLast?

/-- Changes and later ones, which win where both change a field. -/
def merge (changes later : List (Change π)) : List (Change π) :=
  (changes.filter fun c => decide (∀ c' ∈ later, c'.field? ≠ c.field?)) ++ later

section Laws

variable {d d' : Draft π} {changes later : List (Change π)} {k : Field} {name : String}

theorem value_apply (d : Draft π) (c : Change π) (k : Field) :
    Draft.value (apply d c) k = if c.field? = some k then c else d.value k := by
  cases c <;> cases k <;> rfl

theorem lastFor_append (k : Field) (changes later : List (Change π)) :
    lastFor k (changes ++ later) = (lastFor k later).or (lastFor k changes) := by
  rw [lastFor, List.filter_append, List.getLast?_append]
  rfl

theorem lastFor_singleton (k : Field) (c : Change π) :
    lastFor k [c] = if c.field? = some k then some c else none := by
  by_cases h : c.field? = some k <;> simp [lastFor, h]

/-- After changes, a field holds its last change, or else what it held before. -/
theorem value_foldl_apply (d : Draft π) (changes : List (Change π)) (k : Field) :
    Draft.value (changes.foldl apply d) k = (lastFor k changes).getD (d.value k) := by
  induction changes generalizing d with
  | nil => rfl
  | cons c changes ih =>
      have hcons : lastFor k (c :: changes) = _ := lastFor_append k [c] changes
      rw [List.foldl_cons, ih, value_apply, hcons, lastFor_singleton]
      cases lastFor k changes with
      | some c' => rfl
      | none => split <;> rfl

theorem ext_value (h : ∀ k, d.value k = d'.value k) : d = d' := by
  cases d
  cases d'
  have hall := And.intro (h .ruleKey) (And.intro (h .message) (And.intro (h .line)
    (And.intro (h .textRange) (And.intro (h .lineHash) (And.intro (h .textRangeHash)
    (And.intro (h .creationDate) (And.intro (h .serverIssueKey) (And.intro (h .resolved)
    (And.intro (h .severity) (And.intro (h .issueType) (h .payload)))))))))))
  simpa [Draft.value] using hall

theorem lastFor_merge (k : Field) (changes later : List (Change π)) :
    lastFor k (merge changes later) = (lastFor k later).or (lastFor k changes) := by
  rw [merge, lastFor_append]
  cases hlater : lastFor k later with
  | some c => rfl
  | none =>
      -- No later change is of this field, so none of its changes was dropped.
      have hnone : ∀ c' ∈ later, c'.field? ≠ some k := by
        simpa [lastFor] using hlater
      rw [Option.none_or, Option.none_or, lastFor, lastFor, List.filter_filter]
      congr 1
      refine List.filter_congr fun c _ => ?_
      by_cases hc : c.field? = some k
      · simpa [hc] using hnone
      · simp [hc]

/-- Changes made twice in a row are the merged changes. -/
theorem foldl_apply_merge (d : Draft π) (changes later : List (Change π)) :
    (merge changes later).foldl apply d = later.foldl apply (changes.foldl apply d) := by
  refine ext_value fun k => ?_
  rw [value_foldl_apply, value_foldl_apply, value_foldl_apply, lastFor_merge]
  cases lastFor k later <;> rfl

theorem field?_eq_none_iff {c : Change π} :
    c.field? = none ↔ c = .handle ∨ ∃ n, c = .unknown n := by
  cases c <;> simp [field?]

/-- Changes of fields do not matter to the refusal of what comes behind them. -/
theorem refusal?_append (h : ∀ c ∈ changes, c.field? ≠ none) (later : List (Change π)) :
    refusal? (changes ++ later) = refusal? later := by
  have hhandle : changes.any isHandle = false := by
    refine List.any_eq_false.2 fun c hc => ?_
    have hfield := h c hc
    cases c with
    | handle => exact absurd rfl hfield
    | _ => exact Bool.false_ne_true
  have hunknown : changes.findSome? unknownField? = none := by
    refine List.findSome?_eq_none_iff.2 fun c hc => ?_
    have hfield := h c hc
    cases c with
    | unknown n => exact absurd rfl hfield
    | _ => rfl
  simp [refusal?, List.any_append, hhandle, List.findSome?_append, hunknown]

theorem refusal?_eq_none_iff :
    refusal? changes = none ↔ ∀ c ∈ changes, c.field? ≠ none := by
  constructor
  · intro h c hc hfield
    rw [refusal?] at h
    split at h
    · simp at h
    · next hany =>
        obtain rfl | ⟨n, rfl⟩ := field?_eq_none_iff.1 hfield
        · exact hany (List.any_eq_true.2 ⟨_, hc, rfl⟩)
        · have hnone := List.findSome?_eq_none_iff.1 (Option.map_eq_none_iff.1 h) _ hc
          simp [unknownField?] at hnone
  · intro h
    have hnil := refusal?_append h []
    rwa [List.append_nil] at hnil

theorem refusal?_of_mem (h : .handle ∈ changes) : refusal? changes = some .handleGiven := by
  rw [refusal?, if_pos (List.any_eq_true.2 ⟨_, h, rfl⟩)]

/-- Where the handle is not named, the first field that findings do not have is reported. -/
theorem refusal?_of_unknown (hhandle : .handle ∉ changes ++ .unknown name :: later)
    (h : ∀ n, .unknown n ∉ changes) :
    refusal? (changes ++ .unknown name :: later) = some (.unknownField name) := by
  have hfields : ∀ c ∈ changes, c.field? ≠ none := by
    intro c hc hfield
    obtain rfl | ⟨n, rfl⟩ := field?_eq_none_iff.1 hfield
    · exact hhandle (List.mem_append_left _ hc)
    · exact h n hc
  have hany : ¬ (Change.unknown name :: later).any isHandle = true := by
    intro hany
    obtain ⟨c, hc, hc'⟩ := List.any_eq_true.1 hany
    cases c with
    | handle => exact hhandle (List.mem_append_right _ hc)
    | _ => simp [isHandle] at hc'
  rw [refusal?_append hfields, refusal?, if_neg hany]
  rfl

theorem handlesUsed_of_refusal {e : Rejection} (h : refusal? changes = some e) :
    e.handlesUsed = 0 := by
  rw [refusal?] at h
  split at h
  · obtain rfl := Option.some.inj h
    rfl
  · obtain ⟨name, -, rfl⟩ := Option.map_eq_some_iff.1 h
    rfl

/-- Changes that are not refused do not matter to the refusal of later ones. -/
theorem refusal?_merge (h : refusal? changes = none) (later : List (Change π)) :
    refusal? (merge changes later) = refusal? later :=
  refusal?_append (fun c hc => refusal?_eq_none_iff.1 h c (List.mem_of_mem_filter hc)) later

end Laws
end Change

namespace Registry

/-- An attempt at building a finding: from a draft, or from one that was built, with changes.  The
fields of a draft are all there, and there are no others; so a construction with a keyword that is
unknown or missing, or with a handle of its own, is not among the attempts. -/
inductive Attempt (π : Type)
  | build (d : Draft π)
  | evolve (handle : Nat) (changes : List (Change π))

/-- Makes one attempt. -/
def attempt (r : Registry π) : Attempt π → Except EntryError (Finding π) × Registry π
  | .build d => r.build d
  | .evolve handle changes => r.evolve handle changes

/-- The registry after attempts, one after the other. -/
def after (r : Registry π) (attempts : List (Attempt π)) : Registry π :=
  attempts.foldl (fun r a => (r.attempt a).2) r

/-- The ways in which an attempt can end. -/
inductive Ends (r : Registry π) : Except EntryError (Finding π) × Registry π → Prop
  | built (content : Snapshot π) :
      Ends r (.ok ⟨content, r.next⟩, ⟨r.next + 1, ⟨content, r.next⟩ :: r.built⟩)
  | rejected (e : Rejection) :
      Ends r (.error (.rejected e), { r with next := r.next + e.handlesUsed })
  | notFound (handle : Nat) : Ends r (.error (.unknownHandle handle), r)

/-- The findings are in order, the newest first, and the next handle is new. -/
structure Ordered (r : Registry π) : Prop where
  decreasing : r.built.Pairwise fun f g => g.handle < f.handle
  lt_next : ∀ f ∈ r.built, f.handle < r.next

section Attempts

variable {r : Registry π} {d : Draft π} {content : Snapshot π} {e : Rejection} {f g : Finding π}
  {handle : Nat} {changes later : List (Change π)}
  {out : Except EntryError (Finding π) × Registry π}

theorem build_of_ok (h : Draft.check d = .ok content) :
    r.build d = (.ok ⟨content, r.next⟩, ⟨r.next + 1, ⟨content, r.next⟩ :: r.built⟩) := by
  simp [build, Finding.build, h, note, Finding.mint]

theorem build_of_error (h : Draft.check d = .error e) :
    r.build d = (.error (.rejected e), { r with next := r.next + e.handlesUsed }) := by
  simp [build, Finding.build, h, note, Draft.handlesUsed_of_check h]

theorem evolve_of_refusal (hget : r.get handle = .ok f) (h : Change.refusal? changes = some e) :
    r.evolve handle changes =
      (.error (.rejected e), { r with next := r.next + e.handlesUsed }) := by
  simp [evolve, hget, Finding.evolve, h, note, Change.handlesUsed_of_refusal h]

/-- Where the changes are not refused, the changed draft is built. -/
theorem evolve_eq_build (hget : r.get handle = .ok f) (h : Change.refusal? changes = none) :
    r.evolve handle changes = r.build (changes.foldl Change.apply f.toContent.draft) := by
  simp [evolve, hget, Finding.evolve, h, build]

theorem build_ends (r : Registry π) (d : Draft π) : r.Ends (r.build d) := by
  cases h : Draft.check d with
  | ok content =>
      rw [build_of_ok h]
      exact .built content
  | error e =>
      rw [build_of_error h]
      exact .rejected e

theorem attempt_ends (r : Registry π) (a : Attempt π) : r.Ends (r.attempt a) := by
  cases a with
  | build d => exact build_ends r d
  | evolve handle changes =>
      rw [attempt]
      cases hfind : r.find? handle with
      | none =>
          simp only [evolve, get, hfind]
          exact .notFound handle
      | some f =>
          have hget : r.get handle = .ok f := by rw [get, hfind]
          cases h : Change.refusal? changes with
          | some e =>
              rw [evolve_of_refusal hget h]
              exact .rejected e
          | none =>
              rw [evolve_eq_build hget h]
              exact build_ends r _

theorem Ordered.ends (h : r.Ordered) (hout : r.Ends out) : out.2.Ordered := by
  cases hout with
  | built content =>
      refine ⟨List.pairwise_cons.2 ⟨h.lt_next, h.decreasing⟩, List.forall_mem_cons.2 ⟨?_, ?_⟩⟩
      · exact Nat.lt_succ_self r.next
      · exact fun f hf => Nat.lt_succ_of_lt (h.lt_next f hf)
  | rejected e => exact ⟨h.decreasing, fun f hf => Nat.lt_add_right _ (h.lt_next f hf)⟩
  | notFound handle => exact h

theorem Ends.built_suffix (hout : r.Ends out) : r.built <:+ out.2.built := by
  cases hout with
  | built content => exact List.suffix_cons _ _
  | rejected e => exact List.suffix_refl _
  | notFound handle => exact List.suffix_refl _

theorem Ordered.after (h : r.Ordered) (attempts : List (Attempt π)) :
    (r.after attempts).Ordered := by
  induction attempts generalizing r with
  | nil => exact h
  | cons a attempts ih => exact ih (h.ends (attempt_ends r a))

/-- What was built stays as it is, with whatever is built later in front of it. -/
theorem built_suffix_after (r : Registry π) (attempts : List (Attempt π)) :
    r.built <:+ (r.after attempts).built := by
  induction attempts generalizing r with
  | nil => exact List.suffix_refl _
  | cons a attempts ih => exact (attempt_ends r a).built_suffix.trans (ih _)

theorem ordered_empty : (empty : Registry π).Ordered :=
  ⟨List.Pairwise.nil, by simp [empty]⟩

/-- A built finding is the one that its handle leads to. -/
theorem Ordered.get_eq (h : r.Ordered) (hf : f ∈ r.built) : r.get f.handle = .ok f := by
  have hdistinct : (r.built.map fun g => g.handle).Nodup :=
    List.pairwise_map.2 (h.decreasing.imp Nat.ne_of_gt)
  have hfind : r.find? f.handle = some f := (find?_key_eq_some_iff hdistinct).2 ⟨hf, rfl⟩
  rw [get, hfind]

/-- The content of what is built from a draft does not depend on the registry. -/
theorem content_build (r : Registry π) (d : Draft π) :
    (r.build d).1.map (fun f => f.toContent) = (Draft.check d).mapError .rejected := by
  cases h : Draft.check d with
  | ok content => rw [build_of_ok h]; rfl
  | error e => rw [build_of_error h]; rfl

/-- What an accepted change comes to. -/
theorem of_evolve_eq_ok {r' : Registry π} (hget : r.get handle = .ok f)
    (h : r.evolve handle changes = (.ok g, r')) :
    Change.refusal? changes = none ∧ g.handle = r.next ∧ r'.built = g :: r.built ∧
      g.toContent.draft = changes.foldl Change.apply f.toContent.draft := by
  cases hrefusal : Change.refusal? changes with
  | some e => simp [evolve_of_refusal hget hrefusal] at h
  | none =>
      rw [evolve_eq_build hget hrefusal] at h
      cases hcheck : Draft.check (changes.foldl Change.apply f.toContent.draft) with
      | error e => simp [build_of_error hcheck] at h
      | ok content =>
          obtain ⟨hg, rfl⟩ := Prod.mk.inj ((build_of_ok hcheck).symm.trans h)
          obtain rfl := Except.ok.inj hg
          exact ⟨rfl, rfl, rfl, (Draft.check_eq_ok_iff.1 hcheck).symm⟩

/-- Changes made twice in a row come to the merged changes, but for the handle. -/
theorem content_evolve_merge {r' : Registry π} (hget : r.get f.handle = .ok f)
    (hget' : r'.get g.handle = .ok g) (h : r.evolve f.handle changes = (.ok g, r')) :
    (r'.evolve g.handle later).1.map (fun f => f.toContent) =
      (r.evolve f.handle (Change.merge changes later)).1.map (fun f => f.toContent) := by
  obtain ⟨hrefusal, -, -, hdraft⟩ := of_evolve_eq_ok hget h
  have hmerge := Change.refusal?_merge hrefusal later
  cases hlater : Change.refusal? later with
  | some e =>
      rw [evolve_of_refusal hget' hlater, evolve_of_refusal hget (hmerge.trans hlater)]
  | none =>
      rw [evolve_eq_build hget' hlater, evolve_eq_build hget (hmerge.trans hlater),
        content_build, content_build, Change.foldl_apply_merge, hdraft]

end Attempts
end Registry

section Theorem

open Registry

/-- **Snapshots stay as they were built.**  After any attempts at building findings, accepted or
rejected, every finding has labels that are missing or listed, and handles increase in the order in
which findings were built, so that no two findings share one and each is found again by its own,
unchanged, after whatever is attempted later.  A rejected attempt uses up one handle if it is
rejected for a label, the severity before the type, and none if the changes name the handle or a
field that findings do not have.  Accepted changes give fields their last changes and leave the
others as they are, and changes made twice in a row come to the merged changes. -/
theorem snapshots_stay_as_built (attempts : List (Attempt π)) {r : Registry π}
    (hr : Registry.empty.after attempts = r) :
    (∀ f ∈ r.built,
      Allowed (Severity.all.map Severity.name) f.toContent.draft.severity ∧
      Allowed (IssueType.all.map IssueType.name) f.toContent.draft.issueType) ∧
    (r.built.reverse.Pairwise fun f g => f.handle < g.handle) ∧
    (∀ f ∈ r.built, ∀ g ∈ r.built, f.handle = g.handle → f = g) ∧
    (∀ later, r.built <:+ (r.after later).built ∧
      ∀ f ∈ r.built, (r.after later).get f.handle = .ok f) ∧
    (∀ a e r', r.attempt a = (.error (.rejected e), r') →
      r' = { r with next := r.next + e.handlesUsed }) ∧
    (∀ d,
      (∀ s, d.severity = some s → s ∉ Severity.all.map Severity.name →
        (r.build d).1 = .error (.rejected (.unknownSeverity s))) ∧
      (Allowed (Severity.all.map Severity.name) d.severity →
        (∀ s, d.issueType = some s → s ∉ IssueType.all.map IssueType.name →
          (r.build d).1 = .error (.rejected (.unknownIssueType s))) ∧
        (Allowed (IssueType.all.map IssueType.name) d.issueType →
          ∃ f, r.build d = (.ok f, ⟨r.next + 1, f :: r.built⟩) ∧ f.handle = r.next ∧
            f.toContent.draft = d))) ∧
    ∀ f ∈ r.built, ∀ changes,
      (.handle ∈ changes →
        (r.evolve f.handle changes).1 = .error (.rejected .handleGiven)) ∧
      (∀ before name behind, changes = before ++ .unknown name :: behind →
        .handle ∉ changes → (∀ n, .unknown n ∉ before) →
        (r.evolve f.handle changes).1 = .error (.rejected (.unknownField name))) ∧
      ((∀ c ∈ changes, c.field? ≠ none) →
        ∃ d : Draft π, r.evolve f.handle changes = r.build d ∧
          ∀ k, d.value k = (Change.lastFor k changes).getD (Draft.value f.toContent.draft k)) ∧
      ∀ g r', r.evolve f.handle changes = (.ok g, r') →
        (g.handle = r.next ∧ ∀ k, Draft.value g.toContent.draft k =
          (Change.lastFor k changes).getD (Draft.value f.toContent.draft k)) ∧
        ∀ later, (r'.evolve g.handle later).1.map (fun f => f.toContent) =
          (r.evolve f.handle (Change.merge changes later)).1.map fun f => f.toContent := by
  have hordered : r.Ordered := hr ▸ ordered_empty.after attempts
  refine ⟨fun f _ => ⟨allowed_map Severity.mem_all _, allowed_map IssueType.mem_all _⟩,
    List.pairwise_reverse.2 hordered.decreasing, fun f hf g hg heq => ?_,
    fun later => ⟨built_suffix_after r later, fun f hf => ?_⟩, fun a e r' h => ?_, fun d => ?_,
    fun f hf changes => ?_⟩
  · have hget := hordered.get_eq hf
    rw [heq, hordered.get_eq hg] at hget
    exact (Except.ok.inj hget).symm
  · exact (hordered.after later).get_eq ((built_suffix_after r later).subset hf)
  · have hends := attempt_ends r a
    rw [h] at hends
    cases hends with
    | rejected e => rfl
  · refine ⟨fun s hs hmem => ?_, fun hsev => ⟨fun s hs hmem => ?_, fun htype => ?_⟩⟩
    · rw [build_of_error (Draft.check_of_severity hs hmem)]
    · rw [build_of_error (Draft.check_of_issueType hsev hs hmem)]
    · obtain ⟨content, hcontent⟩ := Draft.exists_check hsev htype
      exact ⟨_, build_of_ok hcontent, rfl, (Draft.check_eq_ok_iff.1 hcontent).symm⟩
  · have hget := hordered.get_eq hf
    refine ⟨fun hhandle => ?_, fun before name behind heq hhandle hbefore => ?_,
      fun hfields => ⟨_, evolve_eq_build hget (Change.refusal?_eq_none_iff.2 hfields),
        Change.value_foldl_apply _ _⟩, fun g r' h => ?_⟩
    · rw [evolve_of_refusal hget (Change.refusal?_of_mem hhandle)]
    · subst heq
      rw [evolve_of_refusal hget (Change.refusal?_of_unknown hhandle hbefore)]
    · obtain ⟨-, hnext, hbuilt, hdraft⟩ := of_evolve_eq_ok hget h
      have hordered' : r'.Ordered := by
        have hends := hordered.ends (attempt_ends r (.evolve f.handle changes))
        rwa [attempt, h] at hends
      have hget' : r'.get g.handle = .ok g :=
        hordered'.get_eq (hbuilt ▸ List.mem_cons_self)
      refine ⟨⟨hnext, fun k => ?_⟩, fun later => content_evolve_merge hget hget' h⟩
      rw [hdraft, Change.value_foldl_apply]

/-- A finding of some line, with labels as they are written. -/
def Draft.labelled (severity issueType : Option String) : Draft Unit where
  ruleKey := "R"
  message := "m"
  line := some 3
  textRange := none
  lineHash := none
  textRangeHash := none
  creationDate := none
  serverIssueKey := none
  resolved := false
  severity := severity
  issueType := issueType
  payload := ()

/-- Five attempts: the first and the last are accepted, the two behind the first are rejected for a
label, and the fourth is refused. -/
def Registry.Attempt.tried : List (Attempt Unit) :=
  [.build (.labelled (some "MINOR") none), .build (.labelled (some "minor") (some "bug")),
    .evolve 1 [.line (some 7), .severity (some "NONE")], .evolve 1 [.unknown "lines", .handle],
    .evolve 1 [.line (some 7), .issueType (some "BUG"), .line (some 8)]]

theorem snapshots_stay_as_built_tried :
    ((empty.after Attempt.tried).built.map fun f => (f.handle, f.line)) =
        [(4, some 8), (1, some 3)] ∧
      (empty.after Attempt.tried).next = 5 ∧
      (∀ later, ((empty.after Attempt.tried).after later).get 1 =
        (empty.after Attempt.tried).get 1) ∧
      ((empty.after Attempt.tried).build (.labelled (some "minor") (some "bug"))).1 =
        .error (.rejected (.unknownSeverity "minor")) ∧
      ((empty.after Attempt.tried).evolve 4 [.unknown "lines", .handle]).1 =
        .error (.rejected .handleGiven) := by
  obtain ⟨-, -, -, hkept, -, hbuild, hevolve⟩ := snapshots_stay_as_built Attempt.tried rfl
  obtain ⟨newer, older, hbuilt, hnewer, holder⟩ :
      ∃ newer older, (empty.after Attempt.tried).built = [newer, older] ∧
        newer.handle = 4 ∧ older.handle = 1 := ⟨_, _, rfl, rfl, rfl⟩
  refine ⟨rfl, rfl, fun later => ?_, (hbuild _).1 "minor" rfl (by decide), ?_⟩
  · have hlater := (hkept later).2 older (by simp [hbuilt])
    have hnow := (hkept []).2 older (by simp [hbuilt])
    rw [holder] at hlater hnow
    rw [hlater]
    exact hnow.symm
  · have hrefused := (hevolve newer (by simp [hbuilt]) [.unknown "lines", .handle]).1 (by simp)
    rwa [hnewer] at hrefused

end Theorem
end FindingLedger
