import FindingLedger.Proofs.Config.Layering

/-!
# The first fault of a layer

**Input.**  A configuration, the table of a document, and overrides.

**Algorithm.**  A `Fault` is given by the errors that report it.  `documentFaults` and
`overrideFaults` list what can be wrong with a layer, in a fixed order and each on its own, so that
many of the faults can be there at once; `FirstReported` are the errors of the first one that is
there.

**Results.**
* `leastUnknown_eq_some_iff`: which key of a section is named.
* `Reports.bind`: checks made one after the other report the first of their faults.
* `reports_takeTable`, `reports_override`: what a document and overrides are refused for.
* `first_fault_is_reported`: so a layer is refused for its first fault, and accepted if it has none.
-/

namespace FindingLedger

open Toml (Value Table)

/-- Something that can be wrong, given by the errors that report it: none where it is not there. -/
abbrev Fault := ConfigError → Prop

/-- The error reports the first fault of a list that is there. -/
def FirstReported : List Fault → ConfigError → Prop
  | [], _ => False
  | f :: fs, e => f e ∨ (∀ e', ¬ f e') ∧ FirstReported fs e

section Ordering

variable {fs gs : List Fault} {e : ConfigError}

theorem exists_firstReported : (∃ e, FirstReported fs e) ↔ ∃ f ∈ fs, ∃ e, f e := by
  induction fs with
  | nil => simp [FirstReported]
  | cons f fs ih =>
      simp only [FirstReported, List.mem_cons, exists_eq_or_imp, ← ih]
      constructor
      · rintro ⟨e, hf | ⟨-, hfs⟩⟩
        · exact Or.inl ⟨e, hf⟩
        · exact Or.inr ⟨e, hfs⟩
      · rintro (⟨e, hf⟩ | ⟨e, hfs⟩)
        · exact ⟨e, Or.inl hf⟩
        · by_cases hf : ∃ e', f e'
          · obtain ⟨e', hf⟩ := hf
            exact ⟨e', Or.inl hf⟩
          · exact ⟨e, Or.inr ⟨not_exists.1 hf, hfs⟩⟩

theorem firstReported_append : FirstReported (fs ++ gs) e ↔
    FirstReported fs e ∨ (∀ f ∈ fs, ∀ e', ¬ f e') ∧ FirstReported gs e := by
  induction fs with
  | nil => simp [FirstReported]
  | cons f fs ih =>
      simp only [List.cons_append, FirstReported, List.forall_mem_cons, ih, and_or_left, or_assoc,
        and_assoc]

end Ordering

/-- A computation fails exactly when one of the faults is there, and reports the first of them. -/
def Reports {α : Type} (x : Except ConfigError α) (fs : List Fault) : Prop :=
  ∀ e, x = .error e ↔ FirstReported fs e

namespace Reports

variable {α β : Type} {x : Except ConfigError α} {k : α → Except ConfigError β} {f : Fault}
  {fs gs : List Fault}

theorem single (h : ∀ e, x = .error e ↔ f e) : Reports x [f] := fun e => by
  simp [FirstReported, h]

theorem pure (a : α) : Reports (.ok a) [] := fun e => by
  simp [FirstReported]

theorem map (h : Reports x fs) (g : α → β) : Reports (x.map g) fs := fun e => by
  rw [← h e]
  cases x <;> simp [Except.map]

/-- What reports a fault that is there is not concerned with the faults behind it. -/
theorem of_present {e₀ : ConfigError} (hf : ∀ e, f e ↔ e = e₀) :
    Reports (.error e₀ : Except ConfigError α) (f :: fs) := fun e => by
  have hpresent : ¬ ∀ e', ¬ f e' := fun hnone => hnone e₀ ((hf e₀).2 rfl)
  rw [FirstReported, or_iff_left fun h => hpresent h.1, hf, Except.error.injEq, eq_comm]

theorem of_absent (hf : ∀ e', ¬ f e') (h : Reports x fs) : Reports x (f :: fs) := fun e => by
  rw [h, FirstReported, or_iff_right (hf e), and_iff_right hf]

/-- Without a fault there is a result. -/
theorem ok_iff (h : Reports x fs) : (∃ a, x = .ok a) ↔ ∀ f ∈ fs, ∀ e, ¬ f e := by
  have herror : (∃ e, x = .error e) ↔ ∃ f ∈ fs, ∃ e, f e :=
    (exists_congr h).trans exists_firstReported
  have hok : (∃ a, x = .ok a) ↔ ¬ ∃ e, x = .error e := by
    cases x <;> simp
  rw [hok, herror]
  simp only [not_exists, not_and]

/-- A check that goes through shows that its fault is not there. -/
theorem absent {a : α} (h : Reports x [f]) (hx : x = .ok a) : ∀ e, ¬ f e :=
  h.ok_iff.1 ⟨a, hx⟩ f List.mem_cons_self

/-- **Checks made one after the other report the first of their faults.** -/
theorem bind (hx : Reports x fs) (hk : ∀ a, x = .ok a → Reports (k a) gs) :
    Reports (x >>= k) (fs ++ gs) := by
  intro e
  rw [firstReported_append]
  cases x with
  | error e₀ =>
      -- One of the first faults is there, so the faults behind them do not matter.
      have hpresent : ¬ ∀ f ∈ fs, ∀ e', ¬ f e' := by
        rw [← hx.ok_iff]
        simp
      have hstop : (Except.error e₀ >>= k) = .error e₀ := rfl
      rw [hstop, or_iff_left (fun h => hpresent h.1), ← hx e, Except.error.injEq,
        Except.error.injEq]
  | ok a =>
      have hnone : ∀ f ∈ fs, ∀ e', ¬ f e' := hx.ok_iff.1 ⟨a, rfl⟩
      have hfs : ¬ FirstReported fs e := fun h => by simpa using (hx e).2 h
      have hgo : (Except.ok a >>= k) = k a := rfl
      rw [hgo, hk a rfl e, or_iff_right hfs, and_iff_right hnone]

theorem bind_cons (hx : Reports x [f]) (hk : ∀ a, x = .ok a → Reports (k a) fs) :
    Reports (x >>= k) (f :: fs) :=
  hx.bind hk

end Reports

namespace Fault

/-- A section is there and is no table. -/
def notTable (t : Table) (name : String) : Fault := fun e =>
  e = .notTable name ∧ ∃ v, Table.get? name t = some v ∧ ∀ members, v ≠ .table members

/-- A section has keys that are not among the known ones; the least of them is named. -/
def unsupported (t : Table) (name : String) (known : List String) : Fault := fun e =>
  ∃ members key, Table.get? name t = some (.table members) ∧ e = .unsupportedField name key ∧
    key ∈ members.map Prod.fst ∧ key ∉ known ∧
    ∀ other ∈ members.map Prod.fst, other ∉ known → ¬ other < key

/-- A value is there and is no boolean. -/
def notBoolean (field : String) (v? : Option Value) : Fault := fun e =>
  e = .notBoolean field ∧ ∃ v, v? = some v ∧ ∀ b, v ≠ .boolean b

/-- A value is there and is no text with a character that is not blank. -/
def notText (field : String) (v? : Option Value) : Fault := fun e =>
  e = .notText field ∧ ∃ v, v? = some v ∧
    ∀ s, v = .text s → ∀ c ∈ s.toList, Text.isBlank c = true

/-- A text is there, and with it a null character in the path that it denotes. -/
def nullInPath (base : Path) (written : Option String) : Fault := fun e =>
  e = .nullInPath ∧ ∃ s, written = some s ∧ Config.HoldsNull base s

end Fault

/-- The text that a value is. -/
def Toml.Value.text? : Value → Option String
  | .text s => some s
  | _ => none

namespace Config

open Fault

/-- What can be wrong with the kinds of things in a document. -/
def documentKinds (t : Table) : List Fault :=
  [notTable t "tracking", notTable t "audit",
    unsupported t "tracking" ["match_file_level_issues", "inherit_server_severity"],
    unsupported t "audit" ["enabled", "path"],
    notBoolean "tracking.match_file_level_issues"
      (Table.entry? "tracking" "match_file_level_issues" t),
    notBoolean "tracking.inherit_server_severity"
      (Table.entry? "tracking" "inherit_server_severity" t),
    notBoolean "audit.enabled" (Table.entry? "audit" "enabled" t),
    notText "audit.path" (Table.entry? "audit" "path" t)]

/-- What can be wrong with a document in a project with the given root. -/
def documentFaults (root : Path) (t : Table) : List Fault :=
  documentKinds t ++ [nullInPath root ((Table.entry? "audit" "path" t).bind Value.text?)]

/-- What can be wrong with the kinds of overrides. -/
def overrideKinds (o : Overrides) : List Fault :=
  [notBoolean "overrides.match_file_level_issues" o.matchFileLevel.nonNull?,
    notBoolean "overrides.inherit_server_severity" o.inheritSeverity.nonNull?,
    notBoolean "overrides.audit_enabled" o.auditEnabled.nonNull?]

/-- What can be wrong with overrides; without a data directory among them, the one that was there
before is resolved. -/
def overrideFaults (dataDir : Path) (o : Overrides) : List Fault :=
  overrideKinds o ++ [nullInPath o.workingDir o.auditPath,
    nullInPath o.workingDir (some (o.dataDir.getD dataDir.text))]

section Keys

/-- The key is in the list, and no key of the list is less. -/
def Least (keys : List String) (key : String) : Prop :=
  key ∈ keys ∧ ∀ other ∈ keys, ¬ other < key

variable {keys known : List String} {key : String} {t : Table}

theorem Least.unique {other : String} (h : Least keys key) (h' : Least keys other) :
    key = other :=
  String.le_antisymm (h.2 other h'.1) (h'.2 key h.1)

theorem least_foldl_lesser (a : String) (keys : List String) :
    ∃ key, keys.foldl lesser (some a) = some key ∧ Least (a :: keys) key := by
  induction keys generalizing a with
  | nil =>
      refine ⟨a, rfl, List.mem_cons_self, fun other h => ?_⟩
      rw [List.mem_singleton.1 h]
      exact String.lt_irrefl a
  | cons k keys ih =>
      by_cases hlt : k < a
      · obtain ⟨key, hfold, hmem, hleast⟩ := ih k
        refine ⟨key, by simpa [lesser, hlt] using hfold, List.mem_cons_of_mem _ hmem, ?_⟩
        refine List.forall_mem_cons.2 ⟨fun ha => ?_, hleast⟩
        exact hleast k List.mem_cons_self (String.lt_trans hlt ha)
      · obtain ⟨key, hfold, hmem, hleast⟩ := ih a
        obtain ⟨ha, hkeys⟩ := List.forall_mem_cons.1 hleast
        refine ⟨key, by simpa [lesser, hlt] using hfold, ?_, ?_⟩
        · rcases List.mem_cons.1 hmem with rfl | hmem
          · exact List.mem_cons_self
          · exact List.mem_cons_of_mem _ (List.mem_cons_of_mem _ hmem)
        · refine List.forall_mem_cons.2 ⟨ha, List.forall_mem_cons.2 ⟨fun hk => ?_, hkeys⟩⟩
          -- The key that was least is not less than the new one, so nothing less than it is.
          exact absurd (String.le_trans (String.not_lt.1 ha) (String.not_lt.1 hlt))
            (String.not_le.2 hk)

theorem foldl_lesser_eq_some_iff : keys.foldl lesser none = some key ↔ Least keys key := by
  cases keys with
  | nil => simp [Least]
  | cons a keys =>
      obtain ⟨least, hfold, hleast⟩ := least_foldl_lesser a keys
      rw [List.foldl_cons, lesser, hfold, Option.some.injEq]
      constructor
      · rintro rfl
        exact hleast
      · exact hleast.unique

/-- The least of the unknown keys of a table. -/
theorem leastUnknown_eq_some_iff : leastUnknown known t = some key ↔
    key ∈ t.map Prod.fst ∧ key ∉ known ∧
      ∀ other ∈ t.map Prod.fst, other ∉ known → ¬ other < key := by
  rw [leastUnknown, foldl_lesser_eq_some_iff, Least]
  simp only [List.mem_filter, Bool.not_eq_true', List.contains_eq_mem, decide_eq_false_iff_not,
    and_assoc, and_imp]

end Keys

section Reading

variable {c : Config} {t : Table} {o : Overrides} {name : String} {members : Table}

theorem reports_tableOf (t : Table) (name : String) :
    Reports (tableOf t name) [notTable t name] := by
  refine .single fun e => ?_
  rw [tableOf, notTable]
  split
  · simp [*]
  · simp [*]
  · next v hne hv =>
      rw [Except.error.injEq, eq_comm, hv]
      exact (and_iff_left ⟨v, rfl, hne⟩).symm

theorem reports_checkKeys (h : tableOf t name = .ok members) (known : List String) :
    Reports (checkKeys name known members) [unsupported t name known] := by
  refine .single fun e => ?_
  have hkeys : checkKeys name known members = .error e ↔
      ∃ key, e = .unsupportedField name key ∧ leastUnknown known members = some key := by
    rw [checkKeys]
    cases leastUnknown known members <;> simp [eq_comm]
  -- A section that is missing has no keys.
  have hsection : Table.get? name t = some (.table members) ∨
      Table.get? name t = none ∧ members = [] := by
    rw [tableOf] at h
    split at h <;> simp_all
  rw [hkeys, unsupported]
  simp only [leastUnknown_eq_some_iff]
  rcases hsection with hsome | ⟨hnone, rfl⟩
  · constructor
    · rintro ⟨key, he, hleast⟩
      exact ⟨members, key, hsome, he, hleast⟩
    · rintro ⟨members', key, hsome', he, hleast⟩
      obtain rfl : members = members' := by simpa using hsome.symm.trans hsome'
      exact ⟨key, he, hleast⟩
  · simp [hnone]

theorem reports_readBool (field : String) (before : Bool) (v : Value) :
    Reports (readBool field before v) [notBoolean field v.nonNull?] := by
  refine .single fun e => ?_
  cases v <;> simp [readBool, notBoolean, Value.nonNull?, eq_comm]

theorem reports_locate (base : Path) (text : String) :
    Reports (locate base text) [nullInPath base (some text)] := by
  refine .single fun e => ?_
  rw [locate]
  split <;> simp_all [nullInPath, eq_comm]

theorem reports_readOverride (base : Path) (before : Option Path) (written : Option String) :
    Reports (readOverride base before written) [nullInPath base written] := by
  cases written with
  | none => exact .single fun e => by simp [readOverride, nullInPath]
  | some text => exact (reports_locate base text).map some

theorem reports_readPath (field : String) (base : Path) (before : Option Path) (v : Value) :
    Reports (readPath field base before v)
      [notText field v.nonNull?, nullInPath base (v.nonNull?.bind Value.text?)] := by
  cases v with
  | null =>
      refine .of_absent (by simp [notText, Value.nonNull?]) (.of_absent ?_ (.pure before))
      simp [nullInPath, Value.nonNull?]
  | text s =>
      by_cases hblank : Text.isBlankText s.toList = true
      · have hread : readPath field base before (.text s) = .error (.notText field) := by
          rw [readPath, if_pos hblank]
        rw [hread]
        have hall : ∀ c ∈ s.toList, Text.isBlank c = true := List.all_eq_true.1 hblank
        exact .of_present fun e =>
          and_iff_left ⟨_, rfl, fun s' hs' => Value.text.inj hs' ▸ hall⟩
      · have hread : readPath field base before (.text s) = (locate base s).map some := by
          rw [readPath, if_neg hblank]
        rw [hread]
        refine .of_absent (fun e h => hblank ?_) ((reports_locate base s).map some)
        obtain ⟨-, _, hv, hall⟩ := h
        exact List.all_eq_true.2 (hall s (Option.some.inj hv).symm)
  | _ => exact .of_present fun e => and_iff_left ⟨_, rfl, fun s hs => by simp at hs⟩

/-- What a document is refused for. -/
theorem reports_takeTable (c : Config) (t : Table) :
    Reports (c.takeTable t) (documentFaults c.projectRoot t) := by
  refine .bind_cons (reports_tableOf t "tracking") fun tracking htracking => ?_
  refine .bind_cons (reports_tableOf t "audit") fun audit haudit => ?_
  refine .bind_cons (reports_checkKeys htracking _) fun _ _ => ?_
  refine .bind_cons (reports_checkKeys haudit _) fun _ _ => ?_
  simp only [← nonNull?_fieldOf htracking, ← nonNull?_fieldOf haudit]
  refine .bind_cons (reports_readBool _ _ _) fun matchFileLevel _ => ?_
  refine .bind_cons (reports_readBool _ _ _) fun inheritSeverity _ => ?_
  refine .bind_cons (reports_readBool _ _ _) fun auditEnabled _ => ?_
  exact (reports_readPath _ _ _ _).bind fun _ _ => .pure _

/-- What overrides are refused for. -/
theorem reports_override (c : Config) (o : Overrides) :
    Reports (c.override o) (overrideFaults c.dataDir o) := by
  refine .bind_cons (reports_readBool _ _ _) fun matchFileLevel _ => ?_
  refine .bind_cons (reports_readBool _ _ _) fun inheritSeverity _ => ?_
  refine .bind_cons (reports_readBool _ _ _) fun auditEnabled _ => ?_
  refine .bind_cons (reports_readOverride _ _ _) fun explicitAuditPath _ => ?_
  exact .bind_cons (reports_locate _ _) fun dataDir _ => .pure _

/-- Documents with the same sections are taken in alike. -/
theorem takeTable_congr {t' : Table}
    (htracking : Table.get? "tracking" t' = Table.get? "tracking" t)
    (haudit : Table.get? "audit" t' = Table.get? "audit" t) : c.takeTable t' = c.takeTable t := by
  have htable : tableOf t' "tracking" = tableOf t "tracking" := by rw [tableOf, htracking, tableOf]
  have htable' : tableOf t' "audit" = tableOf t "audit" := by rw [tableOf, haudit, tableOf]
  rw [takeTable, htable, htable', takeTable]

end Reading
end Config

open Config Fault

/-- **A layer is refused for its first fault, and accepted if it has none**, whatever else is wrong
with it, and whatever else stands in its document beside the two sections. -/
theorem first_fault_is_reported (c : Config) (t : Table) (o : Overrides) :
    (∀ e, c.merge t o = .error e ↔
      FirstReported (documentFaults c.projectRoot t ++ overrideFaults c.dataDir o) e) ∧
    ((∃ c', c.merge t o = .ok c') ↔
      ∀ f ∈ documentFaults c.projectRoot t ++ overrideFaults c.dataDir o, ∀ e, ¬ f e) ∧
    ∀ t', Table.get? "tracking" t' = Table.get? "tracking" t →
      Table.get? "audit" t' = Table.get? "audit" t → c.merge t' o = c.merge t o := by
  have hmerge : Reports (c.merge t o)
      (documentFaults c.projectRoot t ++ overrideFaults c.dataDir o) := by
    refine (reports_takeTable c t).bind fun c₁ hc₁ => ?_
    -- A document leaves the data directory that overrides may resolve again.
    obtain ⟨_, _, htakes⟩ := takeTable_eq_ok_iff.1 hc₁
    rw [← htakes.dataDir]
    exact reports_override c₁ o
  refine ⟨hmerge, hmerge.ok_iff, fun t' htracking haudit => ?_⟩
  rw [merge, takeTable_congr htracking haudit, merge]

/-- Three faults in a document and one among overrides: the unknown keys are reported, and the least
of them is named, with or without a key that is no section. -/
theorem first_fault_is_reported_many :
    (Config.initial Path.root).merge
        [("audit", .table [("zeal", .null), ("Zeal", .null)]),
          ("tracking", .table [("inherit_server_severity", .number "1")])]
        { auditEnabled := .number "0" } = .error (.unsupportedField "audit" "Zeal") ∧
      (ConfigError.unsupportedField "audit" "Zeal").message =
        "Config field 'audit.Zeal' is not supported." ∧
      (Config.initial Path.root).merge
        [("other", .null), ("audit", .table [("zeal", .null), ("Zeal", .null)]),
          ("tracking", .table [("inherit_server_severity", .number "1")])]
        { auditEnabled := .number "0" } = .error (.unsupportedField "audit" "Zeal") := by
  have hfirst := first_fault_is_reported (Config.initial Path.root)
    [("audit", .table [("zeal", .null), ("Zeal", .null)]),
      ("tracking", .table [("inherit_server_severity", .number "1")])]
    { auditEnabled := .number "0" }
  obtain ⟨hreported, -, hother⟩ := hfirst
  have herror := (hreported (.unsupportedField "audit" "Zeal")).2 <|
    .inr ⟨(reports_tableOf _ _).absent rfl, .inr ⟨(reports_tableOf _ _).absent rfl,
      .inr ⟨(reports_checkKeys rfl _).absent rfl,
        .inl ⟨_, _, rfl, rfl, by decide, by decide, by decide⟩⟩⟩⟩
  exact ⟨herror, by decide, (hother _ rfl rfl).trans herror⟩

/-- Nothing is wrong with the kinds of things in a document, and overrides set nothing; still the
layer is refused, for a null character in its path. -/
theorem null_in_path_is_refused :
    (Config.initial Path.root).merge [("audit", .table [("path", .text "a\x00b")])] {} =
      .error .nullInPath ∧
    ¬ ∃ e, FirstReported
      (documentKinds [("audit", .table [("path", .text "a\x00b")])] ++ overrideKinds {}) e := by
  refine ⟨rfl, ?_⟩
  have hblank : Text.isBlank 'a' = false := by decide
  rw [exists_firstReported]
  simp +contextual [documentKinds, overrideKinds, notTable, unsupported, notBoolean, notText,
    Table.get?, Table.entry?, Value.nonNull?, hblank]

end FindingLedger
