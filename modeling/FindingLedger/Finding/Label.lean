/-!
# Severities and issue types

Two closed lists of labels, each with the name under which it is read and written.

**Results.**
* `Severity.ofName?_eq_some_iff`, `IssueType.ofName?_eq_some_iff`: a name is read as a label
  exactly when it is the name of that label, so reading undoes writing and no other spelling is
  accepted.
-/

namespace FindingLedger

/-- How grave a finding is. -/
inductive Severity
  | blocker
  | critical
  | major
  | minor
  | info
deriving DecidableEq, Repr, Inhabited

namespace Severity

/-- The severities, gravest first. -/
def all : List Severity :=
  [blocker, critical, major, minor, info]

/-- The written form of a severity. -/
def name : Severity → String
  | blocker => "BLOCKER"
  | critical => "CRITICAL"
  | major => "MAJOR"
  | minor => "MINOR"
  | info => "INFO"

/-- The severity with the given written form. -/
def ofName? (s : String) : Option Severity :=
  all.find? fun v => decide (v.name = s)

theorem mem_all (v : Severity) : v ∈ all := by
  cases v <;> decide

theorem ofName?_name (v : Severity) : ofName? v.name = some v := by
  cases v <;> decide

theorem name_injective {v w : Severity} (h : v.name = w.name) : v = w := by
  have hv := ofName?_name v
  rw [h, ofName?_name w] at hv
  exact (Option.some.inj hv).symm

theorem ofName?_eq_some_iff {s : String} {v : Severity} : ofName? s = some v ↔ v.name = s := by
  constructor
  · intro h
    simpa using List.find?_some h
  · rintro rfl
    exact ofName?_name v

end Severity

/-- What kind of problem a finding reports. -/
inductive IssueType
  | bug
  | vulnerability
  | codeSmell
  | securityHotspot
deriving DecidableEq, Repr, Inhabited

namespace IssueType

/-- The issue types in the order in which they are listed. -/
def all : List IssueType :=
  [bug, vulnerability, codeSmell, securityHotspot]

/-- The written form of an issue type. -/
def name : IssueType → String
  | bug => "BUG"
  | vulnerability => "VULNERABILITY"
  | codeSmell => "CODE_SMELL"
  | securityHotspot => "SECURITY_HOTSPOT"

/-- The issue type with the given written form. -/
def ofName? (s : String) : Option IssueType :=
  all.find? fun v => decide (v.name = s)

theorem mem_all (v : IssueType) : v ∈ all := by
  cases v <;> decide

theorem ofName?_name (v : IssueType) : ofName? v.name = some v := by
  cases v <;> decide

theorem name_injective {v w : IssueType} (h : v.name = w.name) : v = w := by
  have hv := ofName?_name v
  rw [h, ofName?_name w] at hv
  exact (Option.some.inj hv).symm

theorem ofName?_eq_some_iff {s : String} {v : IssueType} : ofName? s = some v ↔ v.name = s := by
  constructor
  · intro h
    simpa using List.find?_some h
  · rintro rfl
    exact ofName?_name v

end IssueType
end FindingLedger
