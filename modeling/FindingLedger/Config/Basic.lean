import FindingLedger.Path
import FindingLedger.Ledger.Settings
import FindingLedger.Text.Blank
import FindingLedger.Toml.Value

/-!
# Configuration

A configuration is built up in layers.  Each layer may hold a table from a settings document and
overrides from whoever starts the program; what a layer does not say stays as it was.

**Algorithm.**  `merge` takes in a table and then the overrides; `override` takes in overrides
alone.  The first fault in a fixed order is reported: sections that are no tables, unknown fields,
fields of the wrong kind, overrides of the wrong kind.

Relative paths of a document are taken from the project root, relative paths of overrides from the
working directory.  A path must not hold a null character, be it in its text or in the path from
which it is taken; overrides are checked for one after their kinds, and the path of the audit log
before the data directory, which every layer resolves anew.
-/

namespace FindingLedger

/-- The name of the settings document in a project. -/
def settingsFileName : String := "issue_tracking.toml"

/-- The name of the directory for data of the program in a project. -/
def dataDirName : String := ".issue_tracking"

/-- The name of the audit log in the data directory. -/
def auditFileName : String := "tracking_audit.jsonl"

/-- Everything that can be configured. -/
structure Config where
  projectRoot : Path
  dataDir : Path
  settings : Settings
  auditEnabled : Bool
  explicitAuditPath : Option Path

/-- Values that are set from outside, and the directory from which their relative paths are taken;
`null` and missing texts set nothing. -/
structure Overrides where
  workingDir : Path := Path.root
  dataDir : Option String := none
  matchFileLevel : Toml.Value := .null
  inheritSeverity : Toml.Value := .null
  auditEnabled : Toml.Value := .null
  auditPath : Option String := none

/-- Why a layer was refused. -/
inductive ConfigError
  | notTable (table : String)
  | unsupportedField (table key : String)
  | notBoolean (field : String)
  | notText (field : String)
  | nullInPath
deriving DecidableEq, Repr

/-- The text of a configuration error. -/
def ConfigError.message : ConfigError → String
  | notTable table => "Config section '" ++ table ++ "' must be a table."
  | unsupportedField table key => "Config field '" ++ table ++ "." ++ key ++ "' is not supported."
  | notBoolean field => "Config field '" ++ field ++ "' must be a boolean."
  | notText field => "Config field '" ++ field ++ "' must be a non-empty string."
  | nullInPath => "embedded null byte"

/-- One layer: a table or none, and overrides. -/
structure Layer where
  payload : Option Toml.Table
  overrides : Overrides

namespace Config

/-- The configuration of a project that sets nothing. -/
def initial (root : Path) : Config where
  projectRoot := root
  dataDir := root.resolve dataDirName
  settings := {}
  auditEnabled := false
  explicitAuditPath := none

/-- A null character stands in a text, or else in the path from which a relative text is taken. -/
def HoldsNull (base : Path) (text : String) : Prop :=
  '\x00' ∈ text.toList ∨ text.toList.head? ≠ some '/' ∧ '\x00' ∈ base.text.toList

instance (base : Path) (text : String) : Decidable (HoldsNull base text) :=
  inferInstanceAs (Decidable (_ ∨ _ ∧ _))

/-- The path that a text denotes from `base`; with a null character it denotes none.  A string holds
no surrogates, so nothing is said about texts that a file system refuses for them. -/
def locate (base : Path) (text : String) : Except ConfigError Path :=
  if HoldsNull base text then .error .nullInPath else .ok (base.resolve text)

/-- The configuration of a project that sets nothing, by the text of its root directory. -/
def ofRoot (root : String) : Except ConfigError Config :=
  (locate Path.root root).map initial

/-- Where the audit log is: at its explicit path, or else in the data directory. -/
def auditPath (c : Config) : Path :=
  c.explicitAuditPath.getD (c.dataDir.resolve auditFileName)

section Reading

open Toml (Value Table)

/-- The members of a section; a missing section has none. -/
def tableOf (payload : Table) (name : String) : Except ConfigError Table :=
  match Table.get? name payload with
  | none => .ok []
  | some (.table members) => .ok members
  | some _ => .error (.notTable name)

/-- The lesser of two keys in the order of code points. -/
def lesser (a : Option String) (b : String) : Option String :=
  match a with
  | none => some b
  | some a => if b < a then some b else some a

/-- The least key of a table that is not among the known ones. -/
def leastUnknown (known : List String) (t : Table) : Option String :=
  ((t.map Prod.fst).filter fun key => !known.contains key).foldl lesser none

/-- Refuses a section with an unknown key. -/
def checkKeys (name : String) (known : List String) (t : Table) : Except ConfigError Unit :=
  match leastUnknown known t with
  | none => .ok ()
  | some key => .error (.unsupportedField name key)

/-- A boolean field; `null` leaves the value that was there before. -/
def readBool (field : String) (before : Bool) : Value → Except ConfigError Bool
  | .null => .ok before
  | .boolean b => .ok b
  | _ => .error (.notBoolean field)

/-- A path field; `null` leaves the value that was there before, and a blank text is no path. -/
def readPath (field : String) (base : Path) (before : Option Path) :
    Value → Except ConfigError (Option Path)
  | .null => .ok before
  | .text s =>
      if Text.isBlankText s.toList then .error (.notText field) else (locate base s).map some
  | _ => .error (.notText field)

/-- A path among the overrides; a missing one leaves the value that was there before. -/
def readOverride (base : Path) (before : Option Path) :
    Option String → Except ConfigError (Option Path)
  | none => .ok before
  | some text => (locate base text).map some

/-- The value of a field; a missing one is `null`. -/
def fieldOf (t : Table) (key : String) : Value :=
  (Table.get? key t).getD .null

end Reading

/-- Takes in overrides. -/
def override (c : Config) (o : Overrides) : Except ConfigError Config := do
  let matchFileLevel ←
    readBool "overrides.match_file_level_issues" c.settings.matchFileLevel o.matchFileLevel
  let inheritSeverity ←
    readBool "overrides.inherit_server_severity" c.settings.inheritSeverity o.inheritSeverity
  let auditEnabled ← readBool "overrides.audit_enabled" c.auditEnabled o.auditEnabled
  let explicitAuditPath ← readOverride o.workingDir c.explicitAuditPath o.auditPath
  let dataDir ← locate o.workingDir (o.dataDir.getD c.dataDir.text)
  return { c with
    dataDir := dataDir
    settings := ⟨matchFileLevel, inheritSeverity⟩
    auditEnabled := auditEnabled
    explicitAuditPath := explicitAuditPath }

/-- Takes in the table of a settings document. -/
def takeTable (c : Config) (payload : Toml.Table) : Except ConfigError Config := do
  let tracking ← tableOf payload "tracking"
  let audit ← tableOf payload "audit"
  checkKeys "tracking" ["match_file_level_issues", "inherit_server_severity"] tracking
  checkKeys "audit" ["enabled", "path"] audit
  let matchFileLevel ←
    readBool "tracking.match_file_level_issues" c.settings.matchFileLevel
      (fieldOf tracking "match_file_level_issues")
  let inheritSeverity ←
    readBool "tracking.inherit_server_severity" c.settings.inheritSeverity
      (fieldOf tracking "inherit_server_severity")
  let auditEnabled ← readBool "audit.enabled" c.auditEnabled (fieldOf audit "enabled")
  let explicitAuditPath ←
    readPath "audit.path" c.projectRoot c.explicitAuditPath (fieldOf audit "path")
  return { c with
    settings := ⟨matchFileLevel, inheritSeverity⟩
    auditEnabled := auditEnabled
    explicitAuditPath := explicitAuditPath }

/-- Takes in a table and then overrides. -/
def merge (c : Config) (payload : Toml.Table) (o : Overrides) : Except ConfigError Config := do
  let c ← c.takeTable payload
  c.override o

/-- Takes in one layer. -/
def addLayer (c : Config) (l : Layer) : Except ConfigError Config :=
  match l.payload with
  | some payload => c.merge payload l.overrides
  | none => c.override l.overrides

/-- The configuration after each layer of a list; a refused layer leaves it as it was. -/
def addLayers (c : Config) : List Layer → List (Except ConfigError Config)
  | [] => []
  | l :: ls =>
      match c.addLayer l with
      | .ok c' => .ok c' :: c'.addLayers ls
      | .error e => .error e :: c.addLayers ls

end Config
end FindingLedger
