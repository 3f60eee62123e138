import FindingLedger.Config.Basic
import FindingLedger.Ledger.Basic
import FindingLedger.Toml.Document

/-!
# Projects

**Input.**  The root directory of a project, the files that can be read, and overrides.

**Algorithm.**  `Project.load` builds the configuration from the defaults, the settings document
of the project if there is one, and the overrides.  `Project.ledger` is the new ledger of a
configuration; its audit log goes on after what its file already holds.
-/

namespace FindingLedger

/-- The bytes of the files that can be read. -/
abbrev Files := Path → Option ByteArray

/-- Why a project was not loaded. -/
inductive ProjectError
  | undecodable
  | unreadable (cause : Toml.ReadError)
  | invalid (cause : ConfigError)
deriving DecidableEq, Repr

namespace Project

/-- The table of a settings document; without a document it is empty. -/
def payload : Option ByteArray → Except ProjectError Toml.Table
  | none => .ok []
  | some bytes =>
      match String.fromUTF8? bytes with
      | none => .error .undecodable
      | some source =>
          match Toml.read source with
          | .error e => .error (.unreadable e)
          | .ok table => .ok table

/-- The configuration of a project. -/
def load (root : Path) (files : Files) (o : Overrides) : Except ProjectError Config :=
  match payload (files (root.resolve settingsFileName)) with
  | .error e => .error e
  | .ok table => ((Config.initial root).merge table o).mapError .invalid

/-- The audit log of a configuration.  What its file holds is kept as it is. -/
def auditLog (c : Config) (files : Files) (writer : Audit.Writer) (stamp : Nat → Audit.Stamp) :
    Audit.Log where
  enabled := c.auditEnabled
  stamp := stamp
  made := 0
  contents := files c.auditPath
  writer := writer
  fault := none

/-- The new ledger of a configuration. -/
def ledger {π : Type} (c : Config) (files : Files) (writer : Audit.Writer) (clock : Clock)
    (stamp : Nat → Audit.Stamp) : Ledger π :=
  .new c.settings clock (auditLog c files writer stamp)

/-- The directory of the audit log exists: it leads to the project, or it was made because the log
is to be written. -/
def hasAuditDirectory (c : Config) : Bool :=
  c.auditEnabled || c.auditPath.parent.contains c.projectRoot

end Project
end FindingLedger
