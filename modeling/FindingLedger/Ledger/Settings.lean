/-!
# Settings of a ledger

Two switches: whether findings without a location are matched by their message, and whether a
matched finding takes severity and type over from its server copy.
-/

namespace FindingLedger

/-- The switches of a ledger; both are on unless something turns them off. -/
structure Settings where
  matchFileLevel : Bool := true
  inheritSeverity : Bool := true
deriving DecidableEq, Repr, Inhabited

end FindingLedger
