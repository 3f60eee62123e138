import FindingLedger.Config.Project
import FindingLedger.Proofs.Ledger.Reanalysis
import FindingLedger.Proofs.Ledger.Resync
import FindingLedger.Proofs.Ledger.History
import FindingLedger.Proofs.Ledger.Linkage
import FindingLedger.Proofs.Ledger.Dating
import FindingLedger.Proofs.Ledger.Failure
import FindingLedger.Proofs.Ledger.Balance
import FindingLedger.Proofs.Ledger.Accounts
import FindingLedger.Proofs.Audit.Chronicle
import FindingLedger.Proofs.Ledger.Maximality
import FindingLedger.Proofs.Ledger.Precedence
import FindingLedger.Proofs.Ledger.Mirror
import FindingLedger.Proofs.Pairing.Renaming
import FindingLedger.Proofs.Pairing.Symmetry
import FindingLedger.Proofs.Pairing.Ties
import FindingLedger.Proofs.Pairing.Attempts
import FindingLedger.Proofs.Pairing.Composition
import FindingLedger.Proofs.Ledger.Restamping
import FindingLedger.Proofs.Ledger.Transcript
import FindingLedger.Proofs.Ledger.Separation
import FindingLedger.Proofs.Ledger.Disguise
import FindingLedger.Proofs.Ledger.Opacity
import FindingLedger.Proofs.Text.Moving
import FindingLedger.Proofs.Audit.Encoding
import FindingLedger.Proofs.Config.Layering
import FindingLedger.Proofs.Text.Words
import FindingLedger.Proofs.Ledger.Recall
import FindingLedger.Proofs.Finding.Snapshots
import FindingLedger.Proofs.Config.Faults
