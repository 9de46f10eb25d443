import KeyTransparency.Auditor.Workspace
import KeyTransparency.Main
import KeyTransparency.Proofs.Client.CrossCheck
import KeyTransparency.Proofs.Observer
import KeyTransparency.Proofs.Wire.RoundTrip
import KeyTransparency.Simulation.Directory
import KeyTransparency.Proofs.Audit.Store
import KeyTransparency.Proofs.Audit.Restart
import KeyTransparency.Proofs.Audit.Admission
import KeyTransparency.Proofs.Client.Receive
import KeyTransparency.Proofs.Simulation.Commitment
import KeyTransparency.Proofs.Client.Agreement
import KeyTransparency.Proofs.Client.Verdict
import KeyTransparency.Proofs.Client.Comparison
import KeyTransparency.Proofs.Client.Refusal
import KeyTransparency.Proofs.Auditor.Sequence
import KeyTransparency.Proofs.Simulation.Directory
import KeyTransparency.Proofs.Simulation.Fork
import KeyTransparency.Proofs.Simulation.Ledger
import KeyTransparency.Proofs.Simulation.Following
import KeyTransparency.Proofs.Simulation.Network
import KeyTransparency.Proofs.Audit.Reads
import KeyTransparency.Proofs.Audit.Tampering
import KeyTransparency.Proofs.Client.Promises
import KeyTransparency.Proofs.Audit.Independence
import KeyTransparency.Proofs.Audit.Rows
import KeyTransparency.Proofs.Audit.Mirror
import KeyTransparency.Proofs.Message.Signed
import KeyTransparency.Proofs.Wire.Messages
import KeyTransparency.Proofs.Audit.Batches
import KeyTransparency.Proofs.Client.Evidence
import KeyTransparency.Proofs.Client.Redelivery
import KeyTransparency.Proofs.Client.BrokenRun
import KeyTransparency.Proofs.Message.Validation
import KeyTransparency.Proofs.Wire.Canonical
import KeyTransparency.Proofs.Audit.LastPut
import KeyTransparency.Proofs.Audit.InTurn
import KeyTransparency.Proofs.Text.Identity
