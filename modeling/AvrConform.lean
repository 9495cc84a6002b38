import AvrConform.Main
import AvrConform.Proofs.Trial
import AvrConform.Simulator.Faulty
import AvrConform.Proofs.Conformance
import AvrConform.Proofs.Faults
import AvrConform.Proofs.Coverage
import AvrConform.Proofs.Decoding
import AvrConform.Proofs.Adequacy
import AvrConform.Proofs.Diagnosis
import AvrConform.Proofs.Accounting
import AvrConform.Proofs.Isolation
import AvrConform.Proofs.Matrix
import AvrConform.Proofs.Stopping
import AvrConform.Proofs.Program
import AvrConform.Proofs.Unambiguous
import AvrConform.Proofs.Naming
import AvrConform.Proofs.Invocation
import AvrConform.Proofs.Iteration
import AvrConform.Proofs.Frame
import AvrConform.Proofs.Flow
import AvrConform.Proofs.Driven
import AvrConform.Proofs.Replay
import AvrConform.Proofs.RoundTrip
import AvrConform.Proofs.Mnemonic
import AvrConform.Proofs.Bounds
import AvrConform.Proofs.History
