import Aap.Checkpoint.State
import Aap.Main
import Aap.Proofs.Format.Field
import Aap.Proofs.Refinement
import Aap.Proofs.Format.Encoding
import Aap.Proofs.Format.Published
import Aap.Proofs.Decode
import Aap.Proofs.Failure
import Aap.Proofs.Step
import Aap.Proofs.Run
import Aap.Proofs.Encode
import Aap.Proofs.Resync
import Aap.Proofs.Trace
import Aap.Proofs.Bounded
import Aap.Proofs.Reachable
import Aap.Proofs.Layout
import Aap.Proofs.Resources
import Aap.Proofs.Slices
import Aap.Proofs.Image
import Aap.Proofs.Checkpoint
import Aap.Proofs.Lockstep
import Aap.Proofs.Footprint
import Aap.Proofs.WriteOnly
import Aap.Proofs.Reset
import Aap.CommandLine.Process
import Aap.Proofs.Process
import Aap.Proofs.Session
import Aap.Proofs.Computation
import Aap.Proofs.Widening
import Aap.Proofs.ByteMap
import Aap.Proofs.LoadStore
import Aap.Proofs.Stack
import Aap.Proofs.Calls
import Aap.Proofs.Arguments
import Aap.Proofs.Format.Overlap
import Aap.Proofs.Extraction
import Aap.Proofs.Message
