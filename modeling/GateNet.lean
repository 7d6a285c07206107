import GateNet.Command
import GateNet.Patch
import GateNet.Network.Audit
import GateNet.Network.Evaluation
import GateNet.Proofs.Ids
import GateNet.Proofs.Store
import GateNet.Proofs.Circuit
import GateNet.Proofs.Normal
import GateNet.Proofs.Layout
import GateNet.Proofs.Wiring
import GateNet.Proofs.Chain
import GateNet.Proofs.Table
import GateNet.Proofs.Weave
import GateNet.Proofs.Build
import GateNet.Proofs.Invariant
import GateNet.Proofs.Safety
import GateNet.Proofs.Terminals
import GateNet.Proofs.Elements
import GateNet.Proofs.Marks
import GateNet.Proofs.Precedence
import GateNet.Proofs.Order
import GateNet.Proofs.Evaluation
import GateNet.Proofs.Search
import GateNet.Proofs.ReverseOrder
import GateNet.Proofs.Conditions
import GateNet.Proofs.Settled
import GateNet.Proofs.Rebuild
import GateNet.Proofs.Redefine
import GateNet.Proofs.Walk
import GateNet.Proofs.Prune
import GateNet.Proofs.Isomorphism
import GateNet.Proofs.CopyPorts
import GateNet.Proofs.CopyElements
import GateNet.Proofs.CopyGates
import GateNet.Proofs.Copy
import GateNet.Proofs.Reachable
import GateNet.Proofs.Audit
import GateNet.Proofs.Meaning
import GateNet.Proofs.Duplicate
import GateNet.Proofs.Sharing
import GateNet.Proofs.Part
import GateNet.Proofs.Extension
import GateNet.Proofs.Checks
import GateNet.Proofs.Intact
import GateNet.Proofs.Registries
import GateNet.Proofs.Owners
import GateNet.Proofs.Seating
import GateNet.Proofs.Unfolding
import GateNet.Proofs.Closed
import GateNet.Proofs.Answers
import GateNet.Proofs.Effects
import GateNet.Proofs.Chronicle
import GateNet.Proofs.Verdict
import GateNet.Proofs.Tampering
import GateNet.Proofs.Replay
import GateNet.Proofs.Ledger
import GateNet.Proofs.Cells
import GateNet.Proofs.Agreement
import GateNet.Proofs.Alike
import GateNet.Proofs.AlikeAnswers
import GateNet.Proofs.AlikeChanges
import GateNet.Proofs.Twins
import GateNet.Proofs.TableSize
import GateNet.Proofs.Sessions
import GateNet.Proofs.Observed
import GateNet.Proofs.Paths
import GateNet.Proofs.Refusals
import GateNet.Proofs.Exploration
import GateNet.Proofs.WalkOrder
import GateNet.Proofs.Topological
import GateNet.Proofs.Patterns
import GateNet.Proofs.Legality
import GateNet.Proofs.Levels
import GateNet.Proofs.Confined
import GateNet.Proofs.Trees
import GateNet.Proofs.Turns
import GateNet.Proofs.Interleaving
import GateNet.Proofs.Projection
import GateNet.Proofs.Load
import GateNet.Proofs.Undoing
import GateNet.Proofs.FreeSpans
import GateNet.Proofs.Dependence
import GateNet.Proofs.Hashing
import GateNet.Proofs.Visits
