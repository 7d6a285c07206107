import GateNet.Network.Order
import GateNet.Network.Terminals
import GateNet.Walk

/-!
# Pruning

A gate that no output depends on is dead.  `prune` erases the dead gates, readers before what they
read, so that each one is unread when its turn comes.
-/

namespace GateNet

namespace Network

/-- The nodes that some output depends on. -/
def reached (net : Network) : Except Fault Marks := do
  let (visited, _) ← Walk.finish (.ofOutputs net) net
  net.noMarks.markAll visited

/-- The gates that no output depends on, readers before what they read. -/
def deadGates (net : Network) (reached : Marks) : Except Fault (List NodeId) := do
  let order ← net.driversFirst
  reached.pick false order.reverse

/-- Erases a gate, which must be unread; its registration stays. -/
def dropUnread (_ : Unit) (id : NodeId) (net : Network) : Except Fault (Outcome Unit) := do
  let node ← net.nodes.fetch id
  if node.fanouts.isEmpty then return .done () (← net.dropGate id)
  else return .refused (.stillRead id) net

/-- Erases every gate that no output depends on, and gives their number. -/
def prune (net : Network) : Except Fault (Outcome Nat) := do
  let reached ← net.reached
  let dead ← net.deadGates reached
  let dropped ← Outcome.fold dropUnread dead () net
  dropped.andThen fun _ net => do
    let gates ← reached.pick true net.gates.toList
    return .done dead.length { net with gates := gates.toArray }

end Network

end GateNet
