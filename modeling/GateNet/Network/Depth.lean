import GateNet.Network.Order

/-!
# Depths

The depth of a gate is one more than that of its deeper driver; inputs have depth 0, and an output
has the depth of its driver.  The depth of a network is that of its deepest output, and it is
remembered until a wire changes.
-/

namespace GateNet

namespace Network

/-- Enters the depth of a gate, once those of its drivers are entered. -/
def enterGateDepth (net : Network) (depths : Array Nat) (id : NodeId) :
    Except Fault (Array Nat) := do
  let node ← net.nodes.fetch id
  match node.gateOperands with
  | none => return depths
  | some (a, b) => storeAt depths id (1 + max (← fetchAt depths a) (← fetchAt depths b))

/-- Enters the depth of an output that has a driver. -/
def enterOutputDepth (net : Network) (depths : Array Nat) (id : NodeId) :
    Except Fault (Array Nat) := do
  let node ← net.nodes.fetch id
  match node.first with
  | none => return depths
  | some driver => storeAt depths id (← fetchAt depths driver)

/-- The depths of all nodes, by their ids; ids without a node have depth 0. -/
def depths (net : Network) : Except Fault (Array Nat) := do
  let order ← net.driversFirst
  let gates ← order.foldlM net.enterGateDepth (Array.replicate net.nodes.bound 0)
  net.outputs.toList.foldlM net.enterOutputDepth gates

/-- The depth of the network, computed from its wires. -/
def computeDepth (net : Network) : Except Fault Nat := do
  let depths ← net.depths
  let ends ← net.outputs.toList.mapM (fetchAt depths)
  return ends.foldl max 0

/-- The depth of the network, and the network that remembers it. -/
def depth (net : Network) : Except Fault (Nat × Network) :=
  match net.depth? with
  | some known => .ok (known, net)
  | none => do
      let computed ← net.computeDepth
      return (computed, { net with depth? := some computed })

end Network

end GateNet
