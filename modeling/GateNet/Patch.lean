import GateNet.Network.Terminals

/-!
# Patches

A `Patch` changes one record of a network behind the back of all others, or carries out one inner
step on its own.  Patches make the defective networks that the audit has to find; no command
depends on them.
-/

namespace GateNet

/-- A change of one record, or one inner step. -/
inductive Patch
  /-- Realizes a request in place of a gate, and leaves its readers alone. -/
  | realize (id : NodeId) (gate : Gate) (s t : Signal)
  /-- Rewires an operand at both ends; the table stays. -/
  | plug (id : NodeId) (operand : Operand) (driver : Option NodeId)
  /-- Takes a gate out of the table. -/
  | withdraw (id : NodeId)
  /-- Rewires an operand at the reader's end only. -/
  | driver (id : NodeId) (operand : Operand) (driver : Option NodeId)
  | gate (id : NodeId) (gate : Gate)
  | fanouts (id : NodeId) (entries : Array Fanout)
  | id (id name : NodeId)
  | kind (id : NodeId) (kind : Kind)
  /-- Frees the slot of a node. -/
  | remove (id : NodeId)
  | registry (registry : Registry) (ids : Array NodeId)
  | order (family : Family) (ids : Array ElementId)
  | input (port : PortId) (bit : Nat) (node : Option NodeId)
  | output (port : PortId) (bit : Nat) (node : Option NodeId)
  | pin (family : Family) (element : ElementId) (pin : Pin) (node : NodeId)

namespace Network

def patchNode (net : Network) (id : NodeId) (change : Node → Node) : Except Fault Network := do
  return { net with nodes := ← net.nodes.update id change }

/-- Applies a patch; only `Patch.realize` gives a signal. -/
def patch (net : Network) : Patch → Except Fault (Option Signal × Network)
  | .realize id gate s t => do
      let (signal, net) ← net.realize (some id) gate s t
      return (some signal, net)
  | .plug id operand driver => return (none, ← net.plug id operand driver)
  | .withdraw id => return (none, ← net.withdraw id)
  | .driver id operand driver => return (none, ← net.patchNode id (·.withDriver operand driver))
  | .gate id gate => return (none, ← net.patchNode id ({ · with gate }))
  | .fanouts id entries => return (none, ← net.patchNode id ({ · with fanouts := entries }))
  | .id id name => return (none, ← net.patchNode id ({ · with id := name }))
  | .kind id kind => return (none, ← net.patchNode id ({ · with kind }))
  | .remove id => return (none, { net with nodes := ← net.nodes.remove id })
  | .registry registry ids => .ok (none, net.withRegistry registry ids)
  | .order family ids => .ok (none, net.withBank family { net.bank family with order := ids })
  | .input port bit node => return (none, ← net.updatePort port (·.withInput bit node))
  | .output port bit node => return (none, ← net.updatePort port (·.withOutput bit node))
  | .pin family element pin node => do
      let bank := net.bank family
      let elements ← bank.elements.update element (·.withTerminal pin node)
      return (none, net.withBank family { bank with elements })

end Network

end GateNet
