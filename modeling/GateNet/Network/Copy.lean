import GateNet.Network.Depth
import GateNet.Network.Terminals

/-!
# Copies

A copy is built with the operations that build any network: ports with their terminals, state
elements, gates in an order of evaluation, and last what the outputs read.  Node ids are those
that the new network hands out; a table maps the old ids to them.

Copying refuses only when the source is defective; the target then keeps what was copied so far.
-/

namespace GateNet

namespace Network

/-- The copies of the nodes of the source, by their ids there. -/
abbrev Copies := Array (Option NodeId)

/-- The copy of a node, which must be copied already. -/
def Copies.of (copies : Copies) (id : NodeId) : Except Refusal NodeId :=
  match (copies[id]?).join with
  | some copy => .ok copy
  | none => .error (.defective (.notCopied id))

def Copies.enter (copies : Copies) (id copy : NodeId) : Except Fault Copies :=
  storeAt copies id (some copy)

/-- Copies the input terminal of a bit of the source's port, if there is one, to a port of the
target. -/
def copyInput (source : Port) (port : PortId) (bit : Nat) (copies : Copies) (net : Network) :
    Except Fault (Outcome Copies) :=
  match source.input bit with
  | none => .ok (.done copies net)
  | some id => do
      let added ← net.addInput port bit
      added.andThen fun copy net => return .done (← copies.enter id copy) net

def copyOutput (source : Port) (port : PortId) (bit : Nat) (copies : Copies) (net : Network) :
    Except Fault (Outcome Copies) :=
  match source.output bit with
  | none => .ok (.done copies net)
  | some id => do
      let added ← net.addOutput port bit
      added.andThen fun copy net => return .done (← copies.enter id copy) net

def copyBit (source : Port) (port : PortId) (copies : Copies) (bit : Nat) (net : Network) :
    Except Fault (Outcome Copies) := do
  let withInput ← copyInput source port bit copies net
  withInput.andThen (copyOutput source port bit)

def copyPort (copies : Copies) (source : Port) (net : Network) : Except Fault (Outcome Copies) :=
  let (port, net) := net.addPort source.name source.width
  Outcome.fold (copyBit source port) (List.range source.width) copies net

def copyElement (source : Network) (family : Family) (copies : Copies) (id : ElementId)
    (net : Network) : Except Fault (Outcome Copies) := do
  let element ← (source.bank family).elements.fetch id
  let (copy, net) ← net.addElement family element.name
  let copied ← (net.bank family).elements.fetch copy
  let pairs := element.terminals.zip copied.terminals
  let copies ← pairs.foldlM (fun copies (old, new) => copies.enter old new) copies
  return .done copies net

/-- The function and the copied drivers of a gate of the source. -/
def copiedRequest (source : Network) (copies : Copies) (id : NodeId) :
    Except Failure (Gate × NodeId × NodeId) := do
  let node ← source.nodes.fetch id
  match node.gateOperands with
  | none => .error (.refused (.defective (.notGate id)))
  | some (a, b) => return (node.gate, ← copies.of a, ← copies.of b)

/-- Goes on with the answer to a question about the source. -/
def onAnswer {α β : Type} (net : Network) (question : Except Failure α)
    (next : α → Except Fault (Outcome β)) : Except Fault (Outcome β) :=
  match question with
  | .ok answer => next answer
  | .error (.refused refusal) => .ok (.refused refusal net)
  | .error (.faulted fault) => .error fault

/-- Copies a gate whose drivers are copied. -/
def copyGate (source : Network) (copies : Copies) (id : NodeId) (net : Network) :
    Except Fault (Outcome Copies) :=
  net.onAnswer (source.copiedRequest copies id) fun (gate, a, b) => do
    let added ← net.addGate gate (.positive a) (.positive b)
    added.andThen fun copy net =>
      match copy with
      | ⟨some new, false⟩ => return .done (← copies.enter id new) net
      | _ => return .refused (.defective (.notCanonical id)) net

/-- The copy of an output, and what it has to read. -/
def copiedReading (source : Network) (copies : Copies) (id : NodeId) :
    Except Failure (NodeId × Signal) := do
  let node ← source.nodes.fetch id
  match node.first with
  | none => return (← copies.of id, node.source)
  | some driver =>
      let copy ← copies.of driver
      return (← copies.of id, ⟨some copy, node.inverted⟩)

def copyReading (source : Network) (copies : Copies) (_ : Unit) (id : NodeId) (net : Network) :
    Except Fault (Outcome Unit) :=
  net.onAnswer (source.copiedReading copies id) fun (copy, signal) => net.drive copy signal

def copyTerminals (source : Network) (copies : Copies) (net : Network) :
    Except Fault (Outcome Copies) := do
  let ports ← Outcome.fold copyPort source.ports.toList copies net
  let flipFlops ← ports.andThen fun copies net =>
    Outcome.fold (copyElement source .flipFlop) source.flipFlops.order.toList copies net
  flipFlops.andThen fun copies net =>
    Outcome.fold (copyElement source .latch) source.latches.order.toList copies net

/-- Copies the gates, each after the gates that it reads. -/
def copyGates (source : Network) (copies : Copies) (net : Network) :
    Except Fault (Outcome Copies) := do
  let order ← source.driversFirst
  Outcome.fold (copyGate source) order copies net

def copyReadings (source : Network) (copies : Copies) (net : Network) :
    Except Fault (Outcome Unit) :=
  Outcome.fold (copyReading source copies) source.outputs.toList () net

/-- Replaces a network by a copy of another one; the slots and the table size stay. -/
def overwrite (net source : Network) : Except Fault (Outcome Unit) := do
  let blank := net.clear.rename source.name
  let terminals ← copyTerminals source (Array.replicate source.nodes.bound none) blank
  let gates ← terminals.andThen (copyGates source)
  gates.andThen (copyReadings source)

/-- A copy of a network, with a table of the same size. -/
def duplicate (source : Network) : Except Failure Network := do
  let copied ← (Network.withBuckets source.buckets).overwrite source
  match copied.answer with
  | .ok () => return copied.network
  | .error refusal => .error (.refused refusal)

end Network

end GateNet
