import GateNet.Network.Build

/-!
# Ports and state elements

Terminals are made together with the entry of their owner, so that owners and terminals name each
other, and they are registered as inputs or outputs of the network.  A port's terminals are made
one by one; a state element comes with all five.  An element is erased with its terminals once
nothing reads its output.
-/

namespace GateNet

namespace Network

def addPort (net : Network) (name : String) (width : Nat) : PortId × Network :=
  (net.ports.size, { net with ports := net.ports.push (.blank net.ports.size name width) })

def register (net : Network) (id : NodeId) (kind : Kind) : Network :=
  if kind.isInput then { net with inputs := net.inputs.push id }
  else { net with outputs := net.outputs.push id }

/-! ## Ports -/

/-- The port, if the bit is one of its bits. -/
def checkBit (net : Network) (port : PortId) (bit : Nat) : Except Refusal Port :=
  match net.ports[port]? with
  | none => .error (.noPort port)
  | some p => if bit < p.width then .ok p else .error (.bitOutOfRange port bit p.width)

/-- Checks that a bit exists and has no input terminal. -/
def checkFreeInput (net : Network) (port : PortId) (bit : Nat) : Except Failure Unit := do
  let p ← net.checkBit port bit
  let held ← fetchAt p.inputs bit
  if held.isSome then .error (.refused (.bitTaken port bit)) else .ok ()

def checkFreeOutput (net : Network) (port : PortId) (bit : Nat) : Except Failure Unit := do
  let p ← net.checkBit port bit
  let held ← fetchAt p.outputs bit
  if held.isSome then .error (.refused (.bitTaken port bit)) else .ok ()

/-- Changes the record of a port. -/
def updatePort (net : Network) (port : PortId) (change : Port → Except Fault Port) :
    Except Fault Network := do
  let p ← fetchAt net.ports port
  return { net with ports := ← storeAt net.ports port (← change p) }

def addInput (net : Network) (port : PortId) (bit : Nat) : Except Fault (Outcome NodeId) :=
  net.guarded (net.checkFreeInput port bit) fun _ => do
    let (id, net) ← net.addNode (.portInput port bit)
    let net ← net.updatePort port (·.withInput bit (some id))
    return (id, net.register id (.portInput port bit))

/-- Makes the output terminal of a bit; it reads the constant `false`. -/
def addOutput (net : Network) (port : PortId) (bit : Nat) : Except Fault (Outcome NodeId) :=
  net.guarded (net.checkFreeOutput port bit) fun _ => do
    let (id, net) ← net.addNode (.portOutput port bit)
    let net ← net.updatePort port (·.withOutput bit (some id))
    return (id, net.register id (.portOutput port bit))

/-! ## State elements -/

/-- Makes the terminals of some pins of an element, which neither the registries nor the element
list yet. -/
def addPinNodes (family : Family) (element : ElementId) :
    List Pin → Network → Except Fault (List (Pin × NodeId) × Network)
  | [], net => .ok ([], net)
  | pin :: rest, net => do
      let (id, net) ← net.addNode (.state family element pin)
      let (made, net) ← addPinNodes family element rest net
      return ((pin, id) :: made, net)

def registerPins (net : Network) (family : Family) (element : ElementId)
    (pins : List (Pin × NodeId)) : Network :=
  pins.foldl (fun net made => net.register made.2 (.state family element made.1)) net

/-- Adds a state element with its five terminals; the four that it reads carry the constant
`false`. -/
def addElement (net : Network) (family : Family) (name : String) :
    Except Fault (ElementId × Network) := do
  let bank := net.bank family
  let (id, elements) ← bank.elements.insert fun id => { id, name }
  let (pins, net) ← addPinNodes family id Pin.all (net.withBank family { bank with elements })
  let net := net.registerPins family id pins
  let bank := net.bank family
  let elements ← bank.elements.update id (·.withTerminals pins)
  return (id, net.withBank family { elements, order := bank.order.push id })

def dropTerminal (net : Network) (id : NodeId) : Except Fault Network := do
  let net ← net.plug id .first none
  let node ← net.nodes.fetch id
  let net :=
    if node.isInput then { net with inputs := net.inputs.erase id }
    else { net with outputs := net.outputs.erase id }
  return { net with nodes := ← net.nodes.remove id }

/-- The element, if it exists and nothing reads its output. -/
def checkEraseElement (net : Network) (family : Family) (id : ElementId) :
    Except Failure Element :=
  match net.element? family id with
  | none => .error (.refused (.noElement family id))
  | some element => do
      let output ← net.nodes.fetch element.output
      if output.fanouts.isEmpty then return element
      else .error (.refused (.stillRead element.output))

/-- Removes a state element and its terminals. -/
def dropElement (net : Network) (family : Family) (id : ElementId) (element : Element) :
    Except Fault Network := do
  let net ← element.terminals.foldlM dropTerminal net
  let bank := net.bank family
  let elements ← bank.elements.remove id
  return net.withBank family { elements, order := bank.order.filter (· != id) }

def eraseElement (net : Network) (family : Family) (id : ElementId) :
    Except Fault (Outcome Unit) :=
  net.guarded (net.checkEraseElement family id) fun element =>
    return ((), ← net.dropElement family id element)

/-! ## Gates -/

/-- Removes a gate that nothing reads, with its wires, from the table and the store; its
registration stays. -/
def dropGate (net : Network) (id : NodeId) : Except Fault Network := do
  let node ← net.nodes.fetch id
  unless node.fanouts.isEmpty do throw (.gateRead id)
  let net ← net.withdraw id
  let net ← net.plug id .first none
  let net ← net.plug id .second none
  return { net with nodes := ← net.nodes.remove id }

/-- Checks that a node is a gate that nothing reads. -/
def checkEraseGate (net : Network) (id : NodeId) : Except Refusal Unit :=
  match net.node? id with
  | none => .error (.noNode id)
  | some node =>
      if !node.isGate then .error (.notGate id)
      else if node.fanouts.isEmpty then .ok ()
      else .error (.stillRead id)

def eraseGate (net : Network) (id : NodeId) : Except Fault (Outcome Unit) :=
  net.guarded (liftM (net.checkEraseGate id)) fun _ =>
    return ((), ← dropGate { net with gates := net.gates.erase id } id)

end Network

end GateNet
