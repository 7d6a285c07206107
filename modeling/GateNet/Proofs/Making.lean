import GateNet.Network.Copy
import GateNet.Proofs.Invariant

/-!
# Terminals made one at a time

A port enters a new terminal before the terminal is registered, and an element makes all of its
terminals before it registers the first one.  Nothing depends on this order: the result is the
same when each terminal is registered as it is made and entered right after.

Input and output terminals of ports are made, entered and copied in the same way; a `Side` says
which of the two is meant.
-/

namespace GateNet

/-- The two sorts of terminals. -/
inductive Side
  | input
  | output
  deriving DecidableEq

namespace Side

def kind : Side → PortId → Nat → Kind
  | input => .portInput
  | output => .portOutput

def registry : Side → Registry
  | input => .inputs
  | output => .outputs

/-- The pins of a state element whose terminals are of the sort, in the order of their creation. -/
def pins : Side → List Pin
  | input => [.output]
  | output => [.data, .trigger, .forceA, .forceB]

/-- What a port names for a bit. -/
def terminal : Side → Port → Nat → Option NodeId
  | input => Port.input
  | output => Port.output

/-- What a port names for its bits. -/
def entries : Side → Port → Array (Option NodeId)
  | input => Port.inputs
  | output => Port.outputs

def enter : Side → Port → Nat → Option NodeId → Except Fault Port
  | input => Port.withInput
  | output => Port.withOutput

def check : Side → Network → PortId → Nat → Except Failure Unit
  | input => Network.checkFreeInput
  | output => Network.checkFreeOutput

def add : Side → Network → PortId → Nat → Except Fault (Outcome NodeId)
  | input => Network.addInput
  | output => Network.addOutput

def copy : Side → Port → PortId → Nat → Network.Copies → Network →
    Except Fault (Outcome Network.Copies)
  | input => Network.copyInput
  | output => Network.copyOutput

theorem copy_eq (side : Side) (source : Port) (port : PortId) (bit : Nat)
    (copies : Network.Copies) (net : Network) :
    side.copy source port bit copies net =
      match side.terminal source bit with
      | none => .ok (.done copies net)
      | some id => side.add net port bit >>= fun added =>
          added.andThen fun copy net => copies.enter id copy >>= fun copies =>
            .ok (.done copies net) := by
  cases side <;> rfl

theorem terminal_eq (side : Side) (p : Port) (bit : Nat) :
    side.terminal p bit = ((side.entries p)[bit]?).join := by
  cases side <;> rfl

theorem check_def (side : Side) (net : Network) (port : PortId) (bit : Nat) :
    side.check net port bit = (do
      let p ← net.checkBit port bit
      let held ← fetchAt (side.entries p) bit
      if held.isSome then .error (.refused (.bitTaken port bit)) else .ok ()) := by
  cases side <;> rfl

theorem kind_inj {side other : Side} {port bit port' bit' : Nat} :
    side.kind port bit = other.kind port' bit' ↔ side = other ∧ port = port' ∧ bit = bit' := by
  cases side <;> cases other <;> simp [kind]

theorem isGate_kind (side : Side) (port bit : Nat) : (side.kind port bit).isGate = false := by
  cases side <;> rfl

end Side

namespace Network

/-- Makes a terminal and registers it. -/
def addTerminal (net : Network) (kind : Kind) : Except Fault (NodeId × Network) := do
  let (id, net) ← net.addNode kind
  return (id, net.register id kind)

/-! ## Ports -/

theorem ports_register (net : Network) (id : NodeId) (kind : Kind) :
    (net.register id kind).ports = net.ports := by
  unfold register
  split <;> rfl

/-- Registries and ports are changed in either order. -/
theorem updatePort_register (net : Network) (id : NodeId) (kind : Kind) (port : PortId)
    (change : Port → Except Fault Port) :
    (net.register id kind).updatePort port change =
      (net.updatePort port change).map (·.register id kind) := by
  unfold updatePort
  rw [ports_register]
  cases fetchAt net.ports port with
  | error fault => rfl
  | ok p =>
    cases changed : change p with
    | error fault => simp only [ok_bind, changed]; rfl
    | ok q =>
      cases stored : storeAt net.ports port q with
      | error fault => simp only [ok_bind, changed, stored]; rfl
      | ok ports =>
        simp only [ok_bind, changed, stored]
        unfold register
        split <;> rfl

theorem addTerminal_updatePort (net : Network) (kind : Kind) (port : PortId)
    (change : NodeId → Port → Except Fault Port) :
    (do
      let (id, net) ← net.addNode kind
      let net ← net.updatePort port (change id)
      return (id, net.register id kind)) =
    (do
      let (id, net) ← net.addTerminal kind
      return (id, ← net.updatePort port (change id)) : Except Fault (NodeId × Network)) := by
  unfold addTerminal
  cases net.addNode kind with
  | error fault => rfl
  | ok added =>
    simp only [ok_bind, pure_eq_ok, updatePort_register]
    cases added.2.updatePort port (change added.1) <;> rfl

end Network

/-- A terminal of a port is made, registered and entered, once its bit is found free. -/
theorem Side.add_eq (side : Side) (net : Network) (port : PortId) (bit : Nat) :
    side.add net port bit = net.guarded (side.check net port bit) fun _ => do
      let (id, net) ← net.addTerminal (side.kind port bit)
      return (id, ← net.updatePort port (side.enter · bit (some id))) := by
  have fused := net.addTerminal_updatePort (side.kind port bit) port
    fun id p => side.enter p bit (some id)
  cases side <;> exact congrArg (net.guarded _) (funext fun _ => fused)

namespace Network

/-! ## Elements -/

/-- Makes the terminal of a pin of an element, and enters it. -/
def addPin (family : Family) (id : ElementId) (net : Network) (pin : Pin) :
    Except Fault Network := do
  let (node, net) ← net.addTerminal (.state family id pin)
  let bank := net.bank family
  let elements ← bank.elements.update id (·.withTerminal pin node)
  return net.withBank family { bank with elements }

/-- The network after one more terminal of an element was added and named. -/
def withPin (net : Network) (family : Family) (id : ElementId) (pin : Pin) (node : NodeId)
    (nodes : Store Node) : Network :=
  (({ net with nodes } : Network).register node (.state family id pin)).withBank family
    { net.bank family with
      elements := (net.bank family).elements.modify id (·.withTerminal pin node) }

/-- The network after some terminals of an element were added and named. -/
def withPins (net : Network) (family : Family) (id : ElementId) (made : List (Pin × NodeId))
    (nodes : Store Node) : Network :=
  (({ net with nodes } : Network).registerPins family id made).withBank family
    { net.bank family with
      elements := (net.bank family).elements.modify id (·.withTerminals made) }

/-- The nodes of the terminals of some pins. -/
def insertPins (family : Family) (element : ElementId) :
    List Pin → Store Node → Except Fault (List (Pin × NodeId) × Store Node)
  | [], nodes => .ok ([], nodes)
  | pin :: rest, nodes => do
      let (id, nodes) ← nodes.insert fun id => { id, kind := .state family element pin }
      let (made, nodes) ← insertPins family element rest nodes
      return ((pin, id) :: made, nodes)

theorem addPinNodes_eq (family : Family) (element : ElementId) (pins : List Pin)
    (net : Network) : addPinNodes family element pins net =
      (insertPins family element pins net.nodes).map fun made =>
        (made.1, { net with nodes := made.2 }) := by
  induction pins generalizing net with
  | nil => rfl
  | cons pin rest inductionHypothesis =>
    rw [addPinNodes, insertPins, addNode]
    cases net.nodes.insert fun id => ({ id, kind := .state family element pin } : Node) with
    | error fault => rfl
    | ok inserted =>
      simp only [ok_bind, pure_eq_ok, inductionHypothesis]
      cases insertPins family element rest inserted.2 <;> rfl

theorem bank_register (net : Network) (id : NodeId) (kind : Kind) (family : Family) :
    (net.register id kind).bank family = net.bank family := by
  unfold register
  split <;> cases family <;> rfl

theorem register_withBank (net : Network) (id : NodeId) (kind : Kind) (family : Family)
    (b : Bank) :
    (net.withBank family b).register id kind = (net.register id kind).withBank family b := by
  unfold register
  split <;> cases family <;> rfl

theorem registerPins_withBank (net : Network) (family : Family) (id : ElementId)
    (made : List (Pin × NodeId)) (other : Family) (b : Bank) :
    (net.withBank other b).registerPins family id made =
      (net.registerPins family id made).withBank other b := by
  unfold registerPins
  induction made generalizing net with
  | nil => rfl
  | cons first rest inductionHypothesis =>
    rw [List.foldl_cons, List.foldl_cons, register_withBank, inductionHypothesis]

theorem bank_registerPins (net : Network) (family other : Family) (id : ElementId)
    (made : List (Pin × NodeId)) :
    (net.registerPins family id made).bank other = net.bank other := by
  unfold registerPins
  induction made generalizing net with
  | nil => rfl
  | cons first rest inductionHypothesis =>
    rw [List.foldl_cons, inductionHypothesis, bank_register]

theorem withBank_withBank (net : Network) (family : Family) (b c : Bank) :
    (net.withBank family b).withBank family c = net.withBank family c := by
  cases family <;> rfl

theorem withNodes_withBank (net : Network) (nodes : Store Node) (family : Family) (b : Bank) :
    ({ net.withBank family b with nodes } : Network) =
      ({ net with nodes } : Network).withBank family b := by
  cases family <;> rfl

theorem withNodes_register (net : Network) (nodes : Store Node) (id : NodeId) (kind : Kind) :
    ({ net.register id kind with nodes } : Network) =
      ({ net with nodes } : Network).register id kind := by
  unfold register
  split <;> rfl

theorem withPins_withPin (net : Network) (family : Family) (id : ElementId) (pin : Pin)
    (node : NodeId) (made : List (Pin × NodeId)) (nodes later : Store Node) :
    (net.withPin family id pin node nodes).withPins family id made later =
      net.withPins family id ((pin, node) :: made) later := by
  have kept : (net.withPin family id pin node nodes).bank family =
      { net.bank family with
        elements := (net.bank family).elements.modify id (·.withTerminal pin node) } := by
    rw [withPin, bank_withBank, if_pos rfl]
  rw [withPins, kept, withPin, withNodes_withBank, withNodes_register, registerPins_withBank,
    withBank_withBank, withPins, Store.modify_modify]
  rfl

theorem addPin_eq (net : Network) (family : Family) (id : ElementId) (pin : Pin)
    (live : (net.bank family).elements.contains id = true) :
    addPin family id net pin =
      (net.nodes.insert fun node => { id := node, kind := .state family id pin }).map fun made =>
        net.withPin family id pin made.1 made.2 := by
  unfold addPin addTerminal addNode
  cases net.nodes.insert fun node => ({ id := node, kind := .state family id pin } : Node) with
  | error fault => rfl
  | ok made =>
    have kept : ({ net with nodes := made.2 } : Network).bank family = net.bank family := by
      cases family <;> rfl
    simp only [ok_bind, pure_eq_ok, bank_register, kept, Store.update, live, if_true]
    rfl

/-- Terminals that are entered as they are made are the same as those that are made first. -/
theorem foldlM_addPin (family : Family) (id : ElementId) (pins : List Pin) (net : Network)
    (live : (net.bank family).elements.contains id = true) :
    pins.foldlM (addPin family id) net =
      (insertPins family id pins net.nodes).map fun made =>
        net.withPins family id made.1 made.2 := by
  -- By induction on the pins: what one step registers and enters commutes with all later ones.
  induction pins generalizing net with
  | nil =>
    have same : net.withPins family id [] net.nodes = net := by
      rw [withPins, show (fun e : Element => e.withTerminals []) = fun e => e from rfl,
        Store.modify_id]
      cases family <;> rfl
    rw [List.foldlM_nil, insertPins, Except.map, same]
    rfl
  | cons pin rest inductionHypothesis =>
    rw [List.foldlM_cons, addPin_eq net family id pin live, insertPins]
    cases net.nodes.insert fun node => ({ id := node, kind := .state family id pin } : Node) with
    | error fault => rfl
    | ok made =>
      have still : ((net.withPin family id pin made.1 made.2).bank family).elements.contains id =
          true := by
        rw [withPin, bank_withBank, if_pos rfl, Store.contains_modify, live]
      have nodes : (net.withPin family id pin made.1 made.2).nodes = made.2 := by
        unfold withPin register
        split <;> cases family <;> rfl
      simp only [Except.map, ok_bind, pure_eq_ok, inductionHypothesis _ still, nodes]
      cases insertPins family id rest made.2 with
      | error fault => rfl
      | ok rest => exact congrArg Except.ok (net.withPins_withPin family id pin ..)

/-- An element with terminals that are entered as they are made. -/
theorem addElement_eq (net : Network) (family : Family) (name : String) :
    net.addElement family name = (do
      let bank := net.bank family
      let (id, elements) ← bank.elements.insert fun id => { id, name }
      let net ← Pin.all.foldlM (addPin family id) (net.withBank family { bank with elements })
      let bank := net.bank family
      return (id, net.withBank family { bank with order := bank.order.push id })) := by
  unfold addElement
  dsimp only
  cases inserted : (net.bank family).elements.insert fun id => ({ id, name } : Element) with
  | error fault => rfl
  | ok made =>
    obtain ⟨id, elements⟩ := made
    simp only [ok_bind]
    -- From here on only that the new element is live in its bank matters.
    generalize owner : net.withBank family { net.bank family with elements } = owned
    have bank : owned.bank family = { net.bank family with elements } := by
      rw [← owner, bank_withBank, if_pos rfl]
    have live : (owned.bank family).elements.contains id = true := by
      rw [bank, Store.contains, Store.get?_of_insert inserted, if_pos rfl]
      rfl
    rw [foldlM_addPin family id Pin.all owned live, addPinNodes_eq]
    cases insertPins family id Pin.all owned.nodes with
    | error fault => rfl
    | ok pins =>
      have kept : (({ owned with nodes := pins.2 } : Network).registerPins family id pins.1).bank
          family = owned.bank family := by
        rw [bank_registerPins]
        cases family <;> rfl
      have named : (owned.withPins family id pins.1 pins.2).bank family =
          { owned.bank family with
            elements := (owned.bank family).elements.modify id (·.withTerminals pins.1) } := by
        rw [withPins, bank_withBank, if_pos rfl]
      simp only [Except.map, ok_bind, pure_eq_ok, kept, named, Store.update, live, if_true]
      rw [withPins, withBank_withBank]

end Network

end GateNet
