import GateNet.Network.Order
import GateNet.Network.Table

/-!
# The audit

`audit` checks the bookkeeping of a network: the chains of the table hold as many nodes as there
are gates, every wire is recorded at both ends, gates have keys of normal form and are found under
them, registries and owners fit the live nodes, and the gates can be evaluated in some order.  The
first defect in this order is the answer.
-/

namespace GateNet

namespace Network

/-- Refuses because of a defect, unless a condition holds. -/
def require (condition : Bool) (defect : Defect) : Except Refusal Unit :=
  if condition then .ok () else .error (.defective defect)

/-! ## The table -/

/-- Walks a chain that may have no more than `budget` links; gives what is left of the budget. -/
def auditChain (net : Network) : (budget : Nat) → Option NodeId → Except Refusal Nat
  | budget, none => .ok budget
  | 0, some _ => .error (.defective .chainsLoop)
  | budget + 1, some id =>
      match net.node? id with
      | none => .error (.noNode id)
      | some node => auditChain net budget node.link

/-- The chains have as many links as there are gates. -/
def auditChains (net : Network) : Except Refusal Unit := do
  let gates := net.gates.size
  let left ← net.table.toList.foldlM net.auditChain gates
  require (left == 0) (.chainedCount (gates - left) gates)

/-! ## Nodes -/

/-- The driver of an operand is live, may drive others, and lists the reader exactly once. -/
def auditDriver (net : Network) (node : Node) (operand : Operand) : Except Refusal Unit :=
  match node.driver operand with
  | none => .ok ()
  | some driver =>
      match net.node? driver with
      | none => .error (.defective (.deadDriver node.id driver))
      | some source =>
          if source.isOutput then .error (.unfitDriver driver)
          else
            let count := source.fanouts.count ⟨node.id, operand⟩
            require (count == 1) (.fanoutCount driver node.id operand count)

/-- The reader of a fanout is live and reads the node. -/
def auditFanout (net : Network) (node : Node) (entry : Fanout) : Except Refusal Unit :=
  match net.node? entry.reader with
  | none => .error (.defective (.deadReader entry.reader node.id))
  | some reader =>
      require (reader.driver entry.operand == some node.id)
        (.foreignReader entry.reader entry.operand node.id)

/-- A gate has a key of normal form and is found under it. -/
def auditGate (net : Network) (node : Node) : Except Failure Unit :=
  match node.gateOperands with
  | none => .error (.refused (.defective (.openOperand node.id)))
  | some (a, b) => do
      require (a < b) (.unorderedOperands node.id a b)
      let proper := !node.gate.at00 && node.gate.dependsOnFirst && node.gate.dependsOnSecond
      require proper (.improperGate node.id node.gate)
      let found ← net.find? ⟨node.gate, a, b⟩
      require (found == some node.id) (.unhashed node.id)

/-- An input has no driver. -/
def auditInput (node : Node) : Except Refusal Unit :=
  require (node.first.isNone && node.second.isNone) (.drivenInput node.id)

/-- An output has at most its first driver, and no readers. -/
def auditOutput (node : Node) : Except Refusal Unit := do
  require node.second.isNone (.secondOperandOfOutput node.id)
  require node.fanouts.isEmpty (.readOutput node.id)

/-- A live node names its slot, its wires are recorded at both ends, and it fits its kind. -/
def auditNode (net : Network) (slot : NodeId × Node) : Except Failure Unit := do
  let node := slot.2
  require (node.id == slot.1) (.slotMismatch slot.1 node.id)
  Operand.all.forM (m := Except Refusal) (net.auditDriver node)
  node.fanouts.toList.forM (m := Except Refusal) (net.auditFanout node)
  if node.isGate then net.auditGate node
  else if node.isInput then auditInput node
  else auditOutput node

/-! ## Registries -/

/-- How many live nodes belong to a registry. -/
def liveCount (net : Network) (registry : Registry) : Nat :=
  net.nodes.toList.countP fun entry => registry.admits entry.2.kind

/-- A registered node is live and of the right kind. -/
def auditEntry (net : Network) (registry : Registry) (id : NodeId) : Except Refusal Unit :=
  match net.node? id with
  | none => .error (.noNode id)
  | some node => require (registry.admits node.kind) (.misfiled registry id)

/-- A registry has as many entries as there are live nodes of its kind, all of that kind. -/
def auditRegistry (net : Network) (registry : Registry) : Except Refusal Unit := do
  let entries := net.registry registry
  let live := net.liveCount registry
  require (entries.size == live) (.registryCount registry entries.size live)
  entries.toList.forM (net.auditEntry registry)

/-! ## Owners -/

/-- A terminal is live and of the kind that its owner expects. -/
def auditTerminal (net : Network) (kind : Kind) (id : NodeId) : Except Refusal Unit :=
  match net.node? id with
  | none => .error (.noNode id)
  | some node => require (node.kind == kind) (.wrongTerminal id node.kind kind)

/-- The terminals of a bit name the port by the number that it carries. -/
def auditBit (net : Network) (port : Port) (bit : Nat) : Except Refusal Unit := do
  (port.input bit).toList.forM (net.auditTerminal (.portInput port.id bit))
  (port.output bit).toList.forM (net.auditTerminal (.portOutput port.id bit))

def auditPort (net : Network) (port : Port) : Except Refusal Unit :=
  (List.range port.width).forM (net.auditBit port)

/-- The terminals of an element name it by the number that it carries. -/
def auditElement (net : Network) (family : Family) (id : ElementId) : Except Failure Unit := do
  let element ← (net.bank family).elements.fetch id
  Pin.all.forM (m := Except Refusal) fun pin =>
    net.auditTerminal (.state family element.id pin) (element.terminal pin)

def auditBank (net : Network) (family : Family) : Except Failure Unit := do
  let bank := net.bank family
  require (bank.order.size == bank.elements.size) (.bankCount family)
  bank.order.toList.forM (net.auditElement family)

/-! ## The whole network -/

/-- Every gate is reached from the inputs. -/
def auditOrder (net : Network) : Except Failure Unit := do
  let order ← net.driversFirst
  require (order.length == net.gates.size) .cycle

/-- The first defect of the network, if it has any. -/
def audit (net : Network) : Except Failure Unit := do
  net.auditChains
  net.nodes.toList.forM net.auditNode
  net.auditRegistry .inputs
  net.auditRegistry .outputs
  net.auditRegistry .gates
  net.ports.toList.forM (m := Except Refusal) net.auditPort
  net.auditBank .flipFlop
  net.auditBank .latch
  net.auditOrder

end Network

end GateNet
