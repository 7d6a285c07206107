import GateNet.Node

/-!
# Refusals and defects

A `Refusal` is the answer of a network to a request that it does not carry out: the caller named
something that does not exist, or that cannot be used in that way.  A `Defect` is an inconsistency
inside a network; it is found by the audit, or by a copy that runs into it.
-/

namespace GateNet

/-- The three lists of live nodes that a network keeps. -/
inductive Registry
  | inputs
  | outputs
  | gates
  deriving DecidableEq, Repr

namespace Registry

def word : Registry → String
  | .inputs => "input"
  | .outputs => "output"
  | .gates => "logic"

def admits : Registry → Kind → Bool
  | .inputs, kind => kind.isInput
  | .outputs, kind => kind.isOutput
  | .gates, kind => kind.isGate

end Registry

/-- An inconsistency inside a network. -/
inductive Defect
  /-- The chains of the buckets have more links than there are gates. -/
  | chainsLoop
  /-- The chains of the buckets have fewer links than there are gates. -/
  | chainedCount (chained gates : Nat)
  /-- A node names itself otherwise than its slot. -/
  | slotMismatch (slot id : NodeId)
  /-- A node reads a node that is not live. -/
  | deadDriver (node driver : NodeId)
  /-- A driver lists a reader not exactly once. -/
  | fanoutCount (driver node : NodeId) (operand : Operand) (count : Nat)
  /-- A driver lists a reader that is not live. -/
  | deadReader (reader node : NodeId)
  /-- A driver lists a reader that reads something else. -/
  | foreignReader (reader : NodeId) (operand : Operand) (node : NodeId)
  /-- A gate has an operand without a driver. -/
  | openOperand (node : NodeId)
  /-- The operands of a gate are not in increasing order. -/
  | unorderedOperands (node first second : NodeId)
  /-- The function of a gate is not one that a gate may have. -/
  | improperGate (node : NodeId) (gate : Gate)
  /-- A gate is not found under its own key. -/
  | unhashed (node : NodeId)
  /-- An input has a driver. -/
  | drivenInput (node : NodeId)
  /-- An output has a driver at its second operand. -/
  | secondOperandOfOutput (node : NodeId)
  /-- An output is read. -/
  | readOutput (node : NodeId)
  /-- A registry has not as many entries as there are live nodes of its kind. -/
  | registryCount (registry : Registry) (listed live : Nat)
  /-- A registry has an entry of another kind. -/
  | misfiled (registry : Registry) (node : NodeId)
  /-- A terminal is not what its owner takes it for. -/
  | wrongTerminal (node : NodeId) (found expected : Kind)
  /-- The order of a bank has not as many entries as there are live elements. -/
  | bankCount (family : Family)
  /-- Some gate is not reached from the inputs. -/
  | cycle
  /-- A node was needed by a copy before it was copied. -/
  | notCopied (node : NodeId)
  /-- A node that a copy took for a gate is none. -/
  | notGate (node : NodeId)
  /-- The copy of a gate is not a gate of its own. -/
  | notCanonical (node : NodeId)
  deriving DecidableEq, Repr

def Defect.message : Defect → String
  | .chainsLoop => "hash table chains loop"
  | .chainedCount chained gates =>
      s!"{chained} nodes in the hash table, {gates} logic nodes"
  | .slotMismatch slot id => s!"node in slot {slot} has id {id}"
  | .deadDriver node driver =>
      s!"node {node} has fanin {driver} which is not in the network anymore"
  | .fanoutCount driver node operand count =>
      s!"edge {driver} -> {node}.{operand.index} found {count} times in fanouts"
  | .deadReader reader node => s!"fanout {reader} of {node} is no longer in the network"
  | .foreignReader reader operand node =>
      s!"fanout {reader}.{operand.index} of {node} does not point back"
  | .openOperand node => s!"logic node {node} misses a fanin"
  | .unorderedOperands node first second =>
      s!"logic node {node} has unordered fanins {first} and {second}"
  | .improperGate node gate => s!"logic node {node} has fcode {gate.text}"
  | .unhashed node => s!"logic node {node} is not hashed"
  | .drivenInput node => s!"input node {node} has a fanin"
  | .secondOperandOfOutput node => s!"output node {node} uses fanin 1"
  | .readOutput node => s!"output node {node} has fanouts"
  | .registryCount registry listed live =>
      s!"{listed} {registry.word} nodes registered, {live} alive"
  | .misfiled registry node => s!"node {node} registered as {registry.word}"
  | .wrongTerminal node found expected =>
      s!"node {node} is {found.text}, expected {expected.text}"
  | .bankCount .flipFlop => "flip-flop list out of sync"
  | .bankCount .latch => "latch list out of sync"
  | .cycle => "found a cycle"
  | .notCopied node => s!"node {node} was not copied"
  | .notGate node => s!"node {node} is not a logic node"
  | .notCanonical node => s!"logic node {node} is not canonical"

/-- Why a network does not carry out a request. -/
inductive Refusal
  | noNode (id : NodeId)
  | noPort (id : PortId)
  | noElement (family : Family) (id : ElementId)
  | bitOutOfRange (port : PortId) (bit width : Nat)
  | bitTaken (port : PortId) (bit : Nat)
  | notOutput (id : NodeId)
  | notGate (id : NodeId)
  /-- The node may not drive the place it is asked to drive. -/
  | unfitDriver (id : NodeId)
  /-- The node is still read. -/
  | stillRead (id : NodeId)
  | inputCount (expected got : Nat)
  | defective (defect : Defect)
  deriving DecidableEq, Repr

def Refusal.message : Refusal → String
  | .noNode id => s!"node with id={id} does not exist"
  | .noPort id => s!"port {id} does not exist"
  | .noElement .flipFlop id => s!"flip-flop {id} does not exist"
  | .noElement .latch id => s!"latch {id} does not exist"
  | .bitOutOfRange port bit width =>
      s!"bit {bit} is out of range for port {port} of width {width}"
  | .bitTaken port bit => s!"bit {bit} of port {port} already has a node"
  | .notOutput id => s!"node {id} is not an output"
  | .notGate id => s!"node {id} is not a logic node"
  | .unfitDriver id => s!"node {id} cannot be used as a fanin"
  | .stillRead id => s!"node {id} still has fanouts"
  | .inputCount expected got => s!"expected {expected} input patterns, got {got}"
  | .defective defect =>
      "the network has reached an invalid state - this should not happen - error: " ++
        defect.message

/-! ## Questions that may be refused or fault -/

/-- How a question ends that has no answer. -/
inductive Failure
  | refused (refusal : Refusal)
  | faulted (fault : Fault)
  deriving DecidableEq, Repr

instance : MonadLift (Except Fault) (Except Failure) := ⟨fun x => x.mapError .faulted⟩

instance : MonadLift (Except Refusal) (Except Failure) := ⟨fun x => x.mapError .refused⟩

end GateNet
