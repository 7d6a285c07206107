import GateNet.Gate
import GateNet.Signal
import GateNet.Store

/-!
# Nodes

A node is a gate or a terminal.  Terminals belong to a port or to a state element (a flip-flop or
a latch).  A node of input kind starts a path: a port's input or the output of a state element.  A
node of output kind ends one: a port's output or any other pin of a state element.

A gate reads both operands; an output reads the first one, through an inverter when `inverted` is
set; an input reads none.
-/

namespace GateNet

abbrev PortId := Nat

/-- The number of a state element, among those of its family. -/
abbrev ElementId := Nat

/-- The two families of state elements. -/
inductive Family
  | flipFlop
  | latch
  deriving DecidableEq, Repr

/-- The pins of a state element: its state, what it stores, when it stores, and two pins that
force the state. -/
inductive Pin
  | output
  | data
  | trigger
  | forceA
  | forceB
  deriving DecidableEq, Repr

namespace Pin

/-- All pins, the output first. -/
def all : List Pin := [.output, .data, .trigger, .forceA, .forceB]

def name : Family → Pin → String
  | _, .output => "Output"
  | _, .data => "Data"
  | .flipFlop, .trigger => "Clock"
  | .flipFlop, .forceA => "Set"
  | .flipFlop, .forceB => "Reset"
  | .latch, .trigger => "Enable"
  | .latch, .forceA => "Clear"
  | .latch, .forceB => "Preset"

/-- The pin that a family calls by a name. -/
def ofName? (family : Family) (word : String) : Option Pin :=
  all.find? fun pin => pin.name family == word

theorem mem_all (pin : Pin) : pin ∈ all := by
  cases pin <;> decide

end Pin

/-- What a node is; a terminal names its owner. -/
inductive Kind
  | portInput (port : PortId) (bit : Nat)
  | portOutput (port : PortId) (bit : Nat)
  | state (family : Family) (element : ElementId) (pin : Pin)
  | gate
  deriving DecidableEq, Repr

namespace Kind

/-- Whether nodes of this kind start paths. -/
def isInput : Kind → Bool
  | .portInput .. => true
  | .state _ _ .output => true
  | _ => false

def isGate : Kind → Bool
  | .gate => true
  | _ => false

/-- Whether nodes of this kind end paths. -/
def isOutput (k : Kind) : Bool :=
  !k.isInput && !k.isGate

def text : Kind → String
  | .portInput port bit => s!"PortInput \x7b port: {port}, bit: {bit} \x7d"
  | .portOutput port bit => s!"PortOutput \x7b port: {port}, bit: {bit} \x7d"
  | .state .flipFlop element pin =>
      s!"FlipFlop \x7b ff: {element}, pin: {pin.name .flipFlop} \x7d"
  | .state .latch element pin =>
      s!"Latch \x7b latch: {element}, pin: {pin.name .latch} \x7d"
  | .gate => "Logic"

end Kind

/-- A gate or a terminal. -/
structure Node where
  id : NodeId
  kind : Kind
  /-- The function of a gate; `Gate.zero` for terminals. -/
  gate : Gate := .zero
  /-- The driver of the first operand. -/
  first : Option NodeId := none
  /-- The driver of the second operand. -/
  second : Option NodeId := none
  /-- Who reads the node; the order decides the order of evaluation. -/
  fanouts : Array Fanout := #[]
  /-- Whether an output reads its driver through an inverter. -/
  inverted : Bool := false
  /-- The next gate in the same bucket. -/
  link : Option NodeId := none
  deriving DecidableEq, Repr

namespace Node

/-- Puts a fresh node in the place of a removed one.  The list of fanouts there is emptied, filled
with those of the fresh node and kept; all else is overwritten. -/
def recycle (old fresh : Node) : Node :=
  let emptied := old.fanouts.shrink 0
  { fresh with fanouts := emptied ++ fresh.fanouts }

instance : Reusable Node := ⟨recycle⟩

/-- Nothing of a removed node is kept. -/
theorem recycle_eq (old fresh : Node) : old.recycle fresh = fresh := by
  simp [recycle]

def isInput (n : Node) : Bool := n.kind.isInput

def isOutput (n : Node) : Bool := n.kind.isOutput

def isGate (n : Node) : Bool := n.kind.isGate

def driver (n : Node) : Operand → Option NodeId
  | .first => n.first
  | .second => n.second

def withDriver (n : Node) : Operand → Option NodeId → Node
  | .first, source => { n with first := source }
  | .second, source => { n with second := source }

/-- Both drivers of a gate. -/
def gateOperands (n : Node) : Option (NodeId × NodeId) :=
  match n.kind, n.first, n.second with
  | .gate, some a, some b => some (a, b)
  | _, _, _ => none

/-- What an output reads; the constant `false` while it has no driver. -/
def source (n : Node) : Signal := ⟨n.first, n.inverted⟩

def portBit (n : Node) : Option (PortId × Nat) :=
  match n.kind with
  | .portInput port bit | .portOutput port bit => some (port, bit)
  | _ => none

def statePin (n : Node) (family : Family) : Option (ElementId × Pin) :=
  match n.kind with
  | .state owner element pin => if owner = family then some (element, pin) else none
  | _ => none

@[simp] theorem driver_withDriver_self (n : Node) (p : Operand) (source : Option NodeId) :
    (n.withDriver p source).driver p = source := by
  cases p <;> rfl

theorem driver_withDriver_of_ne (n : Node) {p q : Operand} (different : q ≠ p)
    (source : Option NodeId) : (n.withDriver p source).driver q = n.driver q := by
  cases p <;> cases q <;> simp_all [driver, withDriver]

end Node

end GateNet
