import GateNet.Node

/-!
# Owners of terminals

A `Port` is a named bit vector at the boundary of a network; each bit may have an input terminal,
an output terminal, both or none.  An `Element` is a named flip-flop or latch with one terminal
for each pin.  A `Bank` holds the elements of one family and the order in which they were made.
-/

namespace GateNet

/-- A named bit vector at the boundary.  It carries its own number, and names the input and the
output terminals of its bits. -/
structure Port where
  id : PortId
  name : String
  inputs : Array (Option NodeId)
  outputs : Array (Option NodeId)
  deriving DecidableEq, Repr

namespace Port

def blank (id : PortId) (name : String) (width : Nat) : Port :=
  ⟨id, name, Array.replicate width none, Array.replicate width none⟩

def width (p : Port) : Nat := p.inputs.size

def input (p : Port) (bit : Nat) : Option NodeId := (p.inputs[bit]?).join

def output (p : Port) (bit : Nat) : Option NodeId := (p.outputs[bit]?).join

def withInput (p : Port) (bit : Nat) (node : Option NodeId) : Except Fault Port := do
  return { p with inputs := ← storeAt p.inputs bit node }

def withOutput (p : Port) (bit : Nat) (node : Option NodeId) : Except Fault Port := do
  return { p with outputs := ← storeAt p.outputs bit node }

end Port

/-- A named flip-flop or latch, by its terminals.  It carries its own number. -/
structure Element where
  id : ElementId
  name : String
  output : NodeId := 0
  data : NodeId := 0
  trigger : NodeId := 0
  forceA : NodeId := 0
  forceB : NodeId := 0
  deriving DecidableEq, Repr

/-- Nothing of a removed element is kept. -/
instance : Reusable Element := {}

namespace Element

def terminal (e : Element) : Pin → NodeId
  | .output => e.output
  | .data => e.data
  | .trigger => e.trigger
  | .forceA => e.forceA
  | .forceB => e.forceB

def withTerminal (e : Element) (pin : Pin) (node : NodeId) : Element :=
  match pin with
  | .output => { e with output := node }
  | .data => { e with data := node }
  | .trigger => { e with trigger := node }
  | .forceA => { e with forceA := node }
  | .forceB => { e with forceB := node }

def withTerminals (e : Element) (pins : List (Pin × NodeId)) : Element :=
  pins.foldl (fun e made => e.withTerminal made.1 made.2) e

def terminals (e : Element) : List NodeId :=
  Pin.all.map e.terminal

theorem terminal_withTerminal (e : Element) (pin other : Pin) (node : NodeId) :
    (e.withTerminal pin node).terminal other =
      if other = pin then node else e.terminal other := by
  cases pin <;> cases other <;> rfl

end Element

/-- The state elements of one family. -/
structure Bank where
  elements : Store Element := {}
  /-- The live elements, oldest first. -/
  order : Array ElementId := #[]
  deriving DecidableEq, Repr

namespace Bank

/-- Forgets every element; the slots stay. -/
def clear (b : Bank) : Bank :=
  { elements := b.elements.clear, order := #[] }

end Bank

end GateNet
