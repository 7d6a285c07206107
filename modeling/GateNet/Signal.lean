import GateNet.Fault

/-!
# Signals

A `Signal` is what a wire can carry: a constant, or the value of a node, possibly inverted.  An
`Operand` is one of the two places where a node reads a driver, and a `Fanout` is one reading of a
driver: the reader and the place.
-/

namespace GateNet

abbrev NodeId := Nat

/-- The value of a node, or the constant `false` when there is none, possibly inverted. -/
structure Signal where
  node : Option NodeId
  inverted : Bool
  deriving DecidableEq, Repr

namespace Signal

/-- The signal that never changes. -/
def constant (value : Bool) : Signal := ⟨none, value⟩

def zero : Signal := constant false

def one : Signal := constant true

/-- The value of a node. -/
def positive (id : NodeId) : Signal := ⟨some id, false⟩

/-- The inverted value of a node. -/
def negative (id : NodeId) : Signal := ⟨some id, true⟩

def isConstant (s : Signal) : Bool := s.node.isNone

def isZero (s : Signal) : Bool := s.node.isNone && !s.inverted

def isOne (s : Signal) : Bool := s.node.isNone && s.inverted

/-- The signal, inverted when the flag is set. -/
def xor (s : Signal) (flag : Bool) : Signal :=
  { s with inverted := s.inverted ^^ flag }

def invert (s : Signal) : Signal :=
  { s with inverted := !s.inverted }

/-- Whether two signals always differ because they are the two polarities of one node. -/
def complements (s t : Signal) : Bool :=
  s.node == t.node && s.inverted != t.inverted

/-- Constants are written `0` and `1`, nodes `@7` and `~@7`. -/
def text (s : Signal) : String :=
  match s.node with
  | none => if s.inverted then "1" else "0"
  | some id => (if s.inverted then "~@" else "@") ++ toString id

@[simp] theorem invert_invert (s : Signal) : s.invert.invert = s := by
  simp [invert]

theorem xor_true (s : Signal) : s.xor true = s.invert := by
  simp [xor, invert]

theorem complements_iff (s t : Signal) : s.complements t = true ↔ t = s.invert := by
  obtain ⟨n, v⟩ := s
  obtain ⟨m, w⟩ := t
  cases v <;> cases w <;> simp [complements, invert] <;> exact eq_comm

end Signal

/-- One of the two places where a node reads a driver. -/
inductive Operand
  | first
  | second
  deriving DecidableEq, Repr

namespace Operand

def index : Operand → Nat
  | .first => 0
  | .second => 1

def ofBool : Bool → Operand
  | false => .first
  | true => .second

def atIndex : Nat → Except Fault Operand
  | 0 => .ok .first
  | 1 => .ok .second
  | value => .error (.noSuchOperand value)

def all : List Operand := [.first, .second]

theorem atIndex_eq_ok_iff {n : Nat} {p : Operand} : atIndex n = .ok p ↔ n = p.index := by
  match n with
  | 0 | 1 | n + 2 => cases p <;> simp [atIndex, index]

end Operand

/-- A node that reads a driver, and the place where it does. -/
structure Fanout where
  reader : NodeId
  operand : Operand
  deriving DecidableEq, Repr

namespace Fanout

/-- Removes the first occurrence of an entry; the last entry takes its position. -/
def remove? (entries : Array Fanout) (entry : Fanout) : Option (Array Fanout) :=
  match entries.findIdx? (· == entry), entries.back? with
  | some position, some last => some (entries.setIfInBounds position last).pop
  | _, _ => none

end Fanout

end GateNet
