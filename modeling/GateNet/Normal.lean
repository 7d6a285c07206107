import GateNet.Gate
import GateNet.Signal

/-!
# Normal forms of requests

A request asks for a gate applied to two signals.  Its normal form is either a signal that already
carries the value, or a `Key` and a polarity: a gate that is `false` at `(false, false)` and depends
on both operands, over two different nodes in increasing order.

Inverters in front of the gate are moved into its table, constant, equal or irrelevant operands
leave at most one variable, and an inverter behind the gate goes to the polarity of the result.
-/

namespace GateNet

/-- What a gate in a network is found by. -/
structure Key where
  gate : Gate
  first : NodeId
  second : NodeId
  deriving DecidableEq, Repr

namespace Key

def hash (key : Key) : Nat :=
  (3 * key.first + key.second) <<< 3 ||| key.gate.bits >>> 1

/-- The bucket of a key in a table of a size that is a power of two.  With another size the mask
still keeps inside the table, but leaves buckets out; an empty table has no bucket at all, and
every access to it faults. -/
def bucket (key : Key) (size : Nat) : Nat :=
  key.hash &&& (size - 1)

theorem bucket_lt {size : Nat} (positive : 0 < size) (key : Key) : key.bucket size < size := by
  have : key.bucket size ≤ size - 1 := Nat.and_le_right
  omega

end Key

/-- A function of one variable, applied to a node. -/
def Unary.signal : Unary → NodeId → Signal
  | .zero, _ => .zero
  | .one, _ => .one
  | .identity, id => .positive id
  | .complement, id => .negative id

/-- The normal form of a request. -/
inductive Normal
  /-- The value is there already. -/
  | settled (signal : Signal)
  /-- The value is that of the gate with this key, inverted when the flag is set. -/
  | keyed (key : Key) (inverted : Bool)
  deriving DecidableEq, Repr

namespace Normal

/-- The gate with the inverters of its operands moved into the table. -/
def absorb (gate : Gate) (s t : Signal) : Gate :=
  let gate := if s.inverted then gate.invertFirst else gate
  if t.inverted then gate.invertSecond else gate

/-- The normal form of a gate that depends on both of two different nodes. -/
def order (gate : Gate) (a b : NodeId) : Normal :=
  let inverted := gate.at00
  let gate := if inverted then gate.complement else gate
  if b < a then .keyed ⟨gate.swap, b, a⟩ inverted else .keyed ⟨gate, a, b⟩ inverted

/-- The normal form of a gate applied to two signals. -/
def ofRequest (gate : Gate) (s t : Signal) : Normal :=
  let gate := absorb gate s t
  match s.node, t.node with
  | none, none => .settled (.constant gate.at00)
  | none, some b => .settled ((gate.fixFirst false).signal b)
  | some a, none => .settled ((gate.fixSecond false).signal a)
  | some a, some b =>
      if a = b then .settled (gate.diagonal.signal a)
      else if !gate.dependsOnSecond then .settled ((gate.fixSecond false).signal a)
      else if !gate.dependsOnFirst then .settled ((gate.fixFirst false).signal b)
      else order gate a b

end Normal

end GateNet
