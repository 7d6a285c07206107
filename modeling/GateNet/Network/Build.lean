import GateNet.Network.Edge
import GateNet.Network.Table

/-!
# Building gates

`realize` finds or builds the gate that computes a request, so that no two gates have one key.
Given a gate to reuse, it builds in place instead of adding a gate; the gate to reuse stays as it
is when the value exists already or would come out inverted, because its readers would then see
the complement.

`combine` builds a balanced tree over a list of signals.
-/

namespace GateNet

namespace Network

def addNode (net : Network) (kind : Kind) : Except Fault (NodeId × Network) := do
  let (id, nodes) ← net.nodes.insert fun id => { id, kind }
  return (id, { net with nodes })

/-- Adds a gate without function and drivers, and registers it. -/
def addBlankGate (net : Network) : Except Fault (NodeId × Network) := do
  let (id, net) ← net.addNode .gate
  return (id, { net with gates := net.gates.push id })

/-- Makes an unchained gate compute a key, and chains it. -/
def assign (net : Network) (id : NodeId) (key : Key) : Except Fault Network := do
  let nodes ← net.nodes.update id ({ · with gate := key.gate })
  let net ← plug { net with nodes } id .first (some key.first)
  let net ← net.plug id .second (some key.second)
  let net ← net.enroll id
  net.widenIfFull

/-- The gate to build in: the one to reuse, taken out of the table, or a new one.  A gate is not
reused for a value that comes out inverted. -/
def site (net : Network) (reuse : Option NodeId) (inverted : Bool) :
    Except Fault (NodeId × Network) :=
  match reuse, inverted with
  | some id, false => do return (id, ← net.withdraw id)
  | _, _ => net.addBlankGate

/-- Finds or builds a signal that carries the value of a request. -/
def realize (net : Network) (reuse : Option NodeId) (gate : Gate) (s t : Signal) :
    Except Fault (Signal × Network) :=
  match Normal.ofRequest gate s t with
  | .settled signal => .ok (signal, net)
  | .keyed key inverted => do
      match ← net.find? key with
      | some found => return (⟨some found, inverted⟩, net)
      | none =>
          let (id, net) ← net.site reuse inverted
          return (⟨some id, inverted⟩, ← net.assign id key)

/-- Checks that two signals may be read by a gate. -/
def checkDrivers (net : Network) (s t : Signal) : Except Refusal Unit := do
  net.checkDriver s
  net.checkDriver t

/-- A signal that carries the value of a gate applied to two signals. -/
def addGate (net : Network) (gate : Gate) (s t : Signal) : Except Fault (Outcome Signal) :=
  net.guarded (liftM (net.checkDrivers s t)) fun _ => net.realize none gate s t

/-! ## Trees -/

/-- A gate that is used on any number of signals, with the value on none. -/
structure Operator where
  gate : Gate
  neutral : Signal
  deriving DecidableEq, Repr

namespace Operator

def conjunction : Operator := ⟨.and, .one⟩

def disjunction : Operator := ⟨.or, .zero⟩

def parity : Operator := ⟨.xor, .zero⟩

end Operator

/-- A signal that carries the value of an operator on a list of signals: the two halves of the
list, joined by a gate.  Gates built before a refusal stay. -/
def combine (net : Network) (op : Operator) (signals : List Signal) :
    Except Fault (Outcome Signal) :=
  match signals with
  | [] => .ok (.done op.neutral net)
  | [s] => net.guarded (liftM (net.checkDriver s)) fun _ => .ok (s, net)
  | s :: t :: rest => do
      let half := (rest.length + 2) / 2
      let lower ← combine net op ((s :: t :: rest).take half)
      lower.andThen fun a net => do
        let upper ← combine net op ((s :: t :: rest).drop half)
        upper.andThen fun b net => net.addGate op.gate a b
termination_by signals.length
decreasing_by all_goals simp only [List.length_take, List.length_drop, List.length_cons]; omega

end Network

end GateNet
