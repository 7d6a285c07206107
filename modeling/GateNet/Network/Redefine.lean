import GateNet.Network.Order
import GateNet.Network.Terminals

/-!
# Redefining a gate

`redefine` gives a gate another function of other operands.  If the gate can be rewired in place,
its readers follow by themselves.  Otherwise it keeps its function, another signal carries the new
value, and everything that depends on the gate is rebuilt on top of that signal: each gate of the
fanout cone is realized again over the replacements of its drivers, and the outputs are moved to
the replacements.

A gate that was given out as a replacement is pinned: it must keep the function that it had then,
so it is not rewired in place when its own turn comes.
-/

namespace GateNet

namespace Network

/-! ## Searching along fanouts -/

/-- Whether a node is on the stack or depends on a node of the stack; marked nodes were searched
already. -/
def search (net : Network) (target : NodeId) (seen : Marks) (stack : List NodeId) :
    Except Fault Bool :=
  match _ : seen.firstUnmarked stack with
  | .error fault => .error fault
  | .ok none => .ok false
  | .ok (some (id, rest)) =>
      if id = target then .ok true
      else
        match net.nodes.fetch id with
        | .error fault => .error fault
        | .ok node =>
            let readers := node.fanouts.toList.map (·.reader)
            search net target (seen.add id) (readers.reverse ++ rest)
termination_by seen.unmarked
decreasing_by
  have := Marks.unmarked_add (Marks.unmarked_of_firstUnmarked ‹_›)
  omega

/-- Whether a node is another one or depends on it. -/
def feeds (net : Network) (id target : NodeId) : Except Fault Bool :=
  net.search target net.noMarks [id]

/-- The gates that depend on a node, and the other nodes that read one of them. -/
structure Cone where
  members : Marks
  /-- One entry for each reading, in the order in which they are met. -/
  readers : Array NodeId := #[]

/-- Sorts a reader of a cone: gates are visited, all else is only noted. -/
def sortReader (net : Network) (found : List NodeId × Array NodeId) (entry : Fanout) :
    Except Fault (List NodeId × Array NodeId) := do
  let node ← net.nodes.fetch entry.reader
  if node.isGate then return (entry.reader :: found.1, found.2)
  else return (found.1, found.2.push entry.reader)

/-- Adds the nodes of the stack, and what depends on them, to a cone. -/
def growCone (net : Network) (cone : Cone) (stack : List NodeId) : Except Fault Cone :=
  match _ : cone.members.firstUnmarked stack with
  | .error fault => .error fault
  | .ok none => .ok cone
  | .ok (some (id, rest)) =>
      match net.nodes.fetch id with
      | .error fault => .error fault
      | .ok node =>
          match node.fanouts.toList.foldlM net.sortReader (rest, cone.readers) with
          | .error fault => .error fault
          | .ok (stack, readers) =>
              growCone net { members := cone.members.add id, readers } stack
termination_by cone.members.unmarked
decreasing_by
  have := Marks.unmarked_add (Marks.unmarked_of_firstUnmarked ‹_›)
  omega

def fanoutCone (net : Network) (id : NodeId) : Except Fault Cone :=
  net.growCone { members := net.noMarks } [id]

/-! ## Rebuilding a cone -/

end Network

/-- A network whose cone is being rebuilt. -/
structure Rebuild where
  network : Network
  /-- What carries the new value of a node, if not the node itself. -/
  replaced : Array (Option Signal)
  /-- The nodes that were given out as replacements. -/
  pinned : Marks

namespace Rebuild

/-- The signal that carries the new value of a signal. -/
def resolve (replaced : Array (Option Signal)) (signal : Signal) : Signal :=
  match signal.node.bind fun id => (replaced[id]?).join with
  | some replacement => replacement.xor signal.inverted
  | none => signal

/-- Records what carries the new value of a node, and pins it; nodes that were added meanwhile need
no pin. -/
def replace (r : Rebuild) (id : NodeId) (signal : Signal) : Except Fault Rebuild := do
  let pinned := match signal.node with
    | some node => r.pinned.add node
    | none => r.pinned
  return { r with pinned, replaced := ← storeAt r.replaced id (some signal) }

/-- Rebuilds a gate over the replacements of its drivers, in place unless it is pinned. -/
def visit (r : Rebuild) (id : NodeId) : Except Fault Rebuild := do
  let node ← r.network.nodes.fetch id
  let first : Signal := ⟨node.first, false⟩
  let second : Signal := ⟨node.second, false⟩
  let newFirst := resolve r.replaced first
  let newSecond := resolve r.replaced second
  if newFirst = first ∧ newSecond = second then return r
  else
    let reuse := if ← r.pinned.has id then none else some id
    let (signal, network) ← r.network.realize reuse node.gate newFirst newSecond
    let r := { r with network }
    if signal = .positive id then return r else r.replace id signal

/-- Moves a node that read the cone to the replacement of what it read. -/
def redrive (replaced : Array (Option Signal)) (net : Network) (reading : NodeId × Signal) :
    Except Fault Network :=
  let signal := resolve replaced reading.2
  if signal = reading.2 then .ok net else net.driveOutput reading.1 signal

end Rebuild

namespace Network

/-- What the readers of a cone read. -/
def readings (net : Network) (readers : Array NodeId) :
    Except Fault (List (NodeId × Signal)) :=
  readers.toList.mapM fun id => return (id, (← net.nodes.fetch id).source)

/-- Rebuilds what depends on a node over the signal that carries its new value. -/
def rebuild (net : Network) (id : NodeId) (signal : Signal) : Except Fault Network := do
  let cone ← net.fanoutCone id
  let readings ← net.readings cone.readers
  let order ← net.driversFirst
  let members ← cone.members.pick true order
  let above := members.filter (· != id)
  let size := cone.members.flags.size
  let replaced ← storeAt (Array.replicate size none) id (some signal)
  let start : Rebuild := { network := net, replaced, pinned := .none size }
  let rebuilt ← above.foldlM Rebuild.visit start
  readings.foldlM (Rebuild.redrive rebuilt.replaced) rebuilt.network

/-! ## The operation -/

/-- Checks that a signal may become an operand of a gate: it must not depend on the gate. -/
def checkOperand (net : Network) (id : NodeId) (signal : Signal) : Except Failure Unit := do
  net.checkDriver signal
  match signal.node with
  | none => return ()
  | some driver =>
      if ← net.feeds id driver then .error (.refused (.unfitDriver driver)) else return ()

/-- Checks that a node is a gate and that two signals may become its operands. -/
def checkRedefine (net : Network) (id : NodeId) (s t : Signal) : Except Failure Unit :=
  match net.node? id with
  | none => .error (.refused (.noNode id))
  | some node =>
      if node.isGate then do
        net.checkOperand id s
        net.checkOperand id t
      else .error (.refused (.notGate id))

/-- Gives a gate another function of other operands, and gives the signal that carries it. -/
def redefine (net : Network) (id : NodeId) (gate : Gate) (s t : Signal) :
    Except Fault (Outcome Signal) :=
  net.guarded (net.checkRedefine id s t) fun _ => do
    let (signal, net) ← net.realize (some id) gate s t
    if signal = .positive id then return (signal, net)
    else return (signal, ← net.rebuild id signal)

end Network

end GateNet
