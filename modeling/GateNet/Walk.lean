import GateNet.Network.Basic
import Std.Data.TreeSet

/-!
# Walks over drivers

A `Walk` visits nodes and what they depend on, each node at most once.  A visited node puts its
drivers on the stack, the first operand on top; when the stack is empty, the walk goes on with the
next start that it has not met.  To start again while nodes wait is a fault.

The network is given anew at each step, so it may change between two steps: nodes that are gone
when their turn comes are passed over.
-/

namespace GateNet

/-- What remains to be visited. -/
structure Walk where
  /-- The nodes to visit next, the next one first. -/
  stack : List NodeId := []
  /-- The nodes that were ever put on the stack. -/
  met : Std.TreeSet NodeId := {}
  /-- Where to go on when the stack is empty. -/
  starts : List NodeId := []

namespace Walk

/-- A walk over a node and what it depends on. -/
def ofNode (id : NodeId) : Walk :=
  { stack := [id], met := Std.TreeSet.empty.insert id }

/-- A walk over the outputs and what they depend on, output by output. -/
def ofOutputs (net : Network) : Walk :=
  { starts := net.outputs.toList }

/-- Puts a node on the stack that was not met before. -/
def meet (w : Walk) (id : NodeId) : Walk :=
  if w.met.contains id then w
  else { w with stack := id :: w.stack, met := w.met.insert id }

/-- The walk after a node is visited: its drivers wait, the first operand on top. -/
def visit (w : Walk) (node : Node) : Walk :=
  let w := match node.second with
    | none => w
    | some driver => w.meet driver
  match node.first with
  | none => w
  | some driver => w.meet driver

/-- Visits the first live node of a stack; dead ones before it are taken off. -/
def pop (net : Network) (met : Std.TreeSet NodeId) (starts : List NodeId) :
    List NodeId → Option NodeId × Walk
  | [] => (none, { met, starts })
  | id :: stack =>
      match net.node? id with
      | none => pop net met starts stack
      | some node => (some id, ({ stack, met, starts } : Walk).visit node)

/-- Puts the first start that was not met on the stack, which must be empty; says whether there is
one. -/
def newStart (w : Walk) : Except Fault (Bool × Walk) :=
  if w.stack.isEmpty then
    match w.starts.dropWhile w.met.contains with
    | [] => .ok (false, { w with starts := [] })
    | id :: starts => .ok (true, { stack := [id], met := w.met.insert id, starts })
  else .error .earlyStart

theorem starts_pop {net : Network} {met : Std.TreeSet NodeId} {starts : List NodeId} {w : Walk} :
    ∀ {stack : List NodeId}, pop net met starts stack = (none, w) → w.starts = starts
  | [], popped => by
      cases popped
      rfl
  | id :: stack, popped => by
      rw [pop] at popped
      split at popped
      · exact starts_pop popped
      · cases popped

theorem length_starts_newStart {w after : Walk} (started : w.newStart = .ok (true, after)) :
    after.starts.length < w.starts.length := by
  unfold newStart at started
  split at started
  · have shorter := (List.dropWhile_sublist (l := w.starts) w.met.contains).length_le
    split at started
    · cases started
    · next id starts left =>
      cases started
      rw [left] at shorter
      exact shorter
  · cases started

/-- Visits the next live node, if one is left. -/
def next (w : Walk) (net : Network) : Except Fault (Option NodeId × Walk) :=
  match _ : pop net w.met w.starts w.stack with
  | (some id, w) => .ok (some id, w)
  | (none, emptied) =>
      match _ : emptied.newStart with
      | .error fault => .error fault
      | .ok (false, w) => .ok (none, w)
      | .ok (true, w) => next w net
termination_by w.starts.length
decreasing_by
  have kept := congrArg List.length (starts_pop ‹_›)
  have shorter := length_starts_newStart ‹_›
  omega

/-- Visits up to a number of nodes. -/
def take (net : Network) : Nat → Walk → Except Fault (List NodeId × Walk)
  | 0, w => .ok ([], w)
  | count + 1, w => do
      match ← w.next net with
      | (none, w) => return ([], w)
      | (some id, w) =>
          let (rest, w) ← take net count w
          return (id :: rest, w)

/-- Visits all remaining nodes.  Each is a live node of its own, so there are no more of them
than the network has slots. -/
def finish (w : Walk) (net : Network) : Except Fault (List NodeId × Walk) :=
  take net (net.nodes.capacity + 1) w

end Walk

end GateNet
