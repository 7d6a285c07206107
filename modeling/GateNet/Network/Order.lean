import GateNet.Marks
import GateNet.Network.Basic

/-!
# Orders of evaluation

`driversFirst` lists the gates so that each comes after the gates that it reads: the inputs are
handled first, and a gate is queued as soon as both of its drivers are marked.  `readersFirst`
lists them so that each comes after the gates that read it, the unread ones first.

Both handle a worklist of marked nodes, so they end on every network, also on one whose gates form
a cycle; the gates of a cycle are then missing.
-/

namespace GateNet

namespace Network

def noMarks (net : Network) : Marks := .none net.nodes.bound

/-! ## Forward -/

/-- Queues the reader of a fanout if it is a gate that waits for nothing else. -/
def offerReader (net : Network) (w : Worklist) (entry : Fanout) : Except Fault Worklist :=
  match w.marks.flags[entry.reader]? with
  | none => .error (.outOfRange w.marks.flags.size entry.reader)
  | some true => .ok w
  | some false => do
      let node ← net.nodes.fetch entry.reader
      match node.gateOperands with
      | none => return w
      | some (a, b) => if ← w.marks.hasAll [a, b] then return w.push entry.reader else return w

def offerReaders (net : Network) (w : Worklist) (id : NodeId) : Except Fault Worklist := do
  let node ← net.nodes.fetch id
  node.fanouts.toList.foldlM net.offerReader w

theorem budget_offerReader (net : Network) (w : Worklist) (entry : Fanout) (next : Worklist)
    (offered : net.offerReader w entry = .ok next) : next.budget ≤ w.budget := by
  unfold offerReader at offered
  split at offered
  · cases offered
  · cases offered
    exact Nat.le_refl _
  · next fresh =>
    obtain ⟨node, _, offered⟩ := bind_eq_ok_iff.mp offered
    split at offered
    · cases offered
      exact Nat.le_refl _
    · obtain ⟨ready, _, offered⟩ := bind_eq_ok_iff.mp offered
      cases ready <;> cases offered
      · exact Nat.le_refl _
      · exact Nat.le_of_eq (Worklist.budget_push fresh)

theorem keepsBudget_offerReaders (net : Network) :
    Worklist.KeepsBudget net.offerReaders := by
  intro w id next offered
  obtain ⟨node, _, folded⟩ := bind_eq_ok_iff.mp offered
  exact Worklist.budget_foldlM_le net.budget_offerReader _ w next folded

/-- The gates, each after the gates that it reads. -/
def driversFirst (net : Network) : Except Fault (List NodeId) := do
  let marks ← net.noMarks.markAll net.inputs.toList
  let ready ← net.inputs.toList.foldlM net.offerReaders { marks }
  let done ← Worklist.drain net.offerReaders net.keepsBudget_offerReaders ready 0
  return done.queue.toList

/-! ## Backward -/

/-- Queues a node if it is a gate whose readers are all marked. -/
def offerDriver (net : Network) (w : Worklist) (id : NodeId) : Except Fault Worklist := do
  let node ← net.nodes.fetch id
  match w.marks.flags[id]? with
  | none => .error (.outOfRange w.marks.flags.size id)
  | some true => return w
  | some false =>
      if node.isGate then
        if ← w.marks.hasAll (node.fanouts.toList.map (·.reader)) then return w.push id
        else return w
      else return w

def offerDrivers (net : Network) (w : Worklist) (id : NodeId) : Except Fault Worklist := do
  let node ← net.nodes.fetch id
  match node.gateOperands with
  | none => return w
  | some (a, b) => [a, b].foldlM net.offerDriver w

def offerUnread (net : Network) (w : Worklist) (id : NodeId) : Except Fault Worklist := do
  let node ← net.nodes.fetch id
  if node.fanouts.isEmpty then net.offerDriver w id else return w

/-- Offers the driver of an output. -/
def offerSource (net : Network) (w : Worklist) (id : NodeId) : Except Fault Worklist := do
  let node ← net.nodes.fetch id
  match node.first with
  | none => return w
  | some driver => net.offerDriver w driver

theorem budget_offerDriver (net : Network) (w : Worklist) (id : NodeId) (next : Worklist)
    (offered : net.offerDriver w id = .ok next) : next.budget ≤ w.budget := by
  obtain ⟨node, _, offered⟩ := bind_eq_ok_iff.mp offered
  split at offered
  · cases offered
  · cases offered
    exact Nat.le_refl _
  · next fresh =>
    split at offered
    · obtain ⟨ready, _, offered⟩ := bind_eq_ok_iff.mp offered
      cases ready <;> cases offered
      · exact Nat.le_refl _
      · exact Nat.le_of_eq (Worklist.budget_push fresh)
    · cases offered
      exact Nat.le_refl _

theorem keepsBudget_offerDrivers (net : Network) :
    Worklist.KeepsBudget net.offerDrivers := by
  intro w id next offered
  obtain ⟨node, _, offered⟩ := bind_eq_ok_iff.mp offered
  split at offered
  · cases offered
    exact Nat.le_refl _
  · exact Worklist.budget_foldlM_le net.budget_offerDriver _ w next offered

/-- The gates, each after the gates that read it; unread gates come first. -/
def readersFirst (net : Network) : Except Fault (List NodeId) := do
  let marks ← net.noMarks.markAll net.outputs.toList
  let unread ← net.gates.toList.foldlM net.offerUnread { marks }
  let ready ← net.outputs.toList.foldlM net.offerSource unread
  let done ← Worklist.drain net.offerDrivers net.keepsBudget_offerDrivers ready 0
  return done.queue.toList

end Network

end GateNet
