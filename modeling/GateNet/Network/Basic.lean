import GateNet.Owner
import GateNet.Refusal

/-!
# Networks

A `Network` holds ports, state elements and gates, all of them made of nodes.  Three registries
list the live nodes of each sort, oldest first.  The table finds a gate by its function and
operands (`GateNet.Network.Table`), and `depth?` remembers the depth of the network until a wire
changes.

An operation that may be refused gives an `Outcome`: the answer, and the network afterwards.  One
that faults gives no network.
-/

namespace GateNet

/-- A network of shared gates. -/
structure Network where
  name : String := ""
  /-- The ports, by their numbers. -/
  ports : Array Port := #[]
  nodes : Store Node := {}
  flipFlops : Bank := {}
  latches : Bank := {}
  /-- The nodes of input kind, oldest first. -/
  inputs : Array NodeId := #[]
  /-- The nodes of output kind, oldest first. -/
  outputs : Array NodeId := #[]
  /-- The gates, oldest first. -/
  gates : Array NodeId := #[]
  /-- The first gate of each bucket; `Node.link` leads to the others. -/
  table : Array (Option NodeId)
  /-- The number of gates at which the table is widened. -/
  limit : Nat
  /-- The depth, if it was computed since a wire changed. -/
  depth? : Option Nat := none
  deriving DecidableEq, Repr

namespace Network

def minBuckets : Nat := 1024

/-- How many gates a table may hold before it is widened: 1.8 for each bucket. -/
def limitFor (buckets : Nat) : Nat := 9 * buckets / 5

/-- An empty network with at least the given number of buckets, a power of two. -/
def withBuckets (buckets : Nat) : Network :=
  let size := (max buckets minBuckets).nextPowerOfTwo
  { table := Array.replicate size none, limit := limitFor size }

def empty : Network := withBuckets minBuckets

def buckets (net : Network) : Nat := net.table.size

def node? (net : Network) (id : NodeId) : Option Node := net.nodes.get? id

def bank (net : Network) : Family → Bank
  | .flipFlop => net.flipFlops
  | .latch => net.latches

def withBank (net : Network) (family : Family) (bank : Bank) : Network :=
  match family with
  | .flipFlop => { net with flipFlops := bank }
  | .latch => { net with latches := bank }

def element? (net : Network) (family : Family) (id : ElementId) : Option Element :=
  (net.bank family).elements.get? id

def registry (net : Network) : Registry → Array NodeId
  | .inputs => net.inputs
  | .outputs => net.outputs
  | .gates => net.gates

def withRegistry (net : Network) (registry : Registry) (ids : Array NodeId) : Network :=
  match registry with
  | .inputs => { net with inputs := ids }
  | .outputs => { net with outputs := ids }
  | .gates => { net with gates := ids }

@[simp] theorem bank_withBank (net : Network) (family other : Family) (b : Bank) :
    (net.withBank family b).bank other = if other = family then b else net.bank other := by
  cases family <;> cases other <;> rfl

def rename (net : Network) (name : String) : Network := { net with name }

/-- Forgets everything but the slots, the number of buckets and the limit that goes with it. -/
def clear (net : Network) : Network :=
  { nodes := net.nodes.clear
    flipFlops := net.flipFlops.clear
    latches := net.latches.clear
    table := Array.replicate net.table.size none
    limit := net.limit }

end Network

/-! ## Outcomes -/

/-- An answer or a refusal, and the network afterwards. -/
structure Outcome (α : Type) where
  answer : Except Refusal α
  network : Network

namespace Outcome

def done {α : Type} (answer : α) (network : Network) : Outcome α := ⟨.ok answer, network⟩

def refused {α : Type} (refusal : Refusal) (network : Network) : Outcome α :=
  ⟨.error refusal, network⟩

/-- Goes on with an answer; a refusal stays, with the network that it left. -/
def andThen {α β : Type} (outcome : Outcome α)
    (next : α → Network → Except Fault (Outcome β)) : Except Fault (Outcome β) :=
  match outcome.answer with
  | .ok answer => next answer outcome.network
  | .error refusal => .ok (refused refusal outcome.network)

def map {α β : Type} (change : α → β) (outcome : Outcome α) : Outcome β :=
  ⟨outcome.answer.map change, outcome.network⟩

/-- Carries out one step for each item; the first refusal ends it, with the network so far. -/
def fold {α β : Type} (step : β → α → Network → Except Fault (Outcome β)) :
    List α → β → Network → Except Fault (Outcome β)
  | [], state, net => .ok (done state net)
  | item :: rest, state, net => do
      let outcome ← step state item net
      outcome.andThen fun state net => fold step rest state net

end Outcome

namespace Network

/-- Carries out an action once a check on the unchanged network passes. -/
def guarded {α β : Type} (net : Network) (check : Except Failure β)
    (act : β → Except Fault (α × Network)) : Except Fault (Outcome α) :=
  match check with
  | .ok found => (act found).map fun (answer, next) => .done answer next
  | .error (.refused refusal) => .ok (.refused refusal net)
  | .error (.faulted fault) => .error fault

theorem guarded_refused {α β : Type} (net : Network) (refusal : Refusal)
    (act : β → Except Fault (α × Network)) :
    net.guarded (.error (.refused refusal)) act = .ok (.refused refusal net) := rfl

end Network

end GateNet
