import GateNet.Network.Basic
import GateNet.Normal

/-!
# The table of gates

Gates whose keys fall into one bucket form a chain: the table names the first, and each gate links
to the next.  `find?` walks one chain, `enroll` puts a gate at the front of its chain, `withdraw`
takes a gate out, and `widen` spreads all chains over more buckets.

A chain of distinct gates is no longer than the store has slots; a search that takes more steps
is on a loop and faults.
-/

namespace GateNet

namespace Node

/-- The key of a gate; a gate without drivers counts as reading node 0 twice. -/
def key (n : Node) : Key :=
  match n.gateOperands with
  | some (a, b) => ⟨n.gate, a, b⟩
  | none => ⟨n.gate, 0, 0⟩

/-- Whether the node has the function and the drivers of a key. -/
def hasKey (n : Node) (key : Key) : Bool :=
  n.gate == key.gate && n.first == some key.first && n.second == some key.second

end Node

namespace Network

/-- The first gate in the bucket of a key. -/
def head (net : Network) (key : Key) : Except Fault (Option NodeId) :=
  fetchAt net.table (key.bucket net.table.size)

/-- The first node on a chain that passes a test. -/
def findOnChain (nodes : Store Node) (test : Node → Bool) :
    (steps : Nat) → Option NodeId → Except Fault (Option NodeId)
  | _, none => .ok none
  | 0, some _ => .error .endlessChain
  | steps + 1, some id =>
      match nodes.fetch id with
      | .error fault => .error fault
      | .ok node =>
          if test node then .ok (some id) else findOnChain nodes test steps node.link

def find? (net : Network) (key : Key) : Except Fault (Option NodeId) := do
  findOnChain net.nodes (·.hasKey key) net.nodes.capacity (← net.head key)

/-- Puts a gate at the front of the bucket of its key. -/
def enroll (net : Network) (id : NodeId) : Except Fault Network := do
  let node ← net.nodes.fetch id
  let behind ← net.head node.key
  let table ← storeAt net.table (node.key.bucket net.table.size) (some id)
  return { net with nodes := net.nodes.modify id ({ · with link := behind }), table }

def withdraw (net : Network) (id : NodeId) : Except Fault Network := do
  let node ← net.nodes.fetch id
  let behind := node.link
  let nodes := net.nodes.modify id ({ · with link := none })
  let head ← net.head node.key
  if head = some id then
    let table ← storeAt net.table (node.key.bucket net.table.size) behind
    return { net with nodes, table }
  else
    match ← findOnChain nodes (·.link == some id) nodes.capacity head with
    | some before =>
        return { net with nodes := nodes.modify before ({ · with link := behind }) }
    | none => .error (.notChained id)

/-- Enrolls every gate of a chain again, front to back.  Enrolling changes the links, so a gate on
two chains leads on along its new chain. -/
def enrollChain : (steps : Nat) → Option NodeId → Network → Except Fault Network
  | _, none, net => .ok net
  | 0, some _, _ => .error .endlessChain
  | steps + 1, some id, net =>
      match net.nodes.fetch id with
      | .error fault => .error fault
      | .ok node =>
          match net.enroll id with
          | .error fault => .error fault
          | .ok next => enrollChain steps node.link next

/-- Enrolls every gate of every chain again, in a table of another size. -/
def widen (net : Network) (size : Nat) : Except Fault Network :=
  net.table.toList.foldlM
    (fun net head =>
      enrollChain ((net.nodes.capacity + 1) * (net.nodes.capacity + 1)) head net)
    { net with table := Array.replicate size none, limit := limitFor size }

/-- Doubles the table when it holds too many gates. -/
def widenIfFull (net : Network) : Except Fault Network :=
  if net.limit ≤ net.gates.size then net.widen (2 * net.table.size) else .ok net

end Network

end GateNet
