import GateNet.Proofs.Checks

/-!
# What a passed audit says about the graph

A network is intact when its wires are recorded at both ends, its gates have different keys of
normal form, each gate stands on the chain of its key and nothing else is chained, and the gates
form no cycle.  The audit never checks most of this directly: it counts links and entries and looks
every gate up.  The counts turn what is found into all that is there.
-/

namespace GateNet

namespace Network

variable {net : Network}

/-! ## Wires -/

namespace Checked

variable {id : NodeId} {n : Node}

/-- A driver is live, no output, and lists its reader exactly once. -/
theorem driven (checked : net.Checked) (held : net.node? id = some n) {operand : Operand}
    {d : NodeId} (wire : n.driver operand = some d) :
    ∃ m, net.node? d = some m ∧ m.isOutput = false ∧ m.fanouts.count ⟨id, operand⟩ = 1 := by
  obtain ⟨named, drivers, _⟩ := auditNode_eq_ok_iff.mp (checked.nodes held)
  have recorded := auditDriver_eq_ok_iff.mp (drivers operand) d wire
  rwa [named] at recorded

/-- A listed reader is live and reads the node that lists it. -/
theorem read (checked : net.Checked) (held : net.node? id = some n) {entry : Fanout}
    (listed : entry ∈ n.fanouts) :
    ∃ m, net.node? entry.reader = some m ∧ m.driver entry.operand = some id := by
  obtain ⟨named, _, readers, _⟩ := auditNode_eq_ok_iff.mp (checked.nodes held)
  have recorded := auditFanout_eq_ok_iff.mp (readers entry listed)
  rwa [named] at recorded

theorem wired (checked : net.Checked) : net.nodes.Wired where
  live wire := by
    obtain ⟨n, held, wire⟩ := Store.driverAt_eq_some_iff.mp wire
    obtain ⟨m, found, _⟩ := checked.driven held wire
    exact ⟨m, found⟩
  lists d m held e := by
    split
    · next wire =>
      obtain ⟨n, reader, wire⟩ := Store.driverAt_eq_some_iff.mp wire
      obtain ⟨m', held', _, once⟩ := checked.driven reader wire
      obtain rfl := Option.some.inj (held.symm.trans held')
      exact once
    · next noWire =>
      apply Array.count_eq_zero_of_not_mem
      intro listed
      obtain ⟨n, reader, wire⟩ := checked.read held listed
      exact noWire (Store.driverAt_eq_some_iff.mpr ⟨n, reader, wire⟩)

/-! ## Keys -/

/-- A gate has a key of normal form, under which it is found. -/
theorem keyed (checked : net.Checked) (held : net.node? id = some n) (gate : n.isGate = true) :
    ∃ key, n.key? = some key ∧ key.Proper ∧ net.find? key = .ok (some id) := by
  obtain ⟨named, _, _, gates, _⟩ := auditNode_eq_ok_iff.mp (checked.nodes held)
  obtain ⟨key, nodeKey, proper, found⟩ := auditGate_eq_ok_iff.mp (gates gate)
  exact ⟨key, nodeKey, proper, by rw [found, named]⟩

theorem find?_eq (checked : net.Checked) {key : Key} (keyed : net.nodes.layout.key? id = some key) :
    net.find? key = .ok (some id) := by
  obtain ⟨n, held, nodeKey⟩ := Layout.key?_eq_some_iff.mp keyed
  obtain ⟨m, found, rfl⟩ := Store.layout_eq_some_iff.mp held
  obtain ⟨key', nodeKey', _, searched⟩ := checked.keyed found (Node.key?_eq_some_iff.mp nodeKey).1
  obtain rfl := Option.some.inj (nodeKey.symm.trans nodeKey')
  exact searched

theorem fits (checked : net.Checked) (held : net.node? id = some n) : n.Fits id := by
  obtain ⟨named, _, _, _, inputs, outputs⟩ := auditNode_eq_ok_iff.mp (checked.nodes held)
  refine ⟨named, fun gate => ?_, fun input => auditInput_eq_ok_iff.mp (inputs input),
    fun output => (auditOutput_eq_ok_iff.mp (outputs output)).1⟩
  obtain ⟨key, nodeKey, proper, _⟩ := checked.keyed held gate
  exact ⟨key, nodeKey, proper⟩

end Checked

/-! ## Chains -/

/-- A walk that ends within its budget ran over a chain. -/
theorem exists_chain_of_auditChain {budget left : Nat} {head : Option NodeId}
    (walked : net.auditChain budget head = .ok left) :
    ∃ list, net.nodes.Chain head list ∧ budget = list.length + left := by
  induction budget generalizing head with
  | zero =>
    cases head with
    | none =>
      cases walked
      exact ⟨[], rfl, by simp⟩
    | some id => cases walked
  | succ budget inductionHypothesis =>
    cases head with
    | none =>
      cases walked
      exact ⟨[], rfl, by simp⟩
    | some id =>
      rw [auditChain] at walked
      split at walked
      · cases walked
      · next n held =>
        obtain ⟨rest, chain, count⟩ := inductionHypothesis walked
        exact ⟨id :: rest, ⟨rfl, n, held, chain⟩, by simp only [List.length_cons]; omega⟩

theorem exists_chains_of_foldlM {heads : List (Option NodeId)} {budget left : Nat}
    (walked : heads.foldlM net.auditChain budget = .ok left) :
    ∃ lists, List.Forall₂ net.nodes.Chain heads lists ∧ budget = lists.flatten.length + left := by
  induction heads generalizing budget with
  | nil =>
    cases walked
    exact ⟨[], .nil, by simp⟩
  | cons head heads inductionHypothesis =>
    rw [List.foldlM_cons] at walked
    obtain ⟨middle, first, others⟩ := bind_eq_ok_iff.mp walked
    obtain ⟨list, chain, count⟩ := exists_chain_of_auditChain first
    obtain ⟨lists, chains, count'⟩ := inductionHypothesis others
    refine ⟨list :: lists, .cons chain chains, ?_⟩
    rw [List.flatten_cons, List.length_append]
    omega

/-- The walks over all buckets pass as many links as there are registered gates. -/
theorem Checked.exists_lists (checked : net.Checked) :
    ∃ lists, List.Forall₂ net.nodes.Chain net.table.toList lists ∧
      lists.flatten.length = net.gates.size := by
  obtain ⟨left, walked, spent⟩ := bind_eq_ok_iff.mp checked.chains
  obtain ⟨lists, chains, count⟩ := exists_chains_of_foldlM walked
  have none_left : left = 0 := by simpa [require_eq_ok_iff] using spent
  exact ⟨lists, chains, by omega⟩

/-- What is found by walking from the head of a chain stands on the chain. -/
theorem mem_of_findOnChain {nodes : Store Node} {test : Node → Bool} {steps : Nat}
    {head : Option NodeId} {list : List NodeId} {id : NodeId} (chain : nodes.Chain head list)
    (found : findOnChain nodes test steps head = .ok (some id)) : id ∈ list := by
  induction list generalizing head steps with
  | nil =>
    obtain rfl : head = none := chain
    cases steps <;> cases found
  | cons x rest inductionHypothesis =>
    obtain ⟨rfl, n, held, chain⟩ := chain
    cases steps with
    | zero => cases found
    | succ steps =>
      simp only [findOnChain, Store.fetch_of_get? held] at found
      split at found
      · cases found
        exact .head _
      · exact .tail _ (inductionHypothesis chain found)

section Buckets

variable {lists : List (List NodeId)}

/-- The chain of a bucket; there is nothing in the buckets past the end of the table. -/
theorem chain_of_bucket (linked : List.Forall₂ net.nodes.Chain net.table.toList lists) (b : Nat) :
    net.nodes.Chain (net.table[b]?).join (lists.getD b []) := by
  have length : net.table.size = lists.length := by simpa using linked.length_eq
  by_cases inside : b < net.table.size
  · have chain := linked.get (i := b) (by simpa using inside) (by omega)
    rw [Array.getElem?_eq_getElem inside, Option.join_some, List.getD_eq_getElem?_getD,
      List.getElem?_eq_getElem (by omega)]
    exact chain
  · rw [Array.getElem?_eq_none (by omega), List.getD_eq_getElem?_getD,
      List.getElem?_eq_none (by omega)]
    rfl

theorem mem_of_mem_getD {b : Nat} {id : NodeId} (here : id ∈ lists.getD b []) :
    ∃ list, lists[b]? = some list ∧ id ∈ list := by
  rw [List.getD_eq_getElem?_getD] at here
  cases held : lists[b]? with
  | none => simp [held] at here
  | some list => exact ⟨list, rfl, by simpa [held] using here⟩

theorem mem_flatten_iff_exists_getD {id : NodeId} :
    id ∈ lists.flatten ↔ ∃ b, id ∈ lists.getD b [] := by
  constructor
  · intro listed
    obtain ⟨list, held, here⟩ := List.mem_flatten.mp listed
    obtain ⟨b, small, rfl⟩ := List.getElem_of_mem held
    exact ⟨b, by simpa [List.getElem?_eq_getElem small] using here⟩
  · intro ⟨b, here⟩
    obtain ⟨list, held, here⟩ := mem_of_mem_getD here
    exact List.mem_flatten.mpr ⟨list, List.mem_of_getElem? held, here⟩

/-- Without repetition, an entry stands in one of the lists only. -/
theorem eq_of_mem_getD (nodup : lists.flatten.Nodup) {b c : Nat} {id : NodeId}
    (one : id ∈ lists.getD b []) (two : id ∈ lists.getD c []) : b = c := by
  obtain ⟨first, held, here⟩ := mem_of_mem_getD one
  obtain ⟨second, held', here'⟩ := mem_of_mem_getD two
  obtain ⟨small, rfl⟩ := List.getElem?_eq_some_iff.mp held
  obtain ⟨small', rfl⟩ := List.getElem?_eq_some_iff.mp held'
  have disjoint := List.pairwise_iff_getElem.mp (List.nodup_flatten.mp nodup).2
  rcases Nat.lt_trichotomy b c with less | same | greater
  · exact absurd here' (disjoint b c small small' less here)
  · exact same
  · exact absurd here (disjoint c b small' small greater here')

theorem nodup_getD (nodup : lists.flatten.Nodup) (b : Nat) : (lists.getD b []).Nodup := by
  rw [List.getD_eq_getElem?_getD]
  cases held : lists[b]? with
  | none => simp
  | some list => exact (List.nodup_flatten.mp nodup).1 list (List.mem_of_getElem? held)

end Buckets

/-- A gate that is found under its key stands on the chain of its bucket. -/
theorem Checked.mem_bucket (checked : net.Checked) {lists : List (List NodeId)}
    (linked : List.Forall₂ net.nodes.Chain net.table.toList lists) {id : NodeId} {key : Key}
    (keyed : net.nodes.layout.key? id = some key) :
    id ∈ lists.getD (key.bucket net.table.size) [] := by
  obtain ⟨head, entry, walked⟩ := bind_eq_ok_iff.mp (checked.find?_eq keyed)
  have chain := chain_of_bucket linked (key.bucket net.table.size)
  rw [fetchAt_eq_ok_iff.mp entry, Option.join_some] at chain
  exact mem_of_findOnChain chain walked

theorem Checked.key?_of_hasGate (checked : net.Checked) {id : NodeId}
    (gate : net.nodes.layout.HasGate id) :
    ∃ key, net.nodes.layout.key? id = some key ∧ key.Proper := by
  obtain ⟨n, held, isGate⟩ := gate
  obtain ⟨m, found, rfl⟩ := Store.layout_eq_some_iff.mp held
  rw [Layout.key?_of_node held]
  exact (checked.fits found).gate isGate

theorem Checked.size_gates (checked : net.Checked) :
    net.gates.size = (net.live .gates).length := by
  rw [length_live]
  exact (auditRegistry_eq_ok_iff.mp (checked.registries .gates)).1

/-- The chains hold every gate once and nothing else: all gates are found on them, and there are no
more links than gates. -/
theorem Checked.perm_gates (checked : net.Checked) {lists : List (List NodeId)}
    (linked : List.Forall₂ net.nodes.Chain net.table.toList lists)
    (count : lists.flatten.length = net.gates.size) : (net.live .gates).Perm lists.flatten := by
  have found : net.live .gates ⊆ lists.flatten := by
    intro id listed
    obtain ⟨key, keyed, _⟩ := checked.key?_of_hasGate (mem_live_gates_iff.mp listed)
    exact mem_flatten_iff_exists_getD.mpr ⟨_, checked.mem_bucket linked keyed⟩
  apply ((nodup_live .gates).subperm found).perm_of_length_le
  rw [count, checked.size_gates]

theorem Checked.exists_chains (checked : net.Checked) :
    ∃ chain, net.nodes.Chains net.table chain ∧
      ∀ id, net.nodes.layout.HasGate id ↔ ∃ b, id ∈ chain b := by
  obtain ⟨lists, linked, count⟩ := checked.exists_lists
  have perm := checked.perm_gates linked count
  have nodup : lists.flatten.Nodup := perm.nodup (nodup_live .gates)
  have exact : ∀ id, net.nodes.layout.HasGate id ↔ ∃ b, id ∈ lists.getD b [] := by
    intro id
    rw [← mem_flatten_iff_exists_getD, ← perm.mem_iff, mem_live_gates_iff]
  refine ⟨fun b => lists.getD b [], ⟨chain_of_bucket linked, nodup_getD nodup, ?_⟩, exact⟩
  -- A gate stands on the chain of its own bucket, and on no other.
  intro b id here
  have gate := (exact id).mpr ⟨b, here⟩
  obtain ⟨key, keyed, _⟩ := checked.key?_of_hasGate gate
  obtain ⟨n, held, nodeKey⟩ := Layout.key?_eq_some_iff.mp keyed
  refine ⟨n, held, (Node.key?_eq_some_iff.mp nodeKey).1, ?_⟩
  rw [Node.key_of_key? nodeKey]
  exact eq_of_mem_getD nodup (checked.mem_bucket linked keyed) here

/-! ## Cycles -/

theorem Checked.not_hasGate_of_input (checked : net.Checked) {id : NodeId}
    (input : id ∈ net.inputs) : ¬ net.nodes.layout.HasGate id := by
  obtain ⟨n, held, admitted⟩ := (auditRegistry_eq_ok_iff.mp (checked.registries .inputs)).2 id input
  exact Layout.not_hasGate_of_isGate (Store.layout_of_get? held) (Node.not_isGate_of_isInput admitted)

/-- The order of evaluation has as many gates as there are, so it has all of them. -/
theorem Checked.driversFirst (checked : net.Checked) :
    ∃ order, net.driversFirst = .ok order ∧ net.nodes.layout.DriversFirst order := by
  obtain ⟨order, ordered, count⟩ := auditOrder_eq_ok_iff.mp checked.order
  obtain ⟨w, lists, rfl⟩ := exists_lists_of_driversFirst ordered
  have gates : w.queue.toList ⊆ net.live .gates := by
    intro id queued
    exact mem_live_gates_iff.mpr
      (hasGate_of_forward_item (lists.items id (Array.mem_toList_iff.mp queued)))
  have perm : w.queue.toList.Perm (net.live .gates) := by
    apply (lists.nodup.subperm gates).perm_of_length_le
    rw [count, checked.size_gates]
  refine ⟨_, ordered, driversFirst_of_lists lists (fun _ => checked.not_hasGate_of_input) ?_⟩
  intro id gate
  exact Array.mem_toList_iff.mp (perm.mem_iff.mpr (mem_live_gates_iff.mpr gate))

/-! ## The graph -/

theorem Checked.layout (checked : net.Checked) : net.nodes.layout.Sound where
  fits held := by
    obtain ⟨m, found, rfl⟩ := Store.layout_eq_some_iff.mp held
    have fits := checked.fits found
    exact ⟨fits.id_eq, fits.gate, fits.input, fits.output⟩
  driven held wire := by
    obtain ⟨m, found, rfl⟩ := Store.layout_eq_some_iff.mp held
    obtain ⟨source, drives, notOutput, _⟩ :=
      checked.driven found ((Node.core_driver m _).symm.trans wire)
    exact ⟨source.core, Store.layout_of_get? drives, notOutput⟩
  unique one two := by
    have same := (checked.find?_eq one).symm.trans (checked.find?_eq two)
    simpa using same
  acyclic := by
    obtain ⟨order, _, ordered⟩ := checked.driversFirst
    exact ordered.acyclic

/-- A graph of gates and terminals whose records agree with each other. -/
structure Intact (net : Network) : Prop where
  /-- A driver is a live node and no output, and lists its reader exactly once. -/
  driven : ∀ {id n operand d}, net.node? id = some n → n.driver operand = some d →
    ∃ m, net.node? d = some m ∧ m.isOutput = false ∧ m.fanouts.count ⟨id, operand⟩ = 1
  /-- A listed reader is a live node that reads the node which lists it. -/
  read : ∀ {id n entry}, net.node? id = some n → entry ∈ n.fanouts →
    ∃ m, net.node? entry.reader = some m ∧ m.driver entry.operand = some id
  /-- No reader is listed twice. -/
  nodup : ∀ {id n}, net.node? id = some n → n.fanouts.toList.Nodup
  /-- A gate reads two nodes in increasing order, is `false` on two `false` inputs, and depends on
  both. -/
  keyed : ∀ {id n}, net.node? id = some n → n.isGate = true →
    ∃ key, n.key? = some key ∧ key.Proper
  /-- Different gates have different keys. -/
  unique : ∀ {x y m n key}, net.node? x = some m → net.node? y = some n → m.key? = some key →
    n.key? = some key → x = y
  /-- The chains of the table hold exactly the gates, each in the bucket of its key and once. -/
  chained : ∃ chain, net.nodes.Chains net.table chain ∧
    ∀ id, net.nodes.layout.HasGate id ↔ ∃ b, id ∈ chain b
  /-- The gates can be ranked above what they read. -/
  acyclic : net.nodes.layout.circuit.Acyclic

theorem Checked.nodup_fanouts (checked : net.Checked) {id : NodeId} {n : Node}
    (held : net.node? id = some n) : n.fanouts.toList.Nodup := by
  apply List.nodup_iff_count_le_one.mpr
  intro e
  rw [Array.count_toList, checked.wired.lists id n held e]
  split <;> simp

/-- Whatever the state of a network, if it passes the audit then its graph is intact. -/
theorem intact_of_audit (accepted : net.audit = .ok ()) : net.Intact := by
  have checked := audit_eq_ok_iff.mp accepted
  exact {
    driven := fun held => checked.driven held
    read := fun held => checked.read held
    nodup := fun held => checked.nodup_fanouts held
    keyed := fun held => (checked.fits held).gate
    unique := fun one two key₁ key₂ => checked.layout.unique
      ((Layout.key?_of_get? one).trans key₁) ((Layout.key?_of_get? two).trans key₂)
    chained := checked.exists_chains
    acyclic := checked.layout.acyclic }

/-- A network whose registry lists one input twice and misses another passes the audit, and its
graph is intact all the same. -/
theorem intact_of_audit_relisted :
    ∃ net, (withBuckets 0).runAll [.addPort "p" 3, .addInput 0 0, .addInput 0 1, .addInput 0 2,
        .addOutput 0 0, .addGate .and (.positive 0) (.positive 1), .drive 3 (.negative 4)] = .ok net ∧
      (net.withRegistry .inputs #[0, 1, 1]).audit = .ok () ∧
      (net.withRegistry .inputs #[0, 1, 1]).Intact := by
  have checked : (((withBuckets 0).runAll [.addPort "p" 3, .addInput 0 0, .addInput 0 1,
      .addInput 0 2, .addOutput 0 0, .addGate .and (.positive 0) (.positive 1),
      .drive 3 (.negative 4)]).toOption.bind fun net =>
        (net.withRegistry .inputs #[0, 1, 1]).audit.toOption) = some () := by
    decide +kernel
  obtain ⟨net, ran, passed⟩ := Option.bind_eq_some_iff.mp checked
  have accepted := toOption_eq_some_iff.mp passed
  exact ⟨net, toOption_eq_some_iff.mp ran, accepted, intact_of_audit accepted⟩

end Network

end GateNet
