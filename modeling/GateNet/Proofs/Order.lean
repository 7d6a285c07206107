import GateNet.Proofs.Closed
import GateNet.Proofs.Precedence

/-!
# Drivers first

Forward, gates wait for what they read, and inputs are given.  Whatever the state of a network, if
`driversFirst` gives an answer then it lists different gates, each after the gates that it reads.
On a sound network it gives one that lists every gate, since drivers name all of their readers and
gates form no cycle.
-/

namespace GateNet

/-- A list of all gates, each after the gates that it reads. -/
structure Layout.DriversFirst (L : Layout) (order : List NodeId) : Prop where
  nodup : order.Nodup
  exact : ∀ id, id ∈ order ↔ L.HasGate id
  earlier : ∀ {before id after}, order = before ++ id :: after →
    ∀ {d}, L.circuit.Reads id d → L.HasGate d → d ∈ before

theorem Layout.DriversFirst.not_mem {L : Layout} {order : List NodeId}
    (ordered : L.DriversFirst order) {x : NodeId} {kind : Kind} (held : L.kind? x = some kind)
    (terminal : kind.isGate = false) : x ∉ order := by
  intro listed
  have gate := Layout.hasGate_iff_kind?.mp ((ordered.exact x).mp listed)
  obtain rfl := Option.some.inj (held.symm.trans gate)
  cases terminal

namespace Network

variable {net : Network}

/-! ## Facts about live nodes -/

theorem Sound.lt_bound (sound : net.Sound) {id : NodeId} {n : Node}
    (held : net.nodes.layout id = some n) : id < net.nodes.bound := by
  obtain ⟨m, found, _⟩ := Store.layout_eq_some_iff.mp held
  exact Store.lt_bound sound.woven.store found

theorem Sound.mayDrive_iff (sound : net.Sound) {d : NodeId} :
    net.nodes.layout.MayDrive d ↔ d ∈ net.inputs ∨ net.nodes.layout.HasGate d := by
  rw [sound.mem_inputs_iff]
  constructor
  · rintro ⟨n, held, drives⟩
    cases input : n.isInput with
    | true => exact .inl ⟨n, held, input⟩
    | false => exact .inr ⟨n, held, by rw [Node.isOutput_eq, input] at drives; simpa using drives⟩
  · rintro (⟨n, held, input⟩ | gate)
    · exact ⟨n, held, by simp [Node.isOutput_eq, input]⟩
    · exact gate.mayDrive

theorem Sound.not_hasGate_of_input (sound : net.Sound) {id : NodeId} (input : id ∈ net.inputs) :
    ¬ net.nodes.layout.HasGate id := by
  obtain ⟨n, held, isInput⟩ := sound.mem_inputs_iff.mp input
  exact Layout.not_hasGate_of_isGate held (Node.not_isGate_of_isInput isInput)

theorem driverAt_of_key? {nodes : Store Node} {id : NodeId} {key : Key}
    (held : nodes.layout.key? id = some key) :
    nodes.driverAt ⟨id, .first⟩ = some key.first ∧ nodes.driverAt ⟨id, .second⟩ = some key.second := by
  obtain ⟨n, live, keyed⟩ := Layout.key?_eq_some_iff.mp held
  obtain ⟨first, second⟩ := Node.driver_of_key? keyed
  exact ⟨(Store.Woven.driverAt_eq nodes live .first).trans first,
    (Store.Woven.driverAt_eq nodes live .second).trans second⟩

/-! ## The worklist -/

/-- Gates wait for what they read. -/
def forward (net : Network) : Precedence where
  given id := id ∈ net.inputs
  item id := (net.nodes.layout.key? id).isSome
  waits := net.nodes.layout.circuit.Reads

theorem forward_item_iff {id : NodeId} :
    net.forward.item id ↔ ∃ key, net.nodes.layout.key? id = some key :=
  Option.isSome_iff_exists

theorem hasGate_of_forward_item {id : NodeId} (item : net.forward.item id) :
    net.nodes.layout.HasGate id := by
  obtain ⟨key, keyed⟩ := forward_item_iff.mp item
  exact Layout.hasGate_of_key? keyed

/-- Offering a wire queues nothing, or a gate whose operands are marked. -/
theorem offers_of_offerReader {w next : Worklist} {e : Fanout}
    (offered : net.offerReader w e = .ok next) : net.forward.Offers w e.reader next := by
  unfold offerReader at offered
  split at offered
  · cases offered
  · next marked =>
    cases offered
    exact .passed fun _ => .inl (Marks.contains_of_has (Marks.has_eq_ok_iff.mpr marked))
  · next unmarked =>
    obtain ⟨n, fetched, offered⟩ := bind_eq_ok_iff.mp offered
    have found := Store.fetch_eq_ok_iff.mp fetched
    split at offered
    · next operands =>
      cases offered
      refine .passed fun item => ?_
      obtain ⟨key, keyed⟩ := forward_item_iff.mp item
      rw [Layout.key?_of_get? found, Node.key?, operands] at keyed
      cases keyed
    · next a b operands =>
      obtain ⟨ready, asked, offered⟩ := bind_eq_ok_iff.mp offered
      have keyed : net.nodes.layout.key? e.reader = some ⟨n.gate, a, b⟩ :=
        (Layout.key?_of_get? found).trans (Node.key?_of_gateOperands operands)
      have reads : ∀ d, net.forward.waits e.reader d ↔ d ∈ [a, b] := by
        intro d
        change net.nodes.layout.circuit.Reads e.reader d ↔ d ∈ [a, b]
        rw [Layout.reads_circuit_iff, keyed]
        simp [eq_comm]
      cases ready with
      | false =>
        cases offered
        obtain ⟨d, listed, open_⟩ := Marks.exists_of_hasAll asked
        exact .passed fun _ => .inr ⟨d, (reads d).mpr listed, open_⟩
      | true =>
        cases offered
        exact .queued (forward_item_iff.mpr ⟨_, keyed⟩) unmarked fun d read =>
          Marks.contains_of_hasAll asked d ((reads d).mp read)

theorem offersAll_of_offerReaders {w next : Worklist} {id : NodeId}
    (offered : net.offerReaders w id = .ok next) :
    ∃ n, net.nodes.get? id = some n ∧
      net.forward.OffersAll w (n.fanouts.toList.map (·.reader)) next := by
  obtain ⟨n, fetched, folded⟩ := bind_eq_ok_iff.mp offered
  exact ⟨n, Store.fetch_eq_ok_iff.mp fetched,
    Precedence.offersAll_of_foldlM Fanout.reader (fun _ _ _ => offers_of_offerReader) folded⟩

/-- Handling a node offers all gates that read it. -/
theorem Sound.passesOn_offerReaders (sound : net.Sound) {w next : Worklist} {id : NodeId}
    (offered : net.offerReaders w id = .ok next) : net.forward.PassesOn w id next := by
  obtain ⟨n, found, offers⟩ := offersAll_of_offerReaders offered
  refine ⟨_, offers, fun x _ read => List.mem_map.mpr ?_⟩
  obtain ⟨key, keyed, operand⟩ := Layout.reads_circuit_iff.mp read
  obtain ⟨first, second⟩ := driverAt_of_key? keyed
  rcases operand with rfl | rfl
  · exact ⟨⟨x, .first⟩, Array.mem_toList_iff.mpr
      ((sound.woven.wired.mem_fanouts_iff found).mpr first), rfl⟩
  · exact ⟨⟨x, .second⟩, Array.mem_toList_iff.mpr
      ((sound.woven.wired.mem_fanouts_iff found).mpr second), rfl⟩

/-! ## The answer -/

/-- An order comes from an empty queue: the inputs are handled, then what was queued. -/
theorem exists_drain_of_driversFirst {order : List NodeId} (ordered : net.driversFirst = .ok order) :
    ∃ start ready done, net.forward.Lists start ∧
      net.inputs.toList.foldlM net.offerReaders start = .ok ready ∧
      Worklist.drain net.offerReaders net.keepsBudget_offerReaders ready 0 = .ok done ∧
      order = done.queue.toList := by
  obtain ⟨marks, marked, ordered⟩ := bind_eq_ok_iff.mp ordered
  obtain ⟨ready, folded, ordered⟩ := bind_eq_ok_iff.mp ordered
  obtain ⟨done, drained, ordered⟩ := bind_eq_ok_iff.mp ordered
  cases ordered
  exact ⟨{ marks }, ready, done, Precedence.lists_start marked fun id => Array.mem_toList_iff.symm,
    folded, drained, rfl⟩

/-- The order is that of a queue that was filled by offering wires. -/
theorem exists_lists_of_driversFirst {order : List NodeId} (ordered : net.driversFirst = .ok order) :
    ∃ w, net.forward.Lists w ∧ order = w.queue.toList := by
  obtain ⟨start, ready, done, lists, folded, drained, rfl⟩ := exists_drain_of_driversFirst ordered
  have lists := foldlM_keeps folded (fun _ => net.forward.Lists) lists <| by
    intro _ _ _ _ _ _ lists offered
    obtain ⟨_, _, offers⟩ := offersAll_of_offerReaders offered
    exact offers.lists lists
  refine ⟨done, lists.drain drained fun _ _ _ offered => ?_, rfl⟩
  obtain ⟨_, _, offers⟩ := offersAll_of_offerReaders offered
  exact ⟨_, offers⟩

/-- A complete order of evaluation, over inputs that are no gates, has the drivers first. -/
theorem driversFirst_of_lists {w : Worklist} (lists : net.forward.Lists w)
    (inputs : ∀ id ∈ net.inputs, ¬ net.nodes.layout.HasGate id)
    (complete : ∀ id, net.nodes.layout.HasGate id → id ∈ w.queue) :
    net.nodes.layout.DriversFirst w.queue.toList where
  nodup := lists.nodup
  exact id := Array.mem_toList_iff.trans
    ⟨fun queued => hasGate_of_forward_item (lists.items id queued), complete id⟩
  earlier split _ read gate :=
    (lists.earlier split read).resolve_left fun input => inputs _ input gate

/-- On a sound network every gate is listed once, after the gates that it reads. -/
theorem driversFirst_spec (sound : net.Sound) :
    ∃ order, net.driversFirst = .ok order ∧ net.nodes.layout.DriversFirst order := by
  obtain ⟨order, ordered, _⟩ := sound.closed.exists_driversFirst
  refine ⟨order, ordered, ?_⟩
  obtain ⟨start, ready, done, lists, folded, drained, rfl⟩ := exists_drain_of_driversFirst ordered
  obtain ⟨_, serves⟩ := lists.serve_given (fun _ => Array.mem_toList_iff.symm) folded
    fun _ _ _ _ => sound.passesOn_offerReaders
  obtain ⟨_, serves⟩ := serves.drain drained fun _ _ _ _ => sound.passesOn_offerReaders
  -- Ranks lead from any gate that is missing down to the inputs.
  obtain ⟨rank, ranked⟩ := sound.woven.layout.acyclic
  refine driversFirst_of_lists serves.lists (fun id => sound.not_hasGate_of_input) fun id gate => ?_
  refine serves.mem_queue rank (fun x item input => ?_) (fun x y item read => ?_)
    (fun x item idle => ?_) ?_
  · exact sound.not_hasGate_of_input input (hasGate_of_forward_item item)
  · refine (sound.mayDrive_iff.mp (sound.woven.layout.mayDrive_of_reads read)).imp_right
      fun gate => ⟨?_, ranked x y read⟩
    exact forward_item_iff.mpr (sound.woven.layout.hasGate_iff.mp gate)
  · obtain ⟨key, keyed⟩ := forward_item_iff.mp item
    exact absurd (Layout.reads_circuit_iff.mpr ⟨key, keyed, .inl rfl⟩) (idle key.first)
  · exact forward_item_iff.mpr (sound.woven.layout.hasGate_iff.mp gate)

end Network

/-! ## Ranking -/

namespace Layout.DriversFirst

variable {L : Layout} {order : List NodeId}

/-- A gate stands behind each gate that it reads. -/
theorem idxOf_lt (ordered : L.DriversFirst order) {id d : NodeId} (read : L.circuit.Reads id d)
    (gate : L.HasGate d) : order.idxOf d < order.idxOf id ∧ order.idxOf id < order.length := by
  obtain ⟨key, keyed, _⟩ := Layout.reads_circuit_iff.mp read
  have listed : id ∈ order := (ordered.exact id).mpr (Layout.hasGate_of_key? keyed)
  refine ⟨?_, List.idxOf_lt_length_of_mem listed⟩
  obtain ⟨before, after, split⟩ := List.append_of_mem listed
  have earlier := ordered.earlier split read gate
  have late : id ∉ before := not_mem_before ordered.nodup split
  have below := List.idxOf_lt_length_of_mem earlier
  rw [split, List.idxOf_append_of_mem earlier, List.idxOf_append_of_notMem late]
  omega

/-- Gates that can be listed drivers first form no cycle: the position in the list is a rank. -/
theorem acyclic (ordered : L.DriversFirst order) : L.circuit.Acyclic := by
  refine ⟨fun id => if id ∈ order then order.idxOf id + 1 else 0, ?_⟩
  intro id d read
  obtain ⟨key, keyed, _⟩ := Layout.reads_circuit_iff.mp read
  have listed : id ∈ order := (ordered.exact id).mpr (Layout.hasGate_of_key? keyed)
  simp only [listed, if_true]
  by_cases gate : L.HasGate d
  · have lower := (ordered.idxOf_lt read gate).1
    rw [if_pos ((ordered.exact d).mpr gate)]
    omega
  · rw [if_neg fun listed => gate ((ordered.exact d).mp listed)]
    omega

end Layout.DriversFirst

end GateNet
