import GateNet.Proofs.Intact

/-!
# What a passed audit says about the lists

The audit counts the entries of each registry and of each bank and looks at every entry, but it
does not look for repetitions.  An entry may then stand in for another one: a list misses what
belongs in it exactly when it repeats something.  Only the inputs that gates read are never missed,
because the order of evaluation starts from the registry.
-/

namespace GateNet

/-! ## Lists of the right length -/

theorem nodup_iff_subset {α : Type} {xs ys : List α} (nodup : ys.Nodup) (inside : xs ⊆ ys)
    (length : xs.length = ys.length) : xs.Nodup ↔ ys ⊆ xs := by
  constructor
  · intro unrepeated
    exact ((unrepeated.subperm inside).perm_of_length_le length.ge).symm.subset
  · intro complete
    exact ((nodup.subperm complete).perm_of_length_le length.le).nodup nodup

/-- A list that holds nothing else than what belongs in it, and as many entries. -/
structure Counted (listed : List Nat) (belongs : Nat → Prop) : Prop where
  /-- Every entry belongs in the list. -/
  inside : ∀ id ∈ listed, belongs id
  /-- Nothing is missing exactly when nothing is repeated. -/
  complete_iff : (∀ id, belongs id → id ∈ listed) ↔ listed.Nodup

namespace Counted

variable {listed all : List Nat} {belongs : Nat → Prop}

theorem of_length (nodup : all.Nodup) (exact : ∀ id, id ∈ all ↔ belongs id)
    (inside : ∀ id ∈ listed, belongs id) (length : listed.length = all.length) :
    Counted listed belongs where
  inside := inside
  complete_iff := by
    have subset : listed ⊆ all := fun id here => (exact id).mpr (inside id here)
    rw [nodup_iff_subset nodup subset length]
    constructor
    · intro complete id here
      exact complete id ((exact id).mp here)
    · intro complete id here
      exact complete ((exact id).mpr here)

theorem mem_iff (counted : Counted listed belongs) (nodup : listed.Nodup) (id : Nat) :
    id ∈ listed ↔ belongs id :=
  ⟨counted.inside id, counted.complete_iff.mpr nodup id⟩

end Counted

namespace Network

variable {net : Network}

/-! ## Registries -/

theorem Checked.registry_counted (checked : net.Checked) (r : Registry) :
    Counted (net.registry r).toList fun id =>
      ∃ n, net.node? id = some n ∧ r.admits n.kind = true := by
  obtain ⟨count, entries⟩ := auditRegistry_eq_ok_iff.mp (checked.registries r)
  apply Counted.of_length (nodup_live r) fun id => mem_live_iff
  · intro id listed
    exact entries id (Array.mem_toList_iff.mp listed)
  · rw [Array.length_toList, count, length_live]

/-- A gate is in the order of evaluation, after registered inputs and other gates only. -/
theorem Checked.mem_inputs_of_reads (checked : net.Checked) {id d : NodeId}
    (read : net.nodes.layout.circuit.Reads id d) {n : Node} (held : net.node? d = some n)
    (input : n.isInput = true) : d ∈ net.inputs := by
  obtain ⟨order, ordered, drivers⟩ := checked.driversFirst
  obtain ⟨w, lists, rfl⟩ := exists_lists_of_driversFirst ordered
  obtain ⟨key, keyed, _⟩ := Layout.reads_circuit_iff.mp read
  have queued := (drivers.exact id).mpr (Layout.hasGate_of_key? keyed)
  obtain ⟨before, after, split⟩ := List.append_of_mem queued
  cases lists.earlier split read with
  | inl registered => exact registered
  | inr earlier =>
    have gate := hasGate_of_forward_item
      (lists.items d (Array.mem_toList_iff.mp (by rw [split]; simp [earlier])))
    have notGate := Layout.not_hasGate_of_isGate (Store.layout_of_get? held)
      (Node.not_isGate_of_isInput input)
    exact absurd gate notGate

/-! ## Banks -/

theorem Checked.bank_counted (checked : net.Checked) (family : Family)
    (store : (net.bank family).elements.Sound) :
    Counted (net.bank family).order.toList fun id => ∃ e, net.element? family id = some e := by
  obtain ⟨count, entries⟩ := auditBank_eq_ok_iff.mp (checked.banks family)
  have live : ∀ id, id ∈ (net.bank family).elements.toList.map Prod.fst ↔
      ∃ e, net.element? family id = some e :=
    fun id => Store.mem_map_fst_toList.trans Store.contains_iff
  apply Counted.of_length (Store.nodup_map_fst_toList _) live
  · intro id listed
    obtain ⟨e, held, _⟩ := auditElement_eq_ok_iff.mp (entries id (Array.mem_toList_iff.mp listed))
    exact ⟨e, held⟩
  · rw [Array.length_toList, count]
    exact Store.size_eq_length store (Store.nodup_map_fst_toList _) fun id =>
      Store.mem_map_fst_toList

/-! ## All lists -/

/-- What a passed audit says about the lists, whatever the state.  Nothing in a registry or in the
order of a bank is out of place, and something is missing from it exactly when something is
repeated in it.  The inputs that gates read are never missing. -/
theorem counted_of_audit (accepted : net.audit = .ok ())
    (stores : ∀ family, (net.bank family).elements.Sound) :
    (∀ r : Registry, Counted (net.registry r).toList fun id =>
      ∃ n, net.node? id = some n ∧ r.admits n.kind = true) ∧
    (∀ family, Counted (net.bank family).order.toList fun id =>
      ∃ e, net.element? family id = some e) ∧
    ∀ id d n, net.nodes.layout.circuit.Reads id d → net.node? d = some n → n.isInput = true →
      d ∈ net.inputs := by
  have checked := audit_eq_ok_iff.mp accepted
  refine ⟨checked.registry_counted, fun family => checked.bank_counted family (stores family), ?_⟩
  intro id d n read held input
  exact checked.mem_inputs_of_reads read held input

/-- A network with other lists. -/
def relist (net : Network) (inputs outputs gates : Array NodeId)
    (flipFlops latches : Array ElementId) : Network :=
  { net with
    inputs, outputs, gates
    flipFlops := { net.flipFlops with order := flipFlops }
    latches := { net.latches with order := latches } }

/-- Two flip-flops, two latches, and two gates of the states of the flip-flops. -/
def statefulCommands : List Command :=
  [.addElement .flipFlop "p", .addElement .flipFlop "q", .addElement .latch "l",
    .addElement .latch "m", .addGate .and (.positive 0) (.positive 5),
    .addGate .or (.positive 0) (.positive 5)]

theorem exists_stateful :
    ∃ net, (withBuckets 0).runAll statefulCommands = .ok net ∧ net.Reachable :=
  (Reachable.withBuckets 0).runAll (by simp [statefulCommands])

/-- Every list of the network repeats one of its entries. -/
def withRepeats (net : Network) : Network :=
  net.relist #[0, 5, 10, 10] (Array.replicate 16 1) #[20, 20] #[0, 0] #[1, 1]

theorem exists_withRepeats :
    ∃ net, (withBuckets 0).runAll statefulCommands = .ok net ∧ net.Reachable ∧
      net.withRepeats.audit = .ok () := by
  have checked : (((withBuckets 0).runAll statefulCommands).toOption.bind fun net =>
      net.withRepeats.audit.toOption) = some () := by
    decide +kernel
  obtain ⟨net, ran, reached⟩ := exists_stateful
  rw [ran] at checked
  exact ⟨net, ran, reached, toOption_eq_some_iff.mp checked⟩

/-- A registry that lists the state of a latch twice passes the audit, so it misses some input. -/
theorem counted_of_audit_repeats :
    ∃ net, (withBuckets 0).runAll statefulCommands = .ok net ∧
      net.withRepeats.audit = .ok () ∧
      ¬ ∀ id, (∃ n, net.withRepeats.node? id = some n ∧ n.isInput = true) →
        id ∈ net.withRepeats.inputs.toList := by
  obtain ⟨net, ran, reached, accepted⟩ := exists_withRepeats
  have stores : ∀ family, (net.withRepeats.bank family).elements.Sound := by
    intro family
    have store := (reached.sound.banks family).store
    cases family <;> exact store
  obtain ⟨registries, _⟩ := counted_of_audit accepted stores
  refine ⟨net, ran, accepted, fun complete => ?_⟩
  have unrepeated : ([0, 5, 10, 10] : List Nat).Nodup :=
    (registries .inputs).complete_iff.mp complete
  exact absurd unrepeated (by decide)

/-- The audit accepts a network none of whose lists is exact. -/
theorem audit_overlooks_repeats :
    ∃ net, (withBuckets 0).runAll statefulCommands = .ok net ∧
      net.withRepeats.audit = .ok () ∧
      (∀ r : Registry, ¬ r.Exact net.withRepeats.nodes.layout.kind? (net.withRepeats.registry r)) ∧
      ∀ family, ¬ (net.withRepeats.bank family).Sound := by
  obtain ⟨net, ran, _, accepted⟩ := exists_withRepeats
  refine ⟨net, ran, accepted, fun r exact => ?_, fun family sound => ?_⟩
  · cases r with
    | inputs => exact absurd exact.1 (show ¬ ([0, 5, 10, 10] : List Nat).Nodup by decide)
    | outputs => exact absurd exact.1 (show ¬ (List.replicate 16 1).Nodup by decide)
    | gates => exact absurd exact.1 (show ¬ ([20, 20] : List Nat).Nodup by decide)
  · cases family with
    | flipFlop => exact absurd sound.nodup (show ¬ ([0, 0] : List Nat).Nodup by decide)
    | latch => exact absurd sound.nodup (show ¬ ([1, 1] : List Nat).Nodup by decide)

end Network

end GateNet
