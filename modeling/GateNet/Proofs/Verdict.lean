import GateNet.Proofs.Closed
import GateNet.Proofs.Growth
import GateNet.Proofs.Intact

/-!
# Where the audit faults

The records of a network may say anything when it is audited.  Each check makes sure of the ids
that later checks follow: the walks over the chains end before anything is looked up, and the wires
and registries name live nodes before the order of evaluation follows them.  Only the order of a
bank is followed unchecked, so the audit faults where that names an element that is not live, and
nowhere else.
-/

namespace GateNet

namespace Network

variable {net : Network} {fault : Fault}

/-! ## Faults -/

theorem lift_fault_ne_faulted {α : Type} {question : Except Fault α} {answer : α}
    (answered : question = .ok answer) (fault : Fault) :
    (liftM question : Except Failure α) ≠ .error (.faulted fault) := by
  subst answered
  intro faulted
  cases faulted

/-! ## Looking gates up -/

/-- Once the walks over all chains have ended, searches end as well. -/
theorem exists_find?_of_auditChains (positive : 0 < net.table.size)
    (passed : net.auditChains = .ok ()) (key : Key) : ∃ found, net.find? key = .ok found := by
  obtain ⟨left, walked, _⟩ := bind_eq_ok_iff.mp passed
  obtain ⟨lists, linked, _⟩ := exists_chains_of_foldlM walked
  have chain := chain_of_bucket linked (key.bucket net.table.size)
  rw [find?, head_eq net positive, ok_bind]
  exact ⟨_, Store.findOnChain_eq chain (chain.length_le chain.nodup)⟩

theorem auditGate_ne_faulted (positive : 0 < net.table.size) (passed : net.auditChains = .ok ())
    (n : Node) (fault : Fault) : net.auditGate n ≠ .error (.faulted fault) := by
  unfold auditGate
  split
  · intro faulted
    cases faulted
  · next a b _ =>
    obtain ⟨found, search⟩ := exists_find?_of_auditChains positive passed ⟨n.gate, a, b⟩
    refine bind_ne_error (lift_ne_faulted _ _) fun _ => ?_
    refine bind_ne_error (lift_ne_faulted _ _) fun _ => ?_
    exact bind_ne_error (lift_fault_ne_faulted search _) fun _ => lift_ne_faulted _ _

theorem auditNode_ne_faulted (positive : 0 < net.table.size) (passed : net.auditChains = .ok ())
    (slot : NodeId × Node) (fault : Fault) : net.auditNode slot ≠ .error (.faulted fault) := by
  unfold auditNode
  refine bind_ne_error (lift_ne_faulted _ _) fun _ => ?_
  refine bind_ne_error (lift_ne_faulted _ _) fun _ => ?_
  refine bind_ne_error (lift_ne_faulted _ _) fun _ => ?_
  split
  · exact auditGate_ne_faulted positive passed slot.2 fault
  · split
    · exact lift_ne_faulted _ _
    · exact lift_ne_faulted _ _

/-! ## The graph -/

/-- Once these checks have passed, everything that is mentioned is live. -/
theorem Charted.closed (charted : net.Charted) (formed : net.Formed) : net.Closed where
  inside live := by
    obtain ⟨n, held⟩ := live
    exact Store.lt_bound formed.nodes held
  registered r id listed := by
    obtain ⟨n, held, _⟩ := (auditRegistry_eq_ok_iff.mp (charted.registries r)).2 id listed
    exact ⟨n, held⟩
  driven held wire := by
    obtain ⟨_, drivers, _⟩ := auditNode_eq_ok_iff.mp (charted.nodes held)
    obtain ⟨m, found, _⟩ := auditDriver_eq_ok_iff.mp (drivers _) _ wire
    exact ⟨m, found⟩
  read held listed := by
    obtain ⟨_, _, readers, _⟩ := auditNode_eq_ok_iff.mp (charted.nodes held)
    obtain ⟨m, found, _⟩ := auditFanout_eq_ok_iff.mp (readers _ listed)
    exact ⟨m, found⟩

theorem Charted.auditOrder_ne_faulted (charted : net.Charted) (formed : net.Formed)
    (fault : Fault) : net.auditOrder ≠ .error (.faulted fault) := by
  obtain ⟨order, ordered, _⟩ := (charted.closed formed).exists_driversFirst
  exact bind_ne_error (lift_fault_ne_faulted ordered fault) fun _ => lift_ne_faulted _ _

/-! ## Elements -/

theorem auditElement_eq_faulted_iff {family : Family} {id : ElementId} :
    net.auditElement family id = .error (.faulted fault) ↔
      net.element? family id = none ∧ fault = .deadSlot id := by
  unfold auditElement element? Store.fetch
  cases (net.bank family).elements.get? id with
  | none =>
    show Except.error (Failure.faulted (.deadSlot id)) = .error (.faulted fault) ↔ _
    simp [eq_comm]
  | some e =>
    refine iff_of_false ?_ (by simp)
    exact bind_ne_error (lift_fault_ne_faulted rfl fault) fun _ => lift_ne_faulted _ _

/-- The order of a bank is as long as it should be, and comes to a dead element before anything
else is found. -/
structure StraysIn (net : Network) (family : Family) (id : ElementId) : Prop where
  count : (net.bank family).order.size = (net.bank family).elements.size
  first : ∃ before after, (net.bank family).order.toList = before ++ id :: after ∧
    ∀ element ∈ before, net.auditElement family element = .ok ()
  dead : net.element? family id = none

theorem auditBank_eq_faulted_iff {family : Family} :
    net.auditBank family = .error (.faulted fault) ↔
      ∃ id, net.StraysIn family id ∧ fault = .deadSlot id := by
  unfold auditBank
  simp only [seq_eq_error_iff, lift_ne_faulted, false_or, lift_eq_ok_iff, require_eq_ok_iff,
    beq_iff_eq, forM_eq_error_iff, auditElement_eq_faulted_iff]
  constructor
  · intro faulted
    obtain ⟨count, before, id, after, split, passed, dead, same⟩ := faulted
    exact ⟨id, ⟨count, ⟨before, after, split, passed⟩, dead⟩, same⟩
  · intro strayed
    obtain ⟨id, ⟨count, ⟨before, after, split, passed⟩, dead⟩, same⟩ := strayed
    exact ⟨count, before, id, after, split, passed, dead, same⟩

/-! ## The whole network -/

/-- The audit comes to a dead element: all checks before have passed. -/
structure StraysAt (net : Network) (family : Family) (id : ElementId) : Prop
    extends net.Charted, net.StraysIn family id where
  flipFlops : family = .latch → net.auditBank .flipFlop = .ok ()

/-- The audit faults exactly where the order of a bank strays. -/
theorem Formed.audit_eq_faulted_iff (formed : net.Formed) :
    net.audit = .error (.faulted fault) ↔
      ∃ family id, net.StraysAt family id ∧ fault = .deadSlot id := by
  unfold audit
  simp only [seq_eq_error_iff, lift_ne_faulted, false_or, lift_eq_ok_iff,
    auditBank_eq_faulted_iff]
  constructor
  · intro faulted
    obtain ⟨chains, faulted⟩ := faulted
    cases faulted with
    | inl atNode =>
      obtain ⟨_, slot, _, _, _, faulted⟩ := forM_eq_error_iff.mp atNode
      exact absurd faulted (auditNode_ne_faulted formed.table chains slot fault)
    | inr later =>
      obtain ⟨nodes, inputs, outputs, gates, ports, faulted⟩ := later
      have charted := charted_iff.mpr ⟨chains, nodes, inputs, outputs, gates, ports⟩
      obtain ⟨id, strays, same⟩ | ⟨flipFlops, ⟨id, strays, same⟩ | ⟨_, atOrder⟩⟩ := faulted
      · exact ⟨.flipFlop, id, ⟨charted, strays, nofun⟩, same⟩
      · exact ⟨.latch, id, ⟨charted, strays, fun _ => flipFlops⟩, same⟩
      · exact absurd atOrder (charted.auditOrder_ne_faulted formed fault)
  · intro strayed
    obtain ⟨family, id, strays, same⟩ := strayed
    obtain ⟨chains, nodes, inputs, outputs, gates, ports⟩ := charted_iff.mp strays.toCharted
    refine ⟨chains, .inr ⟨nodes, inputs, outputs, gates, ports, ?_⟩⟩
    cases family with
    | flipFlop => exact .inl ⟨id, strays.toStraysIn, same⟩
    | latch => exact .inr ⟨strays.flipFlops rfl, .inl ⟨id, strays.toStraysIn, same⟩⟩

end Network

end GateNet
