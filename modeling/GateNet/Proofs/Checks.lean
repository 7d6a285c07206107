import GateNet.Proofs.Audit

/-!
# What each check decides

One equivalence for each function of the audit: it passes exactly when what it checks holds.  No
network is assumed to be sound, so the equivalences can be read backwards from a passed audit.
-/

namespace GateNet

/-! ## Passing a sequence of checks -/

theorem toOption_eq_some_iff {ε α : Type} {question : Except ε α} {answer : α} :
    question.toOption = some answer ↔ question = .ok answer := by
  cases question <;> simp [Except.toOption]

theorem seq_eq_ok_iff {ε : Type} {first : Except ε Unit} {next : Unit → Except ε Unit} :
    (first >>= next) = .ok () ↔ first = .ok () ∧ next () = .ok () := by
  rw [bind_eq_ok_iff]
  exact ⟨fun ⟨_, passed, rest⟩ => ⟨passed, rest⟩, fun ⟨passed, rest⟩ => ⟨(), passed, rest⟩⟩

theorem forM_eq_ok_iff {ε α : Type} {check : α → Except ε Unit} {items : List α} :
    items.forM check = .ok () ↔ ∀ a ∈ items, check a = .ok () := by
  refine ⟨fun passed => ?_, forM_eq_ok⟩
  induction items with
  | nil => simp
  | cons a rest inductionHypothesis =>
    obtain ⟨first, others⟩ := seq_eq_ok_iff.mp (show (check a >>= fun _ => rest.forM check) = _
      from passed)
    exact List.forall_mem_cons.mpr ⟨first, inductionHypothesis others⟩

/-- Two steps do not end in an error that neither of them ends in. -/
theorem bind_ne_error {ε α β : Type} {first : Except ε α} {next : α → Except ε β} {bad : ε}
    (notFirst : first ≠ .error bad) (notNext : ∀ answer, next answer ≠ .error bad) :
    (first >>= next) ≠ .error bad := by
  cases first with
  | ok answer => exact notNext answer
  | error other =>
    intro failed
    exact notFirst (congrArg Except.error (Except.error.inj failed))

theorem seq_eq_error_iff {ε : Type} {first : Except ε Unit} {next : Unit → Except ε Unit}
    {bad : ε} : (first >>= next) = .error bad ↔
      first = .error bad ∨ first = .ok () ∧ next () = .error bad := by
  cases first with
  | ok done =>
    show next () = .error bad ↔ _
    simp
  | error other =>
    show Except.error other = .error bad ↔ _
    simp

/-- A sequence of checks fails with the first check that fails. -/
theorem forM_eq_error_iff {ε α : Type} {check : α → Except ε Unit} {items : List α} {bad : ε} :
    items.forM check = .error bad ↔ ∃ before a after, items = before ++ a :: after ∧
      (∀ b ∈ before, check b = .ok ()) ∧ check a = .error bad := by
  induction items with
  | nil =>
    refine iff_of_false nofun fun failure => ?_
    obtain ⟨before, a, after, split, _⟩ := failure
    simp at split
  | cons x rest inductionHypothesis =>
    change (check x >>= fun _ => rest.forM check) = .error bad ↔ _
    rw [seq_eq_error_iff, inductionHypothesis]
    constructor
    · intro failure
      cases failure with
      | inl failed => exact ⟨[], x, rest, rfl, by simp, failed⟩
      | inr later =>
        obtain ⟨passed, before, a, after, split, others, failed⟩ := later
        rw [split]
        exact ⟨x :: before, a, after, rfl, List.forall_mem_cons.mpr ⟨passed, others⟩, failed⟩
    · intro failure
      obtain ⟨before, a, after, split, others, failed⟩ := failure
      cases before with
      | nil =>
        cases split
        exact .inl failed
      | cons y before =>
        cases split
        obtain ⟨passed, others⟩ := List.forall_mem_cons.mp others
        exact .inr ⟨passed, before, a, after, rfl, others, failed⟩

theorem Operand.mem_all (operand : Operand) : operand ∈ all := by
  cases operand <;> decide

namespace Network

variable {net : Network} {id : NodeId} {n : Node}

theorem require_eq_ok_iff {condition : Bool} {defect : Defect} {done : Unit} :
    require condition defect = .ok done ↔ condition = true := by
  cases condition <;> simp [require]

theorem lift_fault_eq_ok_iff {α : Type} {question : Except Fault α} {answer : α} :
    (liftM question : Except Failure α) = .ok answer ↔ question = .ok answer := by
  cases question with
  | ok found =>
    show (Except.ok found : Except Failure α) = .ok answer ↔ _
    simp
  | error fault =>
    show (Except.error (.faulted fault) : Except Failure α) = .ok answer ↔ _
    simp

/-! ## Nodes -/

theorem auditDriver_eq_ok_iff {operand : Operand} :
    net.auditDriver n operand = .ok () ↔ ∀ d, n.driver operand = some d →
      ∃ m, net.node? d = some m ∧ m.isOutput = false ∧ m.fanouts.count ⟨n.id, operand⟩ = 1 := by
  unfold auditDriver
  cases n.driver operand with
  | none => simp
  | some d =>
    cases held : net.node? d with
    | none => simp [held]
    | some m => cases output : m.isOutput <;> simp [held, output, require_eq_ok_iff]

theorem auditFanout_eq_ok_iff {entry : Fanout} :
    net.auditFanout n entry = .ok () ↔
      ∃ m, net.node? entry.reader = some m ∧ m.driver entry.operand = some n.id := by
  unfold auditFanout
  cases net.node? entry.reader with
  | none => simp
  | some m => simp [require_eq_ok_iff]

theorem auditGate_eq_ok_iff :
    net.auditGate n = .ok () ↔
      ∃ key, n.key? = some key ∧ key.Proper ∧ net.find? key = .ok (some n.id) := by
  unfold auditGate Node.key?
  cases n.gateOperands with
  | none => simp
  | some operands =>
    obtain ⟨a, b⟩ := operands
    simp only [bind_eq_ok_iff, lift_eq_ok_iff, lift_fault_eq_ok_iff, require_eq_ok_iff, exists_const,
      exists_eq_right, beq_iff_eq, Bool.and_eq_true, Bool.not_eq_true', decide_eq_true_eq,
      Option.map_some, Option.some.injEq]
    constructor
    · rintro ⟨ordered, ⟨⟨grounded, needsFirst⟩, needsSecond⟩, found⟩
      exact ⟨_, rfl, ⟨ordered, grounded, needsFirst, needsSecond⟩, found⟩
    · rintro ⟨_, rfl, proper, found⟩
      exact ⟨proper.ordered, ⟨⟨proper.grounded, proper.needsFirst⟩, proper.needsSecond⟩, found⟩

theorem auditInput_eq_ok_iff : auditInput n = .ok () ↔ n.first = none ∧ n.second = none := by
  simp [auditInput, require_eq_ok_iff]

theorem auditOutput_eq_ok_iff : auditOutput n = .ok () ↔ n.second = none ∧ n.fanouts = #[] := by
  simp [auditOutput, seq_eq_ok_iff, require_eq_ok_iff]

/-- What is checked of a live node besides its wires. -/
theorem auditNode_eq_ok_iff :
    net.auditNode (id, n) = .ok () ↔ n.id = id ∧
      (∀ operand, net.auditDriver n operand = .ok ()) ∧
      (∀ entry ∈ n.fanouts, net.auditFanout n entry = .ok ()) ∧
      (n.isGate = true → net.auditGate n = .ok ()) ∧
      (n.isInput = true → auditInput n = .ok ()) ∧
      (n.isOutput = true → auditOutput n = .ok ()) := by
  unfold auditNode
  simp only [seq_eq_ok_iff, lift_eq_ok_iff, require_eq_ok_iff, forM_eq_ok_iff, beq_iff_eq,
    Array.mem_toList_iff, Operand.mem_all, forall_true_left]
  refine and_congr_right fun _ => and_congr_right fun _ => and_congr_right fun _ => ?_
  rw [Node.isOutput_eq]
  cases gate : n.isGate with
  | true =>
    have notInput : n.isInput = false := by
      cases input : n.isInput with
      | false => rfl
      | true => rw [Node.not_isGate_of_isInput input] at gate; cases gate
    simp [notInput]
  | false => cases n.isInput <;> simp [lift_eq_ok_iff]

/-! ## Registries -/

theorem auditEntry_eq_ok_iff {r : Registry} :
    net.auditEntry r id = .ok () ↔ ∃ n, net.node? id = some n ∧ r.admits n.kind = true := by
  unfold auditEntry
  cases net.node? id <;> simp [require_eq_ok_iff]

theorem auditRegistry_eq_ok_iff {r : Registry} :
    net.auditRegistry r = .ok () ↔ (net.registry r).size = net.liveCount r ∧
      ∀ id ∈ net.registry r, ∃ n, net.node? id = some n ∧ r.admits n.kind = true := by
  unfold auditRegistry
  simp only [seq_eq_ok_iff, require_eq_ok_iff, forM_eq_ok_iff, auditEntry_eq_ok_iff, beq_iff_eq,
    Array.mem_toList_iff]

/-! ## Owners -/

theorem auditTerminal_eq_ok_iff {kind : Kind} :
    net.auditTerminal kind id = .ok () ↔ ∃ n, net.node? id = some n ∧ n.kind = kind := by
  unfold auditTerminal
  cases net.node? id <;> simp [require_eq_ok_iff]

theorem auditPort_eq_ok_iff {p : Port} :
    net.auditPort p = .ok () ↔ ∀ bit < p.width,
      (∀ id, p.input bit = some id → net.auditTerminal (.portInput p.id bit) id = .ok ()) ∧
      ∀ id, p.output bit = some id → net.auditTerminal (.portOutput p.id bit) id = .ok () := by
  unfold auditPort auditBit
  simp only [forM_eq_ok_iff, seq_eq_ok_iff, List.mem_range, Option.mem_toList]

theorem auditElement_eq_ok_iff {family : Family} {element : ElementId} :
    net.auditElement family element = .ok () ↔ ∃ e, net.element? family element = some e ∧
      ∀ pin, net.auditTerminal (.state family e.id pin) (e.terminal pin) = .ok () := by
  unfold auditElement
  simp only [bind_eq_ok_iff, lift_fault_eq_ok_iff, lift_eq_ok_iff, Store.fetch_eq_ok_iff,
    forM_eq_ok_iff, Pin.mem_all, forall_true_left]
  rfl

theorem auditBank_eq_ok_iff {family : Family} :
    net.auditBank family = .ok () ↔
      (net.bank family).order.size = (net.bank family).elements.size ∧
      ∀ element ∈ (net.bank family).order, net.auditElement family element = .ok () := by
  unfold auditBank
  simp only [seq_eq_ok_iff, lift_eq_ok_iff, require_eq_ok_iff, forM_eq_ok_iff, beq_iff_eq,
    Array.mem_toList_iff]

/-! ## The whole network -/

theorem auditOrder_eq_ok_iff :
    net.auditOrder = .ok () ↔
      ∃ order, net.driversFirst = .ok order ∧ order.length = net.gates.size := by
  unfold auditOrder
  simp only [bind_eq_ok_iff, lift_fault_eq_ok_iff, lift_eq_ok_iff, require_eq_ok_iff, beq_iff_eq]

/-- The checks of the table, the nodes, the registries and the ports. -/
structure Charted (net : Network) : Prop where
  chains : net.auditChains = .ok ()
  nodes : ∀ {id n}, net.node? id = some n → net.auditNode (id, n) = .ok ()
  registries : ∀ r, net.auditRegistry r = .ok ()
  ports : ∀ p ∈ net.ports, net.auditPort p = .ok ()

theorem charted_iff :
    net.Charted ↔ net.auditChains = .ok () ∧ net.nodes.toList.forM net.auditNode = .ok () ∧
      net.auditRegistry .inputs = .ok () ∧ net.auditRegistry .outputs = .ok () ∧
      net.auditRegistry .gates = .ok () ∧
      net.ports.toList.forM (m := Except Refusal) net.auditPort = .ok () := by
  simp only [forM_eq_ok_iff, Prod.forall, Array.mem_toList_iff, Store.mem_toList]
  constructor
  · intro charted
    exact ⟨charted.chains, fun _ _ held => charted.nodes held, charted.registries _,
      charted.registries _, charted.registries _, charted.ports⟩
  · intro passed
    obtain ⟨chains, nodes, inputs, outputs, gates, ports⟩ := passed
    refine ⟨chains, fun held => nodes _ _ held, fun r => ?_, ports⟩
    cases r with
    | inputs => exact inputs
    | outputs => exact outputs
    | gates => exact gates

/-- All checks of the audit. -/
structure Checked (net : Network) : Prop where
  chains : net.auditChains = .ok ()
  nodes : ∀ {id n}, net.node? id = some n → net.auditNode (id, n) = .ok ()
  registries : ∀ r, net.auditRegistry r = .ok ()
  ports : ∀ p ∈ net.ports, net.auditPort p = .ok ()
  banks : ∀ family, net.auditBank family = .ok ()
  order : net.auditOrder = .ok ()

theorem Checked.charted (checked : net.Checked) : net.Charted :=
  ⟨checked.chains, checked.nodes, checked.registries, checked.ports⟩

theorem audit_eq_ok_iff : net.audit = .ok () ↔ net.Checked := by
  unfold audit
  simp only [seq_eq_ok_iff, lift_eq_ok_iff]
  constructor
  · intro passed
    obtain ⟨chains, nodes, inputs, outputs, gates, ports, flipFlops, latches, order⟩ := passed
    have charted := charted_iff.mpr ⟨chains, nodes, inputs, outputs, gates, ports⟩
    refine ⟨charted.chains, charted.nodes, charted.registries, charted.ports, fun family => ?_,
      order⟩
    cases family with
    | flipFlop => exact flipFlops
    | latch => exact latches
  · intro checked
    obtain ⟨chains, nodes, inputs, outputs, gates, ports⟩ := charted_iff.mp checked.charted
    exact ⟨chains, nodes, inputs, outputs, gates, ports, checked.banks _, checked.banks _,
      checked.order⟩

end Network

end GateNet
