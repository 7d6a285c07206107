import GateNet.Network.Audit
import GateNet.Proofs.Reachable

/-!
# The audit finds nothing

Each part of the audit checks what a part of soundness says.  On a sound network none of them
finds a defect, so no command, and no order of commands, ever leaves a network that the audit
rejects.
-/

namespace GateNet

theorem forM_eq_ok {ε α : Type} {check : α → Except ε Unit} {items : List α}
    (passes : ∀ a ∈ items, check a = .ok ()) : items.forM check = .ok () := by
  induction items with
  | nil => rfl
  | cons a rest inductionHypothesis =>
    show (check a >>= fun _ => rest.forM check) = .ok ()
    rw [passes a (.head _), ok_bind]
    exact inductionHypothesis fun b listed => passes b (.tail _ listed)

namespace Network

variable {net : Network}

theorem require_of {condition : Bool} (held : condition = true) (defect : Defect) :
    require condition defect = .ok () := by
  rw [require, if_pos held]

/-! ## The table -/

/-- A walk over a chain takes one from the budget for each of its nodes. -/
theorem auditChain_eq {list : List NodeId} {head : Option NodeId} (chain : net.nodes.Chain head list)
    (left : Nat) : net.auditChain (list.length + left) head = .ok left := by
  induction list generalizing head with
  | nil =>
    obtain rfl : head = none := chain
    rw [List.length_nil, Nat.zero_add]
    cases left <;> rfl
  | cons id rest inductionHypothesis =>
    obtain ⟨rfl, n, held, chain⟩ := chain
    rw [List.length_cons, Nat.add_right_comm, auditChain, node?, held]
    exact inductionHypothesis chain

theorem auditChain_foldlM_eq {lists : List (List NodeId)} {heads : List (Option NodeId)}
    (linked : List.Forall₂ net.nodes.Chain heads lists) (left : Nat) :
    heads.foldlM net.auditChain (lists.flatten.length + left) = .ok left := by
  induction linked with
  | nil => rw [List.flatten_nil, List.length_nil, Nat.zero_add]; rfl
  | cons chain _ inductionHypothesis =>
    rw [List.flatten_cons, List.length_append, Nat.add_assoc, List.foldlM_cons,
      auditChain_eq chain, ok_bind, inductionHypothesis]

theorem Sound.auditChains (sound : net.Sound) : net.auditChains = .ok () := by
  obtain ⟨lists, linked, nodup, listed⟩ := sound.woven.tabled.exists_lists
  have count : lists.flatten.length = net.gates.size := by
    rw [← Array.length_toList]
    refine List.Perm.length_eq <|
      (List.perm_ext_iff_of_nodup nodup (sound.registered .gates).1).mpr fun id => ?_
    rw [listed, ← sound.mem_gates_iff]
    exact Array.mem_toList_iff.symm
  have walked := auditChain_foldlM_eq linked 0
  rw [Nat.add_zero, count] at walked
  rw [Network.auditChains, walked, ok_bind]
  exact require_of rfl _

/-! ## Nodes -/

section Nodes

variable {id : NodeId} {n : Node}

theorem Sound.auditDriver (sound : net.Sound) (held : net.nodes.get? id = some n)
    (operand : Operand) : net.auditDriver n operand = .ok () := by
  unfold Network.auditDriver node?
  cases driven : n.driver operand with
  | none => rfl
  | some d =>
    have live := Store.layout_of_get? held
    obtain ⟨m, drives, notOutput⟩ := sound.woven.layout.driven (p := operand) live
      ((Node.core_driver n operand).trans driven)
    obtain ⟨source, found, rfl⟩ := Store.layout_eq_some_iff.mp drives
    have wire : net.nodes.driverAt ⟨n.id, operand⟩ = some d := by
      rw [show n.id = id from (sound.woven.layout.fits live).id_eq]
      exact Store.driverAt_eq_some_iff.mpr ⟨n, held, driven⟩
    have counted : source.fanouts.count ⟨n.id, operand⟩ = 1 := by
      rw [sound.woven.wired.lists d source found, if_pos wire]
    rw [Node.core_isOutput] at notOutput
    simp only [found, notOutput, counted]
    rfl

theorem Sound.auditFanout (sound : net.Sound) (held : net.nodes.get? id = some n) {entry : Fanout}
    (listed : entry ∈ n.fanouts) : net.auditFanout n entry = .ok () := by
  have wire := (sound.woven.wired.mem_fanouts_iff held).mp listed
  obtain ⟨reader, found, driven⟩ := Store.driverAt_eq_some_iff.mp wire
  have named : n.id = id := (sound.woven.layout.fits (Store.layout_of_get? held)).id_eq
  rw [Network.auditFanout, node?, found]
  exact require_of (by rw [driven, named]; exact beq_self_eq_true _) _

theorem Sound.auditGate (sound : net.Sound) (held : net.nodes.get? id = some n)
    (gate : n.isGate = true) : net.auditGate n = .ok () := by
  have live := Store.layout_of_get? held
  obtain ⟨key, nodeKey, proper⟩ := (sound.woven.layout.fits live).gate gate
  rw [Node.core_key?] at nodeKey
  obtain ⟨operands, gateEq⟩ := Node.gateOperands_of_key? nodeKey
  obtain ⟨found, search, exact⟩ := net.find?_spec sound.woven.layout sound.woven.tabled key
  have keyed : net.nodes.layout.key? id = some key := by
    rw [Layout.key?_of_get? held, nodeKey]
  obtain rfl := (exact id).mpr keyed
  have named : n.id = id := (sound.woven.layout.fits live).id_eq
  have hashed : require (some id == some n.id) (.unhashed n.id) = .ok () :=
    require_of (by rw [named]; exact beq_self_eq_true _) _
  unfold Network.auditGate
  simp only [operands, gateEq, proper.ordered, proper.grounded, proper.needsFirst,
    proper.needsSecond, search, decide_true]
  show (liftM (require (some id == some n.id) (.unhashed n.id)) : Except Failure Unit) = .ok ()
  rw [hashed]
  rfl

theorem Sound.auditNode (sound : net.Sound) (held : net.nodes.get? id = some n) :
    net.auditNode (id, n) = .ok () := by
  have fits := sound.woven.layout.fits (Store.layout_of_get? held)
  have named : require (n.id == id) (.slotMismatch id n.id) = .ok () :=
    require_of (by rw [show n.id = id from fits.id_eq]; exact beq_self_eq_true _) _
  have drivers : Operand.all.forM (net.auditDriver n) = .ok () :=
    forM_eq_ok fun operand _ => sound.auditDriver held operand
  have readers : n.fanouts.toList.forM (net.auditFanout n) = .ok () :=
    forM_eq_ok fun entry listed => sound.auditFanout held (Array.mem_toList_iff.mp listed)
  have kinds : (if n.isGate then net.auditGate n
      else if n.isInput then (auditInput n : Except Failure Unit) else auditOutput n) = .ok () := by
    cases gate : n.isGate with
    | true => exact sound.auditGate held gate
    | false =>
      cases input : n.isInput with
      | true =>
        obtain ⟨first, second⟩ := fits.input input
        rw [Node.core_first] at first
        rw [Node.core_second] at second
        simp only [auditInput, first, second]
        rfl
      | false =>
        have output : n.isOutput = true := by rw [Node.isOutput_eq, gate, input]; rfl
        have second : n.second = none := fits.output output
        -- A reader would be driven by an output, and outputs may not drive.
        have unread : n.fanouts = #[] := by
          refine (sound.woven.wired.fanouts_eq_empty_iff held).mpr fun e wire => ?_
          obtain ⟨reader, found, driven⟩ := Store.driverAt_eq_some_iff.mp wire
          exact Layout.not_mayDrive_of_isOutput (Store.layout_of_get? held) output
            (sound.woven.layout.driven (Store.layout_of_get? found)
              ((Node.core_driver reader e.operand).trans driven))
        simp only [auditOutput, second, unread]
        rfl
  unfold Network.auditNode
  simp only [named, drivers, readers]
  exact kinds

end Nodes

/-! ## Registries -/

/-- The live nodes that belong to a registry, in increasing order. -/
def live (net : Network) (r : Registry) : List NodeId :=
  (net.nodes.toList.filter fun entry => r.admits entry.2.kind).map Prod.fst

theorem nodup_live (r : Registry) : (net.live r).Nodup :=
  net.nodes.nodup_map_fst_toList.sublist (List.filter_sublist.map _)

theorem mem_live_iff {r : Registry} {id : NodeId} :
    id ∈ net.live r ↔ ∃ n, net.node? id = some n ∧ r.admits n.kind = true := by
  simp only [live, List.mem_map, List.mem_filter, Prod.exists, exists_and_right, exists_eq_right,
    Store.mem_toList]
  rfl

theorem mem_live_iff_kind? {r : Registry} {id : NodeId} :
    id ∈ net.live r ↔ ∃ kind, net.nodes.layout.kind? id = some kind ∧ r.admits kind = true := by
  rw [mem_live_iff]
  constructor
  · intro ⟨n, held, admits⟩
    exact ⟨n.kind, Layout.kind?_of_get? held, admits⟩
  · intro ⟨kind, held, admits⟩
    obtain ⟨n, found, rfl⟩ := Layout.exists_get?_of_kind? held
    exact ⟨n, found, admits⟩

theorem length_live (r : Registry) : (net.live r).length = net.liveCount r := by
  rw [live, List.length_map, liveCount, List.countP_eq_length_filter]

theorem mem_live_gates_iff {id : NodeId} :
    id ∈ net.live .gates ↔ net.nodes.layout.HasGate id := by
  rw [mem_live_iff]
  constructor
  · intro ⟨n, held, gate⟩
    exact ⟨n.core, Store.layout_of_get? held, gate⟩
  · intro ⟨n, held, gate⟩
    obtain ⟨m, found, rfl⟩ := Store.layout_eq_some_iff.mp held
    exact ⟨m, found, gate⟩

theorem Sound.liveCount_eq (sound : net.Sound) (r : Registry) :
    net.liveCount r = (net.registry r).size := by
  obtain ⟨nodup, exact⟩ := sound.registered r
  rw [← length_live, ← Array.length_toList]
  apply List.Perm.length_eq
  apply (List.perm_ext_iff_of_nodup (nodup_live r) nodup).mpr
  intro id
  rw [mem_live_iff_kind?, ← exact, ← Array.mem_toList_iff]

theorem Sound.auditRegistry (sound : net.Sound) (r : Registry) :
    net.auditRegistry r = .ok () := by
  have entries : (net.registry r).toList.forM (net.auditEntry r) = .ok () := by
    refine forM_eq_ok fun id listed => ?_
    obtain ⟨kind, held, admits⟩ := ((sound.registered r).2 id).mp (Array.mem_toList_iff.mp listed)
    obtain ⟨n, found, rfl⟩ := Layout.exists_get?_of_kind? held
    rw [auditEntry, node?, found]
    exact require_of admits _
  unfold Network.auditRegistry
  simp only [sound.liveCount_eq r, require_of (beq_self_eq_true _)]
  exact entries

/-! ## Owners -/

theorem Sound.auditTerminal (sound : net.Sound) {kind : Kind} (terminal : kind.isGate = false)
    {id : NodeId} (named : net.terminal? kind = some id) : net.auditTerminal kind id = .ok () := by
  have held := (sound.owned.named kind terminal not_false id).mp named
  obtain ⟨n, found, rfl⟩ := Layout.exists_get?_of_kind? held
  rw [Network.auditTerminal, node?, found]
  exact require_of (beq_self_eq_true _) _

theorem Sound.auditPort (sound : net.Sound) {p : Port} {port : PortId}
    (held : net.ports[port]? = some p) : net.auditPort p = .ok () := by
  refine forM_eq_ok fun bit listed => ?_
  have small : bit < p.width := List.mem_range.mp listed
  have input : (p.input bit).toList.forM (net.auditTerminal (.portInput port bit)) = .ok () := by
    refine forM_eq_ok fun id named => sound.auditTerminal rfl ?_
    rw [terminal?, held, Option.bind_some]
    exact Option.mem_toList.mp named
  have output : (p.output bit).toList.forM (net.auditTerminal (.portOutput port bit)) = .ok () := by
    refine forM_eq_ok fun id named => sound.auditTerminal rfl ?_
    rw [terminal?, held, Option.bind_some, if_pos small]
    exact Option.mem_toList.mp named
  rw [auditBit, (sound.ports held).numbered, input, ok_bind]
  exact output

theorem Sound.auditElement (sound : net.Sound) {family : Family} {id : ElementId} {e : Element}
    (held : net.element? family id = some e) : net.auditElement family id = .ok () := by
  have pins : Pin.all.forM (fun pin => net.auditTerminal (.state family id pin) (e.terminal pin)) =
      .ok () :=
    forM_eq_ok fun pin _ => sound.auditTerminal rfl (by rw [terminal?, held, Option.map_some])
  unfold Network.auditElement
  rw [Store.fetch_of_get? held, lift_fault_ok, ok_bind, (sound.banks family).numbered held]
  show (liftM (Pin.all.forM fun pin => net.auditTerminal (.state family id pin) (e.terminal pin)) :
    Except Failure Unit) = .ok ()
  rw [pins]
  rfl

theorem Sound.auditBank (sound : net.Sound) (family : Family) : net.auditBank family = .ok () := by
  have bank := sound.banks family
  have count : (net.bank family).order.size = (net.bank family).elements.size := by
    rw [Store.size_eq_length bank.store bank.nodup fun id => by
      rw [Array.mem_toList_iff, bank.exact, Store.contains_iff], Array.length_toList]
  have elements : (net.bank family).order.toList.forM (net.auditElement family) = .ok () := by
    refine forM_eq_ok fun id listed => ?_
    obtain ⟨e, held⟩ := (bank.exact id).mp (Array.mem_toList_iff.mp listed)
    exact sound.auditElement held
  unfold Network.auditBank
  simp only [count, require_of (beq_self_eq_true _)]
  exact elements

/-! ## The whole network -/

theorem Sound.auditOrder (sound : net.Sound) : net.auditOrder = .ok () := by
  obtain ⟨order, orderEq, ordered⟩ := driversFirst_spec sound
  have count : order.length = net.gates.size := by
    rw [← Array.length_toList]
    refine List.Perm.length_eq <|
      (List.perm_ext_iff_of_nodup ordered.nodup (sound.registered .gates).1).mpr fun id => ?_
    rw [ordered.exact, ← sound.mem_gates_iff]
    exact Array.mem_toList_iff.symm
  rw [Network.auditOrder, orderEq]
  show (liftM (require (order.length == net.gates.size) .cycle) : Except Failure Unit) = .ok ()
  rw [require_of (by rw [count]; exact beq_self_eq_true _)]
  rfl

/-- A sound network has no defect that the audit looks for. -/
theorem Sound.audit (sound : net.Sound) : net.audit = .ok () := by
  have nodes : net.nodes.toList.forM net.auditNode = .ok () :=
    forM_eq_ok fun slot listed => sound.auditNode (Store.mem_toList.mp listed)
  have ports : net.ports.toList.forM net.auditPort = .ok () := by
    refine forM_eq_ok fun p listed => ?_
    obtain ⟨port, held⟩ := List.mem_iff_getElem?.mp listed
    exact sound.auditPort ((Array.getElem?_toList ..).symm.trans held)
  unfold Network.audit
  simp only [sound.auditChains, nodes, sound.auditRegistry, ports, sound.auditBank,
    sound.auditOrder]
  rfl

/-- Commands never damage a network: the audit passes on every reachable one, and still passes
after any further commands, none of which faults. -/
theorem audit_of_reachable (reachable : net.Reachable) :
    net.audit = .ok () ∧
      ∀ commands : List Command,
        (∀ command ∈ commands, ∀ source, command = .overwrite source → source.Reachable) →
        ∃ after, net.runAll commands = .ok after ∧ after.audit = .ok () := by
  refine ⟨reachable.sound.audit, fun commands sources => ?_⟩
  obtain ⟨after, ran, reached⟩ := reachable.runAll sources
  exact ⟨after, ran, reached.sound.audit⟩

/-- An input is not erased as a gate, an or-gate becomes an and-gate, and the audit passes. -/
theorem audit_after_commands :
    ∃ net, (withBuckets 0).runAll [.addPort "a" 2, .addInput 0 0, .addInput 0 1, .addOutput 0 0,
      .addGate .or (.positive 0) (.positive 1), .eraseGate 0, .drive 2 (.negative 3),
      .redefine 3 .and (.positive 0) (.positive 1), .prune] = .ok net ∧ net.audit = .ok () := by
  refine Exists.imp (fun net ⟨ran, reached⟩ => ⟨ran, (audit_of_reachable reached).1⟩)
    ((Reachable.withBuckets 0).runAll fun command listed source same => ?_)
  subst same
  simp at listed

end Network

end GateNet
