import GateNet.Proofs.Invariant
import GateNet.Proofs.Marks

/-!
# Networks without dangling ids

A network is closed when every id in a registry, an operand or a fanout is that of a live node.
Both orders of evaluation follow such ids and mark what they meet.  On a closed network neither of
them faults, even if its records contradict each other.
-/

namespace GateNet

namespace Network

variable {net : Network} {w : Worklist} {id : NodeId} {n : Node}

/-- Some live node has the id. -/
def Live (net : Network) (id : NodeId) : Prop := ∃ n, net.node? id = some n

/-- Every id that a live node or a registry mentions is that of a live node. -/
structure Closed (net : Network) : Prop where
  inside : ∀ {id}, net.Live id → id < net.nodes.bound
  registered : ∀ r, ∀ id ∈ net.registry r, net.Live id
  driven : ∀ {id n p d}, net.node? id = some n → n.driver p = some d → net.Live d
  read : ∀ {id n e}, net.node? id = some n → e ∈ n.fanouts → net.Live e.reader

theorem Closed.operand (closed : net.Closed) (held : net.node? id = some n) {a b : NodeId}
    (operands : n.gateOperands = some (a, b)) : ∀ d ∈ [a, b], net.Live d := by
  obtain ⟨first, second⟩ := Node.driver_of_key? (Node.key?_of_gateOperands operands)
  intro d listed
  simp only [List.mem_cons, List.not_mem_nil, or_false] at listed
  cases listed with
  | inl same => exact same ▸ closed.driven (p := .first) held first
  | inr same => exact same ▸ closed.driven (p := .second) held second

theorem Closed.readers (closed : net.Closed) (held : net.node? id = some n) :
    ∀ reader ∈ n.fanouts.toList.map (·.reader), net.Live reader := by
  intro reader listed
  obtain ⟨e, fanout, same⟩ := List.mem_map.mp listed
  exact same ▸ closed.read held (Array.mem_toList_iff.mp fanout)

theorem Sound.closed (sound : net.Sound) : net.Closed where
  inside live := by
    obtain ⟨n, held⟩ := live
    exact Store.lt_bound sound.woven.store held
  registered r id listed := by
    obtain ⟨kind, held, _⟩ := ((sound.registered r).2 id).mp listed
    obtain ⟨n, found, _⟩ := Layout.exists_get?_of_kind? held
    exact ⟨n, found⟩
  driven held wire := by
    obtain ⟨m, live, _⟩ := sound.woven.layout.driven (Store.layout_of_get? held)
      ((Node.core_driver _ _).trans wire)
    obtain ⟨k, found, _⟩ := Store.layout_eq_some_iff.mp live
    exact ⟨k, found⟩
  read held listed := by
    have wire := (sound.woven.wired.mem_fanouts_iff held).mp listed
    obtain ⟨m, found, _⟩ := Store.driverAt_eq_some_iff.mp wire
    exact ⟨m, found⟩

/-! ## What a worklist keeps -/

/-- The marks reach up to the bound, and the queued nodes are live. -/
structure Covered (net : Network) (w : Worklist) : Prop where
  size : w.marks.flags.size = net.nodes.bound
  live : ∀ id ∈ w.queue, net.Live id

theorem Covered.push (covered : net.Covered w) (live : net.Live id) : net.Covered (w.push id) where
  size := (Marks.size_add w.marks id).trans covered.size
  live x queued := by
    cases Array.mem_push.mp queued with
    | inl before => exact covered.live x before
    | inr same => exact same ▸ live

/-- A fold over a worklist succeeds when its steps do. -/
theorem Covered.foldlM {α : Type} {step : Worklist → α → Except Fault Worklist}
    (covered : net.Covered w) (items : List α)
    (advance : ∀ a ∈ items, ∀ w, net.Covered w → ∃ next, step w a = .ok next ∧ net.Covered next) :
    ∃ next, items.foldlM step w = .ok next ∧ net.Covered next := by
  refine foldlM_spec step items w (fun _ => net.Covered) covered ?_
  intro before a after state split covered
  exact advance a (by simp [split]) state covered

namespace Closed

theorem lt_size (closed : net.Closed) (covered : net.Covered w) (live : net.Live id) :
    id < w.marks.flags.size :=
  covered.size ▸ closed.inside live

theorem hasAll_eq (closed : net.Closed) (covered : net.Covered w) {ids : List NodeId}
    (live : ∀ x ∈ ids, net.Live x) : w.marks.hasAll ids = .ok (ids.all w.marks.contains) :=
  Marks.hasAll_eq fun x listed => closed.lt_size covered (live x listed)

/-- All nodes of a registry can be marked. -/
theorem exists_start (closed : net.Closed) (r : Registry) :
    ∃ marks, net.noMarks.markAll (net.registry r).toList = .ok marks ∧ net.Covered { marks } := by
  have small : ∀ id ∈ (net.registry r).toList, id < net.noMarks.flags.size := by
    intro id listed
    rw [noMarks, Marks.size_none]
    exact closed.inside (closed.registered r id (Array.mem_toList_iff.mp listed))
  obtain ⟨marks, marked, size, _⟩ := Marks.markAll_spec small
  exact ⟨marks, marked, size.trans (Marks.size_none _), by simp⟩

/-! ## Drivers first -/

theorem offerReader (closed : net.Closed) (covered : net.Covered w) {e : Fanout}
    (live : net.Live e.reader) :
    ∃ next, net.offerReader w e = .ok next ∧ net.Covered next := by
  obtain ⟨n, held⟩ := live
  have asked := Marks.getElem?_flags (closed.lt_size covered ⟨n, held⟩)
  unfold Network.offerReader
  rw [asked]
  cases w.marks.contains e.reader with
  | true => exact ⟨w, rfl, covered⟩
  | false =>
    simp only [Store.fetch_of_get? held, ok_bind]
    cases operands : n.gateOperands with
    | none => exact ⟨w, rfl, covered⟩
    | some pair =>
      obtain ⟨a, b⟩ := pair
      simp only [closed.hasAll_eq covered (closed.operand held operands), ok_bind]
      cases [a, b].all w.marks.contains with
      | true => exact ⟨w.push e.reader, rfl, covered.push ⟨n, held⟩⟩
      | false => exact ⟨w, rfl, covered⟩

theorem offerReaders (closed : net.Closed) (covered : net.Covered w) (live : net.Live id) :
    ∃ next, net.offerReaders w id = .ok next ∧ net.Covered next := by
  obtain ⟨n, held⟩ := live
  simp only [Network.offerReaders, Store.fetch_of_get? held, ok_bind]
  apply covered.foldlM
  intro e listed w covered
  exact closed.offerReader covered (closed.read held (Array.mem_toList_iff.mp listed))

/-- On a closed network the gates can be listed drivers first. -/
theorem exists_driversFirst (closed : net.Closed) :
    ∃ order, net.driversFirst = .ok order ∧ ∀ id ∈ order, net.Live id := by
  obtain ⟨marks, marked, covered⟩ := closed.exists_start .inputs
  obtain ⟨ready, offered, covered⟩ := covered.foldlM net.inputs.toList <| by
    intro id listed w covered
    exact closed.offerReaders covered (closed.registered .inputs id (Array.mem_toList_iff.mp listed))
  obtain ⟨done, _, drained, covered, _⟩ := Worklist.drain_spec net.keepsBudget_offerReaders
    (fun w _ => net.Covered w) (fun w position inside covered =>
      closed.offerReaders covered (covered.live _ (Array.getElem_mem inside))) ready 0 covered
  refine ⟨done.queue.toList, ?_, fun id listed => covered.live id (Array.mem_toList_iff.mp listed)⟩
  change net.noMarks.markAll net.inputs.toList = _ at marked
  rw [driversFirst, marked, ok_bind, offered, ok_bind, drained]
  rfl

/-! ## Readers first -/

theorem offerDriver (closed : net.Closed) (covered : net.Covered w) (live : net.Live id) :
    ∃ next, net.offerDriver w id = .ok next ∧ net.Covered next := by
  obtain ⟨n, held⟩ := live
  have asked := Marks.getElem?_flags (closed.lt_size covered ⟨n, held⟩)
  simp only [Network.offerDriver, Store.fetch_of_get? held, ok_bind, asked]
  cases w.marks.contains id with
  | true => exact ⟨w, rfl, covered⟩
  | false =>
    cases n.isGate with
    | false => exact ⟨w, rfl, covered⟩
    | true =>
      simp only [closed.hasAll_eq covered (closed.readers held), ok_bind, if_true]
      split
      · exact ⟨w.push id, rfl, covered.push ⟨n, held⟩⟩
      · exact ⟨w, rfl, covered⟩

theorem offerDrivers (closed : net.Closed) (covered : net.Covered w) (live : net.Live id) :
    ∃ next, net.offerDrivers w id = .ok next ∧ net.Covered next := by
  obtain ⟨n, held⟩ := live
  simp only [Network.offerDrivers, Store.fetch_of_get? held, ok_bind]
  cases operands : n.gateOperands with
  | none => exact ⟨w, rfl, covered⟩
  | some pair =>
    apply covered.foldlM
    intro d listed w covered
    exact closed.offerDriver covered (closed.operand held operands d listed)

theorem offerUnread (closed : net.Closed) (covered : net.Covered w) (live : net.Live id) :
    ∃ next, net.offerUnread w id = .ok next ∧ net.Covered next := by
  obtain ⟨n, held⟩ := live
  simp only [Network.offerUnread, Store.fetch_of_get? held, ok_bind]
  cases n.fanouts.isEmpty with
  | true => exact closed.offerDriver covered ⟨n, held⟩
  | false => exact ⟨w, rfl, covered⟩

theorem offerSource (closed : net.Closed) (covered : net.Covered w) (live : net.Live id) :
    ∃ next, net.offerSource w id = .ok next ∧ net.Covered next := by
  obtain ⟨n, held⟩ := live
  simp only [Network.offerSource, Store.fetch_of_get? held, ok_bind]
  cases wire : n.first with
  | none => exact ⟨w, rfl, covered⟩
  | some d => exact closed.offerDriver covered (closed.driven (p := .first) held wire)

/-- On a closed network the gates can be listed readers first. -/
theorem exists_readersFirst (closed : net.Closed) :
    ∃ order, net.readersFirst = .ok order ∧ ∀ id ∈ order, net.Live id := by
  obtain ⟨marks, marked, covered⟩ := closed.exists_start .outputs
  obtain ⟨unread, offered, covered⟩ := covered.foldlM net.gates.toList <| by
    intro id listed w covered
    exact closed.offerUnread covered (closed.registered .gates id (Array.mem_toList_iff.mp listed))
  obtain ⟨ready, offered', covered⟩ := covered.foldlM net.outputs.toList <| by
    intro id listed w covered
    exact closed.offerSource covered (closed.registered .outputs id (Array.mem_toList_iff.mp listed))
  obtain ⟨done, _, drained, covered, _⟩ := Worklist.drain_spec net.keepsBudget_offerDrivers
    (fun w _ => net.Covered w) (fun w position inside covered =>
      closed.offerDrivers covered (covered.live _ (Array.getElem_mem inside))) ready 0 covered
  refine ⟨done.queue.toList, ?_, fun id listed => covered.live id (Array.mem_toList_iff.mp listed)⟩
  change net.noMarks.markAll net.outputs.toList = _ at marked
  rw [readersFirst, marked, ok_bind, offered, ok_bind, offered', ok_bind, drained]
  rfl

end Closed

end Network

end GateNet
