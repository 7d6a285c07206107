import GateNet.Proofs.Search

/-!
# Readers first

Backward, gates wait for the nodes that read them, and outputs are given.  Gates that nothing reads
wait for nothing, so they are queued before anything is handled.  Every other gate is offered when
one of its readers is handled, and the last reader queues it: no gate of a sound network is missed,
for from readers to drivers the gates form no cycle either.
-/

namespace GateNet

namespace Network

variable {net : Network} {w next : Worklist} {id : NodeId}

/-- Gates wait for the nodes that read them. -/
def backward (net : Network) : Precedence where
  given id := id ∈ net.outputs
  item := net.nodes.layout.HasGate
  waits d x := net.WireTo x d

/-! ## Offering -/

/-- Offering a node queues nothing, or a gate whose readers are marked. -/
theorem Sound.offers_of_offerDriver (sound : net.Sound)
    (offered : net.offerDriver w id = .ok next) : net.backward.Offers w id next := by
  obtain ⟨n, fetched, offered⟩ := bind_eq_ok_iff.mp offered
  have found := Store.fetch_eq_ok_iff.mp fetched
  split at offered
  · cases offered
  · next marked =>
    cases offered
    exact .passed fun _ => .inl (Marks.contains_of_has (Marks.has_eq_ok_iff.mpr marked))
  · next unmarked =>
    cases isGate : n.isGate with
    | false =>
      simp only [isGate, Bool.false_eq_true, if_false, pure_eq_ok, Except.ok.injEq] at offered
      subst offered
      have notGate := Layout.not_hasGate_of_isGate (Store.layout_of_get? found) isGate
      exact .passed fun gate => absurd gate notGate
    | true =>
      simp only [isGate, if_true] at offered
      obtain ⟨ready, asked, offered⟩ := bind_eq_ok_iff.mp offered
      cases ready with
      | true =>
        cases offered
        refine .queued ⟨n.core, Store.layout_of_get? found, isGate⟩ unmarked fun x wire => ?_
        exact Marks.contains_of_hasAll asked x ((mem_readers_iff sound found).mpr wire)
      | false =>
        cases offered
        obtain ⟨x, listed, open_⟩ := Marks.exists_of_hasAll asked
        exact .passed fun _ => .inr ⟨x, (mem_readers_iff sound found).mp listed, open_⟩

/-- Handling a gate offers both of its drivers. -/
theorem Sound.passesOn_offerDrivers (sound : net.Sound) (gate : net.nodes.layout.HasGate id)
    (offered : net.offerDrivers w id = .ok next) : net.backward.PassesOn w id next := by
  obtain ⟨key, keyed, _⟩ := sound.woven.layout.key?_of_hasGate gate
  obtain ⟨n, fetched, offered⟩ := bind_eq_ok_iff.mp offered
  have found := Store.fetch_eq_ok_iff.mp fetched
  have nodeKey : n.key? = some key := (Layout.key?_of_get? found).symm.trans keyed
  simp only [(Node.gateOperands_of_key? nodeKey).1] at offered
  have offers := Precedence.offersAll_of_foldlM (fun d => d)
    (fun _ _ _ => sound.offers_of_offerDriver) offered
  rw [List.map_id'] at offers
  refine ⟨_, offers, fun d _ wire => ?_⟩
  obtain ⟨other, keyed', operand⟩ := Layout.reads_circuit_iff.mp (sound.reads_iff.mpr ⟨wire, gate⟩)
  obtain rfl := Option.some.inj (keyed.symm.trans keyed')
  simpa [eq_comm] using operand

/-- Handling an output offers its driver, if it has one. -/
theorem Sound.passesOn_offerSource (sound : net.Sound) (output : id ∈ net.outputs)
    (offered : net.offerSource w id = .ok next) : net.backward.PassesOn w id next := by
  obtain ⟨n, fetched, offered⟩ := bind_eq_ok_iff.mp offered
  have found := Store.fetch_eq_ok_iff.mp fetched
  -- An output reads its driver at the first operand only.
  have single : ∀ d, net.WireTo id d → n.first = some d := by
    intro d wire
    obtain ⟨m, held, isOutput⟩ := sound.mem_outputs_iff.mp output
    obtain rfl := Option.some.inj ((Store.layout_of_get? found).symm.trans held)
    obtain ⟨p, wire⟩ := (wireTo_iff found).mp wire
    cases p with
    | first => exact wire
    | second =>
      have none := (sound.woven.layout.fits held).output isOutput
      rw [Node.core_second] at none
      rw [Node.driver, none] at wire
      cases wire
  cases first : n.first with
  | none =>
    simp only [first, pure_eq_ok, Except.ok.injEq] at offered
    subst offered
    refine ⟨[], .nil w, fun d _ wire => ?_⟩
    rw [single d wire] at first
    cases first
  | some driver =>
    simp only [first] at offered
    refine ⟨[driver], .cons (sound.offers_of_offerDriver offered) (.nil next),
      fun d _ wire => ?_⟩
    rw [single d wire] at first
    exact List.mem_singleton.mpr (Option.some.inj first)

/-! ## Unread gates -/

/-- Whether no node reads a live node. -/
def isUnread (net : Network) (id : NodeId) : Bool :=
  (net.node? id).any fun n => n.fanouts.isEmpty

theorem isUnread_of_get? {n : Node} (found : net.nodes.get? id = some n) :
    net.isUnread id = n.fanouts.isEmpty := by
  rw [isUnread, node?, found, Option.any_some]

theorem Sound.isUnread_iff (sound : net.Sound) (gate : net.nodes.layout.HasGate id) :
    net.isUnread id = true ↔ ∀ x, ¬ net.WireTo x id := by
  obtain ⟨m, live, _⟩ := gate
  obtain ⟨n, found, _⟩ := Store.layout_eq_some_iff.mp live
  rw [isUnread_of_get? found, Array.isEmpty_iff, sound.woven.wired.fanouts_eq_empty_iff found]
  constructor
  · rintro unread x ⟨p, wire⟩
    exact unread ⟨x, p⟩ wire
  · rintro unread ⟨x, p⟩ wire
    exact unread x ⟨p, wire⟩

/-- The queue while the gates are looked through: it holds those that nothing reads. -/
structure Sifted (net : Network) (before : List NodeId) (w : Worklist) : Prop where
  lists : net.backward.Lists w
  queue : w.queue.toList = before.filter net.isUnread

theorem Sifted.offerUnread {before : List NodeId} (sifted : net.Sifted before w)
    (sound : net.Sound) (gate : net.nodes.layout.HasGate id) (fresh : id ∉ before)
    (offered : net.offerUnread w id = .ok next) : net.Sifted (before ++ [id]) next := by
  obtain ⟨n, fetched, offered⟩ := bind_eq_ok_iff.mp offered
  have found := Store.fetch_eq_ok_iff.mp fetched
  rw [← isUnread_of_get? found] at offered
  cases unread : net.isUnread id with
  | false =>
    simp only [unread, Bool.false_eq_true, if_false, pure_eq_ok, Except.ok.injEq] at offered
    subst offered
    exact ⟨sifted.lists, by simp [sifted.queue, unread]⟩
  | true =>
    simp only [unread, if_true] at offered
    have offers := sound.offers_of_offerDriver offered
    refine ⟨offers.lists sifted.lists, ?_⟩
    cases offers with
    | queued => simp [Worklist.push, sifted.queue, unread]
    | passed idle =>
      -- The gate is new, it is no output, and it waits for nothing: so it was queued.
      rcases idle gate with marked | ⟨x, wire, _⟩
      · rcases (sifted.lists.marked id).mp marked with output | queued
        · obtain ⟨m, held, isOutput⟩ := sound.mem_outputs_iff.mp output
          exact absurd gate (Layout.not_hasGate_of_isOutput held isOutput)
        · rw [← Array.mem_toList_iff, sifted.queue] at queued
          exact absurd (List.mem_of_mem_filter queued) fresh
      · exact absurd wire ((sound.isUnread_iff gate).mp unread x)

/-- Looking through all gates queues the unread ones, in their order. -/
theorem Sound.sifted (sound : net.Sound) {marks : Marks} {unread : Worklist}
    (marked : net.noMarks.markAll net.outputs.toList = .ok marks)
    (folded : net.gates.toList.foldlM net.offerUnread { marks } = .ok unread) :
    net.Sifted net.gates.toList unread := by
  refine foldlM_keeps folded net.Sifted
    ⟨Precedence.lists_start marked fun id => Array.mem_toList_iff.symm, rfl⟩ ?_
  intro before id after w next split sifted offered
  have listed : id ∈ net.gates.toList := by simp [split]
  exact sifted.offerUnread sound (sound.mem_gates_iff.mp (Array.mem_toList_iff.mp listed))
    (not_mem_before (sound.registered .gates).1 split) offered

/-! ## The answer -/

/-- A list of all gates, each after the gates that it waits for. -/
structure Topological (net : Network) (waits : NodeId → NodeId → Prop) (order : List NodeId) :
    Prop where
  nodup : order.Nodup
  exact : ∀ id, id ∈ order ↔ net.nodes.layout.HasGate id
  earlier : ∀ {before id after}, order = before ++ id :: after →
    ∀ {x}, waits id x → net.nodes.layout.HasGate x → x ∈ before

/-- Towards the readers, gates stand further from the end of an order of evaluation. -/
theorem Sound.backward_ranked (sound : net.Sound) {order : List NodeId}
    (ordered : net.nodes.layout.DriversFirst order) {d x : NodeId}
    (gate : net.nodes.layout.HasGate d) (wire : net.WireTo x d) :
    x ∈ net.outputs ∨ net.nodes.layout.HasGate x ∧
      order.length - order.idxOf x < order.length - order.idxOf d := by
  obtain ⟨n, held⟩ := wire.live
  cases isOutput : n.isOutput with
  | true => exact .inl (sound.mem_outputs_iff.mpr ⟨n, held, isOutput⟩)
  | false =>
    have reader := sound.hasGate_of_wire wire ⟨n, held, isOutput⟩
    have lower := ordered.idxOf_lt (sound.reads_iff.mpr ⟨wire, reader⟩) gate
    exact .inr ⟨reader, by omega⟩

/-- On a sound network every gate is listed once, after the gates that read it, and the unread ones
come first. -/
theorem readersFirst_spec (sound : net.Sound) :
    ∃ order, net.readersFirst = .ok order ∧ net.Topological (fun d x => net.WireTo x d) order ∧
      net.gates.toList.filter net.isUnread <+: order := by
  obtain ⟨order, ordered, _⟩ := sound.closed.exists_readersFirst
  refine ⟨order, ordered, ?_⟩
  obtain ⟨marks, marked, ordered⟩ := bind_eq_ok_iff.mp ordered
  obtain ⟨unread, folded, ordered⟩ := bind_eq_ok_iff.mp ordered
  obtain ⟨ready, folded', ordered⟩ := bind_eq_ok_iff.mp ordered
  obtain ⟨done, drained, ordered⟩ := bind_eq_ok_iff.mp ordered
  cases ordered
  have sifted := sound.sifted marked folded
  -- Then the outputs are handled, and then what is queued.
  obtain ⟨grown, serves⟩ := sifted.lists.serve_given (fun _ => Array.mem_toList_iff.symm) folded'
    fun _ _ _ => sound.passesOn_offerSource
  obtain ⟨grown', serves⟩ := serves.drain drained fun _ _ _ => sound.passesOn_offerDrivers
  have first : net.gates.toList.filter net.isUnread <+: done.queue.toList :=
    (sifted.queue ▸ grown).trans grown'
  have apart : ∀ x, net.backward.item x → ¬ net.backward.given x := by
    intro x gate output
    obtain ⟨n, held, isOutput⟩ := sound.mem_outputs_iff.mp output
    exact Layout.not_hasGate_of_isOutput held isOutput gate
  -- A gate that waits for nothing is unread; from the others, ranks lead down to the outputs.
  have idle : ∀ d, net.backward.item d → (∀ x, ¬ net.backward.waits d x) → d ∈ done.queue := by
    intro d gate idle
    have listed : d ∈ net.gates.toList := Array.mem_toList_iff.mpr (sound.mem_gates_iff.mpr gate)
    have unread : net.isUnread d = true := (sound.isUnread_iff gate).mpr idle
    exact Array.mem_toList_iff.mp (first.subset (List.mem_filter.mpr ⟨listed, unread⟩))
  obtain ⟨forth, _, ordered⟩ := driversFirst_spec sound
  refine ⟨⟨serves.lists.nodup, fun id => Array.mem_toList_iff.trans
    ⟨serves.lists.items id, fun gate => ?_⟩, fun split x wire gate => ?_⟩, first⟩
  · exact serves.mem_queue (fun x => forth.length - forth.idxOf x) apart
      (fun d x => sound.backward_ranked ordered) idle gate
  · exact (serves.lists.earlier split wire).resolve_left (apart x gate)

end Network

end GateNet
