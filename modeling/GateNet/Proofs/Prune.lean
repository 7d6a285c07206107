import GateNet.Network.Prune
import GateNet.Proofs.Rebuild
import GateNet.Proofs.Walk

/-!
# Pruning drops the dead gates

The gates that no output depends on are dropped readers first.  When the turn of a dead gate comes,
it is unread: outputs and live gates do not read it, and the dead gates that read it are gone.  So
pruning never stops half way.
-/

namespace GateNet

namespace Network

variable {net : Network}

/-- Some output depends on the node, or is the node. -/
def Observed (net : Network) (x : NodeId) : Prop :=
  ∃ o n, net.nodes.layout o = some n ∧ n.isOutput = true ∧ Relation.ReflTransGen net.WireTo o x

/-- The marked nodes are the outputs and whatever they depend on. -/
structure Reached (net : Network) (marks : Marks) : Prop where
  size : marks.flags.size = net.nodes.bound
  outputs : ∀ o ∈ net.outputs, marks.contains o = true
  closed : ∀ {x d}, marks.contains x = true → net.WireTo x d → marks.contains d = true
  observed : ∀ {x}, marks.contains x = true → net.Observed x

theorem Reached.contains_iff {marks : Marks} (reached : net.Reached marks) (sound : net.Sound)
    {x : NodeId} : marks.contains x = true ↔ net.Observed x := by
  refine ⟨reached.observed, ?_⟩
  rintro ⟨o, n, held, isOutput, wires⟩
  induction wires with
  | refl => exact reached.outputs o (sound.mem_outputs_iff.mpr ⟨n, held, isOutput⟩)
  | tail _ wire marked => exact reached.closed marked wire

theorem Reached.pick_gates {marks : Marks} (reached : net.Reached marks) (sound : net.Sound)
    (wanted : Bool) {ids : List NodeId} (gates : ∀ x ∈ ids, net.nodes.layout.HasGate x) :
    marks.pick wanted ids = .ok (ids.filter fun id => marks.contains id == wanted) := by
  refine Marks.pick_eq wanted fun x listed => ?_
  obtain ⟨n, held, _⟩ := gates x listed
  rw [reached.size]
  exact sound.lt_bound held

theorem Reached.pick_registered {marks : Marks} (reached : net.Reached marks) (sound : net.Sound) :
    marks.pick true net.gates.toList = .ok (net.gates.toList.filter marks.contains) := by
  have picked := reached.pick_gates sound true
    (fun x listed => sound.mem_gates_iff.mp (Array.mem_toList_iff.mp listed) :
      ∀ x ∈ net.gates.toList, _)
  simpa only [beq_true] using picked

theorem reached_spec (sound : net.Sound) : ∃ marks, net.reached = .ok marks ∧ net.Reached marks := by
  have finished := Walk.Begins.ofOutputs.finished sound
  obtain ⟨marks, marked, size, exact⟩ := Marks.markAll_spec
    (show ∀ x ∈ (Walk.exhaust (.ofOutputs net) net).1, x < net.noMarks.flags.size from
      fun x listed => by
        obtain ⟨n, held⟩ := finished.live x listed
        rw [noMarks, Marks.size_none]
        exact sound.lt_bound held)
  have visited : ∀ {x}, marks.contains x = true ↔
      ∃ o ∈ net.outputs.toList, Relation.ReflTransGen net.WireTo o x := by
    intro x
    rw [← finished.mem_iff, exact, noMarks, Marks.contains_none]
    simp
  have reached : net.reached = .ok marks := by
    rw [Network.reached, Walk.finish_eq]
    exact marked
  refine ⟨marks, reached, size.trans (Marks.size_none _), fun o listed => ?_, fun here wire => ?_,
    fun here => ?_⟩
  · exact visited.mpr ⟨o, Array.mem_toList_iff.mpr listed, .refl⟩
  · obtain ⟨o, listed, wires⟩ := visited.mp here
    exact visited.mpr ⟨o, listed, wires.tail wire⟩
  · obtain ⟨o, listed, wires⟩ := visited.mp here
    obtain ⟨n, held, isOutput⟩ := sound.mem_outputs_iff.mp (Array.mem_toList_iff.mp listed)
    exact ⟨o, n, held, isOutput, wires⟩

/-- The dead gates, readers before what they read. -/
structure DeadGates (net : Network) (marks : Marks) (dead : List NodeId) : Prop where
  nodup : dead.Nodup
  exact : ∀ x, x ∈ dead ↔ net.nodes.layout.HasGate x ∧ marks.contains x = false
  readers : ∀ {before x after}, dead = before ++ x :: after →
    ∀ {y}, y ∈ dead → net.WireTo y x → y ∈ before

theorem deadGates_spec (sound : net.Sound) {marks : Marks} (reached : net.Reached marks) :
    ∃ dead, net.deadGates marks = .ok dead ∧ net.DeadGates marks dead := by
  obtain ⟨order, orderEq, ordered⟩ := driversFirst_spec sound
  have exact : ∀ x, x ∈ order.reverse.filter (fun id => !marks.contains id) ↔
      net.nodes.layout.HasGate x ∧ marks.contains x = false := by
    intro x
    rw [List.mem_filter, List.mem_reverse, ordered.exact, Bool.not_eq_true']
  have picked := reached.pick_gates sound false
    (fun x listed => (ordered.exact x).mp (List.mem_reverse.mp listed) : ∀ x ∈ order.reverse, _)
  simp only [beq_false] at picked
  refine ⟨_, by rw [deadGates, orderEq]; exact picked, (List.nodup_reverse.mpr ordered.nodup).filter _,
    exact, fun {before x after} split y listed wire => ?_⟩
  have read := sound.reads_iff.mpr ⟨wire, ((exact y).mp listed).1⟩
  -- In the reversed order no gate stands before one that reads it.
  have pairwise := (List.pairwise_reverse.mpr ordered.pairwise).filter fun id => !marks.contains id
  rw [split] at pairwise listed
  rcases List.mem_append.mp listed with early | late
  · exact early
  · rcases List.mem_cons.mp late with rfl | late
    · exact absurd .refl (sound.woven.layout.acyclic.not_depends read)
    · have later := (List.pairwise_append.mp pairwise).2.1
      exact absurd read ((List.pairwise_cons.mp later).1 y late)

/-- A network while dead gates are dropped; their registration stays for now. -/
structure Dropping (net : Network) (dropped : List NodeId) (after : Network) : Prop where
  eq : ∃ nodes table depth?, after = { net with nodes, table, depth? }
  woven : after.Woven
  layout_eq : ∀ x, after.nodes.layout x = if x ∈ dropped then none else net.nodes.layout x
  depth : after.depth? = none ∨ after.nodes.layout = net.nodes.layout ∧ after.depth? = net.depth?

/-- While a dead gate is dropped, nothing that is left reads it. -/
theorem Dropping.unread (sound : net.Sound) {marks : Marks} (reached : net.Reached marks)
    {dead : List NodeId} (listing : net.DeadGates marks dead) {before rest : List NodeId}
    {x : NodeId} (split : dead = before ++ x :: rest) {after : Network}
    (dropping : net.Dropping before after) : after.Unread x := by
  intro y m p live wire
  rw [dropping.layout_eq] at live
  split at live
  · cases live
  · next present =>
    have unreached := ((listing.exact x).mp (by simp [split])).2
    have wire : net.WireTo y x := ⟨p, by rw [Store.Woven.driverAt_eq net.nodes live, wire]⟩
    have unmarked : marks.contains y ≠ true := by
      intro marked
      rw [reached.closed marked wire] at unreached
      cases unreached
    -- An output would be marked, so the reader is a gate; it is dead, and so it is gone.
    have gate : net.nodes.layout.HasGate y := by
      by_contra notGate
      obtain ⟨k, here, output⟩ := sound.isOutput_of_wire wire notGate
      exact unmarked (reached.outputs y (sound.mem_outputs_iff.mpr ⟨k, here, output⟩))
    have dead := (listing.exact y).mpr ⟨gate, by simpa using unmarked⟩
    exact present (listing.readers split dead wire)

theorem Dropping.drop (sound : net.Sound) {marks : Marks} (reached : net.Reached marks)
    {dead : List NodeId} (listing : net.DeadGates marks dead) {before rest : List NodeId}
    {x : NodeId} (split : dead = before ++ x :: rest) {after : Network}
    (dropping : net.Dropping before after) :
    ∃ next, dropUnread () x after = .ok (.done () next) ∧ net.Dropping (before ++ [x]) next := by
  have unread := dropping.unread sound reached listing split
  have late := not_mem_before listing.nodup split
  obtain ⟨⟨nodes, table, depth?, rfl⟩, woven, layout_eq, _⟩ := dropping
  obtain ⟨n, held, isGate⟩ := ((listing.exact x).mp (by simp [split])).1
  have held' : nodes.layout x = some n := (layout_eq x).trans (by rw [if_neg late, held])
  obtain ⟨nodes', table', dropped, woven', gone⟩ :=
    dropGate_spec { net with nodes, table, depth? } woven ⟨n, held', isGate⟩ unread
  obtain ⟨m, found, _⟩ := Store.layout_eq_some_iff.mp held'
  have empty := (unread_iff woven found).mpr unread
  refine ⟨_, ?_, ⟨nodes', table', none, rfl⟩, woven', fun y => ?_, .inl rfl⟩
  · simp only [dropUnread, Store.fetch_of_get? found, ok_bind, empty, if_true, dropped, pure_eq_ok]
  · show nodes'.layout y = _
    rw [gone.layout_update]
    by_cases same : y = x
    · subst same
      simp
    · rw [Function.update_of_ne same]
      simpa [same] using layout_eq y

theorem Dropping.kind?_iff {marks : Marks} {dead : List NodeId}
    (listing : net.DeadGates marks dead) {after : Network} (dropping : net.Dropping dead after)
    {kind : Kind} (terminal : kind.isGate = false) (x : NodeId) :
    after.nodes.layout.kind? x = some kind ↔ net.nodes.layout.kind? x = some kind := by
  rw [Layout.kind?, dropping.layout_eq]
  split
  · next dropped =>
    refine iff_of_false (by rintro ⟨⟩) fun held => ?_
    rw [Layout.hasGate_iff_kind?.mp ((listing.exact x).mp dropped).1] at held
    rw [← Option.some.inj held] at terminal
    cases terminal
  · exact Iff.rfl

theorem Dropping.exact_gates (sound : net.Sound) {marks : Marks} {dead : List NodeId}
    (listing : net.DeadGates marks dead) {after : Network} (dropping : net.Dropping dead after) :
    Registry.gates.Exact after.nodes.layout.kind?
      (net.gates.toList.filter marks.contains).toArray := by
  refine ⟨(sound.registered .gates).1.filter _, fun x => ?_⟩
  rw [List.mem_toArray, List.mem_filter, Array.mem_toList_iff, Layout.kind?, dropping.layout_eq]
  split
  · next dropped =>
    refine iff_of_false (fun both => ?_) (by rintro ⟨kind, ⟨⟩, _⟩)
    rw [((listing.exact x).mp dropped).2] at both
    cases both.2
  · next alive =>
    refine Iff.trans ⟨And.left, fun listed => ⟨listed, ?_⟩⟩ ((sound.registered .gates).2 x)
    by_contra unmarked
    exact alive ((listing.exact x).mpr ⟨sound.mem_gates_iff.mp listed, by simpa using unmarked⟩)

/-- When all dead gates are dropped, their registrations can go too. -/
theorem Dropping.sound (sound : net.Sound) {marks : Marks} {dead : List NodeId}
    (listing : net.DeadGates marks dead) {after : Network} (dropping : net.Dropping dead after) :
    ({ after with gates := (after.gates.toList.filter marks.contains).toArray } : Network).Sound := by
  have same : ∀ {kind : Kind}, kind.isGate = false → ∀ x,
      after.nodes.layout.kind? x = some kind ↔ net.nodes.layout.kind? x = some kind :=
    dropping.kind?_iff listing
  have gates := dropping.exact_gates sound listing
  obtain ⟨⟨nodes, table, depth?, rfl⟩, woven, layout_eq, depth⟩ := dropping
  -- Inputs and outputs keep their kinds, and so their registries stay exact.
  have others : ∀ r : Registry, r.admits .gate = false →
      r.Exact nodes.layout.kind? (net.registry r) := by
    intro r excludes
    refine ⟨(sound.registered r).1, fun x => ((sound.registered r).2 x).trans ?_⟩
    refine exists_congr fun kind => and_congr_left fun admits => (same ?_ x).symm
    cases kind with
    | gate => rw [excludes] at admits; cases admits
    | _ => rfl
  refine ⟨⟨woven, fun r => ?_, ⟨fun kind terminal settled x => ?_, fun _ _ => False.elim⟩,
    fun k held => ?_⟩, sound.banks, sound.ports⟩
  · cases r with
    | inputs => exact others .inputs rfl
    | outputs => exact others .outputs rfl
    | gates => exact gates
  · rw [net.terminal?_retouch nodes net.inputs net.outputs _ table net.limit depth?]
    exact (sound.owned.named kind terminal settled x).trans (same terminal x).symm
  · rcases depth with forgotten | ⟨unchanged, remembered⟩
    · cases forgotten.symm.trans held
    · show IsDepth nodes.layout _ _
      rw [show nodes.layout = net.nodes.layout from unchanged]
      exact sound.coherent k (remembered.symm.trans held)

/-- Pruning drops the dead gates and their registrations, and answers with their number. -/
theorem prune_eq (sound : net.Sound) :
    ∃ marks dead after, net.Reached marks ∧ net.DeadGates marks dead ∧ net.Dropping dead after ∧
      net.prune = .ok (.done dead.length
        { after with gates := (after.gates.toList.filter marks.contains).toArray }) := by
  obtain ⟨marks, marked, reached⟩ := reached_spec sound
  obtain ⟨dead, deadEq, listing⟩ := deadGates_spec sound reached
  obtain ⟨_, after, dropped, dropping⟩ := Outcome.fold_spec dropUnread dead () net
    (fun before _ after => net.Dropping before after)
    ⟨⟨_, _, _, rfl⟩, sound.woven, by simp, .inr ⟨rfl, rfl⟩⟩ <| by
      rintro before x rest _ after split dropping
      obtain ⟨next, dropped, dropping⟩ := dropping.drop sound reached listing split
      exact ⟨(), next, dropped, dropping⟩
  obtain ⟨nodes, table, depth?, same⟩ := dropping.eq
  have gates : after.gates = net.gates := by rw [same]
  refine ⟨marks, dead, after, reached, listing, dropping, ?_⟩
  rw [prune, marked, ok_bind, deadEq, ok_bind, dropped, ok_bind]
  simp only [Outcome.andThen, Outcome.done, gates, reached.pick_registered sound, ok_bind]
  rfl

theorem prune_spec (sound : net.Sound) :
    ∃ count after, net.prune = .ok (.done count after) ∧ after.Sound := by
  obtain ⟨_, dead, _, _, listing, dropping, pruned⟩ := prune_eq sound
  exact ⟨dead.length, _, pruned, dropping.sound sound listing⟩

theorem safe_prune (sound : net.Sound) : Safe net.prune := by
  obtain ⟨count, after, pruned, sound'⟩ := prune_spec sound
  exact ⟨.done count after, pruned, sound'⟩

end Network

end GateNet
