import GateNet.Network.Build
import GateNet.Network.Terminals
import GateNet.Proofs.Readers
import GateNet.Proofs.Table

/-!
# Nodes, wires and table together

A network is woven when its store, its layout, its wires and its table are sound together; ports,
state elements and registries play no part.  This module adds and removes single nodes, lets
outputs read signals, and says which signals may be read.
-/

namespace GateNet

namespace Store

/-! ## Adding a node -/

theorem renewed_node (nodes : Store Node) (id : NodeId) (n : Node) : nodes.renewed id n = n := by
  unfold renewed
  split
  · exact Node.recycle_eq _ n
  · rfl

/-- One node more, under an id that no node had. -/
structure Added (before after : Store Node) (id : NodeId) (n : Node) : Prop where
  sound : after.Sound
  free : before.get? id = none
  get?_eq : ∀ x, after.get? x = if x = id then some n else before.get? x

namespace Added

variable {before after : Store Node} {id : NodeId} {n : Node}

theorem get?_self (added : before.Added after id n) : after.get? id = some n := by
  rw [added.get?_eq, if_pos rfl]

theorem get?_of_ne (added : before.Added after id n) {x : NodeId} (different : x ≠ id) :
    after.get? x = before.get? x := by
  rw [added.get?_eq, if_neg different]

theorem layout_free (added : before.Added after id n) : before.layout id = none :=
  layout_eq_none_iff.mpr added.free

theorem layout_eq (added : before.Added after id n) :
    after.layout = Function.update before.layout id (some n.core) := by
  funext x
  by_cases same : x = id
  · subst same
    simp [layout, added.get?_self]
  · simp [layout, added.get?_of_ne same, same]

theorem wired (added : before.Added after id n) (wired : before.Wired)
    (undriven : ∀ p, n.driver p = none) (unread : n.fanouts = #[]) : after.Wired := by
  have wires : after.driverAt = before.driverAt := by
    funext e
    unfold driverAt
    by_cases same : e.reader = id
    · rw [same, added.get?_self, added.free, Option.bind_some, undriven]
      rfl
    · rw [added.get?_of_ne same]
  have apart : ∀ {e d}, before.driverAt e = some d → d ≠ id := by
    rintro e d wire rfl
    obtain ⟨m, held⟩ := wired.live wire
    rw [added.free] at held
    cases held
  refine ⟨fun {e d} wire => ?_, fun d m held e => ?_⟩
  · rw [wires] at wire
    rw [added.get?_of_ne (apart wire)]
    exact wired.live wire
  · rw [wires]
    by_cases same : d = id
    · subst same
      rw [added.get?_self] at held
      obtain rfl := Option.some.inj held
      rw [if_neg fun wire => apart wire rfl, unread]
      rfl
    · rw [added.get?_of_ne same] at held
      exact wired.lists d m held e

theorem tabled (added : before.Added after id n) {table : Array (Option NodeId)}
    {member : NodeId → Prop} (tabled : before.Tabled table member) : after.Tabled table member := by
  have apart : ∀ {x}, member x → x ≠ id := by
    rintro x inside rfl
    exact Layout.not_hasGate_of_none added.layout_free (tabled.hasGate inside)
  refine tabled.congr (fun _ => Iff.rfl) (fun x inside => ?_) fun x inside => ?_
  · rw [added.layout_eq, Function.update_of_ne (apart inside)]
  · rw [added.get?_of_ne (apart inside)]

end Added

/-! ## Removing a node -/

/-- One node less. -/
structure Removed (before after : Store Node) (id : NodeId) : Prop where
  sound : after.Sound
  get?_eq : ∀ x, after.get? x = if x = id then none else before.get? x

namespace Removed

variable {before after : Store Node} {id : NodeId}

theorem layout_eq (removed : before.Removed after id) :
    after.layout = Function.update before.layout id none := by
  funext x
  by_cases same : x = id
  · subst same
    simp [layout, removed.get?_eq]
  · simp [layout, removed.get?_eq, same]

theorem wired (removed : before.Removed after id) (wired : before.Wired)
    (undriven : ∀ p, before.driverAt ⟨id, p⟩ = none) (unread : ∀ e, before.driverAt e ≠ some id) :
    after.Wired := by
  have wires : after.driverAt = before.driverAt := by
    funext e
    by_cases same : e.reader = id
    · obtain ⟨reader, p⟩ := e
      obtain rfl : reader = id := same
      rw [undriven, driverAt, removed.get?_eq, if_pos rfl]
      rfl
    · rw [driverAt, removed.get?_eq, if_neg same]
      rfl
  refine ⟨fun {e d} wire => ?_, fun d m held e => ?_⟩
  · rw [wires] at wire
    have other : d ≠ id := by
      rintro rfl
      exact unread e wire
    rw [removed.get?_eq, if_neg other]
    exact wired.live wire
  · rw [removed.get?_eq] at held
    split at held
    · cases held
    · rw [wires]
      exact wired.lists d m held e

theorem tabled (removed : before.Removed after id) {table : Array (Option NodeId)}
    {member : NodeId → Prop} (tabled : before.Tabled table member) (outside : ¬ member id) :
    after.Tabled table member := by
  have apart : ∀ {x}, member x → x ≠ id := by
    rintro x inside rfl
    exact outside inside
  refine tabled.congr (fun _ => Iff.rfl) (fun x inside => ?_) fun x inside => ?_
  · rw [removed.layout_eq, Function.update_of_ne (apart inside)]
  · rw [removed.get?_eq, if_neg (apart inside)]

end Removed

/-- A node that was unplugged first is dropped with the entries of its wires. -/
theorem Removed.dropped {before bare after : Store Node} {id : NodeId} {wires : List Fanout}
    (removed : bare.Removed after id) (layout_eq : ∀ x, x ≠ id → bare.layout x = before.layout x)
    (readers_eq : ∀ x, bare.readers x = (before.readers x).map (Fanout.withoutAll · wires)) :
    before.Dropped after [id] wires := by
  refine ⟨fun x listed => ?_, fun x other => ?_, fun x other => ?_⟩
  · rw [removed.layout_eq, List.mem_singleton.mp listed, Function.update_self]
  · have other : x ≠ id := by simpa using other
    rw [removed.layout_eq, Function.update_of_ne other, layout_eq x other]
  · rw [← readers_eq, readers, readers, removed.get?_eq, if_neg (by simpa using other)]

theorem exists_removed {before : Store Node} (sound : before.Sound) {id : NodeId} {n : Node}
    (held : before.layout id = some n) :
    ∃ after, before.remove id = .ok after ∧ before.Removed after id := by
  obtain ⟨m, found, _⟩ := layout_eq_some_iff.mp held
  obtain ⟨after, removed, soundAfter, view⟩ := remove_spec sound found
  exact ⟨after, removed, soundAfter, view⟩

theorem Plugged.tabled {before after : Store Node} {reader : NodeId} {n : Node} {operand : Operand}
    {driver : Option NodeId} (plugged : before.Plugged after reader n operand driver)
    {table : Array (Option NodeId)} {member : NodeId → Prop} (tabled : before.Tabled table member)
    (outside : ¬ member reader) : after.Tabled table member := by
  refine tabled.congr (fun _ => Iff.rfl) (fun x inside => ?_) fun x _ => plugged.link_eq x
  rw [plugged.layout_eq, Function.update_of_ne]
  rintro rfl
  exact outside inside

end Store

/-! ## Woven networks -/

/-- Nodes, wires and table fit together. -/
structure Store.Woven (nodes : Store Node) (table : Array (Option NodeId)) : Prop where
  store : nodes.Sound
  layout : nodes.layout.Sound
  wired : nodes.Wired
  tabled : nodes.Tabled table nodes.layout.HasGate

namespace Network

/-- Nodes, wires and table of a network fit together. -/
abbrev Woven (net : Network) : Prop := net.nodes.Woven net.table

/-- A signal that a gate or an output may read. -/
def Fit (net : Network) (s : Signal) : Prop :=
  ∀ d, s.node = some d → net.nodes.layout.MayDrive d

/-- What the check on a driver accepts is exactly what is fit. -/
theorem checkDriver_spec (net : Network) (s : Signal) :
    (net.checkDriver s = .ok () ∧ net.Fit s) ∨
      (∃ refusal, net.checkDriver s = .error refusal ∧ ¬ net.Fit s) := by
  cases node : s.node with
  | none => exact .inl ⟨by simp [checkDriver, node], fun d read => by rw [node] at read; cases read⟩
  | some id =>
    cases held : net.nodes.get? id with
    | none =>
      refine .inr ⟨.noNode id, by simp [checkDriver, node, node?, held], fun fit => ?_⟩
      exact Layout.not_mayDrive_of_none (Store.layout_eq_none_iff.mpr held) (fit id node)
    | some n =>
      have live := Store.layout_of_get? held
      cases output : n.isOutput with
      | true =>
        refine .inr ⟨.unfitDriver id, by simp [checkDriver, node, node?, held, output],
          fun fit => ?_⟩
        obtain ⟨m, live', drives⟩ := fit id node
        obtain rfl := Option.some.inj (live.symm.trans live')
        rw [Node.core_isOutput, output] at drives
        cases drives
      | false =>
        refine .inl ⟨by simp [checkDriver, node, node?, held, output], fun d read => ?_⟩
        obtain rfl : id = d := Option.some.inj (node.symm.trans read)
        exact ⟨n.core, live, output⟩

theorem checkDriver_eq_ok_iff {net : Network} {s : Signal} :
    net.checkDriver s = .ok () ↔ net.Fit s := by
  rcases net.checkDriver_spec s with ⟨passed, fit⟩ | ⟨refusal, failed, unfit⟩
  · exact iff_of_true passed fit
  · refine iff_of_false ?_ unfit
    rw [failed]
    rintro ⟨⟩

/-! ## Adding and removing nodes -/

theorem addNode_spec {net : Network} (sound : net.nodes.Sound) (kind : Kind) :
    ∃ id nodes, net.addNode kind = .ok (id, { net with nodes }) ∧
      net.nodes.Added nodes id { id, kind } := by
  obtain ⟨id, nodes, inserted, soundAfter, free, _, _, view⟩ :=
    Store.insert_spec sound fun id => ({ id, kind } : Node)
  refine ⟨id, nodes, by rw [addNode, inserted]; rfl, soundAfter, free, fun x => ?_⟩
  rw [view, Store.renewed_node]

end Network

namespace Store.Woven

variable {nodes after : Store Node} {table : Array (Option NodeId)}

theorem driverAt_eq (nodes : Store Node) {x : NodeId} {n : Node} (held : nodes.layout x = some n)
    (p : Operand) : nodes.driverAt ⟨x, p⟩ = n.driver p := by
  simp only [driverAt_eq_layout, held, Option.bind_some]

theorem added (woven : nodes.Woven table) {id : NodeId} {kind : Kind}
    (terminal : kind.isGate = false) (added : nodes.Added after id { id, kind }) :
    after.Woven table := by
  have unkeyed : ({ id, kind } : Node).core.key? = none := by
    cases kind <;> rfl
  refine ⟨added.sound, ?_, added.wired woven.wired (fun p => by cases p <;> rfl) rfl, ?_⟩
  · rw [added.layout_eq]
    refine woven.layout.update ⟨rfl, fun isGate => ?_, fun _ => ⟨rfl, rfl⟩, fun _ => rfl⟩ ?_ ?_ ?_ ?_
    · exact absurd (terminal.symm.trans isGate) (by decide)
    · rintro (_ | _) d wire <;> cases wire
    · exact fun drives => absurd drives (Layout.not_mayDrive_of_none added.layout_free)
    · rw [unkeyed]
      rintro key ⟨⟩
    · rw [unkeyed]
      rintro key ⟨⟩
  · refine (added.tabled woven.tabled).congr (fun x => ?_) (fun _ _ => rfl) fun _ _ => rfl
    rw [added.layout_eq, Layout.hasGate_update]
    split
    · next same =>
      subst same
      exact iff_of_false (fun isGate => absurd (terminal.symm.trans isGate) (by decide))
        (Layout.not_hasGate_of_none added.layout_free)
    · exact Iff.rfl

/-- A terminal can be changed to another terminal that may drive if the old one could. -/
theorem changed (woven : nodes.Woven table) {id : NodeId} {m n : Node}
    (held : nodes.layout id = some m) (terminal : m.isGate = false) (store : after.Sound)
    (wired : after.Wired) (layout_eq : after.layout = Function.update nodes.layout id (some n))
    (kind : n.kind = m.kind) (fits : n.Fits id)
    (driven : ∀ p d, n.driver p = some d → nodes.layout.MayDrive d)
    (links : ∀ x, x ≠ id → (after.get? x).map (·.link) = (nodes.get? x).map (·.link)) :
    after.Woven table := by
  have terminal' : n.isGate = false := by rw [Node.isGate, kind]; exact terminal
  have unkeyed := Node.key?_of_not_isGate terminal'
  have notGate := Layout.not_hasGate_of_isGate held terminal
  refine ⟨store, ?_, wired, ?_⟩
  · rw [layout_eq]
    refine woven.layout.update fits driven ?_ ?_ ?_
    · rintro ⟨m', held', drives⟩
      obtain rfl := Option.some.inj (held.symm.trans held')
      rw [Node.isOutput, kind]
      exact drives
    · rw [unkeyed]
      rintro key ⟨⟩
    · rw [unkeyed]
      rintro key ⟨⟩
  · refine woven.tabled.congr (fun x => ?_) (fun x gate => ?_) fun x gate => ?_
    · rw [layout_eq, Layout.hasGate_update]
      split
      · next same =>
        subst same
        exact iff_of_false (by rw [terminal']; decide) notGate
      · exact Iff.rfl
    · rw [layout_eq, Function.update_of_ne]
      rintro rfl
      exact notGate gate
    · apply links
      rintro rfl
      exact notGate gate

theorem removed (woven : nodes.Woven table) {id : NodeId} (terminal : ¬ nodes.layout.HasGate id)
    (undriven : ∀ p, nodes.driverAt ⟨id, p⟩ = none) (unread : ∀ e, nodes.driverAt e ≠ some id)
    (removed : nodes.Removed after id) : after.Woven table := by
  have unread' : ∀ x n p, nodes.layout x = some n → n.driver p ≠ some id := by
    intro x n p held wire
    exact unread ⟨x, p⟩ (by rw [driverAt_eq nodes held, wire])
  refine ⟨removed.sound, ?_, removed.wired woven.wired undriven unread, ?_⟩
  · rw [removed.layout_eq]
    exact woven.layout.erase unread'
  · refine (removed.tabled woven.tabled terminal).congr (fun x => ?_) (fun _ _ => rfl) fun _ _ => rfl
    rw [removed.layout_eq]
    by_cases same : x = id
    · subst same
      exact iff_of_false (Layout.not_hasGate_of_none (Function.update_self ..)) terminal
    · simp only [Layout.HasGate, Function.update_of_ne same]

end Store.Woven

/-! ## Driving outputs -/

/-- An output that reads another signal. -/
def Node.reading (n : Node) (s : Signal) : Node :=
  { n with inverted := s.inverted, first := s.node }

namespace Network

/-- An output can be given any fit signal to read. -/
theorem driveOutput_spec {net : Network} (woven : net.Woven) {id : NodeId} {n : Node}
    (held : net.nodes.layout id = some n) (output : n.isOutput = true) {s : Signal} (fit : net.Fit s) :
    ∃ nodes, net.driveOutput id s = .ok { net with nodes, depth? := none } ∧
      nodes.Woven net.table ∧
      nodes.layout = Function.update net.nodes.layout id (some (n.reading s)) := by
  obtain ⟨m, found, rfl⟩ := Store.layout_eq_some_iff.mp held
  have terminal := Node.not_isGate_of_isOutput output
  let inverted := net.nodes.modify id ({ · with inverted := s.inverted })
  have found' : inverted.get? id = some { m with inverted := s.inverted } := by
    rw [Store.get?_modify, if_pos rfl, found]
    rfl
  have sound : inverted.Sound := woven.store.modify id _
  have wired : inverted.Wired := woven.wired.modify id (fun n p => by cases p <;> rfl) fun _ => rfl
  -- The polarity is set first; that keeps every driver live for the plugging.
  have live : ∀ d, s.node = some d → ∃ m, inverted.get? d = some m := by
    intro d read
    obtain ⟨k, drives, _⟩ := fit d read
    obtain ⟨k, drives, _⟩ := Store.layout_eq_some_iff.mp drives
    rw [Store.get?_modify]
    split
    · exact ⟨_, by rw [drives]; rfl⟩
    · exact ⟨k, drives⟩
  obtain ⟨nodes, plugged, result⟩ := plug_spec { net with nodes := inverted } sound wired
    found' .first s.node live
  have layout_eq : nodes.layout = Function.update net.nodes.layout id (some (m.core.reading s)) := by
    rw [result.layout_eq, Store.layout_modify found, Function.update_idem]
    rfl
  refine ⟨nodes, ?_, ?_, layout_eq⟩
  · rw [driveOutput, Store.update_eq found, ok_bind]
    exact plugged
  · refine woven.changed held terminal result.sound result.wired layout_eq rfl ?_ ?_ fun x other => ?_
    · have fits := woven.layout.fits held
      exact Node.fits_of_isOutput fits.id_eq output (fits.output output)
    · intro p d wire
      cases p with
      | first => exact fit d wire
      | second => exact woven.layout.driven (p := .second) held wire
    · rw [result.link_eq, Store.get?_modify, if_neg other]

/-! ## Dropping nodes -/

/-- No node reads the given one. -/
def Unread (net : Network) (id : NodeId) : Prop :=
  ∀ x n p, net.nodes.layout x = some n → n.driver p ≠ some id

theorem unread_iff {net : Network} (woven : net.Woven) {id : NodeId} {n : Node}
    (held : net.nodes.get? id = some n) : n.fanouts.isEmpty = true ↔ net.Unread id := by
  rw [Array.isEmpty_iff, woven.wired.fanouts_eq_empty_iff held]
  constructor
  · intro unread x m p live wire
    exact unread ⟨x, p⟩ (by rw [Store.Woven.driverAt_eq _ live, wire])
  · rintro unread ⟨x, p⟩ wire
    rw [Store.driverAt_eq_layout] at wire
    obtain ⟨m, live, wire⟩ := Option.bind_eq_some_iff.mp wire
    exact unread x m p live wire

theorem dropTerminal_spec {net : Network} (woven : net.Woven) {id : NodeId} {n : Node}
    (held : net.nodes.layout id = some n) (terminal : n.isGate = false) (unread : net.Unread id) :
    ∃ nodes, net.dropTerminal id = .ok { net with
        nodes
        inputs := if n.isInput then net.inputs.erase id else net.inputs
        outputs := if n.isInput then net.outputs else net.outputs.erase id
        depth? := none } ∧
      nodes.Woven net.table ∧ net.nodes.Dropped nodes [id] [⟨id, .first⟩] := by
  obtain ⟨m, found, rfl⟩ := Store.layout_eq_some_iff.mp held
  -- The wire goes first, and a terminal without wires can then be removed.
  obtain ⟨bare, plugged, result⟩ := plug_spec net woven.store woven.wired found .first
    none (by rintro d ⟨⟩)
  have bareHeld : bare.layout id = some (m.core.withDriver .first none) := by
    rw [result.layout_eq, Function.update_self]
  have fits := woven.layout.fits held
  have second : m.second = none := by
    cases input : m.isInput with
    | true => exact (fits.input input).2
    | false => exact fits.output (by rw [Node.core_isOutput, Node.isOutput_eq]; simp_all)
  have undriven : ∀ p, (m.core.withDriver .first none).driver p = none := by
    rintro (_ | _)
    · rfl
    · exact second
  have woven' : bare.Woven net.table := by
    refine woven.changed held terminal result.sound result.wired result.layout_eq rfl ?_
      (fun p d wire => ?_) fun x _ => result.link_eq x
    · exact ⟨fits.id_eq, fun isGate => absurd (terminal.symm.trans isGate) (by decide),
        fun _ => ⟨rfl, second⟩, fun _ => second⟩
    · rw [undriven] at wire
      cases wire
  obtain ⟨nodes, removedEq, removed⟩ := Store.exists_removed result.sound bareHeld
  obtain ⟨bareNode, bareFound, core⟩ := Store.layout_eq_some_iff.mp bareHeld
  -- The kind that decides about the registry is read after the wire is gone.
  have kind : bareNode.isInput = m.isInput := by
    rw [← Node.core_isInput, core]
    rfl
  refine ⟨nodes, ?_, woven'.removed ?_ ?_ ?_ removed, ?_⟩
  · rw [dropTerminal, plugged, ok_bind]
    simp only [Store.fetch_of_get? bareFound, ok_bind, kind, Node.core_isInput]
    rcases Bool.eq_false_or_eq_true m.isInput with input | input <;>
      simp only [input, if_true, if_false, Bool.false_eq_true, removedEq, ok_bind, pure_eq_ok]
  · rintro ⟨k, live, isGate⟩
    obtain rfl := Option.some.inj (bareHeld.symm.trans live)
    exact absurd (terminal.symm.trans isGate) (by decide)
  · intro p
    rw [Store.Woven.driverAt_eq _ bareHeld, undriven]
  · rintro ⟨x, p⟩ wire
    rw [Store.driverAt_eq_layout, result.layout_eq] at wire
    obtain ⟨k, live, wire⟩ := Option.bind_eq_some_iff.mp wire
    by_cases same : x = id
    · subst same
      obtain rfl : m.core.withDriver .first none = k := by simpa using live
      rw [undriven] at wire
      cases wire
    · exact unread x k p (by simpa [same] using live) wire
  · exact removed.dropped
      (fun x other => by rw [result.layout_eq, Function.update_of_ne other])
      (readers_unplug woven.wired found plugged)

/-- A gate is dropped in four steps. -/
theorem exists_steps_of_dropGate {net after : Network} {id : NodeId}
    (dropped : net.dropGate id = .ok after) :
    ∃ unlinked first second nodes, net.withdraw id = .ok unlinked ∧
      unlinked.plug id .first none = .ok first ∧ first.plug id .second none = .ok second ∧
      second.nodes.remove id = .ok nodes ∧ after = { second with nodes } := by
  obtain ⟨n, _, dropped⟩ := bind_eq_ok_iff.mp dropped
  dsimp only at dropped
  split at dropped
  · obtain ⟨unlinked, withdrawn, dropped⟩ := bind_eq_ok_iff.mp dropped
    obtain ⟨first, pluggedFirst, dropped⟩ := bind_eq_ok_iff.mp dropped
    obtain ⟨second, pluggedSecond, dropped⟩ := bind_eq_ok_iff.mp dropped
    obtain ⟨nodes, removed, dropped⟩ := bind_eq_ok_iff.mp dropped
    cases dropped
    exact ⟨unlinked, first, second, nodes, withdrawn, pluggedFirst, pluggedSecond, removed, rfl⟩
  · cases dropped

/-- A gate that nothing reads can be dropped. -/
theorem dropGate_spec (net : Network) (woven : net.Woven) {id : NodeId}
    (gate : net.nodes.layout.HasGate id) (unread : net.Unread id) :
    ∃ nodes table, net.dropGate id = .ok { net with nodes, table, depth? := none } ∧
      nodes.Woven table ∧
      net.nodes.Dropped nodes [id] [⟨id, .first⟩, ⟨id, .second⟩] := by
  obtain ⟨n, held, isGate⟩ := gate
  obtain ⟨first, live, _⟩ := Store.layout_eq_some_iff.mp held
  have empty := (unread_iff woven live).mpr unread
  obtain ⟨unchained, table, withdrawn, ⟨relinked, tabled⟩⟩ :=
    withdraw_spec net woven.store woven.tabled ⟨n, held, isGate⟩
  have held₁ : unchained.layout id = some n := by rw [relinked.layout_eq, held]
  obtain ⟨m, found, rfl⟩ := Store.layout_eq_some_iff.mp held₁
  -- Off its chain, the gate loses one wire after the other.
  obtain ⟨half, plugged₁, result₁⟩ := plug_spec { net with nodes := unchained, table }
    relinked.sound (relinked.wired woven.wired) found .first none (by rintro d ⟨⟩)
  obtain ⟨k, found₁, core₁⟩ := Store.layout_eq_some_iff.mp
    (show half.layout id = some (m.core.withDriver .first none) by
      rw [result₁.layout_eq, Function.update_self])
  obtain ⟨bare, plugged₂, result₂⟩ := plug_spec
    { net with nodes := half, table, depth? := none } result₁.sound result₁.wired found₁ .second none
    (by rintro d ⟨⟩)
  have layout_eq : bare.layout = Function.update net.nodes.layout id
      (some ((m.core.withDriver .first none).withDriver .second none)) := by
    rw [result₂.layout_eq, result₁.layout_eq, core₁, Function.update_idem, relinked.layout_eq]
  have bareHeld := congrFun layout_eq id
  rw [Function.update_self] at bareHeld
  have undriven : ∀ p, ((m.core.withDriver .first none).withDriver .second none).driver p = none := by
    rintro (_ | _) <;> rfl
  obtain ⟨nodes, removedEq, removed⟩ := Store.exists_removed result₂.sound bareHeld
  -- The table is exact for the gates but this one, which neither plugging nor removal concerns.
  have outside : ¬ (net.nodes.layout.HasGate id ∧ id ≠ id) := fun inside => inside.2 rfl
  have tabled' := removed.tabled (result₂.tabled (result₁.tabled tabled outside) outside) outside
  have final : nodes.layout = Function.update net.nodes.layout id none := by
    rw [removed.layout_eq, layout_eq, Function.update_idem]
  refine ⟨nodes, table, ?_, ⟨removed.sound, ?_, removed.wired result₂.wired (fun p => ?_) ?_, ?_⟩,
    removed.dropped (fun x other => by rw [layout_eq, Function.update_of_ne other])
      fun x => ?_⟩
  · simp only [dropGate, Store.fetch_of_get? live, ok_bind, empty, if_true, withdrawn, plugged₁,
      plugged₂, removedEq, pure_eq_ok]
  · rw [final]
    exact woven.layout.erase unread
  · rw [Store.Woven.driverAt_eq _ bareHeld, undriven]
  · rintro ⟨x, p⟩ wire
    rw [Store.driverAt_eq_layout, layout_eq] at wire
    obtain ⟨l, live, wire⟩ := Option.bind_eq_some_iff.mp wire
    by_cases same : x = id
    · subst same
      rw [Function.update_self] at live
      rw [← Option.some.inj live, undriven] at wire
      cases wire
    · exact unread x l p (by simpa [same] using live) wire
  · refine tabled'.congr (fun x => ?_) (fun _ _ => rfl) fun _ _ => rfl
    rw [final]
    by_cases same : x = id
    · subst same
      exact iff_of_false (Layout.not_hasGate_of_none (Function.update_self ..)) outside
    · simp only [Layout.HasGate, Function.update_of_ne same, ne_eq, same, not_false_eq_true,
        and_true]
  · -- One entry goes after the other, and taking the gate off its chain moved none.
    rw [readers_unplug result₁.wired found₁ plugged₂,
      readers_unplug (relinked.wired woven.wired) found plugged₁, relinked.readers_eq,
      Option.map_map]
    rfl

end Network

end GateNet
