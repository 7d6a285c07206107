import GateNet.Network.Edge
import GateNet.Proofs.Layout

/-!
# Wires are recorded at both ends

A store of nodes is wired when every driver is live and lists each of its readers exactly once and
nobody else.  `plug` keeps a wired store wired, changes one operand of one node, and leaves the
rest of the layout and all links.
-/

namespace GateNet

@[simp] theorem ok_bind {ε α β : Type} (answer : α) (next : α → Except ε β) :
    (Except.ok answer >>= next) = next answer := rfl

@[simp] theorem pure_eq_ok {ε α : Type} (answer : α) : (pure answer : Except ε α) = .ok answer := rfl

theorem storeAt_eq {α : Type} {entries : Array α} {index : Nat} (small : index < entries.size)
    (entry : α) : storeAt entries index entry = .ok (entries.setIfInBounds index entry) := by
  rw [storeAt, if_pos small]

theorem size_of_storeAt {α : Type} {entries after : Array α} {index : Nat} {entry : α}
    (stored : storeAt entries index entry = .ok after) : after.size = entries.size := by
  unfold storeAt at stored
  split at stored <;> cases stored
  exact Array.size_setIfInBounds

namespace Fanout

/-- Writing at the last place of an array replaces its last entry. -/
theorem setIfInBounds_push (init : Array Fanout) (last entry : Fanout) :
    (init.push last).setIfInBounds init.size entry = init.push entry := by
  rw [Array.setIfInBounds, dif_pos (by simp), Array.set_push, dif_neg (Nat.lt_irrefl _)]

theorem remove?_spec {entries : Array Fanout} {entry : Fanout} (listed : entry ∈ entries) :
    ∃ rest, remove? entries entry = some rest ∧
      ∀ e, entries.count e = rest.count e + if e = entry then 1 else 0 := by
  obtain ⟨position, found⟩ : ∃ position, entries.findIdx? (· == entry) = some position := by
    rw [← Option.isSome_iff_exists, Array.findIdx?_isSome, Array.any_eq_true']
    exact ⟨entry, listed, beq_self_eq_true entry⟩
  obtain ⟨inside, here, _⟩ := Array.findIdx?_eq_some_iff_getElem.mp found
  rw [beq_iff_eq] at here
  -- The last entry moves to the place of the removed one, unless it is that one itself.
  obtain ⟨last, ends⟩ : ∃ last, entries.back? = some last := by
    rw [← Option.isSome_iff_exists, Option.isSome_iff_ne_none, ne_eq, Array.back?_eq_none_iff]
    rintro rfl
    simp at inside
  refine ⟨(entries.setIfInBounds position last).pop, by simp only [remove?, found, ends],
    fun e => ?_⟩
  obtain ⟨init, rfl⟩ := Array.back?_eq_some_iff.mp ends
  by_cases lastOne : position = init.size
  · subst lastOne
    obtain rfl : last = entry := by simpa using here
    rw [setIfInBounds_push, Array.pop_push, Array.count_push]
    simp only [beq_iff_eq, @eq_comm _ e]
  · have small : position < init.size := by
      have : position < init.size + 1 := by simpa using inside
      omega
    rw [Array.getElem_push_lt small] at here
    have moved : (init.push last).setIfInBounds position last =
        (init.set position last).push last := by
      rw [Array.setIfInBounds, dif_pos inside, Array.set_push, dif_pos small]
    rw [moved, Array.pop_push, Array.count_push, Array.count_set small, here]
    by_cases same : e = entry
    · subst same
      have : 0 < init.count e := Array.count_pos_iff.mpr (Array.mem_of_getElem here)
      simp only [beq_self_eq_true, if_true]
      omega
    · simp [same, Ne.symm same]

end Fanout

namespace Store

/-- The driver at one operand of a live node. -/
def driverAt (nodes : Store Node) (entry : Fanout) : Option NodeId :=
  (nodes.get? entry.reader).bind (·.driver entry.operand)

/-- Each live node lists an entry once if the wires lead the entry to it, and not at all
otherwise. -/
def Lists (nodes : Store Node) (wires : Fanout → Option NodeId) : Prop :=
  ∀ d m, nodes.get? d = some m → ∀ e, m.fanouts.count e = if wires e = some d then 1 else 0

/-- Drivers are live and list their readers. -/
structure Wired (nodes : Store Node) : Prop where
  live : ∀ {e d}, nodes.driverAt e = some d → ∃ m, nodes.get? d = some m
  lists : nodes.Lists nodes.driverAt

theorem driverAt_eq_some_iff {nodes : Store Node} {e : Fanout} {d : NodeId} :
    nodes.driverAt e = some d ↔
      ∃ n, nodes.get? e.reader = some n ∧ n.driver e.operand = some d :=
  Option.bind_eq_some_iff

theorem driverAt_eq_layout (nodes : Store Node) (e : Fanout) :
    nodes.driverAt e = (nodes.layout e.reader).bind (·.driver e.operand) := by
  unfold driverAt layout
  cases nodes.get? e.reader <;> simp

theorem Wired.mem_fanouts_iff {nodes : Store Node} (wired : nodes.Wired) {d : NodeId} {m : Node}
    (held : nodes.get? d = some m) {e : Fanout} : e ∈ m.fanouts ↔ nodes.driverAt e = some d := by
  rw [← Array.count_pos_iff, wired.lists d m held e]
  split <;> simp_all

theorem Wired.fanouts_eq_empty_iff {nodes : Store Node} (wired : nodes.Wired) {d : NodeId}
    {m : Node} (held : nodes.get? d = some m) :
    m.fanouts = #[] ↔ ∀ e, nodes.driverAt e ≠ some d := by
  rw [Array.eq_empty_iff_forall_not_mem]
  simp only [wired.mem_fanouts_iff held, ne_eq]

/-! ## The three steps of plugging -/

theorem lists_modify {nodes : Store Node} {wires other : Fanout → Option NodeId}
    (lists : nodes.Lists wires) {id : NodeId} {change : Node → Node}
    (here : ∀ m, nodes.get? id = some m → ∀ e, (change m).fanouts.count e =
      if other e = some id then 1 else 0)
    (elsewhere : ∀ e d, d ≠ id → (other e = some d ↔ wires e = some d)) :
    (nodes.modify id change).Lists other := by
  intro d m held e
  rw [get?_modify] at held
  split at held
  · next same =>
    subst same
    obtain ⟨before, found, rfl⟩ := Option.map_eq_some_iff.mp held
    exact here before found e
  · next different =>
    rw [lists d m held e]
    simp only [elsewhere e d different]

/-- Changes of nodes that leave their fanouts leave what is listed. -/
theorem lists_modify_of_fanouts {nodes : Store Node} {wires : Fanout → Option NodeId}
    (lists : nodes.Lists wires) {id : NodeId} {change : Node → Node}
    (same : ∀ n, (change n).fanouts = n.fanouts) : (nodes.modify id change).Lists wires := by
  apply lists_modify lists _ fun e d _ => Iff.rfl
  intro m held e
  rw [same, lists id m held e]

theorem Wired.modify {nodes : Store Node} (wired : nodes.Wired) (id : NodeId) {change : Node → Node}
    (drivers : ∀ n p, (change n).driver p = n.driver p)
    (fanouts : ∀ n, (change n).fanouts = n.fanouts) : (nodes.modify id change).Wired := by
  have wires : (nodes.modify id change).driverAt = nodes.driverAt := by
    funext e
    unfold driverAt
    rw [get?_modify]
    split
    · cases nodes.get? e.reader <;> simp [drivers]
    · rfl
  refine ⟨fun {e d} wire => ?_, ?_⟩
  · rw [wires] at wire
    obtain ⟨m, held⟩ := wired.live wire
    rw [get?_modify]
    split
    · exact ⟨change m, by rw [held]; rfl⟩
    · exact ⟨m, held⟩
  · rw [wires]
    exact lists_modify_of_fanouts wired.lists fanouts

end Store

namespace Network

/-- A listed reader can be struck from the fanouts of its driver. -/
theorem withoutFanout_spec {nodes : Store Node} {wires : Fanout → Option NodeId}
    (lists : nodes.Lists wires) {d : NodeId} {m : Node} (held : nodes.get? d = some m)
    {entry : Fanout} (wire : wires entry = some d) :
    ∃ rest, withoutFanout nodes d entry = .ok (nodes.modify d ({ · with fanouts := rest })) ∧
      (nodes.modify d ({ · with fanouts := rest })).Lists (Function.update wires entry none) := by
  have listed : entry ∈ m.fanouts := by
    rw [← Array.count_pos_iff, lists d m held entry, if_pos wire]
    exact Nat.one_pos
  obtain ⟨rest, removed, counts⟩ := Fanout.remove?_spec listed
  refine ⟨rest, by simp [withoutFanout, Store.fetch_of_get? held, removed], ?_⟩
  apply Store.lists_modify lists
  · -- At the old driver one occurrence goes, and every other entry keeps its count.
    intro m' held' e
    obtain rfl := Option.some.inj (held.symm.trans held')
    have before := lists d m held e
    have after := counts e
    by_cases same : e = entry
    · subst same
      simp only [wire, if_true] at before
      simp only [if_true] at after
      simp only [Function.update_self]
      simp
      omega
    · simp only [Function.update_of_ne same]
      simp only [same, if_false] at after
      omega
  · -- Elsewhere the entry was not listed, since its wire leads to `d`.
    intro e d' different
    by_cases same : e = entry
    · subst same
      simp [wire, different.symm]
    · rw [Function.update_of_ne same]

theorem withFanout_spec {nodes : Store Node} {wires : Fanout → Option NodeId}
    (lists : nodes.Lists wires) {d : NodeId} {m : Node} (held : nodes.get? d = some m)
    {entry : Fanout} (open_ : wires entry = none) :
    withFanout nodes d entry =
        .ok (nodes.modify d fun node => { node with fanouts := node.fanouts.push entry }) ∧
      (nodes.modify d fun node => { node with fanouts := node.fanouts.push entry }).Lists
        (Function.update wires entry (some d)) := by
  refine ⟨Store.update_eq held _, ?_⟩
  apply Store.lists_modify lists
  · intro m' held' e
    have before := lists d m' held' e
    rw [Array.count_push, before]
    by_cases same : e = entry
    · subst same
      simp [open_]
    · simp [Function.update_of_ne same, Ne.symm same]
  · intro e d' different
    by_cases same : e = entry
    · subst same
      simp [open_, different.symm]
    · rw [Function.update_of_ne same]

end Network

namespace Store

/-- Only fanouts differ between two stores. -/
structure Rearranged (before after : Store Node) : Prop where
  sound : after.Sound
  layout_eq : after.layout = before.layout
  link_eq : ∀ x, (after.get? x).map (·.link) = (before.get? x).map (·.link)
  ids_eq : after.ids = before.ids
  capacity_eq : after.capacity = before.capacity

theorem Rearranged.refl {nodes : Store Node} (sound : nodes.Sound) : nodes.Rearranged nodes :=
  ⟨sound, rfl, fun _ => rfl, rfl, rfl⟩

theorem Rearranged.modify {nodes : Store Node} (sound : nodes.Sound) (id : NodeId)
    {change : Node → Node} (same : ∀ n, ∃ entries, change n = { n with fanouts := entries }) :
    nodes.Rearranged (nodes.modify id change) where
  sound := sound.modify id change
  layout_eq := layout_modify_of_core nodes id fun n => by
    obtain ⟨entries, equal⟩ := same n
    rw [equal]
    rfl
  link_eq x := by
    rw [get?_modify]
    split
    · rw [Option.map_map]
      congr 1
      funext n
      obtain ⟨entries, equal⟩ := same n
      simp [equal]
    · rfl
  ids_eq := rfl
  capacity_eq := capacity_modify ..

theorem exists_get?_of_layout_eq {before after : Store Node} {id : NodeId}
    (same : after.layout id = before.layout id) :
    (∃ n, after.get? id = some n) ↔ ∃ n, before.get? id = some n := by
  rw [← Option.isSome_iff_exists, ← Option.isSome_iff_exists]
  simpa [layout] using congrArg Option.isSome same

/-- What plugging does to the nodes: one operand of one node has another driver, the fanouts
follow, and all else stays. -/
structure Plugged (before after : Store Node) (reader : NodeId) (n : Node) (operand : Operand)
    (driver : Option NodeId) : Prop where
  sound : after.Sound
  wired : after.Wired
  layout_eq : after.layout =
    Function.update before.layout reader (some (n.core.withDriver operand driver))
  link_eq : ∀ x, (after.get? x).map (·.link) = (before.get? x).map (·.link)
  ids_eq : after.ids = before.ids
  capacity_eq : after.capacity = before.capacity

theorem driverAt_of_layout_eq {before after : Store Node} {reader : NodeId} {n : Node}
    {operand : Operand} {driver : Option NodeId} (held : before.get? reader = some n)
    (layout_eq : after.layout =
      Function.update before.layout reader (some (n.core.withDriver operand driver))) :
    after.driverAt = Function.update before.driverAt ⟨reader, operand⟩ driver := by
  funext e
  rw [driverAt_eq_layout, layout_eq]
  by_cases same : e = ⟨reader, operand⟩
  · subst same
    simp
  · rw [Function.update_of_ne same, driverAt_eq_layout]
    by_cases here : e.reader = reader
    · have other : e.operand ≠ operand := fun equal => same (by rw [← here, ← equal])
      rw [here, Function.update_self, layout_of_get? held]
      simp [Node.driver_withDriver_of_ne _ other]
    · rw [Function.update_of_ne here]

/-- Half of plugging: the operand names its new driver, but no fanouts list it. -/
structure Assigned (before after : Store Node) (reader : NodeId) (n : Node) (operand : Operand)
    (driver : Option NodeId) : Prop where
  sound : after.Sound
  lists : after.Lists (Function.update before.driverAt ⟨reader, operand⟩ none)
  layout_eq : after.layout =
    Function.update before.layout reader (some (n.core.withDriver operand driver))
  link_eq : ∀ x, (after.get? x).map (·.link) = (before.get? x).map (·.link)
  ids_eq : after.ids = before.ids
  capacity_eq : after.capacity = before.capacity

theorem Rearranged.assign {before rest : Store Node} (same : before.Rearranged rest)
    {reader : NodeId} {n : Node} (held : before.get? reader = some n) {operand : Operand}
    (lists : rest.Lists (Function.update before.driverAt ⟨reader, operand⟩ none))
    (driver : Option NodeId) :
    before.Assigned (rest.modify reader (·.withDriver operand driver)) reader n operand driver where
  sound := same.sound.modify reader _
  lists := lists_modify_of_fanouts lists fun m => by cases operand <;> rfl
  layout_eq := by
    obtain ⟨n', held', core⟩ : ∃ n', rest.get? reader = some n' ∧ n'.core = n.core := by
      rw [← layout_eq_some_iff, same.layout_eq]
      exact layout_of_get? held
    rw [layout_modify held', same.layout_eq, Node.core_withDriver, core]
  link_eq x := by
    rw [← same.link_eq x, get?_modify]
    split
    · rw [Option.map_map]
      congr 1
      funext m
      cases operand <;> rfl
    · rfl
  ids_eq := same.ids_eq
  capacity_eq := (capacity_modify ..).trans same.capacity_eq

theorem exists_get?_of_assigned {before after : Store Node} {reader : NodeId} {n n' : Node}
    (held : before.get? reader = some n)
    (layout_eq : after.layout = Function.update before.layout reader (some n')) {d : NodeId} :
    (∃ m, after.get? d = some m) ↔ ∃ m, before.get? d = some m := by
  by_cases here : d = reader
  · subst here
    have live : after.layout d ≠ none := by simp [layout_eq]
    rw [ne_eq, layout_eq_none_iff] at live
    simp [Option.ne_none_iff_exists'.mp live, held]
  · apply exists_get?_of_layout_eq
    rw [layout_eq, Function.update_of_ne here]

/-- When the fanouts follow, the operand is plugged. -/
theorem Assigned.plugged {before middle after : Store Node} {reader : NodeId} {n : Node}
    {operand : Operand} {driver : Option NodeId}
    (assigned : before.Assigned middle reader n operand driver) (wired : before.Wired)
    (held : before.get? reader = some n) (live : ∀ d, driver = some d → ∃ m, before.get? d = some m)
    (same : middle.Rearranged after)
    (lists : after.Lists (Function.update before.driverAt ⟨reader, operand⟩ driver)) :
    before.Plugged after reader n operand driver := by
  have layout_eq := same.layout_eq.trans assigned.layout_eq
  have wires := driverAt_of_layout_eq held layout_eq
  refine ⟨same.sound, ⟨fun {e d} wire => ?_, wires ▸ lists⟩, layout_eq,
    fun x => (same.link_eq x).trans (assigned.link_eq x), same.ids_eq.trans assigned.ids_eq,
    same.capacity_eq.trans assigned.capacity_eq⟩
  rw [exists_get?_of_assigned held layout_eq]
  rw [wires] at wire
  -- The assigned wire leads to a live driver by hypothesis, any other one did so before.
  by_cases here : e = ⟨reader, operand⟩
  · subst here
    exact live d (by simpa using wire)
  · exact wired.live (by rwa [Function.update_of_ne here] at wire)

end Store

namespace Network

theorem unplug_spec {nodes : Store Node} (sound : nodes.Sound) (wired : nodes.Wired)
    {reader : NodeId} {n : Node} (held : nodes.get? reader = some n) (operand : Operand) :
    ∃ rest, (match n.driver operand with
        | some old => withoutFanout nodes old ⟨reader, operand⟩
        | none => .ok nodes) = .ok rest ∧
      nodes.Rearranged rest ∧
      rest.Lists (Function.update nodes.driverAt ⟨reader, operand⟩ none) := by
  have here : nodes.driverAt ⟨reader, operand⟩ = n.driver operand := by
    simp [Store.driverAt, held]
  cases wire : n.driver operand with
  | none =>
    refine ⟨nodes, rfl, .refl sound, ?_⟩
    rw [show Function.update nodes.driverAt ⟨reader, operand⟩ none = nodes.driverAt from
      Function.update_eq_self_iff.mpr (here.trans wire).symm]
    exact wired.lists
  | some old =>
    obtain ⟨m, live⟩ := wired.live (here.trans wire)
    obtain ⟨rest, struck, lists⟩ := withoutFanout_spec wired.lists live (here.trans wire)
    exact ⟨_, struck, .modify sound _ fun n => ⟨rest, rfl⟩, lists⟩

theorem connect_spec {nodes : Store Node} (sound : nodes.Sound) {wires : Fanout → Option NodeId}
    {entry : Fanout} (lists : nodes.Lists (Function.update wires entry none))
    {driver : Option NodeId} (live : ∀ d, driver = some d → ∃ m, nodes.get? d = some m) :
    ∃ after, (match driver with
        | some new => withFanout nodes new entry
        | none => .ok nodes) = .ok after ∧
      nodes.Rearranged after ∧ after.Lists (Function.update wires entry driver) := by
  cases driver with
  | none => exact ⟨nodes, rfl, .refl sound, lists⟩
  | some new =>
    obtain ⟨m, held⟩ := live new rfl
    obtain ⟨added, lists⟩ := withFanout_spec lists held (Function.update_self ..)
    refine ⟨_, added, .modify sound _ fun n => ⟨_, rfl⟩, ?_⟩
    rwa [Function.update_idem] at lists

theorem plug_eq {net : Network} {reader : NodeId} {n : Node}
    (held : net.nodes.get? reader = some n) (operand : Operand) (driver : Option NodeId) :
    net.plug reader operand driver =
      ((match n.driver operand with
        | some old => withoutFanout net.nodes old ⟨reader, operand⟩
        | none => .ok net.nodes) >>= fun rest =>
      (match driver with
        | some new => withFanout (rest.modify reader (·.withDriver operand driver)) new
            ⟨reader, operand⟩
        | none => .ok (rest.modify reader (·.withDriver operand driver))) >>= fun nodes =>
      .ok { net with nodes, depth? := none }) := by
  simp only [plug, Store.fetch_of_get? held, ok_bind]
  cases n.driver operand <;> cases driver <;> rfl

/-- An operand of a live node can be plugged into any live node, or into none. -/
theorem plug_spec (net : Network) (sound : net.nodes.Sound) (wired : net.nodes.Wired)
    {reader : NodeId} {n : Node} (held : net.nodes.get? reader = some n) (operand : Operand)
    (driver : Option NodeId) (live : ∀ d, driver = some d → ∃ m, net.nodes.get? d = some m) :
    ∃ nodes, net.plug reader operand driver = .ok { net with nodes, depth? := none } ∧
      net.nodes.Plugged nodes reader n operand driver := by
  obtain ⟨rest, unplugged, same, lists⟩ := unplug_spec sound wired held operand
  have assigned := same.assign held lists driver
  obtain ⟨nodes, connected, rearranged, lists⟩ := connect_spec assigned.sound assigned.lists
    fun d wire => (Store.exists_get?_of_assigned held assigned.layout_eq).mpr (live d wire)
  refine ⟨nodes, ?_, assigned.plugged wired held live rearranged lists⟩
  rw [plug_eq held, unplugged, ok_bind, connected, ok_bind]

end Network

end GateNet
