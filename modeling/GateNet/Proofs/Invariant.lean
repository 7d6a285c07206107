import GateNet.Network.Copy
import GateNet.Network.Redefine
import GateNet.Network.Prune
import GateNet.Proofs.Build

/-!
# The invariant of a network

A network is sound when it is woven, its registries list exactly the live nodes of their sorts,
owners and terminals name each other, the banks list exactly their live elements, and a remembered
depth is the depth.  Registries and owners only ask of which kind each live node is, so they
survive whatever leaves the kinds alone.
-/

namespace GateNet

/-! ## Kinds -/

namespace Layout

def kind? (L : Layout) (id : NodeId) : Option Kind := (L id).map Node.kind

theorem kind?_of_node {L : Layout} {id : NodeId} {n : Node} (held : L id = some n) :
    L.kind? id = some n.kind := by
  rw [kind?, held, Option.map_some]

theorem kind?_eq_some_iff {L : Layout} {id : NodeId} {kind : Kind} :
    L.kind? id = some kind ↔ ∃ n, L id = some n ∧ n.kind = kind :=
  Option.map_eq_some_iff

theorem kind?_update (L : Layout) (id : NodeId) (n : Option Node) :
    kind? (Function.update L id n) = Function.update L.kind? id (n.map Node.kind) := by
  funext x
  by_cases same : x = id
  · subst same
    simp [kind?]
  · simp [kind?, same]

theorem kind?_of_get? {nodes : Store Node} {id : NodeId} {n : Node}
    (held : nodes.get? id = some n) : nodes.layout.kind? id = some n.kind := by
  rw [kind?_of_node (Store.layout_of_get? held), Node.core_kind]

theorem exists_get?_of_kind? {nodes : Store Node} {id : NodeId} {kind : Kind}
    (held : nodes.layout.kind? id = some kind) : ∃ n, nodes.get? id = some n ∧ n.kind = kind := by
  obtain ⟨m, live, rfl⟩ := kind?_eq_some_iff.mp held
  obtain ⟨n, found, rfl⟩ := Store.layout_eq_some_iff.mp live
  exact ⟨n, found, rfl⟩

theorem kind?_update_of_kind {L : Layout} {id : NodeId} {m n : Node} (held : L id = some m)
    (same : n.kind = m.kind) : kind? (Function.update L id (some n)) = L.kind? := by
  rw [kind?_update, Option.map_some, same, ← kind?_of_node held, Function.update_eq_self]

theorem hasGate_iff_kind? {L : Layout} {id : NodeId} : L.HasGate id ↔ L.kind? id = some .gate := by
  rw [kind?_eq_some_iff]
  constructor
  · rintro ⟨n, held, isGate⟩
    refine ⟨n, held, ?_⟩
    unfold Node.isGate Kind.isGate at isGate
    split at isGate
    · assumption
    · cases isGate
  · rintro ⟨n, held, kind⟩
    exact ⟨n, held, by rw [Node.isGate, kind]; rfl⟩

end Layout

/-! ## Registries -/

namespace Registry

theorem toList_erase (ids : Array NodeId) (id : NodeId) :
    (ids.erase id).toList = ids.toList.erase id := by
  obtain ⟨list⟩ := ids
  rw [List.erase_toArray]

/-- A registry lists exactly the live nodes of its sort, each once. -/
def Exact (r : Registry) (kinds : NodeId → Option Kind) (ids : Array NodeId) : Prop :=
  ids.toList.Nodup ∧ ∀ id, id ∈ ids ↔ ∃ kind, kinds id = some kind ∧ r.admits kind = true

namespace Exact

variable {r : Registry} {kinds : NodeId → Option Kind} {ids : Array NodeId} {id : NodeId}
  {kind : Kind}

theorem push (exact : r.Exact kinds ids) (free : kinds id = none) (admits : r.admits kind = true) :
    r.Exact (Function.update kinds id (some kind)) (ids.push id) := by
  have unlisted : id ∉ ids := by
    rw [exact.2, free]
    rintro ⟨_, ⟨⟩, _⟩
  refine ⟨?_, fun x => ?_⟩
  · rw [Array.toList_push]
    exact exact.1.append (List.nodup_singleton id) (by simpa using unlisted)
  · rw [Array.mem_push]
    by_cases same : x = id
    · subst same
      simp [admits]
    · simp [same, exact.2 x]

theorem skip (exact : r.Exact kinds ids) (free : kinds id = none) (admits : r.admits kind = false) :
    r.Exact (Function.update kinds id (some kind)) ids := by
  refine ⟨exact.1, fun x => ?_⟩
  by_cases same : x = id
  · subst same
    simp [exact.2, free, admits]
  · simp [same, exact.2 x]

theorem erase (exact : r.Exact kinds ids) :
    r.Exact (Function.update kinds id none) (ids.erase id) := by
  refine ⟨?_, fun x => ?_⟩
  · rw [toList_erase]
    exact exact.1.erase id
  · rw [← Array.mem_toList_iff, toList_erase, exact.1.mem_erase_iff, Array.mem_toList_iff,
      exact.2]
    by_cases same : x = id
    · subst same
      simp
    · simp [same]

theorem keep (exact : r.Exact kinds ids) (held : kinds id = some kind)
    (admits : r.admits kind = false) : r.Exact (Function.update kinds id none) ids := by
  refine ⟨exact.1, fun x => ?_⟩
  by_cases same : x = id
  · subst same
    simp [exact.2, held, admits]
  · simp [same, exact.2 x]

end Exact

theorem exact_empty (r : Registry) : r.Exact (fun _ => none) #[] :=
  ⟨List.nodup_nil, by simp⟩

end Registry

/-! ## Owners -/

/-- A port carries its own number, and an entry for each bit in both directions. -/
structure Port.Sound (p : Port) (port : PortId) : Prop where
  numbered : p.id = port
  paired : p.outputs.size = p.inputs.size

/-- A bank lists exactly its live elements, each once, and they carry their own numbers. -/
structure Bank.Sound (b : Bank) : Prop where
  store : b.elements.Sound
  nodup : b.order.toList.Nodup
  exact : ∀ id, id ∈ b.order ↔ ∃ element, b.elements.get? id = some element
  numbered : ∀ {id element}, b.elements.get? id = some element → element.id = id

theorem Port.sound_blank (port : PortId) (name : String) (width : Nat) :
    (Port.blank port name width).Sound port :=
  ⟨rfl, by simp [blank]⟩

theorem Bank.sound_empty : Bank.Sound {} :=
  ⟨Store.sound_empty, List.nodup_nil, fun id => by simp [Store.get?], by simp [Store.get?]⟩

theorem Bank.sound_clear (b : Bank) : b.clear.Sound :=
  ⟨Store.sound_clear _, List.nodup_nil, fun id => by simp [clear], by simp [clear]⟩

theorem Bank.Sound.push {b : Bank} (sound : b.Sound) {elements : Store Element} {id : ElementId}
    {e : Element} (store : elements.Sound) (unused : b.elements.get? id = none)
    (numbered : e.id = id)
    (view : ∀ x, elements.get? x = if x = id then some e else b.elements.get? x) :
    Bank.Sound { elements, order := b.order.push id } := by
  refine ⟨store, ?_, fun x => ?_, fun {x element} held => ?_⟩
  · have unlisted : id ∉ b.order := by
      rw [sound.exact, unused]
      rintro ⟨_, ⟨⟩⟩
    rw [Array.toList_push]
    exact sound.nodup.append (List.nodup_singleton id) (by simpa using unlisted)
  · rw [Array.mem_push, view, sound.exact]
    by_cases same : x = id <;> simp [same]
  · rw [view] at held
    split at held
    · next same =>
      cases held
      rw [numbered, same]
    · exact sound.numbered held

theorem Bank.Sound.drop {b : Bank} (sound : b.Sound) {elements : Store Element} {id : ElementId}
    (store : elements.Sound)
    (view : ∀ x, elements.get? x = if x = id then none else b.elements.get? x) :
    Bank.Sound { elements, order := b.order.filter (· != id) } := by
  refine ⟨store, ?_, fun x => ?_, fun {x element} held => ?_⟩
  · rw [Array.toList_filter]
    exact sound.nodup.filter _
  · rw [Array.mem_filter, sound.exact, view]
    by_cases same : x = id <;> simp [same]
  · rw [view] at held
    split at held
    · cases held
    · exact sound.numbered held

namespace Network

/-- The terminal that an owner names for a kind, by its place among the owners; an output terminal
is looked for below the width of the port only. -/
def terminal? (net : Network) : Kind → Option NodeId
  | .portInput port bit => net.ports[port]?.bind (·.input bit)
  | .portOutput port bit =>
      net.ports[port]?.bind fun p => if bit < p.width then p.output bit else none
  | .state family element pin => (net.element? family element).map (·.terminal pin)
  | .gate => none

theorem terminal?_congr {net other : Network} (ports : other.ports = net.ports)
    (elements : ∀ family, (other.bank family).elements = (net.bank family).elements) :
    other.terminal? = net.terminal? := by
  funext kind
  cases kind <;> simp [terminal?, element?, ports, elements]

/-- Nodes, wires and registries say nothing about owners. -/
theorem terminal?_retouch (net : Network) (nodes : Store Node) (inputs outputs gates : Array NodeId)
    (table : Array (Option NodeId)) (limit : Nat) (depth? : Option Nat) :
    ({ net with nodes, inputs, outputs, gates, table, limit, depth? } : Network).terminal? =
      net.terminal? :=
  terminal?_congr rfl fun family => by cases family <;> rfl

/-- Owners name their terminals, and the kinds of terminals name their owners; there is no
terminal yet, or no longer, of a pending kind. -/
structure Owned (terminal? : Kind → Option NodeId) (kinds : NodeId → Option Kind)
    (pending : Kind → Prop) : Prop where
  named : ∀ kind, kind.isGate = false → ¬ pending kind →
    ∀ id, terminal? kind = some id ↔ kinds id = some kind
  absent : ∀ kind, kind.isGate = false → pending kind → ∀ id, kinds id ≠ some kind

namespace Owned

variable {terminal? : Kind → Option NodeId} {kinds : NodeId → Option Kind} {pending : Kind → Prop}
  {id : NodeId} {kind : Kind}

theorem update_gate (owned : Owned terminal? kinds pending) {held : Option Kind}
    (before : kinds id = none ∨ kinds id = some .gate) (after : held = none ∨ held = some .gate) :
    Owned terminal? (Function.update kinds id held) pending := by
  have same : ∀ kind, kind.isGate = false → ∀ x,
      Function.update kinds id held x = some kind ↔ kinds x = some kind := by
    intro kind terminal x
    by_cases here : x = id
    · subst here
      rw [Function.update_self]
      rcases before with before | before <;> rcases after with after | after <;>
        rw [before, after]
      · refine iff_of_false ?_ (by rintro ⟨⟩)
        rintro ⟨⟩
        cases terminal
      · refine iff_of_false (by rintro ⟨⟩) ?_
        rintro ⟨⟩
        cases terminal
    · rw [Function.update_of_ne here]
  refine ⟨fun kind terminal settled x => ?_, fun kind terminal waits x held => ?_⟩
  · rw [same kind terminal]
    exact owned.named kind terminal settled x
  · exact owned.absent kind terminal waits x ((same kind terminal x).mp held)

/-- A terminal of a new kind is added and named by its owner. -/
theorem add (owned : Owned terminal? kinds pending) (free : kinds id = none)
    (new : ∀ x, kinds x ≠ some kind) {other : Kind → Option NodeId} (names : other kind = some id)
    (others : ∀ k, k ≠ kind → other k = terminal? k) :
    Owned other (Function.update kinds id (some kind)) fun k => pending k ∧ k ≠ kind := by
  refine ⟨fun k terminal settled x => ?_, fun k terminal waits x held => ?_⟩
  · -- The new kind is now named; what was settled before keeps its terminal.
    by_cases same : k = kind
    · subst same
      rw [names]
      by_cases here : x = id
      · subst here
        simp
      · rw [Function.update_of_ne here]
        exact iff_of_false (fun equal => here (Option.some.inj equal).symm) (new x)
    · have named := owned.named k terminal (fun waits => settled ⟨waits, same⟩) x
      rw [others k same, named]
      by_cases here : x = id
      · subst here
        rw [free, Function.update_self]
        exact iff_of_false (by rintro ⟨⟩) fun equal => same (Option.some.inj equal).symm
      · rw [Function.update_of_ne here]
  · by_cases here : x = id
    · subst here
      rw [Function.update_self] at held
      exact waits.2 (Option.some.inj held).symm
    · rw [Function.update_of_ne here] at held
      exact owned.absent k terminal waits.1 x held

/-- A terminal is dropped; its kind is pending from then on. -/
theorem drop (owned : Owned terminal? kinds pending) (held : kinds id = some kind)
    (terminal : kind.isGate = false) :
    Owned terminal? (Function.update kinds id none) fun k => pending k ∨ k = kind := by
  have settled : ¬ pending kind := fun waits =>
    owned.absent kind terminal waits id held
  refine ⟨fun k terminal' settled' x => ?_, fun k terminal' waits x held' => ?_⟩
  · rw [owned.named k terminal' (fun waits => settled' (.inl waits))]
    by_cases here : x = id
    · subst here
      rw [held, Function.update_self]
      exact iff_of_false (fun equal => settled' (.inr (Option.some.inj equal).symm)) (by rintro ⟨⟩)
    · rw [Function.update_of_ne here]
  · by_cases here : x = id
    · subst here
      rw [Function.update_self] at held'
      cases held'
    · rw [Function.update_of_ne here] at held'
      rcases waits with waits | rfl
      · exact owned.absent k terminal' waits x held'
      · have one := (owned.named k terminal settled id).mpr held
        have two := (owned.named k terminal settled x).mpr held'
        exact here (Option.some.inj (two.symm.trans one))

end Owned

/-! ## Depth -/

/-- One more than the deeper operand. -/
def heightAbove (r : Request) (h : NodeId → Nat) : Nat :=
  1 + max (r.left.node.elim 0 h) (r.right.node.elim 0 h)

/-- Heights of all nodes: a gate is one above its deeper driver, all else is at 0. -/
def Heights (L : Layout) (h : NodeId → Nat) : Prop :=
  ∀ id, L.circuit.Solves heightAbove (fun _ => 0) h id

/-- The height of what an output reads. -/
def sourceHeight (L : Layout) (h : NodeId → Nat) (id : NodeId) : Nat :=
  ((L id).bind Node.first).elim 0 h

/-- The depth of a layout: the greatest height that an output reads. -/
def IsDepth (L : Layout) (outputs : List NodeId) (depth : Nat) : Prop :=
  ∀ h, Heights L h → depth = (outputs.map (sourceHeight L h)).foldl max 0

/-- Sound but for the banks and for the terminals of pending kinds. -/
structure SoundBut (net : Network) (pending : Kind → Prop) : Prop where
  woven : net.Woven
  registered : ∀ r : Registry, r.Exact net.nodes.layout.kind? (net.registry r)
  owned : Owned net.terminal? net.nodes.layout.kind? pending
  coherent : ∀ depth, net.depth? = some depth →
    IsDepth net.nodes.layout net.outputs.toList depth

/-- All that commands keep. -/
structure Sound (net : Network) : Prop extends SoundBut net fun _ => False where
  banks : ∀ family, (net.bank family).Sound
  ports : ∀ {port : PortId} {p : Port}, net.ports[port]? = some p → p.Sound port

namespace Sound

variable {net : Network}

theorem banks_congr {other : Network} (sound : net.Sound)
    (banks : ∀ family, other.bank family = net.bank family) (family : Family) :
    (other.bank family).Sound := by
  rw [banks]
  exact sound.banks family

theorem mem_gates_iff (sound : net.Sound) {id : NodeId} :
    id ∈ net.gates ↔ net.nodes.layout.HasGate id := by
  rw [Layout.hasGate_iff_kind?]
  refine ((sound.registered .gates).2 id).trans ⟨?_, fun held => ⟨_, held, rfl⟩⟩
  rintro ⟨kind, held, isGate⟩
  cases kind with
  | gate => exact held
  | _ => cases isGate

theorem mem_inputs_iff (sound : net.Sound) {id : NodeId} :
    id ∈ net.inputs ↔ ∃ n, net.nodes.layout id = some n ∧ n.isInput = true := by
  refine ((sound.registered .inputs).2 id).trans ⟨?_, ?_⟩
  · rintro ⟨kind, held, input⟩
    obtain ⟨n, live, rfl⟩ := Layout.kind?_eq_some_iff.mp held
    exact ⟨n, live, input⟩
  · rintro ⟨n, live, input⟩
    exact ⟨n.kind, Layout.kind?_of_node live, input⟩

theorem mem_outputs_iff (sound : net.Sound) {id : NodeId} :
    id ∈ net.outputs ↔ ∃ n, net.nodes.layout id = some n ∧ n.isOutput = true := by
  refine ((sound.registered .outputs).2 id).trans ⟨?_, ?_⟩
  · rintro ⟨kind, held, output⟩
    obtain ⟨n, live, rfl⟩ := Layout.kind?_eq_some_iff.mp held
    exact ⟨n, live, output⟩
  · rintro ⟨n, live, output⟩
    exact ⟨n.kind, Layout.kind?_of_node live, output⟩

end Sound

/-! ## Networks without nodes -/

/-- A network without nodes, elements and registered ids is sound. -/
theorem sound_of_blank {net : Network} (nodes : net.nodes.Sound)
    (layout : net.nodes.layout = fun _ => none)
    (table : net.nodes.Tabled net.table fun _ => False) (ports : net.ports = #[])
    (registries : ∀ r : Registry, net.registry r = #[]) (banks : ∀ family, (net.bank family).Sound)
    (orders : ∀ family, (net.bank family).order = #[]) (depth : net.depth? = none) : net.Sound := by
  -- Every clause speaks of live nodes, wires or elements, and there are none.
  have noNode : ∀ {id n}, net.nodes.get? id = some n → False := by
    intro id n held
    have live := Store.layout_of_get? held
    rw [layout] at live
    cases live
  refine ⟨⟨⟨nodes, ?_, ⟨fun {e d} wire => ?_, fun d m held => (noNode held).elim⟩, ?_⟩, fun r => ?_,
    ⟨fun kind _ _ id => ?_, fun kind _ none => none.elim⟩, fun k held => ?_⟩, banks,
    fun held => by simp [ports] at held⟩
  · rw [layout]
    exact Layout.sound_empty
  · obtain ⟨n, held, _⟩ := Store.driverAt_eq_some_iff.mp wire
    exact (noNode held).elim
  · refine table.congr (fun id => iff_of_false ?_ not_false) (fun _ _ => rfl) fun _ _ => rfl
    rw [layout]
    exact Layout.not_hasGate_of_none rfl
  · rw [layout, registries]
    exact r.exact_empty
  · rw [layout]
    refine iff_of_false ?_ (by rintro ⟨⟩)
    cases kind with
    | portInput port bit => simp [terminal?, ports]
    | portOutput port bit => simp [terminal?, ports]
    | gate => simp [terminal?]
    | state family element pin =>
      intro named
      obtain ⟨e, held, _⟩ := Option.map_eq_some_iff.mp named
      have listed := ((banks family).exact element).mpr ⟨e, held⟩
      rw [orders] at listed
      simp at listed
  · rw [depth] at held
    cases held

theorem nextPowerOfTwo_pos (n : Nat) : 0 < n.nextPowerOfTwo :=
  Nat.pos_of_isPowerOfTwo (Nat.isPowerOfTwo_nextPowerOfTwo n)

theorem sound_withBuckets (buckets : Nat) : (withBuckets buckets).Sound := by
  refine sound_of_blank Store.sound_empty rfl (Store.tabled_replicate _ (nextPowerOfTwo_pos _)) rfl
    (fun r => by cases r <;> rfl) (fun family => by cases family <;> exact Bank.sound_empty)
    (fun family => by cases family <;> rfl) rfl

theorem sound_clear {net : Network} (sound : net.Sound) : net.clear.Sound := by
  refine sound_of_blank (Store.sound_clear _) ?_
    (Store.tabled_replicate _ sound.woven.tabled.positive) rfl (fun r => by cases r <;> rfl)
    (fun family => by cases family <;> exact Bank.sound_clear _)
    (fun family => by cases family <;> rfl) rfl
  funext id
  exact Store.layout_eq_none_iff.mpr (Store.get?_clear net.nodes id)

end Network

end GateNet
