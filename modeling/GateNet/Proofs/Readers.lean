import GateNet.Proofs.Chain

/-!
# The readers of a node, in their order

The fanouts of a node are an array, and their order decides the order of evaluation.  Unplugging an
operand moves the last entry of its driver to the place of the one that goes, plugging appends an
entry, and nothing else touches a list of readers.  An entry that was appended last is therefore
taken away without a trace.
-/

namespace GateNet

namespace Fanout

/-- The entries without one of them, the last one in its place; all of them if it is not listed. -/
def without (entries : Array Fanout) (entry : Fanout) : Array Fanout :=
  (remove? entries entry).getD entries

variable {entries : Array Fanout} {entry : Fanout}

theorem remove?_of_not_mem (unlisted : entry ∉ entries) : remove? entries entry = none := by
  have absent : entries.findIdx? (· == entry) = none := by
    rw [Array.findIdx?_eq_none_iff]
    intro e listed
    rw [beq_eq_false_iff_ne]
    rintro rfl
    exact unlisted listed
  rw [remove?, absent]

theorem without_of_not_mem (unlisted : entry ∉ entries) : without entries entry = entries := by
  rw [without, remove?_of_not_mem unlisted]
  rfl

theorem remove?_push (unlisted : entry ∉ entries) :
    remove? (entries.push entry) entry = some entries := by
  have last : (entries.push entry).findIdx? (· == entry) = some entries.size := by
    refine Array.findIdx?_eq_some_iff_getElem.mpr ⟨by simp, by simp, fun j small => ?_⟩
    rw [Array.getElem_push_lt small, beq_iff_eq]
    rintro rfl
    exact unlisted (Array.getElem_mem small)
  rw [remove?, last, Array.back?_push]
  dsimp only
  rw [setIfInBounds_push, Array.pop_push]

/-- The entry that was appended last goes without a trace. -/
theorem without_push (unlisted : entry ∉ entries) :
    without (entries.push entry) entry = entries := by
  rw [without, remove?_push unlisted]
  rfl

/-- The entries without several of them, one after the other. -/
def withoutAll (entries : Array Fanout) (gone : List Fanout) : Array Fanout :=
  gone.foldl without entries

theorem withoutAll_of_not_mem {gone : List Fanout} (unlisted : ∀ e ∈ gone, e ∉ entries) :
    withoutAll entries gone = entries := by
  induction gone with
  | nil => rfl
  | cons e gone inductionHypothesis =>
    rw [withoutAll, List.foldl_cons, without_of_not_mem (unlisted e (.head _))]
    exact inductionHypothesis fun e listed => unlisted e (.tail _ listed)

/-- What becomes of the readers of a node when an operand is plugged anew. -/
def replug (entry : Fanout) (driven : Prop) [Decidable driven] (entries : Array Fanout) :
    Array Fanout :=
  if driven then (without entries entry).push entry else without entries entry

/-- What becomes of the readers of a node `x` when a new gate has a key. -/
def planted (id : NodeId) (key : Key) (x : NodeId) (entries : Array Fanout) : Array Fanout :=
  replug ⟨id, .second⟩ (some key.second = some x)
    (replug ⟨id, .first⟩ (some key.first = some x) entries)

theorem replug_of_not_mem {driven : Prop} [Decidable driven] (unlisted : entry ∉ entries) :
    replug entry driven entries = if driven then entries.push entry else entries := by
  rw [replug, without_of_not_mem unlisted]

/-- A gate that goes right after it came leaves no trace among the readers of its operands. -/
theorem withoutAll_planted {id : NodeId} {key : Key} (apart : key.first ≠ key.second) (x : NodeId)
    (unlisted : ∀ p, ⟨id, p⟩ ∉ entries) :
    withoutAll (planted id key x entries) [⟨id, .first⟩, ⟨id, .second⟩] = entries := by
  have first := without_of_not_mem (unlisted .first)
  have second := without_of_not_mem (unlisted .second)
  rw [planted, replug_of_not_mem (unlisted .first), withoutAll, List.foldl_cons, List.foldl_cons,
    List.foldl_nil]
  by_cases here : key.first = x
  · -- The first operand is not the second, so only one entry was appended.
    subst here
    have other : ⟨id, .second⟩ ∉ entries.push ⟨id, .first⟩ := by simp [unlisted .second]
    rw [if_pos rfl, replug_of_not_mem other, if_neg fun same => apart (Option.some.inj same).symm,
      without_push (unlisted .first), second]
  · rw [if_neg fun same => here (Option.some.inj same), replug_of_not_mem (unlisted .second)]
    split
    · have other : ⟨id, .first⟩ ∉ entries.push ⟨id, .second⟩ := by simp [unlisted .first]
      rw [without_of_not_mem other, without_push (unlisted .second)]
    · rw [first, second]

end Fanout

namespace Store

/-- Who reads a live node, in order. -/
def readers (nodes : Store Node) (id : NodeId) : Option (Array Fanout) :=
  (nodes.get? id).map Node.fanouts

variable {nodes before after : Store Node}

theorem readers_of_get? {id : NodeId} {n : Node} (held : nodes.get? id = some n) :
    nodes.readers id = some n.fanouts := by
  rw [readers, held, Option.map_some]

theorem readers_modify_fanouts (nodes : Store Node) (id : NodeId) {change : Node → Node}
    (follow : Array Fanout → Array Fanout) (follows : ∀ n, (change n).fanouts = follow n.fanouts)
    (x : NodeId) :
    (nodes.modify id change).readers x =
      if x = id then (nodes.readers x).map follow else nodes.readers x := by
  rw [readers, readers, get?_modify]
  split
  · rw [Option.map_map, Option.map_map]
    exact Option.map_congr fun n _ => follows n
  · rfl

theorem readers_modify (nodes : Store Node) (id : NodeId) {change : Node → Node}
    (same : ∀ n, (change n).fanouts = n.fanouts) :
    (nodes.modify id change).readers = nodes.readers := by
  funext x
  rw [readers_modify_fanouts nodes id (fun entries => entries) same, Option.map_id', ite_self]

theorem Relinked.readers_eq (same : before.Relinked after) : after.readers = before.readers := by
  funext x
  have shown : ∀ nodes : Store Node,
      nodes.readers x = ((nodes.get? x).map Node.unlinked).map Node.fanouts := by
    intro nodes
    rw [Option.map_map]
    rfl
  rw [shown, shown, same.unlinked_eq]

/-- A node without its link is its core and its readers. -/
theorem unlinked_eq_of_layout_eq {id : NodeId} (layout_eq : after.layout id = before.layout id)
    (readers_eq : after.readers id = before.readers id) :
    (after.get? id).map Node.unlinked = (before.get? id).map Node.unlinked := by
  have rebuilt : ∀ n : Node, n.unlinked = { n.core with fanouts := n.fanouts } := fun _ => rfl
  rw [layout, layout] at layout_eq
  rw [readers, readers] at readers_eq
  cases held : after.get? id <;> cases held' : before.get? id <;>
    simp only [held, held', Option.map_some, Option.map_none, Option.some.injEq, reduceCtorEq]
      at layout_eq readers_eq ⊢
  rw [rebuilt, rebuilt, layout_eq, readers_eq]

/-- Some nodes are gone, with the entries of their wires among the readers of their drivers. -/
structure Dropped (before after : Store Node) (gone : List NodeId) (wires : List Fanout) :
    Prop where
  dead : ∀ x ∈ gone, after.layout x = none
  layout_eq : ∀ x ∉ gone, after.layout x = before.layout x
  readers_eq : ∀ x ∉ gone,
    after.readers x = (before.readers x).map (Fanout.withoutAll · wires)

namespace Dropped

variable {later : Store Node} {gone more : List NodeId} {wires others : List Fanout}

theorem refl (nodes : Store Node) : nodes.Dropped nodes [] [] :=
  ⟨nofun, fun _ _ => rfl, fun _ _ => Option.map_id'.symm⟩

theorem trans (first : before.Dropped after gone wires) (second : after.Dropped later more others) :
    before.Dropped later (gone ++ more) (wires ++ others) := by
  refine ⟨fun x listed => ?_, fun x other => ?_, fun x other => ?_⟩
  · by_cases late : x ∈ more
    · exact second.dead x late
    · have early := (List.mem_append.mp listed).resolve_right late
      rw [second.layout_eq x late, first.dead x early]
  · rw [List.mem_append, not_or] at other
    rw [second.layout_eq x other.2, first.layout_eq x other.1]
  · rw [List.mem_append, not_or] at other
    rw [second.readers_eq x other.2, first.readers_eq x other.1, Option.map_map]
    refine Option.map_congr fun entries _ => ?_
    rw [Function.comp_apply, Fanout.withoutAll, Fanout.withoutAll, Fanout.withoutAll,
      List.foldl_append]

theorem layout_update {id : NodeId} (dropped : before.Dropped after [id] wires) :
    after.layout = Function.update before.layout id none := by
  funext x
  by_cases same : x = id
  · rw [same, Function.update_self, dropped.dead id (.head _)]
  · rw [Function.update_of_ne same, dropped.layout_eq x (by simpa using same)]

end Dropped

end Store

namespace Network

variable {nodes rest : Store Node} {reader : NodeId} {n : Node} {operand : Operand}

/-- Where the reader is plugged, and only there, its entry is listed. -/
theorem readers_of_wire (wired : nodes.Wired) (held : nodes.get? reader = some n) {x : NodeId}
    (other : n.driver operand ≠ some x) :
    (nodes.readers x).map (Fanout.without · ⟨reader, operand⟩) = nodes.readers x := by
  have here : nodes.driverAt ⟨reader, operand⟩ = n.driver operand := by
    rw [Store.driverAt, held, Option.bind_some]
  cases live : nodes.get? x with
  | none => rw [Store.readers, live, Option.map_none, Option.map_none]
  | some m =>
    have unlisted : ⟨reader, operand⟩ ∉ m.fanouts := by
      rw [wired.mem_fanouts_iff live, here]
      exact other
    rw [Store.readers_of_get? live, Option.map_some, Fanout.without_of_not_mem unlisted]

theorem readers_withoutFanout (wired : nodes.Wired) (held : nodes.get? reader = some n)
    {old : NodeId} (wire : n.driver operand = some old)
    (dropped : withoutFanout nodes old ⟨reader, operand⟩ = .ok rest) (x : NodeId) :
    rest.readers x = (nodes.readers x).map (Fanout.without · ⟨reader, operand⟩) := by
  have plugged : nodes.driverAt ⟨reader, operand⟩ = some old := by
    rw [Store.driverAt, held, Option.bind_some, wire]
  obtain ⟨m, live⟩ := wired.live plugged
  simp only [withoutFanout, Store.fetch_of_get? live, ok_bind] at dropped
  cases removed : Fanout.remove? m.fanouts ⟨reader, operand⟩ with
  | none =>
    rw [removed] at dropped
    cases dropped
  | some left =>
    rw [removed] at dropped
    obtain rfl := Except.ok.inj dropped
    rw [Store.readers_modify_fanouts nodes old (fun _ => left) fun _ => rfl]
    by_cases same : x = old
    · rw [if_pos same, same, Store.readers_of_get? live, Option.map_some, Option.map_some,
        Fanout.without, removed, Option.getD_some]
    · rw [if_neg same, readers_of_wire wired held]
      rw [wire]
      exact fun here => same (Option.some.inj here).symm

/-- Plugging takes the entry from where it was listed and appends it at the new driver. -/
theorem readers_plug {net after : Network} (wired : net.nodes.Wired)
    (held : net.nodes.get? reader = some n) {driver : Option NodeId}
    (plugged : net.plug reader operand driver = .ok after) (x : NodeId) :
    after.nodes.readers x =
      (net.nodes.readers x).map (Fanout.replug ⟨reader, operand⟩ (driver = some x)) := by
  rw [plug_eq held] at plugged
  obtain ⟨rest, unplugged, plugged⟩ := bind_eq_ok_iff.mp plugged
  obtain ⟨nodes, connected, plugged⟩ := bind_eq_ok_iff.mp plugged
  cases plugged
  -- An operand without a driver is listed nowhere, so striking its entry changes nothing.
  have struck : rest.readers x =
      (net.nodes.readers x).map (Fanout.without · ⟨reader, operand⟩) := by
    cases wire : n.driver operand with
    | none =>
      rw [wire] at unplugged
      obtain rfl := Except.ok.inj unplugged
      exact (readers_of_wire wired held (by rw [wire]; exact nofun)).symm
    | some old =>
      rw [wire] at unplugged
      exact readers_withoutFanout wired held wire unplugged x
  have assigned : (rest.modify reader (·.withDriver operand driver)).readers = rest.readers :=
    Store.readers_modify _ _ fun n => by cases operand <;> rfl
  show nodes.readers x = _
  cases driver with
  | none =>
    obtain rfl := Except.ok.inj connected
    rw [assigned, struck]
    rfl
  | some new =>
    obtain rfl := Store.eq_modify_of_update connected
    rw [Store.readers_modify_fanouts _ new (·.push ⟨reader, operand⟩) fun _ => rfl, assigned,
      struck, Option.map_map]
    by_cases same : x = new
    · subst same
      rw [if_pos rfl]
      refine Option.map_congr fun entries _ => ?_
      rw [Fanout.replug, if_pos rfl]
      rfl
    · rw [if_neg same]
      refine Option.map_congr fun entries _ => ?_
      rw [Fanout.replug, if_neg fun wire => same (Option.some.inj wire).symm]

theorem readers_unplug {net after : Network} (wired : net.nodes.Wired)
    (held : net.nodes.get? reader = some n)
    (plugged : net.plug reader operand none = .ok after) (x : NodeId) :
    after.nodes.readers x = (net.nodes.readers x).map (Fanout.without · ⟨reader, operand⟩) := by
  rw [readers_plug wired held plugged]
  exact Option.map_congr fun entries _ => if_neg nofun

end Network

end GateNet
