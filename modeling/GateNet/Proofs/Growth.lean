import GateNet.Proofs.Making

/-!
# Growing and shrinking

An operation builds or it erases.  One that builds creates nodes under fresh ids and registers
each where its kind belongs; between two creations it may change records and tables, but no kind
and no registry.  One that erases removes nodes and shortens registries.  Both are read off the
steps of an operation, from whatever state it starts.

`Built` keeps the created nodes in the order of their creation.  On a network with a sound store
they are new, they are all that is new, and each registry is continued by those of its sort.
-/

namespace GateNet

/-! ## Stores -/

namespace Store

/-- Records may change, but not the kinds of nodes. -/
structure Rewritten (before after : Store Node) : Prop where
  sound : before.Sound → after.Sound
  kinds : after.layout.kind? = before.layout.kind?

namespace Rewritten

variable {before after later : Store Node}

theorem refl (nodes : Store Node) : nodes.Rewritten nodes := ⟨id, rfl⟩

theorem trans (first : before.Rewritten after) (second : after.Rewritten later) :
    before.Rewritten later :=
  ⟨fun sound => second.sound (first.sound sound), second.kinds.trans first.kinds⟩

theorem modify (nodes : Store Node) (id : NodeId) {change : Node → Node}
    (same : ∀ n, (change n).kind = n.kind) : nodes.Rewritten (nodes.modify id change) where
  sound sound := sound.modify id change
  kinds := by
    funext x
    simp only [Layout.kind?, layout, get?_modify]
    split
    · cases nodes.get? x <;> simp [same]
    · rfl

theorem update {id : NodeId} {change : Node → Node} (updated : before.update id change = .ok after)
    (same : ∀ n, (change n).kind = n.kind) : before.Rewritten after := by
  rw [eq_modify_of_update updated]
  exact modify before id same

end Rewritten

variable {α : Type}

/-- What was removed was live, and no other record changed. -/
theorem get?_of_remove {s rest : Store α} (sound : s.Sound) {id : Nat}
    (removed : s.remove id = .ok rest) :
    rest.Sound ∧ ∀ x, rest.get? x = if x = id then none else s.get? x := by
  have used := Ids.inUse_of_retire (of_remove removed).1
  rw [← sound.contains_eq] at used
  obtain ⟨record, held⟩ := contains_iff.mp used
  obtain ⟨rest', removed', sound', view⟩ := remove_spec sound held
  obtain rfl := Except.ok.inj (removed.symm.trans removed')
  exact ⟨sound', view⟩

end Store

namespace Network

/-- The slots of the nodes agree with the ids in use, and the table has buckets; the records may
say anything. -/
structure Formed (net : Network) : Prop where
  nodes : net.nodes.Sound
  table : 0 < net.table.size

/-- Whether a registry lists nodes of the kind that the id has. -/
def admits (net : Network) (r : Registry) (id : NodeId) : Bool :=
  (net.nodes.layout.kind? id).any r.admits

/-! ## Steps without creation -/

/-- Nothing is created, removed, registered or unregistered. -/
structure Touched (net after : Network) : Prop where
  nodes : net.nodes.Rewritten after.nodes
  registry : ∀ r, after.registry r = net.registry r
  table : 0 < net.table.size → 0 < after.table.size

namespace Touched

variable {net mid after : Network}

theorem refl (net : Network) : net.Touched net := ⟨.refl _, fun _ => rfl, id⟩

theorem trans (first : net.Touched mid) (second : mid.Touched after) : net.Touched after where
  nodes := first.nodes.trans second.nodes
  registry r := (second.registry r).trans (first.registry r)
  table positive := second.table (first.table positive)

/-- Nodes may be rewritten, and the table and the ports replaced. -/
theorem retouch (net : Network) {nodes : Store Node} {table : Array (Option NodeId)}
    (ports : Array Port) (name : String) (limit : Nat) (depth? : Option Nat)
    (rewritten : net.nodes.Rewritten nodes) (positive : 0 < net.table.size → 0 < table.size) :
    net.Touched { net with name, ports, nodes, table, limit, depth? } where
  nodes := rewritten
  registry r := by cases r <;> rfl
  table := positive

/-- Elements and their order may change. -/
theorem withBank (net : Network) (family : Family) (bank : Bank) :
    net.Touched (net.withBank family bank) where
  nodes := by cases family <;> exact .refl _
  registry r := by cases family <;> cases r <;> rfl
  table positive := by cases family <;> exact positive

theorem formed (touched : net.Touched after) (formed : net.Formed) : after.Formed where
  nodes := touched.nodes.sound formed.nodes
  table := touched.table formed.table

end Touched

/-! ## Creation -/

/-- A terminal or a blank gate is created and registered. -/
inductive Creates (net : Network) (id : NodeId) (after : Network) : Prop
  | terminal {kind : Kind} (notGate : kind.isGate = false)
      (added : net.addTerminal kind = .ok (id, after))
  | gate (added : net.addBlankGate = .ok (id, after))

/-- The nodes of a list are created one after another, and else nothing is. -/
inductive Built (net : Network) : List NodeId → Network → Prop
  | start : Built net [] net
  | touch {made : List NodeId} {mid after : Network} (built : Built net made mid)
      (touched : mid.Touched after) : Built net made after
  | create {made : List NodeId} {mid after : Network} {id : NodeId} (built : Built net made mid)
      (creates : mid.Creates id after) : Built net (made ++ [id]) after

theorem Built.trans {net mid after : Network} {made more : List NodeId} (first : net.Built made mid)
    (second : mid.Built more after) : net.Built (made ++ more) after := by
  induction second with
  | start =>
    rw [List.append_nil]
    exact first
  | touch _ touched built => exact built.touch touched
  | create _ creates built =>
    rw [← List.append_assoc]
    exact built.create creates

/-- What one creation does to a network with a sound store. -/
structure Created (net : Network) (id : NodeId) (kind : Kind) (after : Network) : Prop where
  sound : after.nodes.Sound
  free : net.nodes.layout.kind? id = none
  kinds : after.nodes.layout.kind? = Function.update net.nodes.layout.kind? id (some kind)
  registry : ∀ r, (after.registry r).toList =
    (net.registry r).toList ++ if r.admits kind then [id] else []
  table : after.table = net.table

theorem created_of_addNode {net mid after : Network} {id : NodeId} {kind : Kind}
    (sound : net.nodes.Sound) (added : net.addNode kind = .ok (id, mid))
    (nodes : after.nodes = mid.nodes)
    (registry : ∀ r, (after.registry r).toList =
      (mid.registry r).toList ++ if r.admits kind then [id] else [])
    (table : after.table = mid.table) : net.Created id kind after := by
  obtain ⟨⟨_, more⟩, inserted, added⟩ := bind_eq_ok_iff.mp added
  cases added
  obtain ⟨_, _, inserted', sound', free, _, _, view⟩ :=
    Store.insert_spec sound fun id => ({ id, kind } : Node)
  cases inserted.symm.trans inserted'
  have kinds : more.layout.kind? = Function.update net.nodes.layout.kind? id (some kind) := by
    funext x
    simp only [Layout.kind?, Store.layout, view]
    by_cases same : x = id
    · subst same
      rw [if_pos rfl, Function.update_self, Store.renewed]
      split <;> rfl
    · rw [if_neg same, Function.update_of_ne same]
      rfl
  refine ⟨nodes ▸ sound', ?_, nodes ▸ kinds, fun r => ?_, table⟩
  · rw [Layout.kind?, Store.layout, free]
    rfl
  · rw [registry]
    cases r <;> rfl

theorem Creates.created {net after : Network} {id : NodeId} (creates : net.Creates id after)
    (sound : net.nodes.Sound) : ∃ kind, net.Created id kind after := by
  cases creates with
  | terminal notGate added =>
    rename_i kind
    obtain ⟨⟨_, mid⟩, node, added⟩ := bind_eq_ok_iff.mp added
    cases added
    refine ⟨kind, created_of_addNode sound node ?_ (fun r => ?_) ?_⟩
    · unfold register
      split <;> rfl
    · unfold register
      cases input : kind.isInput <;> cases r <;>
        simp [registry, Registry.admits, Kind.isOutput, input, notGate]
    · unfold register
      split <;> rfl
  | gate added =>
    obtain ⟨⟨_, mid⟩, node, added⟩ := bind_eq_ok_iff.mp added
    cases added
    refine ⟨.gate, created_of_addNode sound node rfl (fun r => ?_) rfl⟩
    cases r <;> simp [registry, Registry.admits, Kind.isInput, Kind.isOutput, Kind.isGate]

theorem Created.formed {net after : Network} {id : NodeId} {kind : Kind}
    (created : net.Created id kind after) (formed : net.Formed) : after.Formed where
  nodes := created.sound
  table := created.table ▸ formed.table

theorem Built.formed {net after : Network} {made : List NodeId} (built : net.Built made after)
    (formed : net.Formed) : after.Formed := by
  induction built with
  | start => exact formed
  | touch _ touched formed => exact touched.formed formed
  | create _ creates formed =>
    obtain ⟨kind, created⟩ := creates.created formed.nodes
    exact created.formed formed

/-- What a list of creations did to a network with a sound store. -/
structure Extended (net : Network) (made : List NodeId) (after : Network) : Prop where
  sound : after.nodes.Sound
  nodup : made.Nodup
  fresh : ∀ id ∈ made, net.nodes.layout.kind? id = none
  live : ∀ id ∈ made, ∃ kind, after.nodes.layout.kind? id = some kind
  kept : ∀ id, id ∉ made → after.nodes.layout.kind? id = net.nodes.layout.kind? id
  registry : ∀ r, (after.registry r).toList =
    (net.registry r).toList ++ made.filter (after.admits r)

theorem Extended.touch {net mid after : Network} {made : List NodeId} (extended : net.Extended made mid)
    (touched : mid.Touched after) : net.Extended made after where
  sound := touched.nodes.sound extended.sound
  nodup := extended.nodup
  fresh := extended.fresh
  live := by
    rw [touched.nodes.kinds]
    exact extended.live
  kept := by
    rw [touched.nodes.kinds]
    exact extended.kept
  registry r := by
    have same : after.admits r = mid.admits r := by
      funext id
      rw [admits, admits, touched.nodes.kinds]
    rw [touched.registry, same]
    exact extended.registry r

theorem Extended.create {net mid after : Network} {made : List NodeId} {id : NodeId} {kind : Kind}
    (extended : net.Extended made mid) (created : mid.Created id kind after) :
    net.Extended (made ++ [id]) after := by
  have unmade : id ∉ made := by
    intro listed
    obtain ⟨kind, held⟩ := extended.live id listed
    rw [created.free] at held
    cases held
  have others : ∀ {x}, x ≠ id → after.nodes.layout.kind? x = mid.nodes.layout.kind? x := by
    intro x other
    rw [created.kinds, Function.update_of_ne other]
  have self : after.nodes.layout.kind? id = some kind := by
    rw [created.kinds, Function.update_self]
  refine ⟨created.sound, ?_, ?_, ?_, ?_, fun r => ?_⟩
  · exact extended.nodup.append (List.nodup_singleton id) (by simpa using unmade)
  · intro x listed
    cases List.mem_append.mp listed with
    | inl earlier => exact extended.fresh x earlier
    | inr last =>
      obtain rfl := List.mem_singleton.mp last
      exact (extended.kept x unmade).symm.trans created.free
  · intro x listed
    by_cases same : x = id
    · exact ⟨kind, same ▸ self⟩
    · rw [others same]
      exact extended.live x ((List.mem_append.mp listed).resolve_right (by simpa using same))
  · intro x unlisted
    rw [List.mem_append, not_or, List.mem_singleton] at unlisted
    rw [others unlisted.2]
    exact extended.kept x unlisted.1
  · -- The earlier nodes keep their kinds, and the new one is listed where it is registered.
    have earlier : made.filter (after.admits r) = made.filter (mid.admits r) := by
      apply List.filter_congr
      intro x listed
      have other : x ≠ id := fun same => unmade (same ▸ listed)
      rw [admits, admits, others other]
    have last : [id].filter (after.admits r) = if r.admits kind then [id] else [] := by
      simp [admits, self, List.filter_singleton]
    rw [created.registry, extended.registry, List.filter_append, earlier, last, List.append_assoc]

theorem Built.extended {net after : Network} {made : List NodeId} (built : net.Built made after)
    (sound : net.nodes.Sound) : net.Extended made after := by
  induction built with
  | start => exact ⟨sound, List.nodup_nil, by simp, by simp, fun _ _ => rfl, by simp⟩
  | touch _ touched extended => exact extended.touch touched
  | create _ creates extended =>
    obtain ⟨kind, created⟩ := creates.created extended.sound
    exact extended.create created

/-! ## Erasure -/

/-- Nodes are removed and registries shortened, and else nothing happens to either. -/
inductive Erased (net : Network) : Network → Prop
  | start : Erased net net
  | touch {mid after : Network} (erased : Erased net mid) (touched : mid.Touched after) :
      Erased net after
  | remove {mid : Network} {id : NodeId} {nodes : Store Node} (erased : Erased net mid)
      (removed : mid.nodes.remove id = .ok nodes) : Erased net { mid with nodes }
  | unlist {mid : Network} {r : Registry} {ids : Array NodeId} (erased : Erased net mid)
      (shorter : ids.toList.Sublist (mid.registry r).toList) : Erased net (mid.withRegistry r ids)

theorem Erased.trans {net mid after : Network} (first : net.Erased mid) (second : mid.Erased after) :
    net.Erased after := by
  induction second with
  | start => exact first
  | touch _ touched erased => exact erased.touch touched
  | remove _ removed erased => exact erased.remove removed
  | unlist _ shorter erased => exact erased.unlist shorter

@[simp] theorem registry_withRegistry (net : Network) (r other : Registry) (ids : Array NodeId) :
    (net.withRegistry r ids).registry other = if other = r then ids else net.registry other := by
  cases r <;> cases other <;> rfl

theorem Formed.withRegistry {net : Network} (formed : net.Formed) (r : Registry)
    (ids : Array NodeId) : (net.withRegistry r ids).Formed where
  nodes := by cases r <;> exact formed.nodes
  table := by cases r <;> exact formed.table

theorem Formed.remove {net : Network} (formed : net.Formed) {id : NodeId} {nodes : Store Node}
    (removed : net.nodes.remove id = .ok nodes) : ({ net with nodes } : Network).Formed where
  nodes := (Store.get?_of_remove formed.nodes removed).1
  table := formed.table

theorem Erased.formed {net after : Network} (erased : net.Erased after) (formed : net.Formed) :
    after.Formed := by
  induction erased with
  | start => exact formed
  | touch _ touched formed => exact touched.formed formed
  | remove _ removed formed => exact formed.remove removed
  | unlist _ _ formed => exact formed.withRegistry _ _

/-- What erasing did to a network with a sound store. -/
structure Shrunk (net after : Network) : Prop where
  sound : after.nodes.Sound
  kept : ∀ id kind, after.nodes.layout.kind? id = some kind →
    net.nodes.layout.kind? id = some kind
  registry : ∀ r, (after.registry r).toList.Sublist (net.registry r).toList

theorem Erased.shrunk {net after : Network} (erased : net.Erased after)
    (sound : net.nodes.Sound) : net.Shrunk after := by
  induction erased with
  | start => exact ⟨sound, fun _ _ => id, fun _ => List.Sublist.refl _⟩
  | touch _ touched shrunk =>
    refine ⟨touched.nodes.sound shrunk.sound, ?_, fun r => ?_⟩
    · rw [touched.nodes.kinds]
      exact shrunk.kept
    · rw [touched.registry]
      exact shrunk.registry r
  | remove _ removed shrunk =>
    rename_i mid id nodes _
    obtain ⟨sound, view⟩ := Store.get?_of_remove shrunk.sound removed
    refine ⟨sound, fun x kind held => shrunk.kept x kind ?_, fun r => ?_⟩
    · by_cases same : x = id
      · simp [Layout.kind?, Store.layout, view, same] at held
      · simpa [Layout.kind?, Store.layout, view, same] using held
    · have shorter := shrunk.registry r
      cases r <;> exact shorter
  | unlist _ shorter shrunk =>
    rename_i mid r ids _
    refine ⟨by cases r <;> exact shrunk.sound, by cases r <;> exact shrunk.kept, fun other => ?_⟩
    rw [registry_withRegistry]
    split
    · next same =>
      subst same
      exact shorter.trans (shrunk.registry other)
    · exact shrunk.registry other

end Network

end GateNet
