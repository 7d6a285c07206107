import GateNet.Proofs.Agreement
import GateNet.Proofs.Chain

/-!
# Networks that differ in slots and tables

What a network answers does not depend on its table, on the links of its gates or on its dead slots.
`Alike` relates two networks that differ in nothing else.  How the sizes of their tables and their
limits are related is left to a `Sizing`: any relation that creating a table and widening it keep.
-/

namespace GateNet

/-! ## Stores -/

theorem Node.exists_link_of_unlinked {m n : Node} (same : m.unlinked = n.unlinked) :
    ∃ link, n = { m with link } := by
  refine ⟨n.link, ?_⟩
  cases m
  cases n
  simpa [Node.unlinked] using same.symm

/-- A change that does not look at links makes nodes that differ in their links at most. -/
theorem Node.unlinked_change {change change' : Node → Node}
    (blind : ∀ n link, (change n).unlinked = (change' { n with link }).unlinked) (m n : Node)
    (same : m.unlinked = n.unlinked) : (change m).unlinked = (change' n).unlinked := by
  obtain ⟨link, rfl⟩ := exists_link_of_unlinked same
  exact blind m link

namespace Store

variable {α β : Type} {look : α → β} {one two three : Store α}

/-- The same ids are in use, and their records look alike; dead slots may hold anything. -/
structure Alike (look : α → β) (one two : Store α) : Prop where
  ids : one.ids = two.ids
  looks : ∀ id, (one.get? id).map look = (two.get? id).map look

namespace Alike

theorem refl (s : Store α) : s.Alike look s := ⟨rfl, fun _ => rfl⟩

theorem symm (alike : one.Alike look two) : two.Alike look one :=
  ⟨alike.ids.symm, fun id => (alike.looks id).symm⟩

theorem trans (first : one.Alike look two) (second : two.Alike look three) :
    one.Alike look three :=
  ⟨first.ids.trans second.ids, fun id => (first.looks id).trans (second.looks id)⟩

theorem modify (alike : one.Alike look two) (id : Nat) {change change' : α → α}
    (blind : ∀ a b, look a = look b → look (change a) = look (change' b)) :
    (one.modify id change).Alike look (two.modify id change') where
  ids := alike.ids
  looks x := by
    have same := alike.looks x
    rw [get?_modify, get?_modify]
    split
    · cases held : one.get? x <;> cases held' : two.get? x <;> rw [held, held'] at same
      · rfl
      · cases same
      · cases same
      · exact congrArg some (blind _ _ (Option.some.inj same))
    · exact same

theorem update (alike : one.Alike look two) (id : Nat) {change change' : α → α}
    (blind : ∀ a b, look a = look b → look (change a) = look (change' b)) :
    Agree (Store.Alike look) (one.update id change) (two.update id change') := by
  intro a b updated updated'
  rw [eq_modify_of_update updated, eq_modify_of_update updated']
  exact alike.modify id blind

theorem insert [Reusable α] (plain : ∀ old fresh : α, Reusable.renew old fresh = fresh)
    (alike : one.Alike look two) (make : Nat → α) :
    Agree (Together (Store.Alike look)) (one.insert make) (two.insert make) := by
  have renewed : ∀ (s : Store α) (id : Nat) (fresh : α), s.renewed id fresh = fresh := by
    intro s id fresh
    unfold Store.renewed
    split
    · exact plain _ _
    · rfl
  rintro ⟨id, more⟩ ⟨id', more'⟩ inserted inserted'
  obtain ⟨rfl, ids, _⟩ := slots_of_insert inserted
  obtain ⟨rfl, ids', _⟩ := slots_of_insert inserted'
  refine ⟨by rw [alike.ids], by rw [ids, ids', alike.ids], fun x => ?_⟩
  rw [get?_of_insert inserted, get?_of_insert inserted', renewed, renewed, alike.ids]
  split
  · rfl
  · exact alike.looks x

theorem remove (alike : one.Alike look two) (id : Nat) :
    Agree (Store.Alike look) (one.remove id) (two.remove id) := by
  intro a b removed removed'
  obtain ⟨retired, view⟩ := of_remove removed
  obtain ⟨retired', view'⟩ := of_remove removed'
  rw [alike.ids] at retired
  refine ⟨(Prod.mk.inj (retired.symm.trans retired')).2, fun x => ?_⟩
  rw [view, view']
  split
  · rfl
  · exact alike.looks x

/-- A cleared store remembers nothing that shows. -/
theorem cleared (s : Store α) : s.clear.Alike look {} :=
  ⟨rfl, fun x => by rw [get?_clear]; rfl⟩

/-- A live node of one network is one of the other, up to its link. -/
theorem get? {one two : Store Node} (alike : one.Alike Node.unlinked two) (id : NodeId) :
    (one.get? id = none ∧ two.get? id = none) ∨
      ∃ n link, one.get? id = some n ∧ two.get? id = some { n with link } := by
  have same := alike.looks id
  cases held : one.get? id <;> cases held' : two.get? id <;> rw [held, held'] at same
  · exact .inl ⟨rfl, rfl⟩
  · cases same
  · cases same
  · obtain ⟨link, rfl⟩ := Node.exists_link_of_unlinked (Option.some.inj same)
    exact .inr ⟨_, link, rfl, rfl⟩

theorem fetch {one two : Store Node} (alike : one.Alike Node.unlinked two) (id : NodeId) :
    (one.fetch id = .error (.deadSlot id) ∧ two.fetch id = .error (.deadSlot id)) ∨
      ∃ n link, one.fetch id = .ok n ∧ two.fetch id = .ok { n with link } := by
  unfold Store.fetch
  rcases alike.get? id with ⟨held, held'⟩ | ⟨n, link, held, held'⟩
  · simp [held, held']
  · exact .inr ⟨n, link, by rw [held], by rw [held']⟩

theorem agree_fetch {one two : Store Node} (alike : one.Alike Node.unlinked two) (id : NodeId) :
    Agree (fun n m => ∃ link, m = { n with link }) (one.fetch id) (two.fetch id) := by
  intro n m fetched fetched'
  rcases alike.fetch id with ⟨failed, _⟩ | ⟨n', link, held, held'⟩
  · cases fetched.symm.trans failed
  · cases fetched.symm.trans held
    cases fetched'.symm.trans held'
    exact ⟨link, rfl⟩

/-- What is asked of a node without its link is answered alike. -/
theorem fetch_bind {γ : Type} {one two : Store Node} (alike : one.Alike Node.unlinked two)
    {id : NodeId} {ask ask' : Node → Except Fault γ}
    (blind : ∀ n link, ask n = ask' { n with link }) :
    (one.fetch id >>= ask) = two.fetch id >>= ask' := by
  rcases alike.fetch id with ⟨failed, failed'⟩ | ⟨n, link, held, held'⟩
  · rw [failed, failed']
    rfl
  · rw [held, held']
    exact blind n link

theorem layout_eq {one two : Store Node} (alike : one.Alike Node.unlinked two) :
    one.layout = two.layout := by
  funext x
  have cores : ∀ nodes : Store Node,
      nodes.layout x = ((nodes.get? x).map Node.unlinked).map Node.core := by
    intro nodes
    rw [Option.map_map]
    rfl
  rw [cores, cores, alike.looks]

/-- The link of a node does not show. -/
theorem relink (s : Store Node) (id : NodeId) (link : Option NodeId) :
    s.Alike Node.unlinked (s.modify id ({ · with link })) := by
  refine ⟨rfl, fun x => ?_⟩
  rw [get?_modify]
  split
  · rw [Option.map_map]
    rfl
  · rfl

end Alike

end Store

/-! ## Banks -/

/-- The same live elements, in the same order. -/
structure Bank.Alike (one two : Bank) : Prop where
  elements : one.elements.Alike id two.elements
  order : one.order = two.order

namespace Bank.Alike

variable {one two three : Bank}

theorem refl (b : Bank) : b.Alike b := ⟨.refl _, rfl⟩

theorem symm (alike : one.Alike two) : two.Alike one := ⟨alike.elements.symm, alike.order.symm⟩

theorem trans (first : one.Alike two) (second : two.Alike three) : one.Alike three :=
  ⟨first.elements.trans second.elements, first.order.trans second.order⟩

theorem get? (alike : one.Alike two) (id : ElementId) :
    one.elements.get? id = two.elements.get? id := by
  simpa using alike.elements.looks id

theorem fetch (alike : one.Alike two) (id : ElementId) :
    one.elements.fetch id = two.elements.fetch id := by
  unfold Store.fetch
  rw [alike.get?]

theorem cleared (b : Bank) : b.clear.Alike {} := ⟨.cleared _, rfl⟩

end Bank.Alike

/-! ## Table sizes -/

/-- The size of a table, and the number of gates that is remembered as its limit. -/
structure Extent where
  size : Nat
  limit : Nat
  deriving DecidableEq, Repr

namespace Extent

/-- A table of some size with the limit that belongs to it. -/
def ofSize (size : Nat) : Extent := ⟨size, Network.limitFor size⟩

/-- A new table for at least the given number of buckets. -/
def new (buckets : Nat) : Extent := ofSize (max buckets Network.minBuckets).nextPowerOfTwo

/-- A table once it was looked at with the given number of gates: doubled when the limit is
reached. -/
def after (e : Extent) (gates : Nat) : Extent :=
  if e.limit ≤ gates then ofSize (2 * e.size) else e

end Extent

/-- A relation between two tables that lasts. -/
structure Sizing where
  holds : Extent → Extent → Prop
  created : ∀ buckets, holds (.new buckets) (.new buckets)
  copied : ∀ {d e}, holds d e → holds (.new d.size) (.new e.size)
  grown : ∀ {d e} (gates), holds d e → holds (d.after gates) (e.after gates)

namespace Sizing

/-- The tables may have any sizes and limits. -/
def any : Sizing where
  holds _ _ := True
  created _ := trivial
  copied _ := trivial
  grown _ _ := trivial

/-- The tables have the same size and the same limit. -/
def same : Sizing where
  holds d e := d = e
  created _ := rfl
  copied := congrArg fun d : Extent => Extent.new d.size
  grown gates := congrArg fun d : Extent => d.after gates

end Sizing

/-! ## Networks -/

namespace Network

variable {sizing : Sizing} {one two three : Network}

def extent (net : Network) : Extent := ⟨net.table.size, net.limit⟩

/-- Two networks that differ in nothing that is asked of them, their tables apart. -/
structure Alike (sizing : Sizing) (one two : Network) : Prop where
  name : one.name = two.name
  ports : one.ports = two.ports
  nodes : one.nodes.Alike Node.unlinked two.nodes
  flipFlops : one.flipFlops.Alike two.flipFlops
  latches : one.latches.Alike two.latches
  inputs : one.inputs = two.inputs
  outputs : one.outputs = two.outputs
  gates : one.gates = two.gates
  depth? : one.depth? = two.depth?
  sizes : sizing.holds one.extent two.extent

namespace Alike

theorem refl {net : Network} (sizes : sizing.holds net.extent net.extent) :
    net.Alike sizing net :=
  ⟨rfl, rfl, .refl _, .refl _, .refl _, rfl, rfl, rfl, rfl, sizes⟩

theorem refl_same (net : Network) : net.Alike .same net := refl rfl

/-- The sizes of the tables are a matter of their own. -/
theorem sized {other : Sizing} (alike : one.Alike sizing two)
    (sizes : other.holds one.extent two.extent) : one.Alike other two :=
  { alike with sizes }

theorem any (alike : one.Alike sizing two) : one.Alike .any two := alike.sized trivial

theorem symm (alike : one.Alike sizing two) : two.Alike .any one :=
  ⟨alike.name.symm, alike.ports.symm, alike.nodes.symm, alike.flipFlops.symm, alike.latches.symm,
    alike.inputs.symm, alike.outputs.symm, alike.gates.symm, alike.depth?.symm, trivial⟩

theorem trans {other : Sizing} (first : one.Alike sizing two) (second : two.Alike other three) :
    one.Alike .any three :=
  ⟨first.name.trans second.name, first.ports.trans second.ports, first.nodes.trans second.nodes,
    first.flipFlops.trans second.flipFlops, first.latches.trans second.latches,
    first.inputs.trans second.inputs, first.outputs.trans second.outputs,
    first.gates.trans second.gates, first.depth?.trans second.depth?, trivial⟩

theorem bank (alike : one.Alike sizing two) (family : Family) :
    (one.bank family).Alike (two.bank family) := by
  cases family
  · exact alike.flipFlops
  · exact alike.latches

theorem registry (alike : one.Alike sizing two) (r : Registry) :
    one.registry r = two.registry r := by
  cases r
  · exact alike.inputs
  · exact alike.outputs
  · exact alike.gates

theorem element? (alike : one.Alike sizing two) (family : Family) (id : ElementId) :
    one.element? family id = two.element? family id :=
  (alike.bank family).get? id

theorem bound (alike : one.Alike sizing two) : one.nodes.bound = two.nodes.bound :=
  congrArg Ids.next alike.nodes.ids

theorem withNodes (alike : one.Alike sizing two) {nodes nodes' : Store Node}
    (same : nodes.Alike Node.unlinked nodes') :
    ({ one with nodes } : Network).Alike sizing { two with nodes := nodes' } :=
  { alike with nodes := same }

theorem withBank (alike : one.Alike sizing two) (family : Family) {b c : Bank}
    (banks : b.Alike c) : (one.withBank family b).Alike sizing (two.withBank family c) := by
  cases family
  · exact { alike with flipFlops := banks }
  · exact { alike with latches := banks }

theorem rename (alike : one.Alike sizing two) (name : String) :
    (one.rename name).Alike sizing (two.rename name) :=
  { alike with name := rfl }

end Alike

@[simp] theorem extent_withBuckets (buckets : Nat) :
    (withBuckets buckets).extent = .new buckets := by
  rw [extent, withBuckets, Array.size_replicate]
  rfl

@[simp] theorem extent_clear (net : Network) : net.clear.extent = net.extent := by
  rw [extent, clear, Array.size_replicate]
  rfl

/-- New networks differ in their tables at most. -/
theorem alike_withBuckets {m n : Nat} (sizes : sizing.holds (.new m) (.new n)) :
    (withBuckets m).Alike sizing (withBuckets n) where
  name := rfl
  ports := rfl
  nodes := .refl _
  flipFlops := .refl _
  latches := .refl _
  inputs := rfl
  outputs := rfl
  gates := rfl
  depth? := rfl
  sizes := by rwa [extent_withBuckets, extent_withBuckets]

/-- A cleared network differs from a new one in its slots and its table at most. -/
theorem alike_cleared (net : Network) {buckets : Nat}
    (sizes : sizing.holds net.extent (.new buckets)) :
    net.clear.Alike sizing (withBuckets buckets) where
  name := rfl
  ports := rfl
  nodes := .cleared _
  flipFlops := .cleared _
  latches := .cleared _
  inputs := rfl
  outputs := rfl
  gates := rfl
  depth? := rfl
  sizes := by rwa [extent_clear, extent_withBuckets]

theorem Alike.clear (sizes : sizing.holds one.extent two.extent) :
    one.clear.Alike sizing two.clear := by
  have left : one.clear.Alike .any (withBuckets 0) := alike_cleared one trivial
  have right : two.clear.Alike .any (withBuckets 0) := alike_cleared two trivial
  refine (left.trans right.symm).sized ?_
  rwa [extent_clear, extent_clear]

end Network

end GateNet
