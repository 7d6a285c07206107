import GateNet.Proofs.Wiring
import Mathlib.Data.List.Forall2
import Mathlib.Data.List.Perm.Subperm

/-!
# Chains

The gates of a bucket form a chain of links.  A table holds a set of gates when each of them is on
the chain of its key's bucket, once, and nothing else is on any chain.  Operations on the table
change links only; `Rechained` says so, and `Relinked` says so of sound stores.
-/

namespace GateNet

def Node.unlinked (n : Node) : Node := { n with link := none }

namespace Store

/-! ## Changes of links -/

/-- Only links differ between two stores, whatever else is to be said of them. -/
structure Rechained (before after : Store Node) : Prop where
  unlinked_eq : ∀ x, (after.get? x).map Node.unlinked = (before.get? x).map Node.unlinked
  ids_eq : after.ids = before.ids
  capacity_eq : after.capacity = before.capacity

/-- Only links differ between two stores. -/
structure Relinked (before after : Store Node) : Prop where
  sound : after.Sound
  unlinked_eq : ∀ x, (after.get? x).map Node.unlinked = (before.get? x).map Node.unlinked
  ids_eq : after.ids = before.ids
  capacity_eq : after.capacity = before.capacity

namespace Rechained

variable {before after later : Store Node}

theorem refl (nodes : Store Node) : nodes.Rechained nodes :=
  ⟨fun _ => rfl, rfl, rfl⟩

theorem trans (first : before.Rechained after) (second : after.Rechained later) :
    before.Rechained later :=
  ⟨fun x => (second.unlinked_eq x).trans (first.unlinked_eq x),
    second.ids_eq.trans first.ids_eq, second.capacity_eq.trans first.capacity_eq⟩

theorem modify (before : Store Node) (id : NodeId) (link : Option NodeId) :
    before.Rechained (before.modify id ({ · with link })) where
  unlinked_eq x := by
    rw [get?_modify]
    split
    · rw [Option.map_map]
      rfl
    · rfl
  ids_eq := rfl
  capacity_eq := capacity_modify ..

theorem layout_eq (same : before.Rechained after) : after.layout = before.layout := by
  funext x
  have cores : ∀ nodes : Store Node,
      nodes.layout x = ((nodes.get? x).map Node.unlinked).map Node.core := by
    intro nodes
    rw [Option.map_map]
    rfl
  rw [cores, cores, same.unlinked_eq]

/-- Links have no part in what makes a store sound. -/
theorem relinked (same : before.Rechained after) (sound : before.Sound) :
    before.Relinked after where
  sound :=
    { ids := by
        rw [same.ids_eq]
        exact sound.ids
      contains_eq := fun id => by
        have unlinked := congrArg Option.isSome (same.unlinked_eq id)
        rw [Option.isSome_map, Option.isSome_map] at unlinked
        rw [same.ids_eq, ← sound.contains_eq]
        exact unlinked
      within := by
        rw [same.ids_eq]
        exact sound.within.trans same.capacity_eq.ge }
  unlinked_eq := same.unlinked_eq
  ids_eq := same.ids_eq
  capacity_eq := same.capacity_eq

end Rechained

namespace Relinked

variable {before after : Store Node}

theorem layout_eq (same : before.Relinked after) : after.layout = before.layout :=
  Rechained.layout_eq ⟨same.unlinked_eq, same.ids_eq, same.capacity_eq⟩

theorem exists_get? (same : before.Relinked after) {x : NodeId} {n : Node}
    (held : before.get? x = some n) : ∃ m, after.get? x = some m ∧ m.unlinked = n.unlinked := by
  rw [← Option.map_eq_some_iff, same.unlinked_eq, held]
  rfl

theorem get?_of_after (same : before.Relinked after) {x : NodeId} {n : Node}
    (held : after.get? x = some n) : ∃ m, before.get? x = some m ∧ m.unlinked = n.unlinked := by
  rw [← Option.map_eq_some_iff, ← same.unlinked_eq, held]
  rfl

theorem wired (same : before.Relinked after) (wired : before.Wired) : after.Wired := by
  have wires : after.driverAt = before.driverAt := by
    funext e
    rw [driverAt_eq_layout, driverAt_eq_layout, same.layout_eq]
  refine ⟨fun {e d} wire => ?_, fun d m held e => ?_⟩
  · rw [wires] at wire
    obtain ⟨m, held⟩ := wired.live wire
    exact (same.exists_get? held).imp fun _ => And.left
  · obtain ⟨m', held', equal⟩ := same.get?_of_after held
    have fanouts : m.fanouts = m'.fanouts := (congrArg Node.fanouts equal).symm
    rw [wires, fanouts]
    exact wired.lists d m' held' e

end Relinked

/-! ## Chains -/

/-- The nodes on the chain that starts with the given head. -/
def Chain (nodes : Store Node) : Option NodeId → List NodeId → Prop
  | head, [] => head = none
  | head, id :: rest => head = some id ∧ ∃ n, nodes.get? id = some n ∧ Chain nodes n.link rest

theorem Chain.congr {before after : Store Node} {list : List NodeId} {head : Option NodeId}
    (chain : before.Chain head list)
    (same : ∀ id ∈ list, (after.get? id).map (·.link) = (before.get? id).map (·.link)) :
    after.Chain head list := by
  induction list generalizing head with
  | nil => exact chain
  | cons id rest inductionHypothesis =>
    obtain ⟨starts, n, held, chain⟩ := chain
    have link := same id (.head _)
    rw [held] at link
    obtain ⟨m, held', equal⟩ := Option.map_eq_some_iff.mp link
    refine ⟨starts, m, held', ?_⟩
    rw [equal]
    exact inductionHypothesis chain fun x member => same x (.tail _ member)

theorem Chain.exists_get? {nodes : Store Node} {list : List NodeId} {head : Option NodeId}
    (chain : nodes.Chain head list) : ∀ id ∈ list, ∃ n, nodes.get? id = some n := by
  induction list generalizing head with
  | nil => simp
  | cons id rest inductionHypothesis =>
    obtain ⟨_, n, held, chain⟩ := chain
    intro x member
    rcases List.mem_cons.mp member with rfl | member
    · exact ⟨n, held⟩
    · exact inductionHypothesis chain x member

/-- The head and the links determine the rest. -/
theorem Chain.unique {nodes : Store Node} {one two : List NodeId} {head : Option NodeId}
    (first : nodes.Chain head one) (second : nodes.Chain head two) : one = two := by
  induction one generalizing head two with
  | nil =>
    obtain rfl : head = none := first
    cases two with
    | nil => rfl
    | cons id rest => cases second.1
  | cons id rest inductionHypothesis =>
    obtain ⟨rfl, n, held, chain⟩ := first
    cases two with
    | nil => cases second
    | cons other rest' =>
      obtain ⟨same, m, held', chain'⟩ := second
      cases same
      obtain rfl := Option.some.inj (held.symm.trans held')
      rw [inductionHypothesis chain chain']

theorem Chain.of_append {nodes : Store Node} {front back : List NodeId} {id : NodeId}
    {head : Option NodeId} (chain : nodes.Chain head (front ++ id :: back)) :
    nodes.Chain (some id) (id :: back) := by
  induction front generalizing head with
  | nil =>
    obtain ⟨rfl, chain⟩ := chain
    exact ⟨rfl, chain⟩
  | cons x front inductionHypothesis =>
    obtain ⟨_, n, _, chain⟩ := chain
    exact inductionHypothesis chain

/-- A chain that came back to a node would never end. -/
theorem Chain.nodup {nodes : Store Node} {list : List NodeId} {head : Option NodeId}
    (chain : nodes.Chain head list) : list.Nodup := by
  induction list generalizing head with
  | nil => exact List.nodup_nil
  | cons id rest inductionHypothesis =>
    obtain ⟨rfl, n, held, behind⟩ := chain
    refine List.nodup_cons.mpr ⟨fun again => ?_, inductionHypothesis behind⟩
    obtain ⟨front, back, rfl⟩ := List.append_of_mem again
    have whole : nodes.Chain (some id) (id :: (front ++ id :: back)) := ⟨rfl, n, held, behind⟩
    have equal := congrArg List.length (whole.unique behind.of_append)
    simp only [List.length_cons, List.length_append] at equal
    omega

theorem Chain.length_le {nodes : Store Node} {list : List NodeId} {head : Option NodeId}
    (chain : nodes.Chain head list) (nodup : list.Nodup) : list.length ≤ nodes.capacity := by
  have small : list ⊆ List.range nodes.capacity := by
    intro id member
    obtain ⟨n, held⟩ := chain.exists_get? id member
    exact List.mem_range.mpr (lt_capacity held)
  simpa using (nodup.subperm small).length_le

/-! ## Searching a chain -/

theorem findOnChain_eq {nodes : Store Node} {test : Node → Bool} {list : List NodeId} {steps : Nat}
    {head : Option NodeId} (chain : nodes.Chain head list) (enough : list.length ≤ steps) :
    Network.findOnChain nodes test steps head =
      .ok (list.find? fun id => (nodes.get? id).any test) := by
  induction list generalizing head steps with
  | nil =>
    obtain rfl : head = none := chain
    cases steps <;> rfl
  | cons id rest inductionHypothesis =>
    obtain ⟨rfl, n, held, chain⟩ := chain
    cases steps with
    | zero => simp at enough
    | succ steps =>
      simp only [Network.findOnChain, fetch_of_get? held, List.find?_cons, held, Option.any_some]
      split
      · next passed => simp [passed]
      · next failed =>
        rw [inductionHypothesis chain (by simpa using enough)]
        simp [failed]

/-- The node before another one on a chain is found by its link. -/
theorem findOnChain_before {nodes : Store Node} {front back : List NodeId} {before id : NodeId}
    {steps : Nat} {head : Option NodeId} (chain : nodes.Chain head (front ++ before :: id :: back))
    (nodup : (front ++ before :: id :: back).Nodup) (enough : front.length < steps)
    {changed : Store Node} (same : ∀ x, x ≠ id → changed.get? x = nodes.get? x) :
    Network.findOnChain changed (·.link == some id) steps head = .ok (some before) := by
  -- By induction on the part in front: none of its links leads to `id`.
  induction front generalizing head steps with
  | nil =>
    obtain ⟨rfl, n, held, linked, _⟩ := chain
    have different : before ≠ id := by
      rintro rfl
      simp at nodup
    cases steps with
    | zero => simp at enough
    | succ steps =>
      rw [← same before different] at held
      simp [Network.findOnChain, fetch_of_get? held, linked]
  | cons x front inductionHypothesis =>
    obtain ⟨rfl, n, held, chain⟩ := chain
    have nodupRest := List.nodup_cons.mp nodup
    have different : x ≠ id := by
      rintro rfl
      simp at nodupRest
    -- The next node is not `id`, because `id` comes after `before`.
    have notYet : n.link ≠ some id := by
      cases front with
      | nil =>
        obtain ⟨linked, _⟩ := chain
        rintro equal
        obtain rfl : before = id := Option.some.inj (linked.symm.trans equal)
        simp at nodupRest
      | cons y front =>
        obtain ⟨linked, _⟩ := chain
        rintro equal
        obtain rfl : y = id := Option.some.inj (linked.symm.trans equal)
        simp at nodupRest
    cases steps with
    | zero => simp at enough
    | succ steps =>
      rw [← same x different] at held
      simp only [Network.findOnChain, fetch_of_get? held, beq_iff_eq, notYet, if_false]
      exact inductionHypothesis chain nodupRest.2 (by simpa using enough)

/-- Linking past a node takes it off the chain. -/
theorem Chain.splice {nodes : Store Node} {front back : List NodeId} {before id : NodeId}
    {head : Option NodeId} {n : Node} (chain : nodes.Chain head (front ++ before :: id :: back))
    (nodup : (front ++ before :: id :: back).Nodup) (held : nodes.get? id = some n) :
    (nodes.modify before ({ · with link := n.link })).Chain head (front ++ before :: back) := by
  induction front generalizing head with
  | nil =>
    obtain ⟨rfl, m, heldBefore, _, n', held', chain⟩ := chain
    obtain rfl := Option.some.inj (held.symm.trans held')
    refine ⟨rfl, { m with link := n.link }, by simp [heldBefore], chain.congr fun x member => ?_⟩
    have different : x ≠ before := by
      rintro rfl
      simp [member] at nodup
    rw [get?_modify, if_neg different]
  | cons x front inductionHypothesis =>
    obtain ⟨rfl, m, heldFirst, chain⟩ := chain
    have nodupRest := List.nodup_cons.mp nodup
    have different : x ≠ before := by
      rintro rfl
      simp at nodupRest
    exact ⟨rfl, m, by rw [get?_modify, if_neg different]; exact heldFirst,
      inductionHypothesis chain nodupRest.2⟩

/-! ## Tables -/

/-- The chains of the buckets: each holds gates of its bucket, without repetition. -/
structure Chains (nodes : Store Node) (table : Array (Option NodeId)) (chain : Nat → List NodeId) :
    Prop where
  linked : ∀ b, nodes.Chain (table[b]?).join (chain b)
  nodup : ∀ b, (chain b).Nodup
  keyed : ∀ b, ∀ id ∈ chain b,
    ∃ n, nodes.layout id = some n ∧ n.isGate = true ∧ n.key.bucket table.size = b

/-- The gates that are on a chain are those with the given property. -/
structure Tabled (nodes : Store Node) (table : Array (Option NodeId)) (member : NodeId → Prop) :
    Prop where
  positive : 0 < table.size
  exists_chains : ∃ chain, nodes.Chains table chain ∧ ∀ id, member id ↔ ∃ b, id ∈ chain b

theorem Tabled.hasGate {nodes : Store Node} {table : Array (Option NodeId)}
    {member : NodeId → Prop} (tabled : nodes.Tabled table member) {id : NodeId}
    (inside : member id) : nodes.layout.HasGate id := by
  obtain ⟨chain, chains, exact⟩ := tabled.exists_chains
  obtain ⟨b, listed⟩ := (exact id).mp inside
  obtain ⟨n, held, isGate, _⟩ := chains.keyed b id listed
  exact ⟨n, held, isGate⟩

/-- A table stays exact when its gates keep their keys and links. -/
theorem Tabled.congr {before after : Store Node} {table : Array (Option NodeId)}
    {member other : NodeId → Prop} (tabled : before.Tabled table member)
    (iff : ∀ id, other id ↔ member id)
    (layout : ∀ id, member id → after.layout id = before.layout id)
    (link : ∀ id, member id → (after.get? id).map (·.link) = (before.get? id).map (·.link)) :
    after.Tabled table other := by
  obtain ⟨chain, chains, exact⟩ := tabled.exists_chains
  refine ⟨tabled.positive, chain, ⟨fun b => ?_, chains.nodup, fun b id listed => ?_⟩,
    fun id => (iff id).trans (exact id)⟩
  · exact (chains.linked b).congr fun id listed => link id ((exact id).mpr ⟨b, listed⟩)
  · rw [layout id ((exact id).mpr ⟨b, listed⟩)]
    exact chains.keyed b id listed

theorem tabled_replicate (nodes : Store Node) {size : Nat} (positive : 0 < size) :
    nodes.Tabled (Array.replicate size none) fun _ => False := by
  refine ⟨by simpa using positive, fun _ => [], ⟨fun b => ?_, by simp, by simp⟩, by simp⟩
  show ((Array.replicate size none)[b]?).join = none
  rw [Array.getElem?_replicate]
  split <;> rfl

theorem Chains.bucket_eq {nodes : Store Node} {table : Array (Option NodeId)}
    {chain : Nat → List NodeId} (chains : nodes.Chains table chain) {b : Nat} {id : NodeId}
    {n : Node} (listed : id ∈ chain b) (held : nodes.layout id = some n) :
    n.key.bucket table.size = b := by
  obtain ⟨m, held', _, bucket⟩ := chains.keyed b id listed
  obtain rfl := Option.some.inj (held.symm.trans held')
  exact bucket

/-- One bucket gets another chain; the others keep their heads and links. -/
theorem Chains.update {nodes after : Store Node} {table other : Array (Option NodeId)}
    {chain : Nat → List NodeId} (chains : nodes.Chains table chain) {b : Nat}
    {list : List NodeId} (size : other.size = table.size) (layout : after.layout = nodes.layout)
    (heads : ∀ c, c ≠ b → other[c]? = table[c]?)
    (links : ∀ c, c ≠ b → ∀ id ∈ chain c,
      (after.get? id).map (·.link) = (nodes.get? id).map (·.link))
    (linked : after.Chain (other[b]?).join list) (nodup : list.Nodup)
    (keyed : ∀ id ∈ list,
      ∃ n, nodes.layout id = some n ∧ n.isGate = true ∧ n.key.bucket table.size = b) :
    after.Chains other (Function.update chain b list) := by
  refine ⟨fun c => ?_, fun c => ?_, fun c id listed => ?_⟩
  · by_cases here : c = b
    · subst here
      rwa [Function.update_self]
    · rw [Function.update_of_ne here, heads c here]
      exact (chains.linked c).congr (links c here)
  · by_cases here : c = b
    · subst here
      rwa [Function.update_self]
    · rw [Function.update_of_ne here]
      exact chains.nodup c
  · rw [layout, size]
    by_cases here : c = b
    · subst here
      rw [Function.update_self] at listed
      exact keyed id listed
    · rw [Function.update_of_ne here] at listed
      exact chains.keyed c id listed

theorem exists_mem_update {chain : Nat → List NodeId} {b : Nat} {list : List NodeId}
    {id : NodeId} :
    (∃ c, id ∈ Function.update chain b list c) ↔ id ∈ list ∨ ∃ c, c ≠ b ∧ id ∈ chain c := by
  constructor
  · rintro ⟨c, listed⟩
    by_cases here : c = b
    · subst here
      rw [Function.update_self] at listed
      exact .inl listed
    · rw [Function.update_of_ne here] at listed
      exact .inr ⟨c, here, listed⟩
  · rintro (listed | ⟨c, different, listed⟩)
    · exact ⟨b, by rwa [Function.update_self]⟩
    · exact ⟨c, by rwa [Function.update_of_ne different]⟩

/-- A gate is on one chain only. -/
theorem Chains.apart {nodes : Store Node} {table : Array (Option NodeId)}
    {chain : Nat → List NodeId} (chains : nodes.Chains table chain) {b c : Nat} {id : NodeId}
    (one : id ∈ chain b) (two : id ∈ chain c) : b = c := by
  obtain ⟨n, held, _, bucket⟩ := chains.keyed b id one
  rw [← bucket]
  exact chains.bucket_eq two held

/-- The chains in the order of their buckets hold each gate of the table once. -/
theorem Tabled.exists_lists {nodes : Store Node} {table : Array (Option NodeId)}
    {member : NodeId → Prop} (tabled : nodes.Tabled table member) :
    ∃ lists, List.Forall₂ nodes.Chain table.toList lists ∧ lists.flatten.Nodup ∧
      ∀ id, id ∈ lists.flatten ↔ member id := by
  obtain ⟨chain, chains, exact⟩ := tabled.exists_chains
  -- The buckets past the end of the table are empty.
  have inside : ∀ {b id}, id ∈ chain b → b < table.size := by
    intro b id listed
    obtain ⟨n, _, _, bucket⟩ := chains.keyed b id listed
    exact bucket ▸ Key.bucket_lt tabled.positive _
  refine ⟨(List.range table.size).map chain, ?_, ?_, fun id => ?_⟩
  · refine (List.forall₂_iff_get ..).mpr ⟨by simp, fun i small small' => ?_⟩
    have linked := chains.linked i
    have held : table[i]? = some (table.toList.get ⟨i, small⟩) := by simp at small ⊢
    rw [held, Option.join_some] at linked
    simpa using linked
  · refine List.nodup_flatten.mpr ⟨?_, ?_⟩
    · rintro list held
      obtain ⟨b, _, rfl⟩ := List.mem_map.mp held
      exact chains.nodup b
    · refine List.Pairwise.map chain (fun b c different x one two => ?_)
        (List.nodup_range (n := table.size))
      exact different (chains.apart one two)
  · rw [exact, List.mem_flatten]
    constructor
    · rintro ⟨list, held, here⟩
      obtain ⟨b, _, rfl⟩ := List.mem_map.mp held
      exact ⟨b, here⟩
    · rintro ⟨b, here⟩
      exact ⟨chain b, List.mem_map_of_mem (List.mem_range.mpr (inside here)), here⟩

end Store

end GateNet
