import GateNet.Proofs.Evaluation
import Mathlib.Data.Set.Function

/-!
# Isomorphic networks

Two networks are isomorphic when their nodes correspond one to one, so that ports and state
elements stand in the same places and every gate and output reads the nodes that correspond to
what it read.  A gate over nodes whose order changed has its function with the operands swapped.
Isomorphic networks have as many nodes of each sort, the same depth, and the same words.
-/

namespace GateNet

theorem Gate.evalWords_swap (g : Gate) (a b : Word) : g.swap.evalWords a b = g.evalWords b a := by
  apply BitVec.eq_of_getLsbD_eq
  intro k small
  rw [getLsbD_evalWords _ _ _ _ small, getLsbD_evalWords _ _ _ _ small, eval_swap]

def Signal.relabel (s : Signal) (m : NodeId → NodeId) : Signal := ⟨s.node.map m, s.inverted⟩

theorem Signal.word_relabel (s : Signal) (m : NodeId → NodeId) (v : NodeId → Word) :
    (s.relabel m).word v = s.word fun x => v (m x) := by
  obtain ⟨_ | d, inverted⟩ := s <;> rfl

/-- The key of a gate over two nodes in any order: the lesser one comes first. -/
def Key.sorted (gate : Gate) (a b : NodeId) : Key :=
  if a < b then ⟨gate, a, b⟩ else ⟨gate.swap, b, a⟩

/-- The key over the nodes that correspond: their order decides about the order of the operands. -/
def Key.relabel (key : Key) (m : NodeId → NodeId) : Key :=
  .sorted key.gate (m key.first) (m key.second)

theorem Key.word_relabel (key : Key) (m : NodeId → NodeId) (v : NodeId → Word) :
    (key.relabel m).request.word v = key.request.word fun x => v (m x) := by
  unfold relabel sorted
  split
  · rfl
  · exact Gate.evalWords_swap ..

theorem Network.heightAbove_relabel (key : Key) (m : NodeId → NodeId) (h : NodeId → Nat) :
    heightAbove (key.relabel m).request h = heightAbove key.request fun x => h (m x) := by
  unfold Key.relabel Key.sorted
  split
  · rfl
  · exact congrArg (1 + ·) (Nat.max_comm ..)

def Port.relabel (p : Port) (m : NodeId → NodeId) : Port :=
  { p with inputs := p.inputs.map (·.map m), outputs := p.outputs.map (·.map m) }

theorem Port.ext_entries {one two : Array (Option NodeId)} (size : two.size = one.size)
    {m : NodeId → NodeId}
    (same : ∀ bit < one.size, (two[bit]?).join = ((one[bit]?).join).map m) :
    two = one.map (·.map m) := by
  refine Array.ext (by simpa using size) fun bit small _ => ?_
  have equal := same bit (size ▸ small)
  rw [Array.getElem?_eq_getElem small, Array.getElem?_eq_getElem (size ▸ small)] at equal
  rw [Array.getElem_map]
  exact equal

/-- Ports with the same number, name and width are the same up to their terminals. -/
theorem Port.eq_relabel {p q : Port} {port : PortId} (soundP : p.Sound port) (soundQ : q.Sound port)
    (name : q.name = p.name) (width : q.width = p.width) {m : NodeId → NodeId}
    (input : ∀ bit < p.width, q.input bit = (p.input bit).map m)
    (output : ∀ bit < p.width, q.output bit = (p.output bit).map m) : q = p.relabel m := by
  have inputs := ext_entries width input
  have outputs : q.outputs = p.outputs.map (·.map m) := by
    refine ext_entries ((soundQ.paired.trans width).trans soundP.paired.symm) fun bit small => ?_
    exact output bit (small.trans_eq soundP.paired)
  have number : q.id = p.id := soundQ.numbered.trans soundP.numbered.symm
  cases q
  subst number name inputs outputs
  rfl

namespace Network

/-- Kinds of nodes that stand in the same place; state elements are counted in their order. -/
inductive Matches (src dst : Network) : Kind → Kind → Prop
  | portInput (port : PortId) (bit : Nat) : Matches src dst (.portInput port bit) (.portInput port bit)
  | portOutput (port : PortId) (bit : Nat) :
      Matches src dst (.portOutput port bit) (.portOutput port bit)
  | gate : Matches src dst .gate .gate
  | state (family : Family) (position : Nat) (pin : Pin) {element other : ElementId}
      (here : (src.bank family).order[position]? = some element)
      (there : (dst.bank family).order[position]? = some other) :
      Matches src dst (.state family element pin) (.state family other pin)

/-- Elements that correspond pin by pin, under the same name. -/
def SameElement (src dst : Network) (m : NodeId → NodeId) (family : Family)
    (element other : ElementId) : Prop :=
  ∃ a b, src.element? family element = some a ∧ dst.element? family other = some b ∧
    b.name = a.name ∧ ∀ pin, b.terminal pin = m (a.terminal pin)

/-- One network is a relabelled copy of another one. -/
structure Isomorphic (src dst : Network) (m : NodeId → NodeId) : Prop where
  bijective : Set.BijOn m {x | ∃ n, src.nodes.layout x = some n} {y | ∃ n, dst.nodes.layout y = some n}
  kinds : ∀ {x kind}, src.nodes.layout.kind? x = some kind →
    ∃ kind', dst.nodes.layout.kind? (m x) = some kind' ∧ src.Matches dst kind kind'
  ports : dst.ports = src.ports.map fun p => p.relabel m
  positions : ∀ family, (dst.bank family).order.size = (src.bank family).order.size
  elements : ∀ {family} {position : Nat} {element other},
    (src.bank family).order[position]? = some element →
    (dst.bank family).order[position]? = some other →
    src.SameElement dst m family element other
  sources : ∀ {x n}, src.nodes.layout x = some n → n.isOutput = true →
    dst.sourceOf (m x) = n.source.relabel m
  gates : ∀ {x key}, src.nodes.layout.key? x = some key →
    dst.nodes.layout.key? (m x) = some (key.relabel m)

variable {src dst : Network} {m : NodeId → NodeId}

theorem Matches.admits {kind kind' : Kind} (same : src.Matches dst kind kind') (r : Registry) :
    r.admits kind' = r.admits kind := by
  cases same with
  | state family position pin => cases pin <;> cases r <;> rfl
  | _ => rfl

namespace Isomorphic

/-! ## Counts -/

/-- The nodes of each sort correspond. -/
theorem registry_perm (iso : src.Isomorphic dst m) (soundSrc : src.Sound) (soundDst : dst.Sound)
    (r : Registry) : (dst.registry r).toList.Perm ((src.registry r).toList.map m) := by
  have injective : ∀ x ∈ (src.registry r).toList, ∀ y ∈ (src.registry r).toList,
      m x = m y → x = y := by
    have live : ∀ x ∈ (src.registry r).toList, ∃ n, src.nodes.layout x = some n := by
      intro x listed
      obtain ⟨kind, held, _⟩ := ((soundSrc.registered r).2 x).mp (Array.mem_toList_iff.mp listed)
      obtain ⟨n, held, _⟩ := Layout.kind?_eq_some_iff.mp held
      exact ⟨n, held⟩
    exact fun x here y there same => iso.bijective.injOn (live x here) (live y there) same
  -- Both lists are without repetition, so it is enough that they have the same members.
  refine (List.perm_ext_iff_of_nodup (soundDst.registered r).1
    ((soundSrc.registered r).1.map_on injective)).mpr fun y => ?_
  rw [Array.mem_toList_iff, (soundDst.registered r).2, List.mem_map]
  constructor
  · rintro ⟨kind', held, admits⟩
    obtain ⟨n', live, _⟩ := Layout.kind?_eq_some_iff.mp held
    obtain ⟨x, ⟨n, here⟩, rfl⟩ := iso.bijective.surjOn ⟨n', live⟩
    obtain ⟨kind'', held', same⟩ := iso.kinds (Layout.kind?_of_node here)
    obtain rfl := Option.some.inj (held.symm.trans held')
    refine ⟨x, Array.mem_toList_iff.mpr (((soundSrc.registered r).2 x).mpr ?_), rfl⟩
    exact ⟨n.kind, Layout.kind?_of_node here, (same.admits r).symm.trans admits⟩
  · rintro ⟨x, listed, rfl⟩
    obtain ⟨kind, held, admits⟩ := ((soundSrc.registered r).2 x).mp (Array.mem_toList_iff.mp listed)
    obtain ⟨kind', held', same⟩ := iso.kinds held
    exact ⟨kind', held', (same.admits r).trans admits⟩

theorem registry_size (iso : src.Isomorphic dst m) (soundSrc : src.Sound) (soundDst : dst.Sound)
    (r : Registry) : (dst.registry r).size = (src.registry r).size := by
  have same := (iso.registry_perm soundSrc soundDst r).length_eq
  rwa [List.length_map, Array.length_toList, Array.length_toList] at same

theorem nodes_size (iso : src.Isomorphic dst m) (soundSrc : src.Sound) (soundDst : dst.Sound) :
    dst.nodes.size = src.nodes.size := by
  have live : ∀ (nodes : Store Node) (x : NodeId), nodes.contains x = true ↔
      ∃ n, nodes.layout x = some n := by
    intro nodes x
    rw [Store.contains_iff, Store.exists_get?_iff]
  have listed : ∀ x, x ∈ src.nodes.toList.map Prod.fst ↔ ∃ n, src.nodes.layout x = some n :=
    fun x => Store.mem_map_fst_toList.trans (live src.nodes x)
  have nodup : ((src.nodes.toList.map Prod.fst).map m).Nodup :=
    (Store.nodup_map_fst_toList src.nodes).map_on fun x here y there same =>
      iso.bijective.injOn ((listed x).mp here) ((listed y).mp there) same
  rw [Store.size_eq_length soundDst.woven.store nodup fun y => ?_, List.length_map,
    Store.size_eq_length soundSrc.woven.store (Store.nodup_map_fst_toList src.nodes) fun x =>
      Store.mem_map_fst_toList]
  rw [live, List.mem_map]
  constructor
  · rintro ⟨x, here, rfl⟩
    exact iso.bijective.mapsTo ((listed x).mp here)
  · intro there
    obtain ⟨x, here, rfl⟩ := iso.bijective.surjOn there
    exact ⟨x, (listed x).mpr here, rfl⟩

/-! ## Words -/

theorem kind_input (iso : src.Isomorphic dst m) (soundSrc : src.Sound) (soundDst : dst.Sound)
    {x : NodeId} (input : x ∈ src.inputs) : m x ∈ dst.inputs := by
  have listed := (iso.registry_perm soundSrc soundDst .inputs).mem_iff (a := m x)
  exact Array.mem_toList_iff.mp
    (listed.mpr (List.mem_map.mpr ⟨x, Array.mem_toList_iff.mpr input, rfl⟩))

theorem mayDrive (iso : src.Isomorphic dst m) (soundSrc : src.Sound) (soundDst : dst.Sound)
    {x : NodeId} (drives : src.nodes.layout.MayDrive x) : dst.nodes.layout.MayDrive (m x) := by
  rcases soundSrc.mayDrive_iff.mp drives with input | gate
  · exact soundDst.mayDrive_iff.mpr (.inl (iso.kind_input soundSrc soundDst input))
  · obtain ⟨key, keyed, _⟩ := soundSrc.woven.layout.key?_of_hasGate gate
    exact (Layout.hasGate_of_key? (iso.gates keyed)).mayDrive

theorem carries (iso : src.Isomorphic dst m) (soundSrc : src.Sound) (soundDst : dst.Sound)
    {words words' : List Word}
    (same : ∀ x ∈ src.inputs, dst.inputWord words' (m x) = src.inputWord words x)
    {v : NodeId → Word} (carries : dst.Carries words' v) : src.Carries words fun x => v (m x) := by
  intro x drives
  have equation := carries (m x) (iso.mayDrive soundSrc soundDst drives)
  rcases soundSrc.mayDrive_iff.mp drives with input | gate
  · have here := soundSrc.not_hasGate_of_input input
    have there := soundDst.not_hasGate_of_input (iso.kind_input soundSrc soundDst input)
    rw [Circuit.Solves, Layout.circuit_of_not_hasGate there] at equation
    rw [Circuit.Solves, Layout.circuit_of_not_hasGate here]
    exact equation.trans (congrArg (·.getD 0) (same x input))
  · obtain ⟨key, keyed, _⟩ := soundSrc.woven.layout.key?_of_hasGate gate
    rw [Circuit.Solves, Layout.circuit_of_key? (iso.gates keyed)] at equation
    rw [Circuit.Solves, Layout.circuit_of_key? keyed]
    exact equation.trans (key.word_relabel m v)

end Isomorphic

theorem sourceHeight_eq (net : Network) (h : NodeId → Nat) (id : NodeId) :
    sourceHeight net.nodes.layout h id = (net.sourceOf id).node.elim 0 h := by
  rw [sourceHeight, sourceOf]
  cases net.nodes.layout id <;> rfl

/-- What an evaluation gives for an output. -/
def outputWord (net : Network) (results : List Word) (id : NodeId) : Option Word :=
  (net.outputs.toList.zip results).lookup id

theorem outputWord_map {net : Network} (f : NodeId → Word) {id : NodeId} (output : id ∈ net.outputs) :
    net.outputWord (net.outputs.toList.map f) id = some (f id) := by
  have listed := Array.mem_toList_iff.mpr output
  unfold outputWord
  generalize net.outputs.toList = outputs at listed ⊢
  induction outputs with
  | nil => cases listed
  | cons first rest inductionHypothesis =>
    rw [List.map_cons, List.zip_cons_cons, List.lookup_cons]
    by_cases same : id = first
    · subst same
      simp
    · rw [show (id == first) = false from beq_eq_false_iff_ne.mpr same]
      exact inductionHypothesis (List.mem_of_ne_of_mem same listed)

namespace Isomorphic

/-- On words that correspond, outputs that correspond have one word. -/
theorem evaluate (iso : src.Isomorphic dst m) (soundSrc : src.Sound) (soundDst : dst.Sound)
    {words words' : List Word} (length : words.length = src.inputs.size)
    (length' : words'.length = dst.inputs.size)
    (same : ∀ x ∈ src.inputs, dst.inputWord words' (m x) = src.inputWord words x) :
    ∃ results results', src.evaluate words = .ok results ∧ dst.evaluate words' = .ok results' ∧
      ∀ o ∈ src.outputs, ∃ word, src.outputWord results o = some word ∧
        dst.outputWord results' (m o) = some word := by
  obtain ⟨v, carries⟩ := soundDst.exists_carries words'
  refine ⟨_, _, evaluate_eq soundSrc length (iso.carries soundSrc soundDst same carries),
    evaluate_eq soundDst length' carries, fun o output => ?_⟩
  obtain ⟨n, held, isOutput⟩ := soundSrc.mem_outputs_iff.mp output
  have output' : m o ∈ dst.outputs := by
    have listed := (iso.registry_perm soundSrc soundDst .outputs).mem_iff (a := m o)
    exact Array.mem_toList_iff.mp
      (listed.mpr (List.mem_map.mpr ⟨o, Array.mem_toList_iff.mpr output, rfl⟩))
  refine ⟨_, outputWord_map (fun id => (src.sourceOf id).word fun x => v (m x)) output, ?_⟩
  rw [outputWord_map (fun id => (dst.sourceOf id).word v) output', iso.sources held isOutput,
    Signal.word_relabel, sourceOf_eq held]

/-! ## Depth -/

theorem heights (iso : src.Isomorphic dst m) (soundSrc : src.Sound) (soundDst : dst.Sound)
    {h : NodeId → Nat} (heights : Heights dst.nodes.layout h) :
    ∃ g, Heights src.nodes.layout g ∧ ∀ {x}, src.nodes.layout.MayDrive x → g x = h (m x) := by
  classical
  -- Heights are taken from the copy at gates, and are 0 at all else, also where there is no node.
  let g : NodeId → Nat := fun x => if src.nodes.layout.HasGate x then h (m x) else 0
  have agree : ∀ {x}, src.nodes.layout.MayDrive x → g x = h (m x) := by
    intro x drives
    by_cases gate : src.nodes.layout.HasGate x
    · exact if_pos gate
    · have input := (soundSrc.mayDrive_iff.mp drives).resolve_right gate
      have there := soundDst.not_hasGate_of_input (iso.kind_input soundSrc soundDst input)
      exact (if_neg gate).trans (heights.source (Layout.key?_of_not_hasGate there)).symm
  refine ⟨g, fun x => ?_, agree⟩
  by_cases gate : src.nodes.layout.HasGate x
  · obtain ⟨key, keyed, _⟩ := soundSrc.woven.layout.key?_of_hasGate gate
    have equation := heights (m x)
    rw [Circuit.Solves, Layout.circuit_of_key? (iso.gates keyed)] at equation
    rw [Circuit.Solves, Layout.circuit_of_key? keyed]
    have value : g x = h (m x) := if_pos gate
    rw [value, equation]
    refine (heightAbove_relabel key m h).trans (local_heightAbove key.request _ _ fun d read => ?_)
    exact (agree (soundSrc.woven.layout.mayDrive_operand keyed (Key.reads_request.mp read))).symm
  · rw [Circuit.Solves, Layout.circuit_of_not_hasGate gate]
    exact if_neg gate

/-- Isomorphic networks have one depth. -/
theorem depth (iso : src.Isomorphic dst m) (soundSrc : src.Sound) (soundDst : dst.Sound) :
    ∃ depth, src.depth = .ok (depth, { src with depth? := some depth }) ∧
      dst.depth = .ok (depth, { dst with depth? := some depth }) := by
  obtain ⟨k, asked, isDepth⟩ := depth_spec soundSrc
  obtain ⟨k', asked', isDepth'⟩ := depth_spec soundDst
  obtain ⟨h, dstHeights⟩ := soundDst.exists_heights
  obtain ⟨g, srcHeights, agree⟩ := iso.heights soundSrc soundDst dstHeights
  have heights_eq : (src.outputs.toList.map m).map (sourceHeight dst.nodes.layout h) =
      src.outputs.toList.map (sourceHeight src.nodes.layout g) := by
    rw [List.map_map]
    refine List.map_congr_left fun o listed => ?_
    obtain ⟨n, held, isOutput⟩ := soundSrc.mem_outputs_iff.mp (Array.mem_toList_iff.mp listed)
    rw [Function.comp_apply, sourceHeight_eq, sourceHeight_eq, iso.sources held isOutput,
      sourceOf_eq held]
    cases first : n.first with
    | none => simp [Signal.relabel, Node.source, first]
    | some d =>
      have drives := soundSrc.woven.layout.driven (p := .first) held first
      simp [Signal.relabel, Node.source, first, agree drives]
  -- Both depths are greatest heights, and the greatest does not depend on the order.
  have same : k' = k := by
    rw [isDepth g srcHeights, isDepth' h dstHeights, ← heights_eq]
    exact ((iso.registry_perm soundSrc soundDst .outputs).map _).foldl_eq 0
  subst same
  exact ⟨k', asked, asked'⟩

end Isomorphic

end Network

end GateNet
