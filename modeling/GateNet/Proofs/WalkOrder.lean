import GateNet.Proofs.Checks
import GateNet.Proofs.Exploration

/-!
# When a walk follows the exploration

As long as no node on the stack depends on one below it, what a walk has still to do is what the
exploration of its stack and starts has still to do, in the same order.  Visiting a node keeps this
when the first operand does not depend on the second.
-/

namespace GateNet

/-- No node that the starts depend on has a first operand that depends on its second one. -/
def Network.FirstApart (net : Network) (starts : List NodeId) : Prop :=
  ∀ x n a b, (∃ s ∈ starts, Relation.ReflTransGen net.WireTo s x) → net.node? x = some n →
    n.first = some a → n.second = some b → ¬ Relation.ReflTransGen net.WireTo a b

namespace Walk

variable {net : Network} {starts visited seen more order stack rest : List NodeId} {w : Walk}
  {met : Std.TreeSet NodeId} {id : NodeId} {n : Node}

/-! ## Drivers on the stack -/

/-- A driver that does not wait yet is done or goes on top of the stack. -/
theorem explores_offer (covered : ∀ x ∈ w.met, x ∈ seen ++ w.stack) {driver : Option NodeId}
    (apart : ∀ d, driver = some d → d ∉ w.stack)
    (explores : net.Explores seen ((driver.elim w w.meet).stack ++ more) order) :
    net.Explores seen (driver.toList ++ (w.stack ++ more)) order := by
  cases driver with
  | none => exact explores
  | some d =>
    by_cases known : w.met.contains d = true
    · rw [Option.elim, meet, if_pos known] at explores
      exact .known ((List.mem_append.mp (covered d known)).resolve_right (apart d rfl)) explores
    · rw [Option.elim, meet, if_neg known] at explores
      exact explores

/-- The drivers of a visited node are done or on top of the stack, in the order in which they are
explored. -/
theorem explores_visit (holds : Met seen w.stack w.met)
    (apart : ∀ p d, n.driver p = some d → d ∉ w.stack)
    (distinct : ∀ a, n.first = some a → n.second ≠ some a)
    (explores : net.Explores seen ((w.visit n).stack ++ more) order) :
    net.Explores seen (n.reads ++ (w.stack ++ more)) order := by
  obtain ⟨offered, _⟩ := holds.offer n.second
  rw [w.visit_eq n] at explores
  have first : net.Explores seen
      (n.first.toList ++ ((n.second.elim w w.meet).stack ++ more)) order := by
    refine explores_offer (fun x inside => (offered.met x).mp inside) (fun a read listed => ?_)
      explores
    rcases mem_stack_offer listed with same | listed
    · exact distinct a read same
    · exact apart .first a read listed
  obtain ⟨before, later, rfl, under, explores⟩ := first.split
  have second : net.Explores (seen ++ before) (n.second.toList ++ (w.stack ++ more)) later := by
    refine explores_offer (fun x inside => ?_) (apart .second) explores
    have listed := (holds.met x).mp inside
    simp only [List.mem_append] at listed ⊢
    tauto
  rw [Node.reads, List.append_assoc]
  exact under.append second

theorem pairwise_offer {R : NodeId → NodeId → Prop} (pairwise : w.stack.Pairwise R)
    {driver : Option NodeId} (apart : ∀ d, driver = some d → ∀ y ∈ w.stack, R d y) :
    (driver.elim w w.meet).stack.Pairwise R := by
  cases driver with
  | none => exact pairwise
  | some d =>
    rw [Option.elim, meet]
    split
    · exact pairwise
    · exact List.pairwise_cons.mpr ⟨apart d rfl, pairwise⟩

/-! ## Walks in line with the exploration -/

/-- A walk on whose stack no node depends on one below it. -/
structure Lined (net : Network) (starts : List NodeId) (w : Walk) (visited : List NodeId) : Prop
    extends Walked net starts w visited where
  reached : ∀ x, x ∈ w.stack ∨ x ∈ w.starts →
    ∃ s ∈ starts, Relation.ReflTransGen net.WireTo s x
  apart : w.stack.Pairwise fun x y => ¬ Relation.ReflTransGen net.WireTo x y

namespace Lined

/-- What is under the node on top of the stack does not reach the rest of the stack. -/
theorem not_reaches (lined : Lined net starts ⟨id :: stack, met, rest⟩ visited)
    (found : net.nodes.get? id = some n) {p : Operand} {d y : NodeId} (read : n.driver p = some d)
    (listed : y ∈ stack) : ¬ Relation.ReflTransGen net.WireTo d y := fun wires =>
  (List.pairwise_cons.mp lined.apart).1 y listed
    (.head ((Network.wireTo_iff found).mpr ⟨p, read⟩) wires)

/-- Visiting the top of the stack keeps the line, and is what the exploration does next. -/
theorem visit (lined : Lined net starts ⟨id :: stack, met, rest⟩ visited) (sound : net.Sound)
    (firstApart : net.FirstApart starts) (found : net.nodes.get? id = some n) :
    Lined net starts (Walk.visit ⟨stack, met, rest⟩ n) (visited ++ [id]) ∧
      ∀ order,
        net.Explores (visited ++ [id]) ((Walk.visit ⟨stack, met, rest⟩ n).stack ++ rest) order →
        net.Explores visited (id :: (stack ++ rest)) (id :: order) := by
  have top : ∃ s ∈ starts, Relation.ReflTransGen net.WireTo s id :=
    lined.reached id (.inl (.head _))
  have operandsApart : ∀ a b, n.first = some a → n.second = some b →
      ¬ Relation.ReflTransGen net.WireTo a b := fun a b => firstApart id n a b top found
  refine ⟨⟨lined.toWalked.visit sound found, fun x waits => ?_, ?_⟩, fun order explores => ?_⟩
  · rw [starts_visit] at waits
    rcases waits with listed | listed
    · rcases mem_stack_visit listed with read | listed
      · obtain ⟨s, start, wires⟩ := top
        exact ⟨s, start, wires.tail ((Network.wireTo_iff found).mpr read)⟩
      · exact lined.reached x (.inl (.tail _ listed))
    · exact lined.reached x (.inr listed)
  · rw [visit_eq]
    refine pairwise_offer (pairwise_offer (List.pairwise_cons.mp lined.apart).2
      fun b read y listed => lined.not_reaches (p := .second) found read listed)
      fun a read y listed => ?_
    rcases mem_stack_offer listed with second | listed
    · exact operandsApart a y read second
    · exact lined.not_reaches (p := .first) found read listed
  · have fresh : id ∉ visited := fun listed =>
      (List.nodup_append.mp lined.met.nodup).2.2 id listed id (.head _) rfl
    refine .step fresh found (explores_visit (w := ⟨stack, met, rest⟩) lined.met.pop
      (fun p d read listed => lined.not_reaches found read listed .refl)
      (fun a first second => operandsApart a a first second .refl) explores)

end Lined

/-- The result of a step does what the exploration of the roots does next. -/
def Follows (net : Network) (starts visited roots : List NodeId) :
    Option NodeId × Walk → Prop
  | (none, _) => net.Explores visited roots []
  | (some id, w) => Lined net starts w (visited ++ [id]) ∧
      ∀ order, net.Explores (visited ++ [id]) (w.stack ++ w.starts) order →
        net.Explores visited roots (id :: order)

/-- Nothing is to be done about a root that was visited. -/
theorem Follows.known {result : Option NodeId × Walk}
    (follows : Follows net starts visited rest result) (known : id ∈ visited) :
    Follows net starts visited (id :: rest) result := by
  obtain ⟨_ | next, w⟩ := result
  · exact Network.Explores.known known follows
  · exact ⟨follows.1, fun order explores => .known known (follows.2 order explores)⟩

namespace Lined

theorem follows_visit (lined : Lined net starts ⟨id :: stack, met, rest⟩ visited)
    (sound : net.Sound) (firstApart : net.FirstApart starts) (found : net.nodes.get? id = some n) :
    Follows net starts visited (id :: (stack ++ rest))
      (some id, Walk.visit ⟨stack, met, rest⟩ n) := by
  obtain ⟨lined', explores⟩ := lined.visit sound firstApart found
  refine ⟨lined', ?_⟩
  rw [starts_visit]
  exact explores

theorem fromStarts (lined : Lined net starts ⟨[], met, rest⟩ visited) (sound : net.Sound)
    (firstApart : net.FirstApart starts) :
    Follows net starts visited rest (Walk.fromStarts net met rest) := by
  induction rest with
  | nil => exact .nil
  | cons id rest inductionHypothesis =>
    rw [Walk.fromStarts]
    by_cases known : met.contains id = true
    · rw [if_pos known]
      have listed : id ∈ visited := by simpa using (lined.met.met id).mp known
      exact (inductionHypothesis ⟨lined.toWalked.skip known,
        fun x waits => lined.reached x (waits.imp_right (.tail _)), .nil⟩).known listed
    · obtain ⟨k, held⟩ := lined.waiting id (.head _)
      obtain ⟨n, found, _⟩ := Store.layout_eq_some_iff.mp held
      rw [if_neg known]
      simp only [Network.node?, found]
      have onStack : Lined net starts ⟨[id], met.insert id, rest⟩ visited := by
        refine ⟨lined.toWalked.start known, fun x waits => ?_, List.pairwise_singleton _ _⟩
        refine lined.reached x (.inr ?_)
        simpa using waits
      exact onStack.follows_visit sound firstApart found

theorem step (lined : Lined net starts w visited) (sound : net.Sound)
    (firstApart : net.FirstApart starts) :
    Follows net starts visited (w.stack ++ w.starts) (w.step net) := by
  obtain ⟨stack, met, rest⟩ := w
  cases stack with
  | nil => exact lined.fromStarts sound firstApart
  | cons id stack =>
    obtain ⟨k, held⟩ := lined.live id (by simp)
    obtain ⟨n, found, _⟩ := Store.layout_eq_some_iff.mp held
    simp only [Walk.step, Walk.fromStack, Network.node?, found]
    exact lined.follows_visit sound firstApart found

/-- Enough steps do what the exploration of the stack and the starts does. -/
theorem steps (lined : Lined net starts w visited) (sound : net.Sound)
    (firstApart : net.FirstApart starts) {count : Nat}
    (enough : net.nodes.capacity < visited.length + count) :
    net.Explores visited (w.stack ++ w.starts) (Walk.steps net count w).1 := by
  induction count generalizing w visited with
  | zero =>
    have few := lined.length_le
    omega
  | succ count inductionHypothesis =>
    have follows := lined.step sound firstApart
    rw [Walk.steps]
    split
    · next ended =>
      rw [ended] at follows
      exact follows
    · next id w' stepped =>
      rw [stepped] at follows
      refine follows.2 _ (inductionHypothesis follows.1 ?_)
      rw [List.length_append, List.length_singleton]
      omega

end Lined

theorem Begins.lined (begins : Begins net w starts) (sound : net.Sound) :
    Lined net starts w [] := by
  refine ⟨begins.walked sound, fun x waits => ⟨x, begins.mem_starts.mp waits, .refl⟩, ?_⟩
  cases begins with
  | ofNode _ => exact List.pairwise_singleton _ _
  | ofOutputs => exact .nil

theorem Begins.stack_append_starts (begins : Begins net w starts) :
    w.stack ++ w.starts = starts := by
  cases begins <;> rfl

/-! ## The end of a walk -/

theorem fromStarts_eq_none {w' : Walk} (ended : Walk.fromStarts net met rest = (none, w')) :
    ∃ met', w' = { met := met' } := by
  induction rest generalizing met with
  | nil =>
    cases ended
    exact ⟨met, rfl⟩
  | cons id rest inductionHypothesis =>
    rw [Walk.fromStarts] at ended
    split at ended
    · exact inductionHypothesis ended
    · split at ended
      · exact inductionHypothesis ended
      · cases ended

/-- A walk that ended before its last step has nothing more to visit. -/
theorem step_steps {count : Nat} (early : (steps net count w).1.length < count) :
    (steps net count w).2.step net = (none, (steps net count w).2) := by
  induction count generalizing w with
  | zero => cases early
  | succ count inductionHypothesis =>
    rw [steps] at early ⊢
    split
    · next w' ended =>
      unfold Walk.step at ended
      split at ended
      · cases ended
      · obtain ⟨met', rfl⟩ := fromStarts_eq_none ended
        rfl
    · next id w' stepped =>
      simp only [stepped, List.length_cons] at early
      exact inductionHypothesis (Nat.lt_of_succ_lt_succ early)

end Walk

namespace Network

variable {net : Network}

/-! ## Networks in which ids grow -/

/-- Ids grow from drivers to gates. -/
def Growing (net : Network) : Prop :=
  ∀ x d, net.nodes.layout.HasGate x → net.WireTo x d → d < x

theorem Growing.le_of_reaches (growing : net.Growing) (sound : net.Sound) {a b : NodeId}
    (drives : net.nodes.layout.MayDrive a) (wires : Relation.ReflTransGen net.WireTo a b) :
    b ≤ a := by
  induction wires using Relation.ReflTransGen.head_induction_on with
  | refl => exact Nat.le_refl _
  | head wire _ inductionHypothesis =>
    have less := growing _ _ (sound.hasGate_of_wire wire drives) wire
    exact (inductionHypothesis (sound.mayDrive_of_wire wire)).trans (Nat.le_of_lt less)

theorem Sound.growing_iff (sound : net.Sound) : net.Growing ↔
    ∀ x ∈ net.gates.toList, ∀ d ∈ (net.node? x).elim [] Node.reads, d < x := by
  have gate_iff : ∀ {x}, x ∈ net.gates.toList ↔ net.nodes.layout.HasGate x :=
    Array.mem_toList_iff.trans sound.mem_gates_iff
  constructor
  · intro growing x listed d read
    cases found : net.node? x with
    | none => simp [found] at read
    | some n =>
      rw [found] at read
      exact growing x d (gate_iff.mp listed) ((wireTo_iff_mem_reads found).mpr read)
  · intro smaller x d gate wire
    have ⟨m, live, _⟩ := gate
    obtain ⟨n, found, _⟩ := Store.layout_eq_some_iff.mp live
    refine smaller x (gate_iff.mpr gate) d ?_
    rw [show net.node? x = some n from found]
    exact (wireTo_iff_mem_reads found).mp wire

/-- Only a gate has a second operand, and its first one has the smaller id. -/
theorem Sound.first_lt_second (sound : net.Sound) {x a b : NodeId} {n : Node}
    (found : net.node? x = some n) (first : n.first = some a) (second : n.second = some b) :
    a < b := by
  have fits := sound.woven.layout.fits (Store.layout_of_get? found)
  have notInput : n.isInput = false := by
    by_contra input
    have none := (fits.input (Bool.not_eq_false _ ▸ input)).2
    rw [Node.core_second, second] at none
    cases none
  have notOutput : n.isOutput = false := by
    by_contra output
    have none := fits.output (Bool.not_eq_false _ ▸ output)
    rw [Node.core_second, second] at none
    cases none
  have isGate : n.isGate = true := by
    rw [Node.isOutput_eq, notInput] at notOutput
    simpa using notOutput
  obtain ⟨key, keyed, proper⟩ := fits.gate isGate
  obtain ⟨first', second'⟩ := Node.driver_of_key? keyed
  obtain rfl := Option.some.inj (first.symm.trans first')
  obtain rfl := Option.some.inj (second.symm.trans second')
  exact proper.ordered

/-- A first operand does not depend on the second, which has the greater id. -/
theorem Growing.firstApart (growing : net.Growing) (sound : net.Sound) (starts : List NodeId) :
    net.FirstApart starts := by
  intro x n a b _ found first second wires
  have wire : net.WireTo x a := (wireTo_iff found).mpr ⟨.first, first⟩
  have ordered := sound.first_lt_second found first second
  have bound := growing.le_of_reaches sound (sound.mayDrive_of_wire wire) wires
  exact absurd ordered (Nat.not_lt_of_le bound)

/-! ## Walks -/

/-- A walk over a node or over the outputs can be run to its end, and then visits exactly the nodes
of the recursive exploration, each once; and it visits them in its order when no first operand on
the way depends on the second one. -/
theorem Reachable.walk_explores (reachable : net.Reachable) {w : Walk} {starts : List NodeId}
    (begins : Walk.Begins net w starts) :
    ∃ visited ended order, w.finish net = .ok (visited, ended) ∧ net.Explores [] starts order ∧
      (∀ other, net.Explores [] starts other → other = order) ∧
      visited.Perm order ∧ ended.next net = .ok (none, ended) ∧
      (net.FirstApart starts → visited = order) := by
  have sound := reachable.sound
  have finished := begins.finished sound
  have live : ∀ s ∈ starts, ∃ n, net.nodes.layout s = some n := fun s start =>
    finished.live s ((finished.mem_iff s).mpr ⟨s, start, .refl⟩)
  obtain ⟨order, explores⟩ := sound.exists_explores live []
  refine ⟨_, _, order, w.finish_eq net, explores, fun other => explores.unique, ?_, ?_,
    fun firstApart => ?_⟩
  · have nodup : order.Nodup := explores.nodup List.nodup_nil
    refine (List.perm_ext_iff_of_nodup finished.nodup nodup).mpr fun x => ?_
    rw [finished.mem_iff, explores.mem_iff]
  · rw [Walk.next_eq]
    exact congrArg Except.ok (Walk.step_steps (Nat.lt_succ_of_le finished.few))
  · have visited := (begins.lined sound).steps sound firstApart
      (Nat.lt_of_lt_of_eq (Nat.lt_succ_self _) (Nat.zero_add _).symm)
    rw [begins.stack_append_starts] at visited
    exact explores.unique visited

/-- Two outputs over shared gates.  One gate and the inputs are visited under the first output, and
the second output adds one gate only. -/
theorem walk_explores_shared :
    ∃ net, (withBuckets 0).runAll [.addPort "p" 2, .addInput 0 0, .addInput 0 1, .addOutput 0 0,
        .addOutput 0 1, .addGate .and (.positive 0) (.positive 1),
        .addGate .xor (.positive 1) (.positive 4), .addGate .or (.positive 4) (.positive 5),
        .drive 2 (.negative 5), .drive 3 (.positive 6)] = .ok net ∧
      ∃ ended, (Walk.ofOutputs net).finish net = .ok ([2, 5, 1, 4, 0, 3, 6], ended) ∧
        net.Explores [] net.outputs.toList [2, 5, 1, 4, 0, 3, 6] := by
  refine exists_runAll (fun net => (((Walk.ofOutputs net).finish net).toOption.map Prod.fst,
    decide (∀ x ∈ net.gates.toList, ∀ d ∈ (net.node? x).elim [] Node.reads, d < x)))
    (some [2, 5, 1, 4, 0, 3, 6], true) (by simp) (by decide +kernel) ?_
  intro net reached seen
  obtain ⟨seen, smaller⟩ := Prod.mk.inj seen
  have growing : net.Growing := reached.sound.growing_iff.mpr (of_decide_eq_true smaller)
  obtain ⟨visited, ended, order, finished, explores, _, _, _, same⟩ :=
    reached.walk_explores .ofOutputs
  obtain rfl := same (growing.firstApart reached.sound _)
  rw [finished] at seen
  obtain rfl := Option.some.inj seen
  exact ⟨ended, finished, explores⟩

/-- A gate in the slot of an erased one reads a gate of a greater id.  The last gate reads both, and
the walk leaves its second operand on the stack where the exploration visits it under the first. -/
theorem walk_overtakes_recycled :
    ∃ net, (withBuckets 0).runAll [.addPort "a" 2, .addInput 0 0, .addInput 0 1,
        .addGate .and (.positive 0) (.positive 1), .addGate .or (.positive 0) (.positive 1),
        .addPort "b" 1, .addInput 1 0, .eraseGate 2, .addGate .and (.positive 3) (.positive 4),
        .addGate .xor (.positive 2) (.positive 3)] = .ok net ∧
      Walk.Begins net (.ofNode 5) [5] ∧ net.Explores [] [5] [5, 2, 3, 0, 1, 4] ∧
      (∃ ended, (Walk.ofNode 5).finish net = .ok ([5, 2, 4, 3, 0, 1], ended)) ∧
      ¬ net.Explores [] [5] [5, 2, 4, 3, 0, 1] := by
  refine exists_runAll (fun net => (((Walk.ofNode 5).finish net).toOption.map Prod.fst,
    [5, 2, 3, 0, 1, 4].map fun x => (net.node? x).map Node.reads))
    (some [5, 2, 4, 3, 0, 1],
      [some [2, 3], some [3, 4], some [0, 1], some [], some [], some []])
    (by simp) (by decide +kernel) ?_
  intro net _ seen
  simp only [Prod.mk.injEq, List.map_cons, List.map_nil, List.cons.injEq, and_true] at seen
  obtain ⟨finished, top, recycled, shared, left, right, other⟩ := seen
  have explores : net.Explores [] [5] [5, 2, 3, 0, 1, 4] := by
    refine .step_of_reads (by simp) top (.step_of_reads (by simp) recycled ?_)
    refine .step_of_reads (by simp) shared (.step_of_reads (by simp) left ?_)
    refine .step_of_reads (by simp) right (.step_of_reads (by simp) other ?_)
    exact .known (by simp) .nil
  refine ⟨?_, explores, ?_, fun explores' => absurd (explores.unique explores') (by decide)⟩
  · obtain ⟨n, found, _⟩ := Option.map_eq_some_iff.mp top
    exact .ofNode (Store.layout_of_get? found)
  · obtain ⟨⟨visited, ended⟩, made, same⟩ := Option.map_eq_some_iff.mp finished
    obtain rfl : visited = [5, 2, 4, 3, 0, 1] := same
    exact ⟨ended, toOption_eq_some_iff.mp made⟩

end Network

end GateNet
