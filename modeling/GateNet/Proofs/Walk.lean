import GateNet.Proofs.Search
import GateNet.Proofs.Stepping

/-!
# Walks visit all that they reach

On a sound network a walk over the outputs visits every node that an output depends on: each node
that was ever put on the stack is visited exactly once, and a visited node has put its drivers on
the stack.  The visited nodes are live and distinct, so the number of steps that a walk is given
is enough.
-/

namespace GateNet

namespace Walk

/-- The nodes that were met are the visited ones and those on the stack, each once. -/
structure Met (visited stack : List NodeId) (met : Std.TreeSet NodeId) : Prop where
  nodup : (visited ++ stack).Nodup
  met : ∀ x, x ∈ met ↔ x ∈ visited ++ stack

variable {visited : List NodeId}

theorem Met.push {stack : List NodeId} {met : Std.TreeSet NodeId} (holds : Met visited stack met)
    {id : NodeId} (fresh : ¬ met.contains id = true) : Met visited (id :: stack) (met.insert id) := by
  have fresh : id ∉ visited ++ stack := fun listed => fresh ((holds.met id).mpr listed)
  refine ⟨List.nodup_middle.mpr (List.nodup_cons.mpr ⟨fresh, holds.nodup⟩), fun x => ?_⟩
  rw [Std.TreeSet.mem_insert, holds.met, Nat.compare_eq_eq, eq_comm]
  simp only [List.mem_append, List.mem_cons]
  tauto

theorem Met.pop {stack : List NodeId} {met : Std.TreeSet NodeId} {id : NodeId}
    (holds : Met visited (id :: stack) met) : Met (visited ++ [id]) stack met := by
  have same : visited ++ [id] ++ stack = visited ++ id :: stack := by simp
  exact ⟨by rw [same]; exact holds.nodup, by rw [same]; exact holds.met⟩

theorem Met.meet {w : Walk} (holds : Met visited w.stack w.met) (id : NodeId) :
    Met visited (w.meet id).stack (w.meet id).met ∧
      ∀ x, x ∈ visited ++ (w.meet id).stack ↔ id = x ∨ x ∈ visited ++ w.stack := by
  unfold Walk.meet
  split
  · next known =>
    have listed := (holds.met id).mp known
    refine ⟨holds, fun x => ⟨.inr, ?_⟩⟩
    rintro (rfl | inside)
    · exact listed
    · exact inside
  · next unknown =>
    refine ⟨holds.push unknown, fun x => ?_⟩
    simp only [List.mem_append, List.mem_cons, eq_comm]
    tauto

theorem starts_meet (w : Walk) (id : NodeId) : (w.meet id).starts = w.starts := by
  unfold meet
  split <;> rfl

theorem visit_eq (w : Walk) (n : Node) :
    w.visit n = n.first.elim (n.second.elim w w.meet) (n.second.elim w w.meet).meet := by
  unfold Walk.visit
  cases n.second <;> cases n.first <;> rfl

theorem starts_visit (w : Walk) (n : Node) : (w.visit n).starts = w.starts := by
  have offered : ∀ (w : Walk) (driver : Option NodeId),
      (driver.elim w w.meet).starts = w.starts := by
    intro w driver
    cases driver with
    | none => rfl
    | some d => exact w.starts_meet d
  rw [w.visit_eq n, offered, offered]

theorem Met.offer {w : Walk} (holds : Met visited w.stack w.met) (driver : Option NodeId) :
    Met visited (driver.elim w w.meet).stack (driver.elim w w.meet).met ∧
      ∀ x, x ∈ visited ++ (driver.elim w w.meet).stack ↔ driver = some x ∨ x ∈ visited ++ w.stack := by
  cases driver with
  | none => exact ⟨holds, fun x => by simp⟩
  | some d =>
    obtain ⟨holds', stack_iff⟩ := holds.meet d
    refine ⟨holds', fun x => ?_⟩
    rw [Option.some.injEq]
    exact stack_iff x

theorem Met.visit {w : Walk} (holds : Met visited w.stack w.met) (n : Node) :
    Met visited (w.visit n).stack (w.visit n).met ∧
      ∀ x, x ∈ visited ++ (w.visit n).stack ↔
        (∃ p, n.driver p = some x) ∨ x ∈ visited ++ w.stack := by
  obtain ⟨holds₁, stack₁⟩ := holds.offer n.second
  obtain ⟨holds₂, stack₂⟩ := holds₁.offer n.first
  rw [w.visit_eq n]
  refine ⟨holds₂, fun x => ?_⟩
  rw [stack₂, stack₁]
  constructor
  · rintro (wire | wire | listed)
    · exact .inl ⟨.first, wire⟩
    · exact .inl ⟨.second, wire⟩
    · exact .inr listed
  · rintro (⟨_ | _, wire⟩ | listed)
    · exact .inl wire
    · exact .inr (.inl wire)
    · exact .inr (.inr listed)

/-- A walk from some starts after the nodes in `visited`. -/
structure Walked (net : Network) (starts : List NodeId) (w : Walk) (visited : List NodeId) :
    Prop where
  met : Met visited w.stack w.met
  live : ∀ x ∈ visited ++ w.stack, ∃ n, net.nodes.layout x = some n
  closed : ∀ x ∈ visited, ∀ d, net.WireTo x d → d ∈ visited ++ w.stack
  waiting : ∀ x ∈ w.starts, ∃ n, net.nodes.layout x = some n
  started : ∀ x ∈ starts, x ∈ visited ++ w.stack ∨ x ∈ w.starts

variable {net : Network} {starts : List NodeId} {w : Walk}

/-- The walk goes on when the node on top of the stack is visited. -/
theorem Walked.visit (sound : net.Sound) {id : NodeId} {stack rest : List NodeId}
    {met : Std.TreeSet NodeId} {n : Node} (walked : Walked net starts ⟨id :: stack, met, rest⟩ visited)
    (found : net.nodes.get? id = some n) :
    Walked net starts (Walk.visit ⟨stack, met, rest⟩ n) (visited ++ [id]) := by
  obtain ⟨holds, stack_iff⟩ := Met.visit (w := ⟨stack, met, rest⟩) walked.met.pop n
  have starts_eq := Walk.starts_visit ⟨stack, met, rest⟩ n
  have same : visited ++ [id] ++ stack = visited ++ id :: stack := by simp
  simp only [same] at stack_iff
  refine ⟨holds, fun x listed => ?_, fun x listed d wire => ?_,
    by rw [starts_eq]; exact walked.waiting, fun x listed => ?_⟩
  · rcases (stack_iff x).mp listed with wire | listed
    · obtain ⟨m, held, _⟩ := sound.mayDrive_of_wire ((Network.wireTo_iff found).mpr wire)
      exact ⟨m, held⟩
    · exact walked.live x listed
  · rw [stack_iff]
    rcases List.mem_append.mp listed with listed | here
    · exact .inr (walked.closed x listed d wire)
    · rw [List.mem_singleton.mp here] at wire
      exact .inl ((Network.wireTo_iff found).mp wire)
  · rw [starts_eq, stack_iff]
    exact (walked.started x listed).imp_left .inr

/-- A start that was met before is passed over. -/
theorem Walked.skip {met : Std.TreeSet NodeId} {id : NodeId} {rest : List NodeId}
    (walked : Walked net starts ⟨[], met, id :: rest⟩ visited) (known : met.contains id = true) :
    Walked net starts ⟨[], met, rest⟩ visited := by
  refine ⟨walked.met, walked.live, walked.closed,
    fun x listed => walked.waiting x (.tail _ listed), fun x start => ?_⟩
  rcases walked.started x start with inside | later
  · exact .inl inside
  · rcases List.mem_cons.mp later with rfl | later
    · exact .inl ((walked.met.met x).mp known)
    · exact .inr later

/-- A start that was not met is put on the stack. -/
theorem Walked.start {met : Std.TreeSet NodeId} {id : NodeId} {rest : List NodeId}
    (walked : Walked net starts ⟨[], met, id :: rest⟩ visited) (fresh : ¬ met.contains id = true) :
    Walked net starts ⟨[id], met.insert id, rest⟩ visited := by
  have inside : ∀ {x}, x ∈ visited ++ [] → x ∈ visited ++ [id] := by
    intro x listed
    rw [List.append_nil] at listed
    exact List.mem_append.mpr (.inl listed)
  refine ⟨walked.met.push fresh, fun x listed => ?_,
    fun x listed d wire => inside (walked.closed x listed d wire),
    fun x listed => walked.waiting x (.tail _ listed), fun x start => ?_⟩
  · rcases List.mem_append.mp listed with listed | here
    · exact walked.live x (List.mem_append.mpr (.inl listed))
    · rw [List.mem_singleton.mp here]
      exact walked.waiting id (.head _)
  · rcases walked.started x start with met | later
    · exact .inl (inside met)
    · rcases List.mem_cons.mp later with rfl | later
      · exact .inl (by simp)
      · exact .inr later

theorem Walked.fromStarts (sound : net.Sound) {met : Std.TreeSet NodeId} {rest : List NodeId}
    (walked : Walked net starts ⟨[], met, rest⟩ visited) :
    (∃ w', Walk.fromStarts net met rest = (none, w') ∧ ∀ x ∈ starts, x ∈ visited) ∨
      ∃ id w', Walk.fromStarts net met rest = (some id, w') ∧
        Walked net starts w' (visited ++ [id]) := by
  -- By induction on the starts: those that were met before are passed over.
  induction rest with
  | nil =>
    refine .inl ⟨_, rfl, fun x listed => ?_⟩
    simpa using walked.started x listed
  | cons id rest inductionHypothesis =>
    rw [Walk.fromStarts]
    by_cases known : met.contains id = true
    · rw [if_pos known]
      exact inductionHypothesis (walked.skip known)
    · -- The start is put on the stack and visited at once.
      obtain ⟨k, held⟩ := walked.waiting id (.head _)
      obtain ⟨n, found, _⟩ := Store.layout_eq_some_iff.mp held
      rw [if_neg known]
      exact .inr ⟨id, _, by simp only [Network.node?, found],
        (walked.start known).visit sound found⟩

theorem Walked.step (sound : net.Sound) (walked : Walked net starts w visited) :
    (∃ w', w.step net = (none, w') ∧ w.stack = [] ∧ ∀ x ∈ starts, x ∈ visited) ∨
      ∃ id w', w.step net = (some id, w') ∧ Walked net starts w' (visited ++ [id]) := by
  obtain ⟨stack, met, rest⟩ := w
  cases stack with
  | nil =>
    rcases walked.fromStarts sound with ⟨w', ended, all⟩ | ⟨id, w', visitedNext, walked⟩
    · exact .inl ⟨w', ended, rfl, all⟩
    · exact .inr ⟨id, w', visitedNext, walked⟩
  | cons id stack =>
    obtain ⟨k, held⟩ := walked.live id (by simp)
    obtain ⟨n, found, _⟩ := Store.layout_eq_some_iff.mp held
    exact .inr ⟨id, _, by simp only [Walk.step, Walk.fromStack, Network.node?, found],
      walked.visit sound found⟩

theorem Walked.length_le (walked : Walked net starts w visited) :
    visited.length ≤ net.nodes.capacity := by
  have nodup : visited.Nodup := (List.nodup_append.mp walked.met.nodup).1
  have inside : visited ⊆ List.range net.nodes.capacity := by
    intro x listed
    obtain ⟨n, held⟩ := walked.live x (List.mem_append.mpr (.inl listed))
    obtain ⟨m, found, _⟩ := Store.layout_eq_some_iff.mp held
    exact List.mem_range.mpr (Store.lt_capacity found)
  simpa using (nodup.subperm inside).length_le

/-- Enough steps visit the starts and all that they reach. -/
theorem Walked.steps (sound : net.Sound) {count : Nat} (walked : Walked net starts w visited)
    (enough : net.nodes.capacity < visited.length + count) :
    ∃ w', Walked net starts w' (visited ++ (Walk.steps net count w).1) ∧ w'.stack = [] ∧
      ∀ x ∈ starts, x ∈ visited ++ (Walk.steps net count w).1 := by
  induction count generalizing w visited with
  | zero =>
    have := walked.length_le
    omega
  | succ count inductionHypothesis =>
    rw [Walk.steps]
    rcases walked.step sound with ⟨w', ended, empty, all⟩ | ⟨id, w', visitedNext, walked'⟩
    · simp only [ended, List.append_nil]
      exact ⟨w, walked, empty, all⟩
    · simp only [visitedNext]
      obtain ⟨w'', walked'', empty, all⟩ := inductionHypothesis walked' (by
        rw [List.length_append, List.length_singleton]
        omega)
      rw [List.append_assoc, List.singleton_append] at walked'' all
      exact ⟨w'', walked'', empty, all⟩

/-- A walk that ended within two numbers of steps visited the same. -/
theorem steps_eq_steps {i j : Nat} (ended : (steps net i w).1.length < i)
    (ended' : (steps net j w).1.length < j) : (steps net i w).1 = (steps net j w).1 := by
  induction i generalizing j w with
  | zero => cases ended
  | succ i inductionHypothesis =>
    cases j with
    | zero => cases ended'
    | succ j =>
      rw [steps] at ended ended' ⊢
      rw [steps]
      split at ended
      · rfl
      · next id w' visited =>
        simp only [visited, List.length_cons] at ended ended' ⊢
        rw [inductionHypothesis (Nat.lt_of_succ_lt_succ ended) (Nat.lt_of_succ_lt_succ ended')]

/-! ## What is visited is reached -/

theorem mem_stack_meet {x id : NodeId} (listed : x ∈ (w.meet id).stack) : id = x ∨ x ∈ w.stack := by
  unfold meet at listed
  split at listed
  · exact .inr listed
  · exact (List.mem_cons.mp listed).imp Eq.symm fun inside => inside

theorem mem_stack_offer {driver : Option NodeId} {x : NodeId}
    (listed : x ∈ (driver.elim w w.meet).stack) : driver = some x ∨ x ∈ w.stack := by
  cases driver with
  | none => exact .inr listed
  | some d => exact (mem_stack_meet listed).imp (congrArg some) fun inside => inside

theorem mem_stack_visit {n : Node} {x : NodeId} (listed : x ∈ (w.visit n).stack) :
    (∃ p, n.driver p = some x) ∨ x ∈ w.stack := by
  rw [w.visit_eq n] at listed
  rcases mem_stack_offer listed with wire | listed
  · exact .inl ⟨.first, wire⟩
  · exact (mem_stack_offer listed).imp (fun wire => ⟨.second, wire⟩) fun inside => inside

/-- The first live node of the stack is visited; dead ones before it are passed over. -/
theorem fromStack_eq_some {met : Std.TreeSet NodeId} {starts stack : List NodeId} {id : NodeId}
    {next : Walk} (popped : fromStack net met starts stack = some (id, next)) :
    ∃ n rest, net.nodes.get? id = some n ∧ id :: rest <:+ stack ∧
      next = Walk.visit ⟨rest, met, starts⟩ n := by
  induction stack with
  | nil => cases popped
  | cons top stack inductionHypothesis =>
    rw [fromStack] at popped
    split at popped
    · obtain ⟨n, rest, found, inside, made⟩ := inductionHypothesis popped
      exact ⟨n, rest, found, inside.trans (List.suffix_cons ..), made⟩
    · next n found =>
      cases popped
      exact ⟨n, stack, found, List.suffix_rfl, rfl⟩

/-- The first live start that was not met is visited. -/
theorem fromStarts_eq_some {met : Std.TreeSet NodeId} {starts : List NodeId} {id : NodeId}
    {next : Walk} (restarted : fromStarts net met starts = (some id, next)) :
    ∃ n rest met', net.nodes.get? id = some n ∧ id :: rest <:+ starts ∧
      next = Walk.visit ⟨[], met', rest⟩ n := by
  induction starts generalizing met with
  | nil => cases restarted
  | cons start starts inductionHypothesis =>
    rw [fromStarts] at restarted
    split at restarted
    · obtain ⟨n, rest, met', found, inside, made⟩ := inductionHypothesis restarted
      exact ⟨n, rest, met', found, inside.trans (List.suffix_cons ..), made⟩
    · split at restarted
      · obtain ⟨n, rest, met', found, inside, made⟩ := inductionHypothesis restarted
        exact ⟨n, rest, met', found, inside.trans (List.suffix_cons ..), made⟩
      · next n found =>
        cases restarted
        exact ⟨n, starts, _, found, List.suffix_rfl, rfl⟩

/-- A step visits a node that was waiting, and lets only its drivers wait in addition. -/
theorem step_eq_some {id : NodeId} {next : Walk} (stepped : w.step net = (some id, next)) :
    (id ∈ w.stack ∨ id ∈ w.starts) ∧ (∀ x ∈ next.stack, net.WireTo id x ∨ x ∈ w.stack) ∧
      ∀ x ∈ next.starts, x ∈ w.starts := by
  unfold Walk.step at stepped
  split at stepped
  · next popped =>
    cases stepped
    obtain ⟨n, rest, found, inside, rfl⟩ := fromStack_eq_some popped
    refine ⟨.inl (inside.subset (.head _)), fun x listed => ?_, fun x listed => ?_⟩
    · exact (mem_stack_visit listed).imp (Network.wireTo_iff found).mpr fun later =>
        inside.subset (.tail _ later)
    · rwa [starts_visit] at listed
  · obtain ⟨n, rest, met', found, inside, rfl⟩ := fromStarts_eq_some stepped
    refine ⟨.inr (inside.subset (.head _)), fun x listed => ?_, fun x listed => ?_⟩
    · exact (mem_stack_visit listed).imp (Network.wireTo_iff found).mpr nofun
    · rw [starts_visit] at listed
      exact inside.subset (.tail _ listed)

/-- Whatever is visited is reached along wires from a node that was waiting at the beginning. -/
theorem reached_of_steps {count : Nat} {x : NodeId} (listed : x ∈ (steps net count w).1) :
    ∃ s, (s ∈ w.stack ∨ s ∈ w.starts) ∧ Relation.ReflTransGen net.WireTo s x := by
  induction count generalizing w with
  | zero => cases listed
  | succ count inductionHypothesis =>
    rw [steps] at listed
    split at listed
    · cases listed
    · next id next stepped =>
      obtain ⟨waiting, stack, starts⟩ := step_eq_some stepped
      rcases List.mem_cons.mp listed with rfl | later
      · exact ⟨x, waiting, .refl⟩
      · obtain ⟨s, onStack | start, wires⟩ := inductionHypothesis later
        · -- What waits after the step was waiting before, or the visited node reads it.
          rcases stack s onStack with wire | before
          · exact ⟨id, waiting, .head wire wires⟩
          · exact ⟨s, .inl before, wires⟩
        · exact ⟨s, .inr (starts s start), wires⟩

/-- A walk that has not begun, and where it starts. -/
inductive Begins (net : Network) : Walk → List NodeId → Prop
  | ofNode {id : NodeId} {n : Node} (live : net.nodes.layout id = some n) :
      Begins net (.ofNode id) [id]
  | ofOutputs : Begins net (.ofOutputs net) net.outputs.toList

theorem Begins.walked (begins : Begins net w starts) (sound : net.Sound) :
    Walked net starts w [] := by
  cases begins with
  | @ofNode id n live =>
    have fresh : ¬ (∅ : Std.TreeSet NodeId).contains id = true := by
      simp [Std.TreeSet.contains_emptyc]
    refine ⟨Met.push ⟨List.nodup_nil, fun x => ?_⟩ fresh, fun x listed => ?_, by simp,
      by simp [Walk.ofNode], fun x listed => .inl listed⟩
    · simp [Std.TreeSet.not_mem_emptyc]
    · obtain rfl : x = id := List.mem_singleton.mp listed
      exact ⟨n, live⟩
  | ofOutputs =>
    refine ⟨⟨List.nodup_nil, fun x => ?_⟩, by simp [Walk.ofOutputs], by simp, fun x listed => ?_,
      fun x listed => .inr listed⟩
    · simp [Walk.ofOutputs, Std.TreeSet.not_mem_emptyc]
    · obtain ⟨n, held, _⟩ := sound.mem_outputs_iff.mp (Array.mem_toList_iff.mp listed)
      exact ⟨n, held⟩

theorem Begins.mem_starts (begins : Begins net w starts) {x : NodeId} :
    x ∈ w.stack ∨ x ∈ w.starts ↔ x ∈ starts := by
  cases begins <;> simp [Walk.ofNode, Walk.ofOutputs]

/-- The nodes that some starts depend on are visited, each once. -/
structure Finished (net : Network) (starts visited : List NodeId) : Prop where
  nodup : visited.Nodup
  live : ∀ x ∈ visited, ∃ n, net.nodes.layout x = some n
  few : visited.length ≤ net.nodes.capacity
  mem_iff : ∀ x, x ∈ visited ↔ ∃ s ∈ starts, Relation.ReflTransGen net.WireTo s x

theorem Begins.finished (begins : Begins net w starts) (sound : net.Sound) :
    Finished net starts (w.exhaust net).1 := by
  obtain ⟨last, walked, empty, all⟩ :=
    (begins.walked sound).steps sound (Nat.lt_of_lt_of_eq (Nat.lt_succ_self _) (Nat.zero_add _).symm)
  rw [List.nil_append] at walked all
  refine ⟨(List.nodup_append.mp walked.met.nodup).1,
    fun x listed => walked.live x (List.mem_append.mpr (.inl listed)), walked.length_le,
    fun x => ⟨fun listed => ?_, ?_⟩⟩
  · obtain ⟨s, waiting, wires⟩ := reached_of_steps listed
    exact ⟨s, begins.mem_starts.mp waiting, wires⟩
  · rintro ⟨s, start, wires⟩
    -- By induction along the wires: the visited nodes are closed once the stack is empty.
    induction wires with
    | refl => exact all s start
    | tail _ wire inductionHypothesis =>
      have closed := walked.closed _ inductionHypothesis _ wire
      rwa [empty, List.append_nil] at closed

end Walk

end GateNet
