import GateNet.Proofs.WalkOrder

/-!
# Walks take turns

A walk over the outputs serves one output after another.  In its turn an output comes first, then
what it depends on and no earlier output did; each node comes after one that reads it.  A walk over
a node is a single turn.  So a walk visits the fanin of its starts, all of it and nothing else.
-/

namespace GateNet

namespace Network

variable {net : Network} {starts seen part order : List NodeId} {s x : NodeId}

/-- One turn: a start, and all that it depends on and was not visited before, each node once and
after one that reads it. -/
structure Turn (net : Network) (seen : List NodeId) (s : NodeId) (part : List NodeId) : Prop where
  first : part.head? = some s
  nodup : part.Nodup
  mem_iff : ∀ x, x ∈ part ↔ Relation.ReflTransGen net.WireTo s x ∧ x ∉ seen
  read : ∀ {before x}, before ++ [x] <+: part → x = s ∨ ∃ y ∈ before, net.WireTo y x

/-- The turns of some starts, one after another. -/
inductive InTurns (net : Network) : List NodeId → List NodeId → List NodeId → Prop
  | nil {seen : List NodeId} : InTurns net seen [] []
  | turn {seen starts part order : List NodeId} {s : NodeId} (turn : net.Turn seen s part)
      (later : InTurns net (seen ++ part) starts order) :
      InTurns net seen (s :: starts) (part ++ order)

theorem InTurns.mem_iff (turns : net.InTurns seen starts order) (x : NodeId) :
    x ∈ order ↔ (∃ s ∈ starts, Relation.ReflTransGen net.WireTo s x) ∧ x ∉ seen := by
  induction turns with
  | nil => simp
  | @turn seen _ _ _ s turn _ inductionHypothesis =>
    simp only [List.mem_append, inductionHypothesis, turn.mem_iff, List.mem_cons,
      exists_eq_or_imp]
    by_cases early : x ∈ seen
    · simp [early]
    · by_cases own : Relation.ReflTransGen net.WireTo s x <;> simp [early, own]

theorem InTurns.nodup (turns : net.InTurns seen starts order) : order.Nodup := by
  induction turns with
  | nil => exact List.nodup_nil
  | turn turn later inductionHypothesis =>
    refine List.nodup_append.mpr ⟨turn.nodup, inductionHypothesis, fun x here y there => ?_⟩
    rintro rfl
    exact ((later.mem_iff x).mp there).2 (List.mem_append.mpr (.inr here))

end Network

namespace Walk

variable {net : Network} {starts seen part visited stack rest : List NodeId} {w : Walk}
  {met : Std.TreeSet NodeId} {s id : NodeId} {n : Node}

/-- The starts to come: nothing reads them, and none of them is met. -/
structure Ahead (net : Network) (todo met : List NodeId) : Prop where
  unread : ∀ x ∈ todo, ∀ y, ¬ net.WireTo y x
  fresh : ∀ x ∈ todo, x ∉ met
  distinct : todo.Nodup

/-- A walk in the turn of a start, after the nodes in `part`. -/
structure InTurn (net : Network) (starts seen : List NodeId) (s : NodeId) (part : List NodeId)
    (w : Walk) : Prop where
  walked : Walked net starts w (seen ++ part)
  closed : ∀ x ∈ seen, ∀ d, net.WireTo x d → d ∈ seen
  first : ∃ more, part ++ w.stack = s :: more
  reached : ∀ x ∈ part ++ w.stack, Relation.ReflTransGen net.WireTo s x
  read : ∀ {before x}, before ++ [x] <+: part → x = s ∨ ∃ y ∈ before, net.WireTo y x
  waits : ∀ x ∈ w.stack, x = s ∨ ∃ y ∈ part, net.WireTo y x
  ahead : Ahead net w.starts (seen ++ part ++ w.stack)

/-- A walk between two turns. -/
structure Resting (net : Network) (starts visited : List NodeId) (w : Walk) : Prop where
  walked : Walked net starts w visited
  empty : w.stack = []
  ahead : Ahead net w.starts visited

namespace InTurn

theorem visit (turn : InTurn net starts seen s part ⟨id :: stack, met, rest⟩) (sound : net.Sound)
    (found : net.nodes.get? id = some n) :
    InTurn net starts seen s (part ++ [id]) (Walk.visit ⟨stack, met, rest⟩ n) := by
  have walked := turn.walked.visit sound found
  have starts_eq := Walk.starts_visit ⟨stack, met, rest⟩ n
  -- A node that waits now is a driver of the visited one, or has waited before.
  have waiting : ∀ x ∈ (Walk.visit ⟨stack, met, rest⟩ n).stack, net.WireTo id x ∨ x ∈ stack :=
    fun x listed => (mem_stack_visit listed).imp_left (Network.wireTo_iff found).mpr
  have top : Relation.ReflTransGen net.WireTo s id := turn.reached id (by simp)
  rw [List.append_assoc] at walked
  refine ⟨walked, turn.closed, ?_, fun x listed => ?_, fun {before x} inside => ?_,
    fun x listed => ?_, ?_⟩
  · obtain ⟨more, split⟩ := turn.first
    cases part with
    | nil =>
      obtain ⟨rfl, _⟩ := List.cons.inj split
      exact ⟨_, rfl⟩
    | cons y part =>
      obtain ⟨rfl, _⟩ := List.cons.inj split
      exact ⟨_, rfl⟩
  · rcases List.mem_append.mp listed with listed | listed
    · exact turn.reached x (by simpa [or_assoc] using Or.inl listed)
    · rcases waiting x listed with wire | listed
      · exact top.tail wire
      · exact turn.reached x (by simp [listed])
  · rcases List.prefix_concat_iff.mp inside with same | inside
    · obtain ⟨rfl, last⟩ := List.append_inj' same rfl
      obtain rfl := List.singleton_inj.mp last
      exact turn.waits x (.head _)
    · exact turn.read inside
  · rcases waiting x listed with wire | listed
    · exact .inr ⟨id, by simp, wire⟩
    · exact (turn.waits x (.tail _ listed)).imp_right fun ⟨y, inside, wire⟩ =>
        ⟨y, List.mem_append.mpr (.inl inside), wire⟩
  · rw [starts_eq]
    refine ⟨turn.ahead.unread, fun x start listed => ?_, turn.ahead.distinct⟩
    have fresh := turn.ahead.fresh x start
    simp only [List.mem_append, List.mem_cons, not_or] at fresh listed
    rcases listed with (listed | listed | rfl | listed) | listed
    · exact fresh.1.1 listed
    · exact fresh.1.2 listed
    · exact fresh.2.1 rfl
    · cases listed
    · exact (waiting x listed).elim (turn.ahead.unread x start id) fresh.2.2

/-- When nothing waits any more, the turn is over. -/
theorem turn (turn : InTurn net starts seen s part w) (empty : w.stack = []) :
    net.Turn seen s part := by
  have nodup := turn.walked.met.nodup
  have closed := turn.walked.closed
  have reached := turn.reached
  obtain ⟨more, split⟩ := turn.first
  rw [empty, List.append_nil] at nodup split reached
  rw [empty, List.append_nil] at closed
  obtain ⟨_, nodup', apart⟩ := List.nodup_append.mp nodup
  refine ⟨by rw [split]; rfl, nodup', fun x => ⟨fun listed => ?_, ?_⟩, turn.read⟩
  · exact ⟨reached x listed, fun early => apart x early x listed rfl⟩
  · rintro ⟨wires, late⟩
    -- By induction along the wires: the visited nodes are closed.
    have inside : x ∈ seen ++ part := by
      clear late
      induction wires with
      | refl => simp [split]
      | tail _ wire inductionHypothesis => exact closed _ inductionHypothesis _ wire
    exact (List.mem_append.mp inside).resolve_left late

theorem resting (turn : InTurn net starts seen s part w) (empty : w.stack = []) :
    Resting net starts (seen ++ part) w := by
  have ahead := turn.ahead
  rw [empty, List.append_nil] at ahead
  exact ⟨turn.walked, empty, ahead⟩

end InTurn

namespace Resting

/-- The next start that is not met begins a turn; there is one unless all had theirs. -/
theorem step (resting : Resting net starts visited w) (sound : net.Sound) :
    (w.starts = [] ∧ w.step net = (none, { met := w.met })) ∨
      ∃ o w', w.step net = (some o, w') ∧ w.starts = o :: w'.starts ∧
        InTurn net starts visited o [o] w' := by
  obtain ⟨stack, met, todo⟩ := w
  obtain rfl : stack = [] := resting.empty
  cases todo with
  | nil => exact .inl ⟨rfl, rfl⟩
  | cons o rest =>
    obtain ⟨walked, _, unread, fresh, distinct⟩ := resting
    obtain ⟨later, distinct⟩ := List.nodup_cons.mp distinct
    have unmet : ¬ met.contains o = true := fun known =>
      fresh o (.head _) (by simpa using (walked.met.met o).mp known)
    obtain ⟨k, held⟩ := walked.waiting o (.head _)
    obtain ⟨n, found, _⟩ := Store.layout_eq_some_iff.mp held
    have onStack : InTurn net starts visited o [] ⟨[o], met.insert o, rest⟩ := by
      refine ⟨by simpa using walked.start unmet, by simpa using walked.closed, ⟨[], rfl⟩,
        fun x listed => ?_, fun inside => ?_, fun x listed => ?_,
        ⟨fun x listed => unread x (.tail _ listed), fun x listed => ?_, distinct⟩⟩
      · rw [List.mem_singleton.mp listed]
      · simp at inside
      · exact .inl (List.mem_singleton.mp listed)
      · have apart : x ≠ o := fun same => later (same ▸ listed)
        simpa [apart] using fresh x (.tail _ listed)
    refine .inr ⟨o, _, ?_, ?_, onStack.visit sound found⟩
    · simp only [Walk.step, Walk.fromStack, Walk.fromStarts, if_neg unmet, Network.node?, found]
    · rw [starts_visit]

/-- The turns of the starts that are left, when the first of them can be completed. -/
theorem steps_succ (resting : Resting net starts visited w) (sound : net.Sound) {count : Nat}
    (later : ∀ {o w'}, InTurn net starts visited o [o] w' →
      ∃ rest order, (steps net count w').1 = rest ++ order ∧ net.Turn visited o ([o] ++ rest) ∧
        net.InTurns (visited ++ ([o] ++ rest)) w'.starts order) :
    net.InTurns visited w.starts (steps net (count + 1) w).1 := by
  rw [steps]
  rcases resting.step sound with ⟨none, ended⟩ | ⟨o, w', stepped, todo, turn⟩
  · rw [none, ended]
    exact .nil
  · obtain ⟨rest, order, taken, turn, turns⟩ := later turn
    simp only [stepped, taken, todo]
    exact .turn turn turns

end Resting

/-- Enough steps complete the turn and make those of the starts that are left. -/
theorem InTurn.steps (turn : InTurn net starts seen s part w) (sound : net.Sound) {count : Nat}
    (enough : net.nodes.capacity < (seen ++ part).length + count) :
    ∃ rest order, (steps net count w).1 = rest ++ order ∧ net.Turn seen s (part ++ rest) ∧
      net.InTurns (seen ++ (part ++ rest)) w.starts order := by
  induction count generalizing seen part s w with
  | zero =>
    have few := turn.walked.length_le
    omega
  | succ count inductionHypothesis =>
    have one_more : ∀ {visited : List NodeId} (x : NodeId),
        net.nodes.capacity < visited.length + (count + 1) →
        net.nodes.capacity < (visited ++ [x]).length + count := by
      intro visited x enough
      rw [List.length_append, List.length_singleton]
      omega
    cases empty : w.stack with
    | nil =>
      refine ⟨[], (Walk.steps net (count + 1) w).1, rfl, by simpa using turn.turn empty, ?_⟩
      rw [List.append_nil]
      exact (turn.resting empty).steps_succ sound fun turn =>
        inductionHypothesis turn (one_more _ enough)
    | cons id stack =>
      obtain ⟨_, met, todo⟩ := w
      obtain rfl : _ = id :: stack := empty
      obtain ⟨k, held⟩ := turn.walked.live id (by simp)
      obtain ⟨n, found, _⟩ := Store.layout_eq_some_iff.mp held
      have turn' := turn.visit sound found
      obtain ⟨rest, order, taken, complete, turns⟩ := inductionHypothesis turn' (by
        rw [← List.append_assoc]
        exact one_more id enough)
      rw [List.append_assoc] at complete turns
      rw [starts_visit] at turns
      refine ⟨id :: rest, order, ?_, complete, turns⟩
      simp only [Walk.steps, Walk.step, Walk.fromStack, Network.node?, found, taken,
        List.cons_append]

/-! ## Walks that begin -/

theorem inTurn_ofNode (sound : net.Sound) (live : net.nodes.layout s = some n) :
    InTurn net [s] [] s [] (.ofNode s) where
  walked := (Begins.ofNode live).walked sound
  closed := nofun
  first := ⟨[], rfl⟩
  reached x listed := by
    rw [List.mem_singleton.mp listed]
  read inside := by simp at inside
  waits x listed := .inl (List.mem_singleton.mp listed)
  ahead := ⟨nofun, nofun, List.nodup_nil⟩

theorem resting_ofOutputs (sound : net.Sound) :
    Resting net net.outputs.toList [] (.ofOutputs net) where
  walked := Begins.ofOutputs.walked sound
  empty := rfl
  ahead := by
    refine ⟨fun x listed y wire => ?_, by simp, (sound.registered .outputs).1⟩
    obtain ⟨n, held, isOutput⟩ := sound.mem_outputs_iff.mp (Array.mem_toList_iff.mp listed)
    exact Layout.not_mayDrive_of_isOutput held isOutput (sound.mayDrive_of_wire wire)

/-- A walk that is run to its end has nothing more to visit. -/
theorem Begins.ended (begins : Begins net w starts) (sound : net.Sound) :
    (w.exhaust net).2.next net = .ok (none, (w.exhaust net).2) := by
  rw [next_eq]
  exact congrArg Except.ok (step_steps (Nat.lt_succ_of_le (begins.finished sound).few))

end Walk

namespace Network

variable {net : Network}

theorem InTurns.mem_outputs_iff (sound : net.Sound) {order : List NodeId}
    (turns : net.InTurns [] net.outputs.toList order) (x : NodeId) :
    x ∈ order ↔ net.Observed x := by
  rw [turns.mem_iff]
  constructor
  · rintro ⟨⟨o, output, wires⟩, _⟩
    obtain ⟨n, held, isOutput⟩ := sound.mem_outputs_iff.mp (Array.mem_toList_iff.mp output)
    exact ⟨o, n, held, isOutput, wires⟩
  · rintro ⟨o, n, held, isOutput, wires⟩
    have output := Array.mem_toList_iff.mpr (sound.mem_outputs_iff.mpr ⟨n, held, isOutput⟩)
    exact ⟨⟨o, output, wires⟩, List.not_mem_nil⟩

/-- Walks visit exactly what their starts depend on.  A walk over a live node ends, and has visited
the node first and then all that it depends on, each node once and after one that reads it.  A walk
over the outputs ends, and has visited them in turns: each output in the order of registration,
followed by what it depends on and no earlier output did.  So it has visited what some output
depends on, each node once, and nothing else. -/
theorem Reachable.walk_turns (reachable : net.Reachable) :
    (∀ s n, net.node? s = some n →
      ∃ part ended, (Walk.ofNode s).finish net = .ok (part, ended) ∧
        ended.next net = .ok (none, ended) ∧ net.Turn [] s part) ∧
    ∃ order ended, (Walk.ofOutputs net).finish net = .ok (order, ended) ∧
      ended.next net = .ok (none, ended) ∧ net.InTurns [] net.outputs.toList order ∧
      order.Nodup ∧ ∀ x, x ∈ order ↔ net.Observed x := by
  have sound := reachable.sound
  have turns : net.InTurns [] net.outputs.toList ((Walk.ofOutputs net).exhaust net).1 := by
    refine (Walk.resting_ofOutputs sound).steps_succ sound fun turn => turn.steps sound ?_
    simp
  refine ⟨fun s n found => ?_, _, _, Walk.finish_eq _ net, Walk.Begins.ofOutputs.ended sound, turns,
    turns.nodup, turns.mem_outputs_iff sound⟩
  have live := Store.layout_of_get? found
  have enough : net.nodes.capacity < ([] ++ [] : List NodeId).length + (net.nodes.capacity + 1) := by
    simp
  obtain ⟨rest, order, taken, turn, turns⟩ := (Walk.inTurn_ofNode sound live).steps sound enough
  -- There is no start besides the node, so the first turn is all.
  obtain rfl : order = [] := by
    cases turns
    rfl
  refine ⟨_, _, Walk.finish_eq _ net, (Walk.Begins.ofNode live).ended sound, ?_⟩
  show net.Turn [] s (Walk.steps net (net.nodes.capacity + 1) (.ofNode s)).1
  rw [taken, List.append_nil]
  exact turn

/-- Two outputs over shared gates and an output without a driver, and a gate that no output depends
on. -/
def sharedCommands : List Command :=
  [.addPort "p" 3, .addInput 0 0, .addInput 0 1, .addOutput 0 0, .addOutput 0 1, .addOutput 0 2,
    .addGate .and (.positive 0) (.positive 1), .addGate .xor (.positive 1) (.positive 5),
    .addGate .or (.positive 5) (.positive 6), .addGate .xor (.positive 0) (.positive 1),
    .drive 2 (.negative 6), .drive 4 (.positive 7)]

/-- The second turn is that of the output alone, and the third one adds one gate only; the walk over
that gate is a turn of its own. -/
theorem walk_turns_shared :
    ∃ net, (withBuckets 0).runAll sharedCommands = .ok net ∧
      net.InTurns [] [2, 3, 4] [2, 6, 1, 5, 0, 3, 4, 7] ∧ net.Turn [] 7 [7, 5, 0, 1, 6] ∧
      ¬ net.Observed 8 := by
  refine exists_runAll (fun net => (net.outputs.toList,
      [Walk.ofOutputs net, Walk.ofNode 7].map fun w => (w.finish net).toOption.map Prod.fst,
      (net.node? 7).isSome))
    ([2, 3, 4], [some [2, 6, 1, 5, 0, 3, 4, 7], some [7, 5, 0, 1, 6]], true)
    (by simp [sharedCommands]) (by decide +kernel) ?_
  intro net reached seen
  simp only [Prod.mk.injEq, List.map_cons, List.map_nil, List.cons.injEq, and_true,
    Option.isSome_iff_exists] at seen
  obtain ⟨outputs, ⟨all, own⟩, n, found⟩ := seen
  obtain ⟨ofNode, order, _, finished, _, turns, _, observed⟩ := reached.walk_turns
  obtain ⟨part, _, finished', _, turn⟩ := ofNode 7 n found
  rw [finished] at all
  rw [finished'] at own
  obtain rfl := Option.some.inj all
  obtain rfl := Option.some.inj own
  rw [outputs] at turns
  exact ⟨turns, turn, fun other => absurd ((observed 8).mpr other) (by decide)⟩

end Network

end GateNet
