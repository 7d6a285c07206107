import GateNet.Proofs.Walk
import GateNet.Proofs.Reachable

/-!
# Walks over changing networks

The commands that change a network and the calls of a walk over it may alternate in any order.  A
node that waits for its turn may then be erased, rewired, or replaced by another node in the same
slot.  What keeps the walk safe is not said of the network at all: every id that was ever put on
the stack stays among those that were met, so none comes back to the stack, and an id is answered
only when it is found.
-/

namespace GateNet

namespace Walk

/-! ## One call on any network -/

/-- The ids that were met were taken from the stack or are still on it, each once.  Those that were
live when they were taken are the visited ones, in this order. -/
def Once (visited : List NodeId) (w : Walk) : Prop :=
  ∃ taken, visited.Sublist taken ∧ Met taken w.stack w.met

variable {visited : List NodeId} {w : Walk} {id : NodeId} {stack starts : List NodeId}
  {met : Std.TreeSet NodeId}

theorem Once.nodup (once : Once visited w) : visited.Nodup := by
  obtain ⟨taken, inside, holds⟩ := once
  exact (List.nodup_append.mp holds.nodup).1.sublist inside

theorem Once.visit (once : Once visited ⟨id :: stack, met, starts⟩) (n : Node) :
    Once (visited ++ [id]) (Walk.visit ⟨stack, met, starts⟩ n) := by
  obtain ⟨taken, inside, holds⟩ := once
  exact ⟨taken ++ [id], inside.append_right [id],
    (Met.visit (w := ⟨stack, met, starts⟩) holds.pop n).1⟩

/-- A node that is gone when its turn comes stays met. -/
theorem Once.skip (once : Once visited ⟨id :: stack, met, starts⟩) :
    Once visited ⟨stack, met, starts⟩ := by
  obtain ⟨taken, inside, holds⟩ := once
  exact ⟨taken ++ [id], inside.trans (List.sublist_append_left taken [id]), holds.pop⟩

theorem Once.start {later : List NodeId} (once : Once visited ⟨[], met, starts⟩)
    (fresh : ¬ met.contains id = true) : Once visited ⟨[id], met.insert id, later⟩ := by
  obtain ⟨taken, inside, holds⟩ := once
  exact ⟨taken, inside, holds.push fresh⟩

theorem Once.fromStack (net : Network) (once : Once visited ⟨stack, met, starts⟩) :
    (Walk.fromStack net met starts stack = none ∧ Once visited ⟨[], met, starts⟩) ∨
      ∃ id n w', Walk.fromStack net met starts stack = some (id, w') ∧ net.node? id = some n ∧
        Once (visited ++ [id]) w' := by
  induction stack with
  | nil => exact .inl ⟨rfl, once⟩
  | cons id stack inductionHypothesis =>
    rw [Walk.fromStack]
    cases found : net.node? id with
    | none => exact inductionHypothesis once.skip
    | some n => exact .inr ⟨id, n, _, rfl, found, once.visit n⟩

/-- Nothing is left to visit. -/
def Over (w : Walk) : Prop :=
  w.stack = [] ∧ w.starts = []

theorem Once.fromStarts (net : Network) (once : Once visited ⟨[], met, starts⟩) :
    (∃ w', Walk.fromStarts net met starts = (none, w') ∧ w'.Over ∧ Once visited w') ∨
      ∃ id n w', Walk.fromStarts net met starts = (some id, w') ∧ net.node? id = some n ∧
        Once (visited ++ [id]) w' := by
  -- By induction on the starts: those that were met before and those that are gone are passed over.
  induction starts generalizing met with
  | nil => exact .inl ⟨_, rfl, ⟨rfl, rfl⟩, once⟩
  | cons id starts inductionHypothesis =>
    rw [Walk.fromStarts]
    by_cases known : met.contains id = true
    · rw [if_pos known]
      exact inductionHypothesis once
    · rw [if_neg known]
      have started : Once visited ⟨[id], met.insert id, starts⟩ := once.start known
      cases found : net.node? id with
      | none => exact inductionHypothesis started.skip
      | some n => exact .inr ⟨id, n, _, rfl, found, started.visit n⟩

/-- On any network, a call ends the walk or visits a live node that was not visited before. -/
theorem Once.step (net : Network) (once : Once visited w) :
    (∃ w', w.step net = (none, w') ∧ w'.Over ∧ Once visited w') ∨
      ∃ id n w', w.step net = (some id, w') ∧ net.node? id = some n ∧
        Once (visited ++ [id]) w' := by
  rw [Walk.step]
  rcases once.fromStack net with ⟨empty, once'⟩ | ⟨id, n, w', popped, found, once'⟩
  · rw [empty]
    exact once'.fromStarts net
  · rw [popped]
    exact .inr ⟨id, n, w', rfl, found, once'⟩

theorem Over.step (finished : w.Over) (net : Network) : w.step net = (none, w) := by
  obtain ⟨stack, met, starts⟩ := w
  obtain ⟨rfl, rfl⟩ := finished
  rfl

/-- A walk that was just made, over any node or over the outputs of any network. -/
inductive Opens : Walk → Prop
  | ofNode (id : NodeId) : Opens (.ofNode id)
  | ofOutputs (net : Network) : Opens (.ofOutputs net)

theorem Opens.once (opens : Opens w) : Once [] w := by
  have empty : Met [] [] (∅ : Std.TreeSet NodeId) :=
    ⟨List.nodup_nil, fun x => by simp [Std.TreeSet.not_mem_emptyc]⟩
  cases opens with
  | ofNode id => exact ⟨[], .refl [], empty.push (by simp [Std.TreeSet.contains_emptyc])⟩
  | ofOutputs net => exact ⟨[], .refl [], empty⟩

/-! ## Calls between commands -/

/-- What happens next: a call of the walk, or a change of the network. -/
inductive Event
  | call
  | change (command : Command)

/-- A call of a walk: the network at that moment, and what the walk answered. -/
structure Call where
  network : Network
  answer : Option NodeId

/-- Carries out events in turn, and lists the calls. -/
def interleave (w : Walk) (net : Network) : List Event → Except Fault (List Call)
  | [] => .ok []
  | .call :: events => do
      let (answer, w) ← w.next net
      let calls ← interleave w net events
      return ⟨net, answer⟩ :: calls
  | .change command :: events => do
      let outcome ← net.run command
      interleave w outcome.network events

variable {net : Network} {events : List Event} {calls : List Call}

/-- A call answers what the walk steps to. -/
theorem interleave_call (w : Walk) (net : Network) (events : List Event) :
    w.interleave net (.call :: events) = (do
      let calls ← (w.step net).2.interleave net events
      return ⟨net, (w.step net).1⟩ :: calls) := by
  rw [interleave, next_eq, ok_bind]

theorem interleave_call_eq_ok (made : w.interleave net (.call :: events) = .ok calls) :
    ∃ rest, interleave (w.step net).2 net events = .ok rest ∧
      calls = ⟨net, (w.step net).1⟩ :: rest := by
  rw [interleave_call] at made
  obtain ⟨rest, later, listed⟩ := bind_eq_ok_iff.mp made
  exact ⟨rest, later, (Except.ok.inj listed).symm⟩

theorem interleave_change_eq_ok {command : Command}
    (made : w.interleave net (.change command :: events) = .ok calls) :
    ∃ outcome, net.run command = .ok outcome ∧
      w.interleave outcome.network events = .ok calls := by
  rw [interleave] at made
  exact bind_eq_ok_iff.mp made

/-- Every call is answered, whatever the commands between the calls make of the network. -/
theorem exists_interleave (reachable : net.Reachable)
    (sources : ∀ command, .change command ∈ events →
      ∀ source, command = .overwrite source → source.Reachable) :
    ∃ calls, w.interleave net events = .ok calls ∧
      calls.length = events.countP (· matches .call) ∧ ∀ call ∈ calls, call.network.Reachable := by
  induction events generalizing w net with
  | nil => exact ⟨[], rfl, rfl, nofun⟩
  | cons event events inductionHypothesis =>
    have later : ∀ command, .change command ∈ events →
        ∀ source, command = .overwrite source → source.Reachable :=
      fun command listed => sources command (.tail _ listed)
    cases event with
    | call =>
      obtain ⟨calls, made, length, reached⟩ :=
        inductionHypothesis (w := (w.step net).2) reachable later
      refine ⟨⟨net, (w.step net).1⟩ :: calls, by rw [interleave_call, made]; rfl, ?_, ?_⟩
      · rw [List.length_cons, length, List.countP_cons_of_pos rfl]
      · exact List.forall_mem_cons.mpr ⟨reachable, reached⟩
    | change command =>
      obtain ⟨outcome, ran, reached⟩ := reachable.exists_run (sources command (.head _))
      obtain ⟨calls, made, length, reached⟩ := inductionHypothesis (w := w) reached later
      refine ⟨calls, by rw [interleave, ran]; exact made, ?_, reached⟩
      rw [length, List.countP_cons_of_neg Bool.false_ne_true]

/-- The calls that follow some visits answer live nodes, none of them twice, until nothing is left;
from then on they answer nothing. -/
structure Fresh (visited : List NodeId) (calls : List Call) : Prop where
  nodup : (visited ++ calls.filterMap Call.answer).Nodup
  live : ∀ call ∈ calls, ∀ id, call.answer = some id → ∃ n, call.network.node? id = some n
  ended : calls.Pairwise fun earlier later => earlier.answer = none → later.answer = none

theorem Fresh.cons_none (fresh : Fresh visited calls)
    (silent : ∀ call ∈ calls, call.answer = none) : Fresh visited (⟨net, none⟩ :: calls) := by
  refine ⟨fresh.nodup, List.forall_mem_cons.mpr ⟨nofun, fresh.live⟩, ?_⟩
  exact .cons (fun later listed _ => silent later listed) fresh.ended

theorem Fresh.cons_some {n : Node} (fresh : Fresh (visited ++ [id]) calls)
    (found : net.node? id = some n) : Fresh visited (⟨net, some id⟩ :: calls) := by
  refine ⟨?_, List.forall_mem_cons.mpr ⟨?_, fresh.live⟩, .cons nofun fresh.ended⟩
  · rw [List.filterMap_cons_some (f := Call.answer) rfl, List.append_cons]
    exact fresh.nodup
  · rintro _ ⟨⟩
    exact ⟨n, found⟩

theorem Over.interleave (finished : w.Over) (made : w.interleave net events = .ok calls) :
    ∀ call ∈ calls, call.answer = none := by
  induction events generalizing net calls with
  | nil =>
    cases made
    exact nofun
  | cons event events inductionHypothesis =>
    cases event with
    | call =>
      obtain ⟨rest, later, rfl⟩ := interleave_call_eq_ok made
      rw [finished.step net] at later ⊢
      exact List.forall_mem_cons.mpr ⟨rfl, inductionHypothesis later⟩
    | change command =>
      obtain ⟨outcome, _, later⟩ := interleave_change_eq_ok made
      exact inductionHypothesis later

/-- By induction on the events: a command leaves the walk alone, so nothing is asked of it. -/
theorem Once.interleave (once : Once visited w) (made : w.interleave net events = .ok calls) :
    Fresh visited calls := by
  induction events generalizing visited w net calls with
  | nil =>
    cases made
    exact ⟨by rw [List.filterMap_nil, List.append_nil]; exact once.nodup, nofun, .nil⟩
  | cons event events inductionHypothesis =>
    cases event with
    | call =>
      obtain ⟨rest, later, rfl⟩ := interleave_call_eq_ok made
      rcases once.step net with ⟨w', ended, finished, once'⟩ | ⟨id, n, w', visits, found, once'⟩
      · rw [ended] at later ⊢
        exact (inductionHypothesis once' later).cons_none (finished.interleave later)
      · rw [visits] at later ⊢
        exact (inductionHypothesis once' later).cons_some found
    | change command =>
      obtain ⟨outcome, _, later⟩ := interleave_change_eq_ok made
      exact inductionHypothesis once later

end Walk

namespace Network

variable {net : Network}

/-- A walk is safe while commands change the network between its calls, whatever they are: every
call is answered, by a node that is live at that moment and was never answered before, or by
nothing; and after nothing comes nothing. -/
theorem Reachable.walk_interleaved (reachable : net.Reachable) {w : Walk} (opens : w.Opens)
    {events : List Walk.Event}
    (sources : ∀ command, .change command ∈ events →
      ∀ source, command = .overwrite source → source.Reachable) :
    ∃ calls, w.interleave net events = .ok calls ∧
      calls.length = events.countP (· matches .call) ∧ Walk.Fresh [] calls := by
  obtain ⟨calls, made, length, _⟩ := Walk.exists_interleave (w := w) reachable sources
  exact ⟨calls, made, length, opens.once.interleave made⟩

/-- Calls between commands that erase what waits, recycle ids, clear everything and begin anew. -/
def recycledEvents : List Walk.Event :=
  [.call, .change (.eraseGate 4), .change (.eraseGate 3), .change (.addElement .flipFlop "f"),
    .call, .call, .call, .call, .change .clear, .call, .change (.addPort "q" 1),
    .change (.addInput 0 0), .call]

/-- A visited gate is erased, and its second operand, which is on the stack.  Terminals of an
element take both slots: the one in the slot of the operand is visited, the one in the slot of the
visited gate is not.  Inputs that are made after the end are not visited either. -/
theorem walk_interleaved_recycled :
    ∃ net, (withBuckets 0).runAll [.addPort "p" 2, .addInput 0 0, .addInput 0 1,
        .addGate .and (.positive 0) (.positive 1), .addGate .and (.positive 0) (.negative 1),
        .addGate .or (.positive 2) (.positive 3)] = .ok net ∧
      ∃ calls, (Walk.ofNode 4).interleave net recycledEvents = .ok calls ∧
        calls.map Walk.Call.answer = [some 4, some 2, some 0, some 1, some 3, none, none] ∧
        Walk.Fresh [] calls := by
  refine exists_runAll (fun net => ((Walk.ofNode 4).interleave net recycledEvents).toOption.map
    fun calls => calls.map Walk.Call.answer)
    (some [some 4, some 2, some 0, some 1, some 3, none, none]) (by simp) (by decide +kernel) ?_
  intro net reached seen
  have sources : ∀ command, .change command ∈ recycledEvents →
      ∀ source, command = .overwrite source → source.Reachable := by
    simp [recycledEvents]
  obtain ⟨calls, made, _, fresh⟩ := reached.walk_interleaved (.ofNode 4) sources
  rw [made] at seen
  exact ⟨calls, made, Option.some.inj seen, fresh⟩

end Network

end GateNet
