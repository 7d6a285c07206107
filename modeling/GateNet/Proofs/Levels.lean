import GateNet.Proofs.Paths
import Mathlib.Data.Finset.Card
import Mathlib.Order.Interval.Finset.Nat

/-!
# Levels are longest paths

The levels of all nodes are computed in one pass over the gates and one over the outputs.  A gate
is met once both of its drivers are final, so its level is the greatest number of gates on any path
from it, however many paths there are.  No level exceeds the number of gates.
-/

namespace GateNet

namespace Network

variable {net : Network} {h : NodeId → Nat} {levels : Array Nat} {id : NodeId} {n : Node}

/-- One entry for each id: the greatest number of gates on a path from a gate, what the driver of
an output has, and 0 for all else. -/
structure Leveled (net : Network) (levels : Array Nat) : Prop where
  size : levels.size = net.nodes.bound
  gate : ∀ {id n}, net.node? id = some n → n.isGate = true →
    ∃ level, levels[id]? = some level ∧ IsGreatest (net.gatesFrom id) level
  output : ∀ {id n}, net.node? id = some n → n.isOutput = true →
    levels[id]? = n.first.elim (some 0) fun driver => levels[driver]?
  input : ∀ {id n}, net.node? id = some n → n.isInput = true → levels[id]? = some 0
  dead : ∀ {id}, id < net.nodes.bound → net.node? id = none → levels[id]? = some 0

namespace DepthsEntered

variable (entered : net.DepthsEntered h net.outputs.toList levels)
include entered

theorem output_eq (sound : net.Sound) (held : net.node? id = some n) (isOutput : n.isOutput = true) :
    levels[id]? = n.first.elim (some 0) fun driver => levels[driver]? := by
  have held' : net.nodes.layout id = some n.core := Store.layout_eq_some_iff.mpr ⟨n, held, rfl⟩
  have listed := Array.mem_toList_iff.mpr (sound.mem_outputs_iff.mpr ⟨n.core, held', isOutput⟩)
  rw [entered.done id listed]
  cases first : n.first with
  | none => simp [sourceHeight, held', first]
  | some driver =>
    -- The driver is no output, so the second pass has left its entry alone.
    have drives := sound.woven.layout.driven (p := .first) held' first
    simp [sourceHeight, held', first, entered.drivers driver drives]

theorem leveled (sound : net.Sound) (heights : Heights net.nodes.layout h) :
    net.Leveled levels where
  size := entered.size
  gate held isGate := by
    have gate : net.nodes.layout.HasGate _ := any_isGate_iff.mp (by rw [held]; exact isGate)
    exact ⟨_, entered.drivers _ gate.mayDrive, heights.isGreatest sound gate.mayDrive⟩
  output held isOutput := entered.output_eq sound held isOutput
  input {id n} held isInput := by
    have input : id ∈ net.inputs :=
      sound.mem_inputs_iff.mpr ⟨n.core, Store.layout_eq_some_iff.mpr ⟨n, held, rfl⟩, isInput⟩
    rw [entered.drivers id (sound.mayDrive_iff.mpr (.inl input)),
      heights.of_not_gate (sound.not_hasGate_of_input input)]
  dead {id} inside dead := by
    have unheld : net.nodes.layout id = none := Store.layout_eq_none_iff.mpr dead
    refine entered.waits id inside ?_ ?_
    · rintro ⟨n, held, _⟩
      rw [unheld] at held
      cases held
    · intro listed
      obtain ⟨n, held, _⟩ := sound.mem_outputs_iff.mp (Array.mem_toList_iff.mp listed)
      rw [unheld] at held
      cases held

end DepthsEntered

/-- On a reachable network the levels are computed, and they are the longest paths: the level of a
gate is the greatest number of gates on a path from it, an output has the level of its driver (0
without one), and inputs and dead ids have level 0. -/
theorem Reachable.depths_leveled (reachable : net.Reachable) :
    ∃ levels, net.depths = .ok levels ∧ net.Leveled levels := by
  obtain ⟨h, heights⟩ := reachable.sound.exists_heights
  obtain ⟨levels, computed, entered⟩ := depths_spec reachable.sound heights
  exact ⟨levels, computed, entered.leveled reachable.sound heights⟩

/-- A gate is erased and another one is made under its id, which reads a gate with a greater id;
one more id is left dead, and one output without a driver. -/
def recycledCommands : List Command :=
  [.addPort "p" 3, .addInput 0 0, .addInput 0 1, .addOutput 0 0, .addOutput 0 1,
    .addGate .and (.positive 0) (.positive 1), .addGate .or (.positive 0) (.positive 1),
    .eraseGate 4, .addGate .xor (.positive 0) (.positive 5), .drive 2 (.negative 4),
    .addGate .and (.positive 1) (.negative 4), .eraseGate 6]

/-- The recycled gate 4 is above gate 5, on which it depends, and the output shows its level. -/
theorem depths_leveled_recycled :
    ∃ net, (withBuckets 0).runAll recycledCommands = .ok net ∧
      net.depths = .ok #[0, 0, 2, 0, 2, 1, 0] ∧ net.Leveled #[0, 0, 2, 0, 2, 1, 0] := by
  refine exists_runAll (fun net => net.depths.toOption) (some #[0, 0, 2, 0, 2, 1, 0])
    (by simp [recycledCommands]) (by decide +kernel) ?_
  intro net reached seen
  obtain ⟨levels, computed, leveled⟩ := reached.depths_leveled
  rw [computed] at seen
  obtain rfl := Option.some.inj seen
  exact ⟨computed, leveled⟩

/-! ## Bounds

Each height between that of a gate and 0 is taken by a gate below it, so there are as many gates as
the height says.
-/

theorem Heights.exists_gate (heights : Heights net.nodes.layout h) (sound : net.Sound)
    {height : Nat} (positive : 0 < height) (reached : height ≤ h id) :
    ∃ g, net.nodes.layout.HasGate g ∧ h g = height := by
  induction top : h id using Nat.strong_induction_on generalizing id with
  | _ n inductionHypothesis =>
    subst top
    have gate : net.nodes.layout.HasGate id := by
      by_contra noGate
      have low := heights.of_not_gate noGate
      omega
    rcases reached.eq_or_lt with same | below
    · exact ⟨id, gate, same.symm⟩
    · obtain ⟨d, _, deeper⟩ := heights.exists_wire sound gate
      exact inductionHypothesis (h d) (by omega) (by omega) rfl

theorem Heights.le_size (heights : Heights net.nodes.layout h) (sound : net.Sound)
    (id : NodeId) : h id ≤ net.gates.size := by
  have covered : Finset.Icc 1 (h id) ⊆ net.gates.toList.toFinset.image h := by
    intro height inside
    obtain ⟨positive, reached⟩ := Finset.mem_Icc.mp inside
    obtain ⟨g, gate, attained⟩ := heights.exists_gate sound positive reached
    have listed := Array.mem_toList_iff.mpr (sound.mem_gates_iff.mpr gate)
    exact Finset.mem_image.mpr ⟨g, List.mem_toFinset.mpr listed, attained⟩
  calc h id = (Finset.Icc 1 (h id)).card := by simp
    _ ≤ (net.gates.toList.toFinset.image h).card := Finset.card_le_card covered
    _ ≤ net.gates.toList.toFinset.card := Finset.card_image_le
    _ ≤ net.gates.toList.length := List.toFinset_card_le _
    _ = net.gates.size := Array.length_toList

theorem Heights.sourceHeight_le_size (heights : Heights net.nodes.layout h) (sound : net.Sound)
    (o : NodeId) : sourceHeight net.nodes.layout h o ≤ net.gates.size := by
  rcases sourceHeight_cases net h o with none | ⟨d, _, height⟩
  · exact none ▸ Nat.zero_le _
  · exact height ▸ heights.le_size sound d

theorem DepthsEntered.le_size (entered : net.DepthsEntered h net.outputs.toList levels)
    (sound : net.Sound) (heights : Heights net.nodes.layout h) {level : Nat}
    (listed : level ∈ levels) : level ≤ net.gates.size := by
  obtain ⟨id, found⟩ := Array.mem_iff_getElem?.mp listed
  by_cases drives : net.nodes.layout.MayDrive id
  · obtain rfl := Option.some.inj ((entered.drivers id drives).symm.trans found)
    exact heights.le_size sound id
  · by_cases output : id ∈ net.outputs.toList
    · obtain rfl := Option.some.inj ((entered.done id output).symm.trans found)
      exact heights.sourceHeight_le_size sound id
    · have inside : id < net.nodes.bound :=
        entered.size ▸ (Array.getElem?_eq_some_iff.mp found).choose
      obtain rfl := Option.some.inj ((entered.waits id inside drives output).symm.trans found)
      exact Nat.zero_le _

/-- No level exceeds the number of gates, and neither does the depth.  So a counter of 32 bits
holds all of them while there are fewer than `2 ^ 32` gates. -/
theorem Reachable.depths_fit (reachable : net.Reachable) (few : net.gates.size < 2 ^ 32) :
    ∃ levels depth, net.depths = .ok levels ∧ net.computeDepth = .ok depth ∧
      (∀ level ∈ levels, level < 2 ^ 32) ∧ depth < 2 ^ 32 := by
  have sound := reachable.sound
  obtain ⟨h, heights⟩ := sound.exists_heights
  obtain ⟨levels, computed, entered⟩ := depths_spec sound heights
  refine ⟨levels, _, computed, computeDepth_eq sound heights,
    fun level listed => (entered.le_size sound heights listed).trans_lt few, ?_⟩
  rcases (isGreatest_foldl_max (net.outputs.toList.map (sourceHeight net.nodes.layout h)) 0).1
    with none | listed
  · rw [none]
    exact Nat.two_pow_pos 32
  · obtain ⟨o, _, height⟩ := List.mem_map.mp listed
    exact height ▸ (heights.sourceHeight_le_size sound o).trans_lt few

end Network

end GateNet
