import GateNet.Proofs.Reachable
import Mathlib.Data.List.Chain
import Mathlib.Order.Bounds.Basic
import Mathlib.Order.MinMax

/-!
# The depth is the longest path

A path goes from readers to drivers.  The height of a node is the greatest number of gates on a
path from it, and the depth of a network is the greatest number of gates on a path from a driver of
an output.  A network remembers its depth only while that holds, so every answer is as if it were
computed anew, however questions and changes follow each other.
-/

namespace GateNet

/-- The greatest of some values and a base. -/
theorem isGreatest_foldl_max (values : List Nat) (base : Nat) :
    IsGreatest {k | k = base ∨ k ∈ values} (values.foldl max base) := by
  induction values generalizing base with
  | nil => simp [IsGreatest, upperBounds]
  | cons value rest inductionHypothesis =>
    obtain ⟨attained, bound⟩ := inductionHypothesis (max base value)
    rw [List.foldl_cons]
    refine ⟨?_, fun k listed => ?_⟩
    · rcases attained with attained | listed
      · rw [attained]
        rcases max_choice base value with larger | larger <;> simp [larger]
      · exact .inr (.tail _ listed)
    · have first := bound (.inl rfl)
      rcases listed with rfl | listed
      · exact (le_max_left _ _).trans first
      · rcases List.mem_cons.mp listed with rfl | listed
        · exact (le_max_right _ _).trans first
        · exact bound (.inr listed)

namespace Network

variable {net : Network} {h : NodeId → Nat} {x d : NodeId} {path : List NodeId}

/-! ## Paths -/

/-- Each node of a path reads the next one. -/
def IsPath (net : Network) (path : List NodeId) : Prop :=
  path.IsChain net.WireTo

/-- How many of the nodes are gates. -/
def gatesOn (net : Network) (path : List NodeId) : Nat :=
  path.countP fun id => (net.node? id).any Node.isGate

/-- The numbers of gates on the paths from a node. -/
def gatesFrom (net : Network) (x : NodeId) : Set Nat :=
  {gates | ∃ path, net.IsPath (x :: path) ∧ net.gatesOn (x :: path) = gates}

theorem any_isGate_iff : (net.node? x).any Node.isGate = true ↔ net.nodes.layout.HasGate x := by
  simp [Option.any_eq_true, Layout.HasGate, Store.layout_eq_some_iff, node?]

theorem gatesOn_cons_of_gate (gate : net.nodes.layout.HasGate x) :
    net.gatesOn (x :: path) = net.gatesOn path + 1 :=
  List.countP_cons_of_pos (any_isGate_iff.mpr gate)

theorem gatesOn_cons_of_not_gate (noGate : ¬ net.nodes.layout.HasGate x) :
    net.gatesOn (x :: path) = net.gatesOn path :=
  List.countP_cons_of_neg (mt any_isGate_iff.mp noGate)

theorem gatesOn_pos_iff : 0 < net.gatesOn path ↔ ∃ x ∈ path, net.nodes.layout.HasGate x := by
  simp only [gatesOn, List.countP_pos_iff, any_isGate_iff]

/-- A node reaches all nodes of a path from it. -/
theorem IsPath.reaches (isPath : net.IsPath (x :: path)) (onPath : d ∈ x :: path) :
    Relation.ReflTransGen net.WireTo x d := by
  induction path generalizing x with
  | nil =>
    rw [List.mem_singleton.mp onPath]
  | cons next rest inductionHypothesis =>
    obtain ⟨wire, isPath⟩ := List.isChain_cons_cons.mp isPath
    rcases List.mem_cons.mp onPath with rfl | onPath
    · exact .refl
    · exact .head wire (inductionHypothesis isPath onPath)

/-! ## Heights -/

/-- A gate is higher than what it reads, by one for the deeper operand. -/
theorem Heights.lt_of_wire (heights : Heights net.nodes.layout h) (sound : net.Sound)
    (gate : net.nodes.layout.HasGate x) (wire : net.WireTo x d) : h d < h x := by
  obtain ⟨key, keyed, operand⟩ := Layout.reads_circuit_iff.mp (sound.reads_iff.mpr ⟨wire, gate⟩)
  have height := heights.gate keyed
  rcases operand with rfl | rfl <;> omega

theorem Heights.exists_wire (heights : Heights net.nodes.layout h) (sound : net.Sound)
    (gate : net.nodes.layout.HasGate x) : ∃ d, net.WireTo x d ∧ h x = h d + 1 := by
  obtain ⟨key, keyed, _⟩ := sound.woven.layout.key?_of_hasGate gate
  obtain ⟨first, second⟩ := driverAt_of_key? keyed
  have height := heights.gate keyed
  rcases max_choice (h key.first) (h key.second) with deeper | deeper
  · exact ⟨key.first, ⟨.first, first⟩, by omega⟩
  · exact ⟨key.second, ⟨.second, second⟩, by omega⟩

theorem Heights.of_not_gate (heights : Heights net.nodes.layout h)
    (noGate : ¬ net.nodes.layout.HasGate x) : h x = 0 :=
  heights.source (Layout.key?_of_not_hasGate noGate)

/-- No path from a node has more gates than its height says. -/
theorem Heights.gatesOn_le (heights : Heights net.nodes.layout h) (sound : net.Sound)
    (drives : net.nodes.layout.MayDrive x) (isPath : net.IsPath (x :: path)) :
    net.gatesOn (x :: path) ≤ h x := by
  induction path generalizing x with
  | nil =>
    by_cases gate : net.nodes.layout.HasGate x
    · obtain ⟨d, _, height⟩ := heights.exists_wire sound gate
      rw [gatesOn_cons_of_gate gate, height]
      exact Nat.succ_le_succ (Nat.zero_le _)
    · rw [gatesOn_cons_of_not_gate gate]
      exact Nat.zero_le _
  | cons d rest inductionHypothesis =>
    obtain ⟨wire, isPath⟩ := List.isChain_cons_cons.mp isPath
    have gate := sound.hasGate_of_wire wire drives
    have below := inductionHypothesis (sound.mayDrive_of_wire wire) isPath
    have higher := heights.lt_of_wire sound gate wire
    rw [gatesOn_cons_of_gate gate]
    omega

/-- Some path from a node has as many gates as its height says. -/
theorem Heights.exists_path (heights : Heights net.nodes.layout h) (sound : net.Sound)
    (x : NodeId) : ∃ path, net.IsPath (x :: path) ∧ net.gatesOn (x :: path) = h x := by
  induction height : h x using Nat.strong_induction_on generalizing x with
  | _ n inductionHypothesis =>
    subst height
    by_cases gate : net.nodes.layout.HasGate x
    · -- The path goes on through the deeper operand, which is lower by one.
      obtain ⟨d, wire, height⟩ := heights.exists_wire sound gate
      obtain ⟨path, isPath, count⟩ := inductionHypothesis (h d) (by omega) d rfl
      exact ⟨d :: path, List.isChain_cons_cons.mpr ⟨wire, isPath⟩,
        by rw [gatesOn_cons_of_gate gate, count, height]⟩
    · refine ⟨[], List.isChain_singleton x, ?_⟩
      rw [gatesOn_cons_of_not_gate gate, heights.of_not_gate gate]
      rfl

/-- The height of a node that may drive is the greatest number of gates on a path from it. -/
theorem Heights.isGreatest (heights : Heights net.nodes.layout h) (sound : net.Sound)
    (drives : net.nodes.layout.MayDrive x) : IsGreatest (net.gatesFrom x) (h x) := by
  refine ⟨heights.exists_path sound x, ?_⟩
  rintro gates ⟨path, isPath, rfl⟩
  exact heights.gatesOn_le sound drives isPath

/-! ## The depth -/

/-- The numbers of gates on the paths from the drivers of outputs. -/
def gatesBelowOutputs (net : Network) : Set Nat :=
  {gates | ∃ o ∈ net.outputs, ∃ d, net.WireTo o d ∧ gates ∈ net.gatesFrom d}

theorem sourceHeight_of_wire (sound : net.Sound) (h : NodeId → Nat) {o : NodeId}
    (output : o ∈ net.outputs) (wire : net.WireTo o d) :
    sourceHeight net.nodes.layout h o = h d := by
  obtain ⟨n, held, isOutput⟩ := sound.mem_outputs_iff.mp output
  obtain ⟨p, wire⟩ := wire
  rw [Store.Woven.driverAt_eq net.nodes held] at wire
  cases p with
  | first =>
    have first : n.first = some d := wire
    simp [sourceHeight, held, first]
  | second =>
    rw [Node.driver, (sound.woven.layout.fits held).output isOutput] at wire
    cases wire

/-- What an output reads is at height 0 when nothing drives it, and at that of its driver else. -/
theorem sourceHeight_cases (net : Network) (h : NodeId → Nat) (o : NodeId) :
    sourceHeight net.nodes.layout h o = 0 ∨
      ∃ d, net.WireTo o d ∧ sourceHeight net.nodes.layout h o = h d := by
  unfold sourceHeight
  cases first : (net.nodes.layout o).bind Node.first with
  | none => exact .inl rfl
  | some d =>
    obtain ⟨n, held, read⟩ := Option.bind_eq_some_iff.mp first
    exact .inr ⟨d, ⟨.first, by rw [Store.Woven.driverAt_eq net.nodes held]; exact read⟩, rfl⟩

/-- The depth is the greatest number of gates on a path from a driver of an output. -/
theorem IsDepth.isGreatest {depth : Nat} (sound : net.Sound)
    (isDepth : IsDepth net.nodes.layout net.outputs.toList depth) :
    IsGreatest (insert 0 net.gatesBelowOutputs) depth := by
  obtain ⟨h, heights⟩ := sound.exists_heights
  obtain ⟨attained, bound⟩ :=
    isGreatest_foldl_max (net.outputs.toList.map (sourceHeight net.nodes.layout h)) 0
  rw [isDepth h heights]
  refine ⟨?_, ?_⟩
  · rcases attained with none | listed
    · exact .inl none
    · obtain ⟨o, listed, same⟩ := List.mem_map.mp listed
      rw [← same]
      rcases sourceHeight_cases net h o with none | ⟨d, wire, height⟩
      · exact .inl none
      · rw [height]
        exact .inr ⟨o, Array.mem_toList_iff.mp listed, d, wire, heights.exists_path sound d⟩
  · rintro gates (rfl | ⟨o, output, d, wire, fromDriver⟩)
    · exact Nat.zero_le _
    · have below := (heights.isGreatest sound (sound.mayDrive_of_wire wire)).2 fromDriver
      rw [← sourceHeight_of_wire sound h output wire] at below
      exact below.trans (bound (.inr (List.mem_map_of_mem (Array.mem_toList_iff.mpr output))))

/-- There is a path with a gate below an output exactly when some output depends on a gate. -/
theorem exists_pos_gatesBelowOutputs_iff (sound : net.Sound) :
    (∃ gates ∈ net.gatesBelowOutputs, 0 < gates) ↔
      ∃ x, net.nodes.layout.HasGate x ∧ net.Observed x := by
  constructor
  · rintro ⟨_, ⟨o, output, d, wire, path, isPath, rfl⟩, positive⟩
    obtain ⟨x, onPath, gate⟩ := gatesOn_pos_iff.mp positive
    obtain ⟨n, held, isOutput⟩ := sound.mem_outputs_iff.mp output
    exact ⟨x, gate, o, n, held, isOutput, .head wire (isPath.reaches onPath)⟩
  · rintro ⟨x, gate, o, n, held, isOutput, wires⟩
    -- The output is no gate, so the wires to the gate begin with one to a driver.
    rcases wires.cases_head with rfl | ⟨d, wire, wires⟩
    · exact absurd gate (Layout.not_hasGate_of_isOutput held isOutput)
    · obtain ⟨path, isPath, last⟩ := List.exists_isChain_cons_of_relationReflTransGen wires
      refine ⟨_, ⟨o, sound.mem_outputs_iff.mpr ⟨n, held, isOutput⟩, d, wire, path, isPath, rfl⟩, ?_⟩
      exact gatesOn_pos_iff.mpr ⟨x, last ▸ List.getLast_mem _, gate⟩

/-- Every answer to a question for the depth is the depth that the wires give, after any run of
commands, other such questions among them: the same number is computed when nothing is remembered,
it is the greatest number of gates on a path from a driver of an output, and it is 0 when no output
depends on a gate. -/
theorem Reachable.depth_isGreatest (reachable : net.Reachable) {commands : List Command}
    (sources : ∀ command ∈ commands, ∀ source, command = .overwrite source → source.Reachable) :
    ∃ after depth, net.runAll commands = .ok after ∧
      after.run .depth = .ok (.done (.number depth) { after with depth? := some depth }) ∧
      after.computeDepth = .ok depth ∧
      IsGreatest (insert 0 after.gatesBelowOutputs) depth ∧
      (depth = 0 ↔ ¬ ∃ x, after.nodes.layout.HasGate x ∧ after.Observed x) := by
  obtain ⟨after, ran, reached⟩ := reachable.runAll sources
  obtain ⟨depth, answered, isDepth⟩ := depth_spec reached.sound
  obtain ⟨h, heights⟩ := reached.sound.exists_heights
  obtain ⟨attained, bound⟩ := isDepth.isGreatest reached.sound
  refine ⟨after, depth, ran, by rw [Network.run, answered]; rfl, ?_, ⟨attained, bound⟩, ?_⟩
  · rw [computeDepth_eq reached.sound heights, isDepth h heights]
  · rw [← exists_pos_gatesBelowOutputs_iff reached.sound]
    constructor
    · rintro rfl ⟨gates, below, positive⟩
      exact absurd (bound (.inr below)) (Nat.not_le_of_gt positive)
    · intro none
      by_contra positive
      exact none ⟨depth, attained.resolve_left positive, Nat.pos_of_ne_zero positive⟩

/-- Questions for the depth among changes: a gate reads a gate, and an output reads that one. -/
def askingCommands : List Command :=
  [.addPort "p" 2, .addInput 0 0, .addInput 0 1, .addOutput 0 0, .depth,
    .addGate .and (.positive 0) (.positive 1), .addGate .xor (.positive 0) (.positive 3), .depth,
    .drive 2 (.negative 4), .depth, .addOutput 0 1, .addElement .latch "l"]

/-- The depth is forgotten with the wires of the gates and of the output, and asked for anew; the
answer is remembered while an output and a state element are added, and is still the depth. -/
theorem depth_isGreatest_remembered :
    ∃ after depth, (withBuckets 0).runAll askingCommands = .ok after ∧ after.depth? = some 2 ∧
      after.run .depth = .ok (.done (.number depth) { after with depth? := some depth }) ∧
      IsGreatest (insert 0 after.gatesBelowOutputs) depth := by
  have sources : ∀ command ∈ askingCommands, ∀ source, command = .overwrite source →
      source.Reachable := by simp [askingCommands]
  obtain ⟨after, depth, ran, answered, _, greatest, _⟩ :=
    (Reachable.withBuckets 0).depth_isGreatest sources
  have checked : ((withBuckets 0).runAll askingCommands).toOption.map Network.depth? =
      some (some 2) := by decide +kernel
  rw [ran] at checked
  exact ⟨after, depth, ran, Option.some.inj checked, answered, greatest⟩

end Network

end GateNet
