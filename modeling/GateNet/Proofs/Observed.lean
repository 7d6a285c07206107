import GateNet.Proofs.Part

/-!
# Pruning drops exactly what no output depends on

A gate is dead when no output depends on it.  Pruning drops the dead gates and nothing else, and
the pruned network is part of the one before, so it evaluates alike.  Whatever an output depended on
it still depends on; so nothing is dead afterwards, and pruning again changes nothing.
-/

namespace GateNet

namespace Network

variable {net after : Network} {dead : List NodeId}

/-- A network without some of its gates: they are gone with their registrations, and of all else
only fanouts and links may differ. -/
structure Without (net : Network) (dead : List NodeId) (after : Network) : Prop where
  nodes : ∀ x, after.nodes.layout x = if x ∈ dead then none else net.nodes.layout x
  gates : after.gates.toList = net.gates.toList.filter fun x => decide (x ∉ dead)
  inputs : after.inputs = net.inputs
  outputs : after.outputs = net.outputs
  ports : after.ports = net.ports
  banks : ∀ family, after.bank family = net.bank family
  name : after.name = net.name

namespace Without

theorem node_of_not_mem (without : net.Without dead after) {x : NodeId} (kept : x ∉ dead) :
    after.nodes.layout x = net.nodes.layout x := by
  rw [without.nodes, if_neg kept]

theorem not_mem_of_node (without : net.Without dead after) {x : NodeId} {n : Node}
    (held : after.nodes.layout x = some n) : x ∉ dead := by
  intro dropped
  rw [without.nodes, if_pos dropped] at held
  cases held

theorem partOf (without : net.Without dead after) : after.PartOf net := by
  refine ⟨fun held => ?_, without.inputs, without.outputs⟩
  rw [← without.node_of_not_mem (without.not_mem_of_node held), held]

theorem wireTo (without : net.Without dead after) {x d : NodeId} (kept : x ∉ dead)
    (wire : net.WireTo x d) : after.WireTo x d := by
  obtain ⟨n, held⟩ := wire.live
  obtain ⟨p, wire⟩ := wire
  rw [Store.Woven.driverAt_eq net.nodes held] at wire
  rw [← without.node_of_not_mem kept] at held
  exact ⟨p, by rw [Store.Woven.driverAt_eq after.nodes held, wire]⟩

/-- Outputs depend on what they depended on, unless it was dropped. -/
theorem observed (without : net.Without dead after) (unobserved : ∀ x ∈ dead, ¬ net.Observed x)
    {x : NodeId} (observed : net.Observed x) : after.Observed x := by
  have kept : ∀ {y}, net.Observed y → y ∉ dead := fun observed dropped =>
    unobserved _ dropped observed
  obtain ⟨o, n, held, isOutput, wires⟩ := observed
  refine ⟨o, n, ?_, isOutput, ?_⟩
  · rw [without.node_of_not_mem (kept ⟨o, n, held, isOutput, .refl⟩), held]
  · -- By induction along the wires: every node on the way is observed, so its wires are kept.
    induction wires with
    | refl => exact .refl
    | tail earlier wire inductionHypothesis =>
      exact inductionHypothesis.tail (without.wireTo (kept ⟨o, n, held, isOutput, earlier⟩) wire)

end Without

theorem Dropping.without {marks : Marks} (listing : net.DeadGates marks dead)
    (sound : net.Sound) (dropping : net.Dropping dead after) :
    net.Without dead
      { after with gates := (after.gates.toList.filter marks.contains).toArray } := by
  obtain ⟨⟨nodes, table, depth?, rfl⟩, _, layout_eq, _⟩ := dropping
  refine ⟨layout_eq, ?_, rfl, rfl, rfl, fun family => by cases family <;> rfl, rfl⟩
  -- A registered gate is marked exactly when it is not dead.
  refine List.filter_congr fun x listed => ?_
  have gate := sound.mem_gates_iff.mp (Array.mem_toList_iff.mp listed)
  cases marked : marks.contains x with
  | true => simp [listing.exact, marked]
  | false => simp [listing.exact, marked, gate]

/-- Where every gate is observed, pruning changes nothing. -/
theorem prune_eq_self (sound : net.Sound)
    (alive : ∀ {x}, net.nodes.layout.HasGate x → net.Observed x) :
    net.prune = .ok (.done 0 net) := by
  obtain ⟨marks, marked, reached⟩ := reached_spec sound
  obtain ⟨dead, deadEq, listing⟩ := deadGates_spec sound reached
  have contains : ∀ {x}, net.nodes.layout.HasGate x → marks.contains x = true := fun gate =>
    (reached.contains_iff sound).mpr (alive gate)
  obtain rfl : dead = [] := by
    refine List.eq_nil_iff_forall_not_mem.mpr fun x listed => ?_
    obtain ⟨gate, unmarked⟩ := (listing.exact x).mp listed
    rw [contains gate] at unmarked
    cases unmarked
  have all : net.gates.toList.filter marks.contains = net.gates.toList :=
    List.filter_eq_self.mpr fun x listed =>
      contains (sound.mem_gates_iff.mp (Array.mem_toList_iff.mp listed))
  have kept := reached.pick_registered sound
  rw [all] at kept
  rw [prune, marked, ok_bind, deadEq, ok_bind, Outcome.fold, ok_bind]
  simp only [Outcome.andThen, Outcome.done, kept, ok_bind, Array.toArray_toList]
  rfl

/-- Pruning is exact.  It is never refused and answers with the number of gates that no output
depends on; these are dropped and all else stays, in its order; the network evaluates as before; and
pruning again finds nothing to drop. -/
theorem prune_exact (reachable : net.Reachable) :
    ∃ dead after, net.prune = .ok (.done dead.length after) ∧ dead.Nodup ∧
      (∀ x, x ∈ dead ↔ net.nodes.layout.HasGate x ∧ ¬ net.Observed x) ∧
      net.Without dead after ∧ (∀ words, after.evaluate words = net.evaluate words) ∧
      after.prune = .ok (.done 0 after) := by
  have sound := reachable.sound
  obtain ⟨marks, dead, dropped, reached, listing, dropping, pruned⟩ := prune_eq sound
  have without := dropping.without listing sound
  have sound' := dropping.sound sound listing
  have exact : ∀ x, x ∈ dead ↔ net.nodes.layout.HasGate x ∧ ¬ net.Observed x := by
    intro x
    rw [listing.exact, ← reached.contains_iff sound, Bool.not_eq_true]
  refine ⟨dead, _, pruned, listing.nodup, exact, without, fun words => ?_, ?_⟩
  · exact (without.partOf.evaluate sound' sound words).symm
  · refine prune_eq_self sound' fun {x} gate => ?_
    obtain ⟨n, held, isGate⟩ := gate
    have kept := without.not_mem_of_node held
    -- A gate that was not dropped is a gate of the network before, and not a dead one.
    refine without.observed (fun x dropped => ((exact x).mp dropped).2) ?_
    by_contra unobserved
    exact kept ((exact x).mpr ⟨⟨n, without.partOf.kept held, isGate⟩, unobserved⟩)

/-- Two gates of the same inputs, one of them read by an output through a third, and two dead ones:
one reads a live gate and the other one reads that dead one. -/
theorem prune_exact_shared :
    ∃ net, (withBuckets 0).runAll [.addPort "p" 2, .addInput 0 0, .addInput 0 1, .addOutput 0 0,
        .addGate .and (.positive 0) (.positive 1), .addGate .xor (.positive 0) (.positive 3),
        .addGate .or (.positive 1) (.positive 3), .addGate .xor (.positive 1) (.positive 5),
        .drive 2 (.negative 4)] = .ok net ∧ net.gates = #[3, 4, 5, 6] ∧
      ∃ dead after, net.prune = .ok (.done dead.length after) ∧
        (∀ x, x ∈ dead ↔ net.nodes.layout.HasGate x ∧ ¬ net.Observed x) ∧
        net.Without dead after ∧ after.prune = .ok (.done 0 after) := by
  refine exists_runAll (fun net => net.gates) #[3, 4, 5, 6] (by simp) (by decide +kernel) ?_
  intro net reached gates
  obtain ⟨dead, after, pruned, _, exact, without, _, again⟩ := prune_exact reached
  exact ⟨gates, dead, after, pruned, exact, without, again⟩

end Network

end GateNet
