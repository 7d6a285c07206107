import GateNet.Proofs.Reachable
import GateNet.Proofs.ReverseOrder

/-!
# Both orders of a reachable network

Forward, a gate waits for the gates that it reads; backward, for the gates that read it.  On every
reachable network both orders are found, list every gate once, and keep each gate waiting.
-/

namespace GateNet

namespace Network

variable {net : Network}

/-- Forward, every gate is listed once, after the gates that it reads. -/
theorem Reachable.driversFirst_topological (reachable : net.Reachable) :
    ∃ order, net.driversFirst = .ok order ∧ net.Topological net.WireTo order := by
  obtain ⟨order, ordered, first⟩ := driversFirst_spec reachable.sound
  refine ⟨order, ordered, first.nodup, first.exact, fun {before id after} split d wire gate => ?_⟩
  have listed : id ∈ order := by simp [split]
  have read := reachable.sound.reads_iff.mpr ⟨wire, (first.exact id).mp listed⟩
  exact first.earlier split read gate

/-- Four gates, of which the first was changed to read the second, and the last is never read. -/
def rewiredCommands : List Command :=
  [.addPort "p" 2, .addInput 0 0, .addInput 0 1, .addOutput 0 0,
    .addGate .and (.positive 0) (.positive 1), .addGate .or (.positive 0) (.positive 1),
    .addGate .xor (.positive 0) (.positive 3), .addGate .xor (.positive 1) (.positive 4),
    .redefine 3 .and (.positive 1) (.negative 4), .drive 2 (.negative 5)]

/-- The oldest gate reads a younger one, so it is listed after that one. -/
theorem driversFirst_topological_rewired :
    ∃ net, (withBuckets 0).runAll rewiredCommands = .ok net ∧ net.gates = #[3, 4, 5, 6] ∧
      net.driversFirst = .ok [4, 3, 6, 5] ∧ net.Topological net.WireTo [4, 3, 6, 5] := by
  refine exists_runAll (fun net => (net.gates, net.driversFirst.toOption))
    (#[3, 4, 5, 6], some [4, 3, 6, 5]) (by simp [rewiredCommands]) (by decide +kernel) ?_
  intro net reached seen
  obtain ⟨gates, listed⟩ := Prod.mk.inj seen
  obtain ⟨order, ordered, topological⟩ := reached.driversFirst_topological
  rw [ordered] at listed
  obtain rfl := Option.some.inj listed
  exact ⟨gates, ordered, topological⟩

/-- Backward, every gate is listed once, after the gates that read it; the gates that nothing reads
come first, in the order of their registration. -/
theorem Reachable.readersFirst_topological (reachable : net.Reachable) :
    ∃ order rest, net.readersFirst = .ok order ∧
      net.Topological (fun d x => net.WireTo x d) order ∧
      order = net.gates.toList.filter net.isUnread ++ rest ∧
      ∀ d ∈ rest, ∃ x, net.WireTo x d := by
  obtain ⟨order, ordered, topological, rest, split⟩ := readersFirst_spec reachable.sound
  refine ⟨order, rest, ordered, topological, split.symm, fun d listed => ?_⟩
  have gate : net.nodes.layout.HasGate d := (topological.exact d).mp (by simp [← split, listed])
  -- An unread gate is in the first part, and no gate is listed twice.
  by_contra unread
  have first : d ∈ net.gates.toList.filter net.isUnread :=
    List.mem_filter.mpr ⟨Array.mem_toList_iff.mpr (reachable.sound.mem_gates_iff.mpr gate),
      (reachable.sound.isUnread_iff gate).mpr fun x wire => unread ⟨x, wire⟩⟩
  exact (List.nodup_append.mp (split ▸ topological.nodup)).2.2 d first d listed rfl

/-- The unread gate comes first although it is the youngest, then the one that the output reads. -/
theorem readersFirst_topological_rewired :
    ∃ net, (withBuckets 0).runAll rewiredCommands = .ok net ∧ net.gates = #[3, 4, 5, 6] ∧
      net.readersFirst = .ok [6, 5, 3, 4] ∧ net.gates.toList.filter net.isUnread = [6] ∧
      net.Topological (fun d x => net.WireTo x d) [6, 5, 3, 4] := by
  refine exists_runAll (fun net => (net.gates, net.gates.toList.filter net.isUnread,
    net.readersFirst.toOption)) (#[3, 4, 5, 6], [6], some [6, 5, 3, 4])
    (by simp [rewiredCommands]) (by decide +kernel) ?_
  intro net reached seen
  obtain ⟨order, rest, ordered, topological, _⟩ := reached.readersFirst_topological
  obtain ⟨gates, unread, listed⟩ : net.gates = #[3, 4, 5, 6] ∧
      net.gates.toList.filter net.isUnread = [6] ∧ order = [6, 5, 3, 4] := by
    simpa [ordered, Except.toOption] using seen
  subst listed
  exact ⟨gates, ordered, unread, topological⟩

end Network

end GateNet
