import GateNet.Proofs.Reachable

/-!
# Copies stand for their sources

Copying never fails on reachable networks, whatever the target held before.  The copy is isomorphic
to the source, so it has the same counts and depth and evaluates to the same words, and its
registries list the terminals in the order of their owners.
-/

namespace GateNet

namespace Network

/-- A copy: isomorphic to the source, so with its counts, depth and words; terminals are listed
port by port and bit by bit, then those of the flip-flops, then those of the latches. -/
structure IsCopy (src copy : Network) (m : NodeId → NodeId) : Prop
    extends src.Isomorphic copy m where
  name : copy.name = src.name
  nodes_size : copy.nodes.size = src.nodes.size
  registry_size : ∀ r, (copy.registry r).size = (src.registry r).size
  depth : ∃ depth, src.depth = .ok (depth, { src with depth? := some depth }) ∧
    copy.depth = .ok (depth, { copy with depth? := some depth })
  evaluate : ∀ {words words' : List Word}, words.length = src.inputs.size →
    words'.length = copy.inputs.size →
    (∀ x ∈ src.inputs, copy.inputWord words' (m x) = src.inputWord words x) →
    ∃ results results', src.evaluate words = .ok results ∧ copy.evaluate words' = .ok results' ∧
      ∀ o ∈ src.outputs, ∃ word, src.outputWord results o = some word ∧
        copy.outputWord results' (m o) = some word
  listed : ∀ side : Side, (copy.registry side.registry).toList = copy.portTerminals side.kind ++
    copy.pinTerminals .flipFlop side.pins ++ copy.pinTerminals .latch side.pins

theorem Copied.isCopy {src first second net : Network} {base copies : Copies} {order : List NodeId}
    (copied : src.Copied base first order copies second net) (sound : src.Sound) :
    src.IsCopy net copies.map := by
  have iso := copied.isomorphic sound
  have soundCopy := copied.readings.sound
  obtain ⟨_, _, _, name, _⟩ := copied.kept
  exact {
    toIsomorphic := iso
    name := name.trans copied.terminals.name
    nodes_size := iso.nodes_size sound soundCopy
    registry_size := iso.registry_size sound soundCopy
    depth := iso.depth sound soundCopy
    evaluate := iso.evaluate sound soundCopy
    listed := copied.listed }

/-- A reachable network can be copied onto any reachable target and duplicated. -/
theorem isCopy_of_overwrite {net src : Network} (reachable : net.Reachable)
    (reachableSrc : src.Reachable) :
    (∃ after m, net.overwrite src = .ok (.done () after) ∧ src.IsCopy after m) ∧
      ∃ after m, src.duplicate = .ok after ∧ src.IsCopy after m := by
  have sound := reachableSrc.sound
  obtain ⟨_, _, _, copies, _, after, made, copied⟩ := overwrite_spec reachable.sound sound
  obtain ⟨_, _, _, copies', _, after', made', copied'⟩ := duplicate_spec sound
  exact ⟨⟨after, copies.map, made, copied.isCopy sound⟩,
    ⟨after', copies'.map, made', copied'.isCopy sound⟩⟩

/-- Two inputs that are made in the reverse order of their bits, so that a copy renumbers them,
and a gate that tells them apart. -/
def reversedCommands : List Command :=
  [.addPort "p" 2, .addInput 0 1, .addInput 0 0, .addElement .latch "l",
    .addGate ⟨false, true, false, false⟩ (.positive 0) (.positive 1), .drive 3 (.negative 7)]

/-- The copy takes the place of a network with other ports and other readings. -/
theorem isCopy_of_overwrite_reversed :
    ∃ src net, (withBuckets 0).runAll reversedCommands = .ok src ∧
      (withBuckets 0).runAll [.addPort "q" 1, .addOutput 0 0, .drive 0 .one] = .ok net ∧
      ∃ after m, net.overwrite src = .ok (.done () after) ∧ src.IsCopy after m := by
  obtain ⟨src, ran, reached⟩ : ∃ src, (withBuckets 0).runAll reversedCommands = .ok src ∧
      src.Reachable := (Reachable.withBuckets 0).runAll (by simp [reversedCommands])
  obtain ⟨net, ran', reached'⟩ : ∃ net, (withBuckets 0).runAll
      [.addPort "q" 1, .addOutput 0 0, .drive 0 .one] = .ok net ∧ net.Reachable :=
    (Reachable.withBuckets 0).runAll (by simp)
  exact ⟨src, net, ran, ran', (isCopy_of_overwrite reached' reached).1⟩

end Network

end GateNet
