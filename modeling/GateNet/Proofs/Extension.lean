import GateNet.Proofs.Part
import GateNet.Proofs.Sharing

/-!
# Adding a gate extends a network

Adding a gate leaves every node as it was and makes at most one gate, so the old network is a part
of the new one that is closed under reading.  Words that solve the equations of the new network
solve those of the old one.  Hence the answer has the word of the requested gate, and nothing that
could be read or observed before changes.
-/

namespace GateNet

namespace Network

variable {net after : Network} {more : Option NodeId} {words : List Word} {v : NodeId → Word}

/-! ## Extensions -/

/-- A network with all that another one has, and at most one gate more.  Nodes may get more
readers and other links; the table may grow. -/
structure Extends (net after : Network) (more : Option NodeId) : Prop where
  kept : ∀ {id n}, net.node? id = some n → ∃ m, after.node? id = some m ∧ m.core = n.core
  only : ∀ {id m}, after.node? id = some m → more ≠ some id → ∃ n, net.node? id = some n
  free : ∀ {id}, more = some id → net.node? id = none
  gates : after.gates = net.gates ++ more.toArray
  inputs : after.inputs = net.inputs
  outputs : after.outputs = net.outputs
  ports : after.ports = net.ports
  banks : ∀ family, after.bank family = net.bank family

namespace Extends

theorem partOf (grown : net.Extends after more) : net.PartOf after := by
  refine ⟨fun held => ?_, grown.inputs.symm, grown.outputs.symm⟩
  obtain ⟨before, found, rfl⟩ := Store.layout_eq_some_iff.mp held
  obtain ⟨m, found', same⟩ := grown.kept found
  rw [Store.layout_of_get? found', same]

theorem fit (grown : net.Extends after more) {s : Signal} (fit : net.Fit s) : after.Fit s :=
  grown.partOf.fit fit

/-- Words for the larger network are words for the smaller one. -/
theorem carries (grown : net.Extends after more) (carries : after.Carries words v) :
    net.Carries words v :=
  grown.partOf.carries carries

/-- Evaluation does not see that a network was extended. -/
theorem evaluate (grown : net.Extends after more) (sound : net.Sound) (sound' : after.Sound)
    (words : List Word) : after.evaluate words = net.evaluate words :=
  grown.partOf.evaluate sound sound' words

end Extends

/-! ## Realizing a request extends the network -/

theorem Realized.exists_extends {n : Normal} {r : Signal} (realized : net.Realized none n r after) :
    ∃ more, net.Extends after more := by
  cases realized with
  | settled | found =>
    exact ⟨none, fun held => ⟨_, held, rfl⟩, fun held _ => ⟨_, held⟩, nofun, by simp, rfl, rfl, rfl,
      fun _ => rfl⟩
  | @added _ key id nodes table _ _ _ _ free _ layout_eq =>
    refine ⟨some id, fun {x n} held => ?_, fun {x m} held other => ?_, fun {x} same => ?_, by simp,
      rfl, rfl, rfl, fun family => by cases family <;> rfl⟩
    · have live := Store.layout_of_get? held
      refine Store.layout_eq_some_iff.mp ?_
      show nodes.layout x = _
      rw [layout_eq, Function.update_of_ne (Layout.ne_of_free free live), live]
    · have live : nodes.layout x = some m.core := Store.layout_of_get? held
      rw [layout_eq, Function.update_of_ne fun same => other (congrArg some same.symm)] at live
      exact (Store.layout_eq_some_iff.mp live).imp fun _ => And.left
    · obtain rfl := Option.some.inj same
      exact Store.layout_eq_none_iff.mp free

/-! ## Adding a gate -/

/-- Adding a gate is correct and interferes with nothing.  A gate over signals that may be read is
answered by a signal with the gate's word on every input; every signal that could be read before
keeps its word, evaluation keeps its answers, and the network is extended by at most one gate. -/
theorem addGate_extends (reachable : net.Reachable) (gate : Gate) {s t : Signal}
    (left : net.Fit s) (right : net.Fit t) :
    ∃ r after, net.addGate gate s t = .ok (.done r after) ∧ after.Fit r ∧
      (∃ more, net.Extends after more) ∧
      (∀ words : List Word, words.length = net.inputs.size →
        (∃ a b w, net.Evaluates words s a ∧ net.Evaluates words t b ∧ after.Evaluates words r w ∧
          ∀ k < 64, w.getLsbD k = gate.eval (a.getLsbD k) (b.getLsbD k)) ∧
        ∀ q, net.Fit q → ∃ w, net.Evaluates words q w ∧ after.Evaluates words q w) ∧
      ∀ words, after.evaluate words = net.evaluate words := by
  have sound := reachable.sound
  obtain ⟨r, after, made, realized⟩ := sound.addGate (q := ⟨gate, s, t⟩) left right
  have sound' := realized.sound sound
  have fit := realized.fit left right
  obtain ⟨more, grown⟩ := realized.exists_extends
  refine ⟨r, after, made, fit, ⟨more, grown⟩, fun words length => ?_,
    grown.evaluate sound sound'⟩
  -- One choice of words solves both networks, so every signal has the same word in both.
  have length' : words.length = after.inputs.size := by rw [grown.inputs, length]
  obtain ⟨v, carries'⟩ := sound'.exists_carries words
  have carries := grown.carries carries'
  refine ⟨⟨s.word v, t.word v, r.word v, sound.evaluates length carries left,
    sound.evaluates length carries right, sound'.evaluates length' carries' fit, fun k small => ?_⟩,
    fun q fit => ⟨q.word v, sound.evaluates length carries fit,
      sound'.evaluates length' carries' (grown.fit fit)⟩⟩
  rw [realized.word carries', Gate.getLsbD_evalWords _ _ _ _ small]

/-- A gate that nobody reads is pruned, and the next gate takes its slot: the or-gate of an
inverted input and an input has the right word, and the network evaluates as before. -/
theorem addGate_extends_recycled :
    ∃ net r after, (withBuckets 0).runAll [.addPort "p" 2, .addInput 0 0, .addInput 0 1,
        .addOutput 0 0, .drive 2 (.negative 1), .addGate .and (.positive 0) (.positive 1),
        .prune] = .ok net ∧
      net.addGate .or (.negative 0) (.positive 1) = .ok (.done r after) ∧
      (∃ a b w, net.Evaluates [5, 3] (.negative 0) a ∧ net.Evaluates [5, 3] (.positive 1) b ∧
        after.Evaluates [5, 3] r w ∧
        ∀ k < 64, w.getLsbD k = Gate.or.eval (a.getLsbD k) (b.getLsbD k)) ∧
      after.evaluate [5, 3] = net.evaluate [5, 3] := by
  obtain ⟨net, ran, reached⟩ : ∃ net, (withBuckets 0).runAll [.addPort "p" 2, .addInput 0 0,
      .addInput 0 1, .addOutput 0 0, .drive 2 (.negative 1),
      .addGate .and (.positive 0) (.positive 1), .prune] = .ok net ∧ net.Reachable :=
    (Reachable.withBuckets 0).runAll (by simp)
  have checked : (((withBuckets 0).runAll [.addPort "p" 2, .addInput 0 0, .addInput 0 1,
      .addOutput 0 0, .drive 2 (.negative 1), .addGate .and (.positive 0) (.positive 1),
      .prune]).toOption.bind fun net =>
        (net.checkDrivers (.negative 0) (.positive 1)).toOption.map fun _ =>
          net.inputs.size) = some 2 := by
    decide +kernel
  rw [ran] at checked
  change ((net.checkDrivers (.negative 0) (.positive 1)).toOption.map fun _ =>
    net.inputs.size) = some 2 at checked
  rcases net.checkDrivers_spec (.negative 0) (.positive 1) with
    ⟨passed, left, right⟩ | ⟨refusal, failed, _⟩
  · rw [passed] at checked
    have length : ([5, 3] : List Word).length = net.inputs.size := (Option.some.inj checked).symm
    obtain ⟨r, after, made, _, _, words, same⟩ := addGate_extends reached .or left right
    exact ⟨net, r, after, ran, made, (words [5, 3] length).1, same [5, 3]⟩
  · rw [failed] at checked
    cases checked

end Network

end GateNet
