import GateNet.Proofs.Reachable

/-!
# What a network means

The reference meaning of a network is the recursive evaluation of its circuit: no arrays, no
order of evaluation, no sharing.  Evaluation gives, output by output, what the recursion gives.
Redefining a gate is exact: the new network evaluates to what the recursion gives on the circuit
before, with the one gate replaced by the request.
-/

namespace GateNet

namespace Network

variable {net : Network} {words : List Word}

/-- The recursive evaluation of a signal in a network, from words of the inputs. -/
def Evaluates (net : Network) (words : List Word) : Signal → Word → Prop :=
  net.nodes.layout.circuit.Yields (net.inputWord words)

/-! ## Recursion reaches the solution -/

/-- On an acyclic circuit with the gates of a sound network, recursive evaluation gives the words
of the solution. -/
theorem Sound.yields (sound : net.Sound) (length : words.length = net.inputs.size) {C : Circuit}
    (acyclic : C.Acyclic) (gates : ∀ id, (C id).isSome ↔ net.nodes.layout.HasGate id)
    (closed : ∀ {x d}, C.Reads x d → net.nodes.layout.MayDrive d) {v : NodeId → Word}
    (solves : ∀ {x}, net.nodes.layout.MayDrive x →
      C.Solves (fun r v => r.word v) (fun id => (net.inputWord words id).getD 0) v x)
    {s : Signal} (fit : net.Fit s) : C.Yields (net.inputWord words) s (s.word v) := by
  refine Circuit.yields_word acyclic (fun _ _ _ => closed) (fun id drives notGate => ?_)
    (fun id _ isGate => ?_) (fun _ => solves) fit
  · rcases sound.mayDrive_iff.mp drives with input | gate
    · obtain ⟨word, _, given⟩ := sound.inputWord_isSome length input
      rw [given]
      rfl
    · rw [← gates, notGate] at gate
      cases gate
  · exact inputWord_eq_none fun input =>
      sound.not_hasGate_of_input input ((gates id).mp isGate)

theorem Sound.isSome_circuit_iff (sound : net.Sound) (id : NodeId) :
    (net.nodes.layout.circuit id).isSome ↔ net.nodes.layout.HasGate id := by
  rw [Layout.circuit, Option.isSome_map, Option.isSome_iff_exists, sound.woven.layout.hasGate_iff]

theorem Sound.evaluates (sound : net.Sound) (length : words.length = net.inputs.size)
    {v : NodeId → Word} (carries : net.Carries words v) {s : Signal} (fit : net.Fit s) :
    net.Evaluates words s (s.word v) :=
  sound.yields length sound.woven.layout.acyclic sound.isSome_circuit_iff
    sound.woven.layout.mayDrive_of_reads (carries _) fit

theorem Redefinable.isSome_redefined_iff {id : NodeId} {gate : Gate} {s t : Signal}
    (redefinable : net.Redefinable id s t) (sound : net.Sound) (x : NodeId) :
    (net.redefined id gate s t x).isSome ↔ net.nodes.layout.HasGate x := by
  by_cases same : x = id
  · subst same
    rw [redefined, Function.update_self]
    exact iff_of_true rfl redefinable.gate
  · rw [redefined, Function.update_of_ne same]
    exact sound.isSome_circuit_iff x

theorem Sound.fit_sourceOf (sound : net.Sound) {o : NodeId} (listed : o ∈ net.outputs) :
    net.Fit (net.sourceOf o) := by
  obtain ⟨n, held, _⟩ := sound.mem_outputs_iff.mp listed
  rw [sourceOf_eq held]
  exact fun d read => sound.woven.layout.driven (p := .first) held read

/-! ## Evaluation -/

/-- Evaluation of a sound network gives what recursive evaluation gives at each output. -/
theorem Sound.evaluate (sound : net.Sound) (length : words.length = net.inputs.size) :
    ∃ results, net.evaluate words = .ok results ∧
      List.Forall₂ (fun o w => net.Evaluates words (net.sourceOf o) w) net.outputs.toList results := by
  obtain ⟨v, carries⟩ := sound.exists_carries words
  refine ⟨_, evaluate_eq sound length carries, ?_⟩
  rw [List.forall₂_map_right_iff, List.forall₂_same]
  intro o listed
  exact sound.evaluates length carries (sound.fit_sourceOf (Array.mem_toList_iff.mp listed))

/-! ## Redefining -/

/-- Redefining a gate is exact.  The registries stay, the new network evaluates output by output to
what recursion gives on the old circuit with the one gate replaced, and the answer evaluates in the
new network to the request, over operands that kept their words of the redefined circuit. -/
theorem evaluate_of_redefine (reachable : net.Reachable) {id : NodeId} {gate : Gate} {s t : Signal}
    {answer : Signal} {next : Network}
    (done : net.redefine id gate s t = .ok (.done answer next))
    (length : words.length = net.inputs.size) :
    (next.inputs = net.inputs ∧ next.outputs = net.outputs) ∧
    (∃ results, next.evaluate words = .ok results ∧
      List.Forall₂ (fun o w => (net.redefined id gate s t).Yields (net.inputWord words)
        (net.sourceOf o) w) net.outputs.toList results) ∧
    ∃ a b,
      ((net.redefined id gate s t).Yields (net.inputWord words) s a ∧
        (net.redefined id gate s t).Yields (net.inputWord words) t b) ∧
      (next.Evaluates words s a ∧ next.Evaluates words t b) ∧
      next.Evaluates words answer (gate.evalWords a b) := by
  have sound := reachable.sound
  rcases redefine_spec sound id gate s t fun id => (net.inputWord words id).getD 0 with
    ⟨refusal, made⟩ | ⟨redefinable, answer', after, new, member, g, made, result⟩
  · cases made.symm.trans done
  · cases made.symm.trans done
    -- The inputs stay, so the given words are fed to the same ids.
    have same : next.inputWord words = net.inputWord words := by
      funext x
      rw [inputWord, inputWord, result.inputs]
    have length' : words.length = next.inputs.size := by rw [result.inputs, length]
    obtain ⟨v, carries⟩ := result.sound.exists_carries words
    -- What is settled has the words of every evaluation of the new network.
    have settled : ∀ {x}, member x → member x ∧ v x = g x := by
      refine fun inside => ⟨inside, result.settled.eq_of_solves
        result.sound.woven.layout.acyclic (fun y drives => ?_) inside⟩
      have equation := carries y drives
      rwa [same] at equation
    -- A carried signal has its settled word also in the recursive evaluation.
    have evaluates : ∀ {q w}, Carried member g q w → next.Evaluates words q w := by
      intro q w carried
      obtain ⟨inside, rfl⟩ := carried.mono settled
      exact result.sound.evaluates length' carries fun d read =>
        result.settled.drives (inside d read)
    have yields : ∀ {q}, net.Fit q →
        (net.redefined id gate s t).Yields (net.inputWord words) q (q.word new) :=
      sound.yields length (redefinable.acyclic sound gate)
        (redefinable.isSome_redefined_iff sound) (redefinable.closed sound) result.solves
    refine ⟨⟨result.inputs, result.outputs⟩, ⟨_, evaluate_eq result.sound length' carries, ?_⟩,
      s.word new, t.word new, ⟨yields redefinable.first, yields redefinable.second⟩,
      ⟨evaluates result.first, evaluates result.second⟩, evaluates result.answered⟩
    -- Output by output: the word in the new network is the one that recursion gives on the old.
    rw [List.forall₂_map_right_iff, result.outputs, List.forall₂_same]
    intro o listed
    have output := Array.mem_toList_iff.mp listed
    rw [((result.carried o output).mono settled).word_eq]
    exact yields (sound.fit_sourceOf output)

/-- Two inputs, an and-gate and an or-gate of them, and two gates above. -/
def layeredCommands : List Command :=
  [.addPort "p" 2, .addInput 0 0, .addInput 0 1, .addOutput 0 0,
    .addGate .and (.positive 0) (.positive 1), .addGate .or (.positive 0) (.positive 1),
    .addGate .xor (.positive 3) (.positive 4), .addGate .or (.positive 3) (.positive 5),
    .drive 2 (.negative 6)]

/-- When the and-gate becomes a second or-gate, it merges with the first, one gate above it
becomes constant and the other one follows; the output still has the words of the recursion. -/
theorem evaluate_of_redefine_merging :
    ∃ net next, (withBuckets 0).runAll layeredCommands = .ok net ∧ net.inputs.size = 2 ∧
      net.redefine 3 .or (.positive 0) (.positive 1) = .ok (.done (.positive 4) next) ∧
      ∃ results, next.evaluate [5, 3] = .ok results ∧
        List.Forall₂ (fun o w => (net.redefined 3 .or (.positive 0) (.positive 1)).Yields
          (net.inputWord [5, 3]) (net.sourceOf o) w) net.outputs.toList results := by
  obtain ⟨net, ran, reached⟩ : ∃ net, (withBuckets 0).runAll layeredCommands = .ok net ∧
      net.Reachable := (Reachable.withBuckets 0).runAll (by simp [layeredCommands])
  have checked : ((withBuckets 0).runAll layeredCommands >>= fun net => do
      let outcome ← net.redefine 3 .or (.positive 0) (.positive 1)
      return (net.inputs.size, outcome.answer.toOption)).toOption = some (2, some (.positive 4)) := by
    decide +kernel
  rw [ran, ok_bind] at checked
  cases made : net.redefine 3 .or (.positive 0) (.positive 1) with
  | error fault =>
    rw [made] at checked
    cases checked
  | ok outcome =>
    rw [made] at checked
    obtain ⟨inputs, answered⟩ := Prod.mk.inj (Option.some.inj checked)
    obtain ⟨answer | answer, next⟩ := outcome
    · cases answered
    · obtain rfl : answer = .positive 4 := Option.some.inj answered
      have length : ([5, 3] : List Word).length = net.inputs.size := inputs.symm
      exact ⟨net, next, ran, inputs, made, (evaluate_of_redefine reached made length).2.1⟩

end Network

end GateNet
