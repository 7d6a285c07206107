import GateNet.Proofs.Conditions
import GateNet.Proofs.Rebuild

/-!
# Redefining a gate gives the words of the redefined circuit

Redefining is specified by the circuit before the call in which one gate carries out another
request.  When the gate keeps its id, the new network has that circuit; otherwise the cone above it
is rebuilt.  In both cases the words of the redefined circuit are settled at the outputs, at the
answer and at the operands.
-/

namespace GateNet

namespace Network

variable {net : Network} {id : NodeId} {gate : Gate} {s t : Signal}

/-! ## The check -/

/-- What may be redefined: a gate, over fit signals that do not depend on it. -/
structure Redefinable (net : Network) (id : NodeId) (s t : Signal) : Prop where
  gate : net.nodes.layout.HasGate id
  first : net.Fit s
  second : net.Fit t
  apart : ∀ d, s.node = some d ∨ t.node = some d → ¬ net.nodes.layout.circuit.Depends d id

theorem LegalOperand.mayDrive {d : NodeId} (legal : net.LegalOperand id d) :
    net.nodes.layout.MayDrive d := by
  obtain ⟨n, found, drives⟩ := legal.drives
  exact ⟨n.core, Store.layout_of_get? found, drives⟩

theorem LegalChange.redefinable (legal : net.LegalChange id s t) (sound : net.Sound) :
    net.Redefinable id s t := by
  have apart : ∀ {d}, net.LegalOperand id d → ¬ net.nodes.layout.circuit.Depends d id := by
    intro d legal
    rw [← sound.reached_iff legal.mayDrive, Relation.reflTransGen_iff_eq_or_transGen]
    exact not_or_intro legal.other legal.apart
  obtain ⟨n, found, isGate⟩ := legal.gate
  refine ⟨⟨n.core, Store.layout_of_get? found, isGate⟩, fun d read => (legal.first d read).mayDrive,
    fun d read => (legal.second d read).mayDrive, ?_⟩
  rintro d (read | read)
  · exact apart (legal.first d read)
  · exact apart (legal.second d read)

theorem checkRedefine_spec (sound : net.Sound) (id : NodeId) (s t : Signal) :
    (net.checkRedefine id s t = .ok () ∧ net.Redefinable id s t) ∨
      ∃ refusal, net.checkRedefine id s t = .error (.refused refusal) := by
  have asks := sound.asks_checkRedefine id s t
  refine asks.ok_or_refused.imp_left fun passed => ⟨passed, ?_⟩
  exact (holds_redefineConditions_iff.mp (asks.eq_ok_iff.mp passed)).redefinable sound

/-! ## The redefined circuit -/

/-- The circuit in which one gate carries out another request. -/
def redefined (net : Network) (id : NodeId) (gate : Gate) (s t : Signal) : Circuit :=
  Function.update net.nodes.layout.circuit id (some ⟨gate, s, t⟩)

theorem Redefinable.acyclic (redefinable : net.Redefinable id s t) (sound : net.Sound)
    (gate : Gate) : (net.redefined id gate s t).Acyclic :=
  sound.woven.layout.acyclic.update redefinable.apart

theorem Redefinable.closed (redefinable : net.Redefinable id s t) (sound : net.Sound) {gate : Gate}
    {x d : NodeId} (read : (net.redefined id gate s t).Reads x d) :
    net.nodes.layout.MayDrive d := by
  obtain ⟨r, held, read⟩ := read
  by_cases same : x = id
  · subst same
    rw [redefined, Function.update_self] at held
    obtain rfl := Option.some.inj held
    rcases read with read | read
    · exact redefinable.first d read
    · exact redefinable.second d read
  · rw [redefined, Function.update_of_ne same] at held
    exact sound.woven.layout.mayDrive_of_reads ⟨r, held, read⟩

theorem solves_redefined_self {source v : NodeId → Word} :
    (net.redefined id gate s t).Solves (fun r v => r.word v) source v id ↔
      v id = gate.evalWords (s.word v) (t.word v) := by
  rw [Circuit.Solves, redefined, Function.update_self]
  rfl

theorem solves_redefined_of_ne {source v : NodeId → Word} {x : NodeId} (different : x ≠ id) :
    (net.redefined id gate s t).Solves (fun r v => r.word v) source v x ↔
      net.nodes.layout.circuit.Solves (fun r v => r.word v) source v x := by
  rw [Circuit.Solves, Circuit.Solves, redefined, Function.update_of_ne different]

/-- What redefining makes: the words of the redefined circuit are settled at all outputs, at the
answer and at the operands. -/
structure Redefined (net : Network) (id : NodeId) (gate : Gate) (s t : Signal)
    (source : NodeId → Word) (answer : Signal) (after : Network) (new : NodeId → Word)
    (member : NodeId → Prop) (g : NodeId → Word) : Prop where
  sound : after.Sound
  inputs : after.inputs = net.inputs
  outputs : after.outputs = net.outputs
  solves : ∀ {x}, net.nodes.layout.MayDrive x →
    (net.redefined id gate s t).Solves (fun r v => r.word v) source new x
  settled : Settled after.nodes.layout source member g
  carried : ∀ o ∈ net.outputs, Carried member g (after.sourceOf o) ((net.sourceOf o).word new)
  answered : Carried member g answer (gate.evalWords (s.word new) (t.word new))
  first : Carried member g s (s.word new)
  second : Carried member g t (t.word new)

/-! ## What realizing did -/

/-- On words of the new network, the realized signal has the word of the request. -/
theorem Realized.word {after : Network} {reuse : Option NodeId} {signal : Signal}
    (realized : net.Realized reuse (.ofRequest gate s t) signal after) {source v : NodeId → Word}
    (solves : ∀ x, after.nodes.layout.MayDrive x →
      after.nodes.layout.circuit.Solves (fun r v => r.word v) source v x) :
    signal.word v = gate.evalWords (s.word v) (t.word v) := by
  rw [← Normal.word_ofRequest]
  rcases Normal.ofRequest_cases gate s t with ⟨r, made, _⟩ | ⟨key, inverted, made, _⟩
  · rw [made] at realized ⊢
    cases realized
    rfl
  · rw [made] at realized ⊢
    obtain ⟨x, rfl, keyed⟩ := realized.key?
    have equation := (Layout.solves_gate_iff keyed).mp
      (solves x (Layout.hasGate_of_key? keyed).mayDrive)
    show Signal.polarize inverted (v x) = Signal.polarize inverted (key.request.word v)
    rw [equation]

/-- If the gate was not rewired, every node is as it was. -/
theorem Realized.kept {after : Network} {normal : Normal} {signal : Signal}
    (realized : net.Realized (some id) normal signal after) (other : signal ≠ .positive id)
    {x : NodeId} {n : Node} (held : net.nodes.layout x = some n) :
    after.nodes.layout x = some n := by
  cases realized with
  | settled | found => exact held
  | rewired => exact absurd rfl other
  | @added _ _ _ _ _ limit inverted _ absent free woven layout_eq =>
    have realized := @Realized.added net none _ _ _ _ limit inverted (.inl rfl) absent free woven
      layout_eq
    exact realized.layout_of_ne held (by rintro ⟨⟩)

/-- A gate of the new network was there before, or was made to carry the answer. -/
theorem Realized.hasGate_or {after : Network} {reuse : Option NodeId} {normal : Normal}
    {signal : Signal} (realized : net.Realized reuse normal signal after) {x : NodeId}
    (isGate : after.nodes.layout.HasGate x) :
    net.nodes.layout.HasGate x ∨ signal.node = some x := by
  cases realized with
  | settled | found => exact .inl isGate
  | @rewired _ y n nodes _ _ held gate _ _ layout_eq =>
    by_cases same : x = y
    · exact .inl (same ▸ ⟨n, held, gate⟩)
    · replace isGate : nodes.layout.HasGate x := isGate
      rw [layout_eq, Layout.HasGate, Function.update_of_ne same] at isGate
      exact .inl isGate
  | @added _ _ y nodes _ _ _ _ _ _ _ layout_eq =>
    by_cases same : x = y
    · exact .inr (same ▸ rfl)
    · replace isGate : nodes.layout.HasGate x := isGate
      rw [layout_eq, Layout.HasGate, Function.update_of_ne same] at isGate
      exact .inl isGate

theorem depends_of_kept {L M : Layout} (sound : L.Sound)
    (kept : ∀ {x n}, L x = some n → M x = some n) {d : NodeId} (drives : L.MayDrive d)
    (depends : M.circuit.Depends d id) : L.circuit.Depends d id := by
  induction depends using Relation.ReflTransGen.head_induction_on with
  | refl => exact .refl
  | head read _ inductionHypothesis =>
    obtain ⟨n, held, _⟩ := drives
    have read := (Layout.reads_congr ((kept held).trans held.symm)).mp read
    exact .head read (inductionHypothesis (sound.mayDrive_of_reads read))

theorem Redefinable.realize (redefinable : net.Redefinable id s t) (sound : net.Sound)
    (gate : Gate) :
    ∃ signal middle, net.realize (some id) gate s t = .ok (signal, middle) ∧
      net.Realized (some id) (.ofRequest gate s t) signal middle :=
  realize_spec sound.woven redefinable.first redefinable.second gate fun _ same =>
    Option.some.inj same ▸ ⟨redefinable.gate, redefinable.apart⟩

/-! ## The two ways of redefining -/

/-- A gate that keeps its id carries the new words, and so do all nodes above it. -/
theorem Redefinable.in_place (redefinable : net.Redefinable id s t) (sound : net.Sound)
    {after : Network}
    (realized : net.Realized (some id) (.ofRequest gate s t) (.positive id) after)
    (source : NodeId → Word) :
    ∃ new member g, net.Redefined id gate s t source (.positive id) after new member g := by
  obtain ⟨new, solves⟩ : ∃ new, ∀ x,
      (net.redefined id gate s t).Solves (fun r v => r.word v) source new x :=
    Circuit.exists_solution (redefinable.acyclic sound gate) Request.local_word
  have word := solves_redefined_self.mp (solves id)
  -- The gate has a key: operands that do not depend on it cannot be the gate itself.
  obtain ⟨key, keyed, denotes, operands⟩ : ∃ key, after.nodes.layout.key? id = some key ∧
      key.request.word new = gate.evalWords (s.word new) (t.word new) ∧
      ∀ d, key.first = d ∨ key.second = d → s.node = some d ∨ t.node = some d := by
    rw [← Normal.word_ofRequest]
    rcases Normal.ofRequest_cases gate s t with ⟨r, made, read⟩ | ⟨key, inverted, made, _, operands⟩
    · rw [made] at realized
      cases realized
      exact absurd .refl (redefinable.apart id (read id rfl))
    · rw [made] at realized ⊢
      obtain ⟨x, same, keyed⟩ := realized.key?
      obtain ⟨here, rfl⟩ := Signal.mk.inj same
      obtain rfl := Option.some.inj here
      refine ⟨key, keyed, rfl, ?_⟩
      rintro d (rfl | rfl) <;> rcases operands with ⟨one, two⟩ | ⟨one, two⟩ <;> simp [one, two]
  have kept : ∀ {x n}, x ≠ id → net.nodes.layout x = some n → after.nodes.layout x = some n :=
    fun different held => realized.layout_of_ne held fun same => different (Option.some.inj same).symm
  have fit : ∀ d, s.node = some d ∨ t.node = some d → net.nodes.layout.MayDrive d :=
    fun d read => read.elim (redefinable.first d) (redefinable.second d)
  refine ⟨new, net.nodes.layout.MayDrive, new, realized.sound sound, realized.inputs,
    realized.outputs, fun {x} _ => solves x, ⟨realized.mayDrive, fun {x d} drives read => ?_,
      fun {x} drives => ?_⟩, fun o listed => ?_, ⟨?_, word⟩, ⟨redefinable.first, rfl⟩,
    ⟨redefinable.second, rfl⟩⟩
  · by_cases same : x = id
    · subst same
      obtain ⟨other, keyed', operand⟩ := Layout.reads_circuit_iff.mp read
      obtain rfl := Option.some.inj (keyed.symm.trans keyed')
      exact fit d (operands d operand)
    · obtain ⟨n, held, _⟩ := drives
      exact sound.woven.layout.mayDrive_of_reads
        ((Layout.reads_congr ((kept same held).trans held.symm)).mp read)
  · by_cases same : x = id
    · subst same
      rw [Layout.solves_gate_iff keyed, denotes, word]
    · obtain ⟨n, held, _⟩ := drives
      rw [Layout.solves_congr ((kept same held).trans held.symm)]
      exact (solves_redefined_of_ne same).mp (solves x)
  · obtain ⟨n, held, output⟩ := sound.mem_outputs_iff.mp listed
    have different : o ≠ id := by
      rintro rfl
      exact Layout.not_hasGate_of_isOutput held output redefinable.gate
    rw [sourceOf_eq held, sourceOf_eq (kept different held)]
    exact ⟨fun d read => sound.woven.layout.driven (p := .first) held read, rfl⟩
  · rintro d here
    exact Option.some.inj here ▸ redefinable.gate.mayDrive

/-- The signal that replaces a gate does not lie above it. -/
theorem Realized.apart {after : Network} {reuse : Option NodeId} {signal : Signal}
    (realized : net.Realized reuse (.ofRequest gate s t) signal after)
    (apart : ∀ d, s.node = some d ∨ t.node = some d → ¬ after.nodes.layout.circuit.Depends d id) :
    ∀ d, signal.node = some d → ¬ after.nodes.layout.circuit.Depends d id ∨ d = id := by
  intro d here
  rcases Normal.ofRequest_cases gate s t with ⟨r, made, read⟩ | ⟨key, inverted, made, _, operands⟩
  · rw [made] at realized
    cases realized
    exact .inl (apart d (read d here))
  · rw [made] at realized
    obtain ⟨x, rfl, keyed⟩ := realized.key?
    obtain rfl : x = d := Option.some.inj here
    refine or_iff_not_imp_right.mpr fun different depends => ?_
    rcases Relation.ReflTransGen.cases_head depends with same | ⟨e, read, depends⟩
    · exact different same
    · obtain ⟨other, keyed', operand⟩ := Layout.reads_circuit_iff.mp read
      obtain rfl := Option.some.inj (keyed.symm.trans keyed')
      refine apart e ?_ depends
      rcases operand with rfl | rfl <;> rcases operands with ⟨one, two⟩ | ⟨one, two⟩ <;>
        simp [one, two]

theorem Redefinable.realized (redefinable : net.Redefinable id s t) (sound : net.Sound)
    {middle : Network} {signal : Signal}
    (realized : net.Realized (some id) (.ofRequest gate s t) signal middle)
    (other : signal ≠ .positive id) : middle.Redefinable id s t := by
  refine ⟨?_, fun d read => realized.mayDrive (redefinable.first d read),
    fun d read => realized.mayDrive (redefinable.second d read), fun d read depends => ?_⟩
  · obtain ⟨n, held, isGate⟩ := redefinable.gate
    exact ⟨n, realized.kept other held, isGate⟩
  · refine redefinable.apart d read
      (depends_of_kept sound.woven.layout (realized.kept other) ?_ depends)
    exact read.elim (redefinable.first d) (redefinable.second d)

/-- A gate that was made for the request does not lie above the redefined one. -/
theorem Redefinable.hasGate_of_above (redefinable : net.Redefinable id s t) (sound : net.Sound)
    {middle : Network} {signal : Signal}
    (realized : net.Realized (some id) (.ofRequest gate s t) signal middle)
    (other : signal ≠ .positive id) {x : NodeId} (isGate : middle.nodes.layout.HasGate x)
    (depends : middle.nodes.layout.circuit.Depends x id) (different : x ≠ id) :
    net.nodes.layout.HasGate x := by
  refine (realized.hasGate_or isGate).resolve_right fun carries => ?_
  have apart := (redefinable.realized sound realized other).apart
  exact (realized.apart apart x carries).elim (fun below => below depends) different

/-- The words of the network in which the gate was realized elsewhere, and those that it has to
get: the realized signal carries the new word of the gate already, and so do the operands. -/
structure Replaces (middle : Network) (id : NodeId) (gate : Gate) (s t signal : Signal)
    (source old new : NodeId → Word) : Prop where
  solves : ∀ x, middle.nodes.layout.circuit.Solves (fun r v => r.word v) source old x
  solves' : ∀ x, (middle.redefined id gate s t).Solves (fun r v => r.word v) source new x
  first : s.word new = s.word old
  second : t.word new = t.word old
  word : signal.word old = new id

theorem Replaces.rewording {middle : Network} {signal : Signal} {source old new : NodeId → Word}
    (replaces : middle.Replaces id gate s t signal source old new) :
    Rewording middle id source old new :=
  ⟨fun {x} _ => replaces.solves x, fun {x} _ different =>
    (solves_redefined_of_ne different).mp (replaces.solves' x)⟩

theorem Redefinable.exists_replaces (redefinable : net.Redefinable id s t) (sound : net.Sound)
    {middle : Network} {signal : Signal}
    (realized : net.Realized (some id) (.ofRequest gate s t) signal middle)
    (other : signal ≠ .positive id) (source : NodeId → Word) :
    ∃ old new, middle.Replaces id gate s t signal source old new := by
  have soundMiddle := realized.sound sound
  have redefinable' := redefinable.realized sound realized other
  obtain ⟨old, solves⟩ : ∃ old, ∀ x,
      middle.nodes.layout.circuit.Solves (fun r v => r.word v) source old x :=
    Circuit.exists_solution soundMiddle.woven.layout.acyclic Request.local_word
  obtain ⟨new, solves'⟩ : ∃ new, ∀ x,
      (middle.redefined id gate s t).Solves (fun r v => r.word v) source new x :=
    Circuit.exists_solution (redefinable'.acyclic soundMiddle gate) Request.local_word
  have rewording : Rewording middle id source old new :=
    ⟨fun {x} _ => solves x, fun {x} _ different => (solves_redefined_of_ne different).mp (solves' x)⟩
  have agree : ∀ d, s.node = some d ∨ t.node = some d → new d = old d := fun d read =>
    rewording.agree soundMiddle (read.elim (redefinable'.first d) (redefinable'.second d))
      (redefinable'.apart d read)
  have first : s.word new = s.word old := Signal.word_congr fun d read => agree d (.inl read)
  have second : t.word new = t.word old := Signal.word_congr fun d read => agree d (.inr read)
  refine ⟨old, new, solves, solves', first, second, ?_⟩
  rw [realized.word fun x _ => solves x, ← first, ← second]
  exact (solves_redefined_self.mp (solves' id)).symm

/-- The words that the network has to get are those of the redefined circuit. -/
theorem Replaces.solves_redefined {middle : Network} {signal : Signal} {source old new : NodeId → Word}
    (replaces : middle.Replaces id gate s t signal source old new)
    (kept : ∀ {x n}, net.nodes.layout x = some n → middle.nodes.layout x = some n) {x : NodeId}
    (drives : net.nodes.layout.MayDrive x) :
    (net.redefined id gate s t).Solves (fun r v => r.word v) source new x := by
  by_cases same : x = id
  · subst same
    exact solves_redefined_self.mpr (solves_redefined_self.mp (replaces.solves' x))
  · obtain ⟨n, held, _⟩ := drives
    rw [solves_redefined_of_ne same, ← Layout.solves_congr ((kept held).trans held.symm)]
    exact (solves_redefined_of_ne same).mp (replaces.solves' x)

theorem Replaces.replaceable {middle : Network} {signal : Signal} {source old new : NodeId → Word}
    (replaces : middle.Replaces id gate s t signal source old new)
    (redefinable : net.Redefinable id s t) (sound : net.Sound)
    (realized : net.Realized (some id) (.ofRequest gate s t) signal middle)
    (other : signal ≠ .positive id) : Replaceable middle id source old new signal where
  rewording := replaces.rewording
  gate := (redefinable.realized sound realized other).gate
  fit := realized.fit redefinable.first redefinable.second
  apart := realized.apart (redefinable.realized sound realized other).apart
  word := replaces.word

/-- A gate that another signal replaces: the cone above it is rebuilt. -/
theorem Redefinable.elsewhere (redefinable : net.Redefinable id s t) (sound : net.Sound)
    {middle : Network} {signal : Signal}
    (realized : net.Realized (some id) (.ofRequest gate s t) signal middle)
    (other : signal ≠ .positive id) (source : NodeId → Word) :
    ∃ after new member g, middle.rebuild id signal = .ok after ∧
      net.Redefined id gate s t source signal after new member g := by
  have soundMiddle := realized.sound sound
  have kept : ∀ {x n}, net.nodes.layout x = some n → middle.nodes.layout x = some n :=
    realized.kept other
  have redefinable' := redefinable.realized sound realized other
  obtain ⟨old, new, replaces⟩ := redefinable.exists_replaces sound realized other source
  have replaceable := replaces.replaceable redefinable sound realized other
  obtain ⟨after, member, g, rebuilt, result⟩ := rebuild_spec soundMiddle replaceable
  -- Signals that do not lie above the gate have the words that they had.
  have below : ∀ {q : Signal}, middle.Fit q →
      (∀ d, q.node = some d → ¬ middle.nodes.layout.circuit.Depends d id ∨ d = id) →
      Carried member g q (q.word old) := fun fit apart =>
    ⟨fun d read => (result.base (fit d read) (apart d read)).1,
      Signal.word_congr fun d read => (result.base (fit d read) (apart d read)).2⟩
  refine ⟨after, new, member, g, rebuilt, result.sound, result.inputs.trans realized.inputs,
    result.outputs.trans realized.outputs, replaces.solves_redefined kept, result.settled,
    fun o listed => ?_, ?_, ?_, ?_⟩
  · obtain ⟨n, held, _⟩ := sound.mem_outputs_iff.mp listed
    rw [sourceOf_eq held, ← sourceOf_eq (kept held)]
    exact result.carried o (by rwa [realized.outputs])
  · rw [replaces.first, replaces.second, ← realized.word fun x _ => replaces.solves x]
    exact below replaceable.fit replaceable.apart
  · rw [replaces.first]
    exact below redefinable'.first fun d read => .inl (redefinable'.apart d (.inl read))
  · rw [replaces.second]
    exact below redefinable'.second fun d read => .inl (redefinable'.apart d (.inr read))

/-! ## The operation -/

/-- What redefining does once the check is passed and the request is realized. -/
theorem redefine_eq {signal : Signal} {middle : Network}
    (passed : net.checkRedefine id s t = .ok ())
    (made : net.realize (some id) gate s t = .ok (signal, middle)) :
    net.redefine id gate s t =
      if signal = .positive id then .ok (.done signal middle)
      else do return .done signal (← middle.rebuild id signal) := by
  rw [redefine, passed, guarded]
  simp only [made, ok_bind]
  split
  · rfl
  · cases middle.rebuild id signal <;> rfl

/-- Redefining refuses and changes nothing, or makes what the redefined circuit asks for. -/
theorem redefine_spec (sound : net.Sound) (id : NodeId) (gate : Gate) (s t : Signal)
    (source : NodeId → Word) :
    (∃ refusal, net.redefine id gate s t = .ok (.refused refusal net)) ∨
      (net.Redefinable id s t ∧ ∃ answer after new member g,
        net.redefine id gate s t = .ok (.done answer after) ∧
        net.Redefined id gate s t source answer after new member g) := by
  rcases checkRedefine_spec sound id s t with ⟨passed, redefinable⟩ | ⟨refusal, failed⟩
  · obtain ⟨signal, middle, made, realized⟩ := redefinable.realize sound gate
    by_cases inPlace : signal = .positive id
    · subst inPlace
      obtain ⟨new, member, g, result⟩ := redefinable.in_place sound realized source
      exact .inr ⟨redefinable, _, middle, new, member, g,
        (redefine_eq passed made).trans (if_pos rfl), result⟩
    · obtain ⟨after, new, member, g, rebuilt, result⟩ :=
        redefinable.elsewhere sound realized inPlace source
      refine .inr ⟨redefinable, signal, after, new, member, g, ?_, result⟩
      rw [redefine_eq passed made, if_neg inPlace, rebuilt]
      rfl
  · exact .inl ⟨refusal, by rw [redefine, failed, guarded]⟩

theorem safe_redefine (sound : net.Sound) (id : NodeId) (gate : Gate) (s t : Signal) :
    Safe (net.redefine id gate s t) := by
  rcases redefine_spec sound id gate s t (fun _ => 0) with
    ⟨refusal, made⟩ | ⟨_, answer, after, _, _, _, made, result⟩
  · exact ⟨_, made, sound⟩
  · exact ⟨_, made, result.sound⟩

end Network

end GateNet
