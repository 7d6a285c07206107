import GateNet.Proofs.Reachable

/-!
# Gates are shared, and only equal ones

A signal denotes a normal form in a network when it is the one that realizing the form would give.
Keys are unique and gates form no cycle, so over one pair of operands signals of one node denote
forms that are equal or opposite.  Normal forms are canonical, so requests are shared exactly when
they denote equal or complementary functions.
-/

namespace GateNet

/-- Requests over the same two nodes or constants, in any order and polarity. -/
def Request.SameNodes (p q : Request) : Prop :=
  (q.left.node = p.left.node ∧ q.right.node = p.right.node) ∨
    (q.left.node = p.right.node ∧ q.right.node = p.left.node)

theorem Signal.eq_or_eq_invert {s t : Signal} (same : s.node = t.node) : s = t ∨ s = t.invert := by
  obtain ⟨node, i⟩ := s
  obtain ⟨node', j⟩ := t
  obtain rfl : node = node' := same
  cases i <;> cases j <;> simp [invert]

namespace Network

variable {net after : Network} {n : Normal} {r : Signal}

/-- The signal that carries a normal form, if the network has it already. -/
def Denotes (net : Network) : Normal → Signal → Prop
  | .settled s, r => r = s
  | .keyed key inverted, r => ∃ x, r = ⟨some x, inverted⟩ ∧ net.nodes.layout.key? x = some key

theorem Denotes.invert (denotes : net.Denotes n r) : net.Denotes n.invert r.invert := by
  cases n with
  | settled s => exact congrArg Signal.invert denotes
  | keyed key inverted =>
    obtain ⟨x, rfl, keyed⟩ := denotes
    exact ⟨x, rfl, keyed⟩

theorem Realized.denotes {reuse : Option NodeId} (realized : net.Realized reuse n r after) :
    after.Denotes n r := by
  cases n with
  | settled s =>
    cases realized
    rfl
  | keyed key inverted => exact realized.key?

theorem Denotes.mono {m : Normal} {s : Signal} (denotes : net.Denotes n r)
    (realized : net.Realized none m s after) : after.Denotes n r := by
  cases n with
  | settled _ => exact denotes
  | keyed key inverted =>
    obtain ⟨x, rfl, keyed⟩ := denotes
    refine ⟨x, rfl, ?_⟩
    obtain ⟨node, held, nodeKey⟩ := Layout.key?_eq_some_iff.mp keyed
    rw [Layout.key?_of_node (realized.layout_of_ne held (by rintro ⟨⟩)), nodeKey]

/-- What is denoted already is found, and nothing changes. -/
theorem Realized.eq_of_denotes {s : Signal} (realized : net.Realized none n s after)
    (sound : net.Sound) (denotes : net.Denotes n r) : s = r ∧ after = net := by
  cases realized with
  | settled => exact ⟨denotes.symm, rfl⟩
  | found inverted held =>
    obtain ⟨x, rfl, keyed⟩ := denotes
    rw [sound.woven.layout.unique held keyed]
    exact ⟨rfl, rfl⟩
  | added _ _ absent =>
    obtain ⟨x, _, keyed⟩ := denotes
    exact absurd keyed (absent x)

theorem Sound.ne_operand (sound : net.Sound) {x : NodeId} {key : Key}
    (keyed : net.nodes.layout.key? x = some key) : x ≠ key.first ∧ x ≠ key.second := by
  have apart : ∀ d, key.first = d ∨ key.second = d → x ≠ d := by
    rintro d operand rfl
    exact sound.woven.layout.acyclic.not_depends
      (Layout.reads_circuit_iff.mpr ⟨key, keyed, operand⟩) .refl
  exact ⟨apart _ (.inl rfl), apart _ (.inr rfl)⟩

/-- A gate does not carry the normal form of a signal over the operands of its own form. -/
theorem Sound.not_denotes_operand (sound : net.Sound) {p q : Request} (same : p.SameNodes q)
    {s : Signal} (settled : ∀ d, s.node = some d → p.left.node = some d ∨ p.right.node = some d)
    {x : NodeId} {key : Key} (keyed : net.nodes.layout.key? x = some key)
    (operands : (q.left.node = some key.first ∧ q.right.node = some key.second) ∨
      (q.left.node = some key.second ∧ q.right.node = some key.first)) : s.node ≠ some x := by
  intro here
  obtain ⟨first, second⟩ := sound.ne_operand keyed
  have either : q.left.node = some x ∨ q.right.node = some x := by
    rcases same with ⟨left, right⟩ | ⟨left, right⟩ <;> rw [left, right]
    · exact settled x here
    · exact (settled x here).symm
  rcases operands with ⟨one, two⟩ | ⟨one, two⟩ <;> rw [one, two] at either <;>
    rcases either with equal | equal
  · exact first (Option.some.inj equal).symm
  · exact second (Option.some.inj equal).symm
  · exact second (Option.some.inj equal).symm
  · exact first (Option.some.inj equal).symm

/-- Over the same nodes, forms that signals of one node carry are equal or opposite. -/
theorem Sound.eq_or_eq_invert_of_denotes (sound : net.Sound) {p q : Request} (same : p.SameNodes q)
    {r' : Signal} (denotes : net.Denotes (.ofRequest p.gate p.left p.right) r)
    (denotes' : net.Denotes (.ofRequest q.gate q.left q.right) r') (node : r'.node = r.node) :
    Normal.ofRequest q.gate q.left q.right = .ofRequest p.gate p.left p.right ∨
      Normal.ofRequest q.gate q.left q.right = (Normal.ofRequest p.gate p.left p.right).invert := by
  have same' : q.SameNodes p :=
    same.imp (fun both => ⟨both.1.symm, both.2.symm⟩) fun both => ⟨both.2.symm, both.1.symm⟩
  rcases Normal.ofRequest_cases p.gate p.left p.right with
      ⟨s, made, read⟩ | ⟨key, i, made, _, operands⟩ <;>
    rcases Normal.ofRequest_cases q.gate q.left q.right with
      ⟨s', made', read'⟩ | ⟨key', i', made', _, operands'⟩ <;>
    rw [made] at denotes ⊢ <;> rw [made'] at denotes' ⊢
  · -- Both forms are signals.
    obtain rfl : r = s := denotes
    obtain rfl : r' = s' := denotes'
    exact (Signal.eq_or_eq_invert node).imp (congrArg _) (congrArg _)
  · -- A signal over the operands is never the gate over them.
    obtain rfl : r = s := denotes
    obtain ⟨x, rfl, keyed⟩ := denotes'
    exact absurd node.symm (sound.not_denotes_operand same read keyed operands')
  · obtain rfl : r' = s' := denotes'
    obtain ⟨x, rfl, keyed⟩ := denotes
    exact absurd node (sound.not_denotes_operand same' read' keyed operands)
  · -- Both forms are keys of one gate, so they differ in polarity at most.
    obtain ⟨x, rfl, keyed⟩ := denotes
    obtain ⟨x', rfl, keyed'⟩ := denotes'
    obtain rfl : x' = x := Option.some.inj node
    obtain rfl := Option.some.inj (keyed.symm.trans keyed')
    cases i <;> cases i' <;> simp [Normal.invert]

theorem Sound.addGate (sound : net.Sound) {q : Request} (left : net.Fit q.left)
    (right : net.Fit q.right) :
    ∃ signal after, net.addGate q.gate q.left q.right = .ok (.done signal after) ∧
      net.Realized none (.ofRequest q.gate q.left q.right) signal after := by
  rcases addGate_spec sound.woven q.gate q.left q.right with
    ⟨_, _, signal, after, made, realized⟩ | ⟨unfit, _⟩
  · exact ⟨signal, after, made, realized⟩
  · exact absurd ⟨left, right⟩ unfit

/-- Sharing is complete and sharp.  After a request was carried out, a request with the same
denotation gives the same signal and one with the complementary denotation the inverted one, and
neither changes the network; a request over the same nodes with any other denotation gives a
signal that is neither. -/
theorem addGate_shares (reachable : net.Reachable) {p : Request} (left : net.Fit p.left)
    (right : net.Fit p.right) :
    ∃ r next, net.addGate p.gate p.left p.right = .ok (.done r next) ∧
      (∀ s, net.Fit s → next.Fit s) ∧
      ∀ q : Request, next.Fit q.left → next.Fit q.right →
        ((∀ v, q.eval v = p.eval v) →
          next.addGate q.gate q.left q.right = .ok (.done r next)) ∧
        ((∀ v, q.eval v = !p.eval v) →
          next.addGate q.gate q.left q.right = .ok (.done r.invert next)) ∧
        (p.SameNodes q → (¬ ∀ v, q.eval v = p.eval v) → (¬ ∀ v, q.eval v = !p.eval v) →
          ∃ r' last, next.addGate q.gate q.left q.right = .ok (.done r' last) ∧
            r' ≠ r ∧ r' ≠ r.invert) := by
  obtain ⟨r, next, made, realized⟩ := reachable.sound.addGate left right
  have sound := realized.sound reachable.sound
  refine ⟨r, next, made, fun s fit d read => realized.mayDrive (fit d read),
    fun q left right => ?_⟩
  obtain ⟨r', last, made', realized'⟩ := sound.addGate left right
  refine ⟨fun same => ?_, fun opposite => ?_, fun nodes different notOpposite => ?_⟩
  · rw [Normal.ofRequest_eq_of_eval same] at realized'
    obtain ⟨rfl, rfl⟩ := realized'.eq_of_denotes sound realized.denotes
    exact made'
  · rw [Normal.ofRequest_eq_invert_of_eval opposite] at realized'
    obtain ⟨rfl, rfl⟩ := realized'.eq_of_denotes sound realized.denotes.invert
    exact made'
  · -- Were the nodes one, the forms would be equal or opposite, and so would the functions.
    have apart : r'.node ≠ r.node := by
      intro node
      rcases (realized'.sound sound).eq_or_eq_invert_of_denotes nodes
        (realized.denotes.mono realized') realized'.denotes node with equal | equal
      · refine different fun v => ?_
        rw [Request.eval, Request.eval, ← Normal.eval_ofRequest, ← Normal.eval_ofRequest, equal]
      · refine notOpposite fun v => ?_
        rw [Request.eval, Request.eval, ← Normal.eval_ofRequest, ← Normal.eval_ofRequest, equal,
          Normal.eval_invert]
    refine ⟨r', last, made', ?_, ?_⟩
    · rintro rfl
      exact apart rfl
    · rintro rfl
      exact apart rfl

/-- After an and-gate, a nor-gate of the inverted inputs is the same gate, an or-gate of them is
its inverse, and an or-gate of the inputs is neither. -/
theorem addGate_shares_and :
    ∃ net, (withBuckets 0).runAll [.addPort "p" 2, .addInput 0 0, .addInput 0 1] = .ok net ∧
      ∃ r next, net.addGate .and (.positive 0) (.positive 1) = .ok (.done r next) ∧
        next.addGate ⟨true, false, false, false⟩ (.negative 1) (.negative 0) =
          .ok (.done r next) ∧
        next.addGate .or (.negative 0) (.negative 1) = .ok (.done r.invert next) ∧
        ∃ r' last, next.addGate .or (.positive 1) (.positive 0) = .ok (.done r' last) ∧
          r' ≠ r ∧ r' ≠ r.invert := by
  obtain ⟨net, ran, reached⟩ : ∃ net, (withBuckets 0).runAll
      [.addPort "p" 2, .addInput 0 0, .addInput 0 1] = .ok net ∧ net.Reachable :=
    (Reachable.withBuckets 0).runAll (by simp)
  have checked : (((withBuckets 0).runAll
      [.addPort "p" 2, .addInput 0 0, .addInput 0 1]).toOption.bind fun net =>
        (net.checkDrivers (.positive 0) (.positive 1)).toOption) = some () := by
    decide +kernel
  rw [ran] at checked
  change (net.checkDrivers (.positive 0) (.positive 1)).toOption = some () at checked
  rcases net.checkDrivers_spec (.positive 0) (.positive 1) with
    ⟨_, left, right⟩ | ⟨refusal, failed, _⟩
  · obtain ⟨r, next, made, kept, shares⟩ :=
      addGate_shares reached (p := ⟨.and, .positive 0, .positive 1⟩) left right
    have first := kept _ left
    have second := kept _ right
    refine ⟨net, ran, r, next, made, ?_, ?_, ?_⟩
    · refine (shares ⟨⟨true, false, false, false⟩, .negative 1, .negative 0⟩ second first).1 ?_
      intro v
      simp only [Request.eval, Signal.eval, Signal.positive, Signal.negative]
      cases v 0 <;> cases v 1 <;> rfl
    · refine (shares ⟨.or, .negative 0, .negative 1⟩ first second).2.1 ?_
      intro v
      simp only [Request.eval, Signal.eval, Signal.positive, Signal.negative]
      cases v 0 <;> cases v 1 <;> rfl
    · refine (shares ⟨.or, .positive 1, .positive 0⟩ second first).2.2 (.inr ⟨rfl, rfl⟩) ?_ ?_
      · exact fun same => absurd (same fun id => id == 0) (by decide)
      · exact fun opposite => absurd (opposite fun _ => false) (by decide)
  · rw [failed] at checked
    cases checked

end Network

end GateNet
