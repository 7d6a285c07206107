import GateNet.Proofs.Reachable

/-!
# Gates as expressions

Followed back to the inputs, a gate unfolds into an expression: a tree whose inner nodes are the
functions of gates and whose leaves are inputs.  Exchanging the operands of an inner node, and the
two inputs of its function with them, gives an expression that says the same.

A network shares as much as it can: no two gates unfold into expressions that differ by such
exchanges only.  Keys are unique, but a key is only one step deep.  What carries the argument to
the leaves is that an expression names at most one node however its operands are exchanged,
because the operands of a gate are in increasing order.
-/

namespace GateNet

/-- A tree of gates over inputs. -/
inductive Expression
  | input (id : NodeId)
  | apply (gate : Gate) (first second : Expression)
  deriving DecidableEq, Repr

namespace Expression

/-- Equal but for exchanged operands: the least congruence in which the operands of a gate may be
exchanged together with the inputs of its function. -/
inductive Alike : Expression → Expression → Prop
  | exchange (gate : Gate) (first second : Expression) :
      Alike (.apply gate first second) (.apply gate.swap second first)
  | apply {gate : Gate} {first second first' second' : Expression} :
      Alike first first' → Alike second second' →
      Alike (.apply gate first second) (.apply gate first' second')
  | refl (e : Expression) : Alike e e
  | symm {e f : Expression} : Alike e f → Alike f e
  | trans {e f g : Expression} : Alike e f → Alike f g → Alike e g

end Expression

namespace Layout

variable {L : Layout} {x y : NodeId} {e f : Expression}

/-- A node unfolds into the expression that is read off when its drivers are followed back to the
inputs. -/
inductive Unfolds (L : Layout) : NodeId → Expression → Prop
  | input {id : NodeId} {n : Node} (held : L id = some n) (isInput : n.isInput = true) :
      Unfolds L id (.input id)
  | gate {id : NodeId} {key : Key} {first second : Expression} (keyed : L.key? id = some key)
      (left : Unfolds L key.first first) (right : Unfolds L key.second second) :
      Unfolds L id (.apply key.gate first second)

/-- An expression names a node when some exchange of operands is what the node unfolds into. -/
def Names (L : Layout) : Expression → NodeId → Prop
  | .input id, x => x = id
  | .apply g first second, x => ∃ a b, L.Names first a ∧ L.Names second b ∧
      (L.key? x = some ⟨g, a, b⟩ ∨ L.key? x = some ⟨g.swap, b, a⟩)

theorem Unfolds.names (unfolds : L.Unfolds x e) : L.Names e x := by
  induction unfolds with
  | input _ _ => rfl
  | gate keyed _ _ left right => exact ⟨_, _, left, right, .inl keyed⟩

/-! ## Existence and uniqueness -/

theorem key?_of_isInput {n : Node} (held : L x = some n) (isInput : n.isInput = true) :
    L.key? x = none := by
  rw [key?_of_node held]
  exact Node.key?_of_not_isGate (Node.not_isGate_of_isInput isInput)

/-- A node unfolds into one expression at most. -/
theorem Unfolds.unique (one : L.Unfolds x e) (two : L.Unfolds x f) : e = f := by
  induction one generalizing f with
  | input held isInput =>
    cases two with
    | input _ _ => rfl
    | gate keyed _ _ =>
      rw [key?_of_isInput held isInput] at keyed
      cases keyed
  | gate keyed _ _ left right =>
    cases two with
    | input held isInput =>
      rw [key?_of_isInput held isInput] at keyed
      cases keyed
    | gate keyed' left' right' =>
      obtain rfl := Option.some.inj (keyed.symm.trans keyed')
      rw [left left', right right']

/-- Every node that may drive others unfolds, because gates form no cycle. -/
theorem Sound.exists_unfolds (sound : L.Sound) (drives : L.MayDrive x) : ∃ e, L.Unfolds x e := by
  obtain ⟨rank, ranked⟩ := sound.acyclic
  induction height : rank x using Nat.strong_induction_on generalizing x with
  | _ height inductionHypothesis =>
    subst height
    obtain ⟨n, held, notOutput⟩ := drives
    cases isGate : n.isGate with
    | false =>
      have isInput : n.isInput = true := by
        simpa [Node.isOutput_eq, isGate] using notOutput
      exact ⟨.input x, .input held isInput⟩
    | true =>
      obtain ⟨key, keyed, _⟩ := sound.key?_of_hasGate ⟨n, held, isGate⟩
      -- Both operands may drive as well, and they rank below the gate.
      have below : ∀ d, key.first = d ∨ key.second = d → ∃ e, L.Unfolds d e := by
        intro d operand
        have read := reads_circuit_iff.mpr ⟨key, keyed, operand⟩
        exact inductionHypothesis (rank d) (ranked x d read)
          (sound.mayDrive_operand keyed operand) rfl
      obtain ⟨first, left⟩ := below key.first (.inl rfl)
      obtain ⟨second, right⟩ := below key.second (.inr rfl)
      exact ⟨.apply key.gate first second, .gate keyed left right⟩

/-! ## Exchanging operands -/

/-- Expressions that are equal but for exchanged operands name the same nodes. -/
theorem names_iff_of_alike (alike : e.Alike f) : L.Names e x ↔ L.Names f x := by
  induction alike generalizing x with
  | exchange gate first second =>
    -- Swapping twice gives the function back, so both shapes of a key only change places.
    constructor
    · intro named
      obtain ⟨a, b, left, right, keyed⟩ := named
      exact ⟨b, a, right, left, keyed.symm⟩
    · intro named
      obtain ⟨b, a, right, left, keyed⟩ := named
      exact ⟨a, b, left, right, keyed.symm⟩
  | apply _ _ first second => simp only [Names, first, second]
  | refl _ => exact Iff.rfl
  | symm _ same => exact same.symm
  | trans _ _ same same' => exact same.trans same'

/-- An expression names one node at most. -/
theorem Sound.names_unique (sound : L.Sound) (one : L.Names e x) (two : L.Names e y) : x = y := by
  induction e generalizing x y with
  | input id => exact Eq.trans one (Eq.symm two)
  | apply gate first second left right =>
    obtain ⟨a, b, namedFirst, namedSecond, keyed⟩ := one
    obtain ⟨a', b', namedFirst', namedSecond', keyed'⟩ := two
    obtain rfl := left namedFirst namedFirst'
    obtain rfl := right namedSecond namedSecond'
    -- With the operands in one order for `x` and in the other for `y`, both orders would increase.
    have apart : ∀ {x y g h}, L.key? x = some ⟨g, a, b⟩ → L.key? y = some ⟨h, b, a⟩ → False := by
      intro x y g h straight crossed
      exact Nat.lt_asymm (sound.proper straight).ordered (sound.proper crossed).ordered
    cases keyed with
    | inl straight =>
      cases keyed' with
      | inl straight' => exact sound.unique straight straight'
      | inr crossed' => exact (apart straight crossed').elim
    | inr crossed =>
      cases keyed' with
      | inl straight' => exact (apart straight' crossed).elim
      | inr crossed' => exact sound.unique crossed crossed'

theorem Sound.eq_of_alike (sound : L.Sound) (left : L.Unfolds x e) (right : L.Unfolds y f)
    (alike : e.Alike f) : x = y :=
  sound.names_unique ((names_iff_of_alike alike).mp left.names) right.names

end Layout

/-! ## Reachable networks -/

namespace Network

/-- Maximal sharing.  Every live gate unfolds into exactly one expression, and two nodes that
unfold into expressions alike are the same node. -/
theorem Reachable.maximally_shared {net : Network} (reachable : net.Reachable) :
    (∀ id, net.nodes.layout.HasGate id → ∃! e, net.nodes.layout.Unfolds id e) ∧
    ∀ x y e f, net.nodes.layout.Unfolds x e → net.nodes.layout.Unfolds y f →
      (e.Alike f ↔ x = y) := by
  have sound := reachable.sound.woven.layout
  constructor
  · intro id gate
    obtain ⟨e, unfolds⟩ := sound.exists_unfolds gate.mayDrive
    exact ⟨e, unfolds, fun f unfolds' => unfolds'.unique unfolds⟩
  · intro x y e f left right
    refine ⟨sound.eq_of_alike left right, ?_⟩
    intro same
    subst same
    rw [left.unique right]
    exact .refl f

/-- What is left of three inputs is built in two gates, and a gate that is redefined on the way
merges into the first.  However its operands are exchanged, the expression names the second gate
alone. -/
theorem maximally_shared_exchanged :
    ∃ net, (withBuckets 0).runAll [.addPort "p" 3, .addInput 0 0, .addInput 0 1, .addInput 0 2,
        .addGate .onlyFirst (.positive 0) (.positive 1),
        .addGate .onlyFirst (.positive 3) (.positive 2), .addGate .or (.positive 0) (.positive 1),
        .redefine 5 .onlyFirst (.positive 0) (.positive 1)] = .ok net ∧
      (∃! e, net.nodes.layout.Unfolds 4 e) ∧
      ∀ y f, net.nodes.layout.Unfolds y f → Expression.Alike
        (.apply .onlyFirst (.apply .onlyFirst (.input 0) (.input 1)) (.input 2)) f → y = 4 := by
  refine exists_runAll (fun net => (net.nodes.layout.key? 3, net.nodes.layout.key? 4,
      [0, 1, 2].map fun id => (net.nodes.layout id).map Node.isInput))
    (some ⟨.onlyFirst, 0, 1⟩, some ⟨.onlySecond, 2, 3⟩, [some true, some true, some true])
    (by simp) (by decide +kernel) ?_
  intro net reached evaluated
  simp only [List.map_cons, List.map_nil, Prod.mk.injEq, List.cons.injEq, and_true,
    Option.map_eq_some_iff] at evaluated
  obtain ⟨inner, outer, ⟨a, heldA, inputA⟩, ⟨b, heldB, inputB⟩, ⟨c, heldC, inputC⟩⟩ := evaluated
  have unfolds : net.nodes.layout.Unfolds 4
      (.apply .onlySecond (.input 2) (.apply .onlyFirst (.input 0) (.input 1))) :=
    .gate outer (.input heldC inputC) (.gate inner (.input heldA inputA) (.input heldB inputB))
  obtain ⟨unfoldsOnce, shared⟩ := reached.maximally_shared
  refine ⟨unfoldsOnce 4 (Layout.hasGate_of_key? outer), ?_⟩
  intro y f unfolds' alike
  exact ((shared 4 y _ f unfolds unfolds').mp (.trans (.exchange ..) alike)).symm

end Network

end GateNet
