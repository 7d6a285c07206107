import GateNet.Proofs.Checks
import GateNet.Proofs.Meaning

/-!
# Pattern by pattern

A word holds sixty-four patterns, and evaluating words is evaluating each pattern on its own.  The
reference is a recursion on Booleans: it knows one pattern only, and no order of evaluation.  The
recursion on words is projected to it bit by bit.
-/

namespace GateNet

namespace Network

variable {net : Network} {words : List Word} {pattern : List Bool} {id : NodeId} {k : Nat}

/-- One bit of every word. -/
def patternAt (words : List Word) (k : Nat) : List Bool :=
  words.map fun word => word.getLsbD k

/-- The recursive evaluation of a node on one pattern: an input has its own bit, and a gate applies
its function to the values of its operands. -/
inductive Computes (net : Network) (pattern : List Bool) : NodeId → Bool → Prop
  | input {id : NodeId} {bit : Bool} (given : (id, bit) ∈ net.inputs.toList.zip pattern) :
      Computes net pattern id bit
  | gate {id a b : NodeId} {n : Node} {x y : Bool} (found : net.node? id = some n)
      (operands : n.gateOperands = some (a, b)) (first : Computes net pattern a x)
      (second : Computes net pattern b y) : Computes net pattern id (n.gate.eval x y)

/-- What an output shows on one pattern: the value of its driver, which is `false` while there is
none, inverted when its flag is set. -/
inductive Shows (net : Network) (pattern : List Bool) (id : NodeId) : Bool → Prop
  | undriven {n : Node} (found : net.node? id = some n) (first : n.first = none) :
      Shows net pattern id (false ^^ n.inverted)
  | driven {n : Node} {d : NodeId} {x : Bool} (found : net.node? id = some n)
      (first : n.first = some d) (computed : Computes net pattern d x) :
      Shows net pattern id (x ^^ n.inverted)

/-! ## One value for each node -/

theorem Sound.computes_unique (sound : net.Sound) {x y : Bool} (one : net.Computes pattern id x)
    (two : net.Computes pattern id y) : x = y := by
  -- No node is both an input and a gate, so both derivations end with the same rule.
  have apart : ∀ {id a b n bit}, (id, bit) ∈ net.inputs.toList.zip pattern →
      net.node? id = some n → n.gateOperands = some (a, b) → False := by
    intro id a b n bit given found operands
    exact sound.not_hasGate_of_input (Array.mem_toList_iff.mp (List.of_mem_zip given).1)
      (Layout.hasGate_of_key?
        ((Layout.key?_of_get? found).trans (Node.key?_of_gateOperands operands)))
  induction one generalizing y with
  | input given =>
    cases two with
    | input given' =>
      have same := lookup_eq_some_of_mem sound.nodup_inputs given'
      rw [lookup_eq_some_of_mem sound.nodup_inputs given] at same
      exact Option.some.inj same
    | gate found operands => exact (apart given found operands).elim
  | gate found operands _ _ firstHypothesis secondHypothesis =>
    cases two with
    | input given => exact (apart given found operands).elim
    | gate found' operands' first second =>
      obtain rfl := Option.some.inj (found.symm.trans found')
      obtain ⟨rfl, rfl⟩ := Prod.mk.inj (Option.some.inj (operands.symm.trans operands'))
      rw [firstHypothesis first, secondHypothesis second]

theorem Sound.shows_unique (sound : net.Sound) {x y : Bool} (one : net.Shows pattern id x)
    (two : net.Shows pattern id y) : x = y := by
  cases one with
  | undriven found first =>
    cases two with
    | undriven found' => rw [Option.some.inj (found.symm.trans found')]
    | driven found' first' =>
      obtain rfl := Option.some.inj (found.symm.trans found')
      cases first.symm.trans first'
  | driven found first computed =>
    cases two with
    | undriven found' first' =>
      obtain rfl := Option.some.inj (found.symm.trans found')
      cases first.symm.trans first'
    | driven found' first' computed' =>
      obtain rfl := Option.some.inj (found.symm.trans found')
      obtain rfl := Option.some.inj (first.symm.trans first')
      rw [sound.computes_unique computed computed']

/-! ## Projecting words -/

theorem mem_zip_patternAt {word : Word} (given : net.inputWord words id = some word) :
    (id, word.getLsbD k) ∈ net.inputs.toList.zip (patternAt words k) := by
  obtain ⟨before, after, split, _⟩ := List.lookup_eq_some_iff.mp given
  rw [patternAt, List.zip_map_right]
  exact List.mem_map.mpr ⟨(id, word), by simp [split], rfl⟩

/-- Every recursion on words is, at each bit, the recursion on the pattern of that bit. -/
theorem computes_of_evaluates (small : k < 64) {s : Signal} {word : Word}
    (evaluates : net.Evaluates words s word) {d : NodeId} (read : s.node = some d) :
    ∃ x, net.Computes (patternAt words k) d x ∧ word.getLsbD k = (x ^^ s.inverted) := by
  induction evaluates generalizing d with
  | constant inverted => cases read
  | @input id word inverted given =>
    cases read
    exact ⟨_, .input (mem_zip_patternAt given), Signal.getLsbD_polarize inverted word small⟩
  | @gate id r a b inverted _ held _ _ leftHypothesis rightHypothesis =>
    cases read
    obtain ⟨key, keyed, rfl⟩ := Layout.circuit_eq_some_iff.mp held
    obtain ⟨m, live, nodeKey⟩ := Layout.key?_eq_some_iff.mp keyed
    obtain ⟨n, found, rfl⟩ := Store.layout_eq_some_iff.mp live
    obtain ⟨operands, gate⟩ := Node.gateOperands_of_key? nodeKey
    -- The operands of a gate are not inverted.
    obtain ⟨x, first, bitFirst⟩ := leftHypothesis rfl
    obtain ⟨y, second, bitSecond⟩ := rightHypothesis rfl
    refine ⟨_, .gate found operands first second, ?_⟩
    rw [Signal.getLsbD_polarize _ _ small, Gate.getLsbD_evalWords _ _ _ _ small, bitFirst, bitSecond]
    simp [Key.request, Signal.positive, ← gate]

theorem shows_of_evaluates (small : k < 64) {n : Node} {word : Word}
    (found : net.node? id = some n) (evaluates : net.Evaluates words (net.sourceOf id) word) :
    net.Shows (patternAt words k) id (word.getLsbD k) := by
  rw [sourceOf_eq (Store.layout_of_get? found), Node.core_source] at evaluates
  cases first : n.first with
  | none =>
    rw [Node.source, first] at evaluates
    cases evaluates with
    | constant =>
      rw [Signal.getLsbD_polarize _ _ small, BitVec.ofNat_eq_ofNat, BitVec.getLsbD_zero]
      exact .undriven found first
  | some d =>
    obtain ⟨x, computed, bit⟩ := computes_of_evaluates small evaluates (d := d) first
    rw [bit]
    exact .driven found first computed

/-! ## Evaluation -/

/-- The outputs show these bits on a pattern, one each, and no others. -/
def Shown (net : Network) (pattern bits : List Bool) : Prop :=
  List.Forall₂ (fun o bit => ∀ value, net.Shows pattern o value ↔ value = bit)
    net.outputs.toList bits

theorem Shown.unique {one two : List Bool} (first : net.Shown pattern one)
    (second : net.Shown pattern two) : one = two :=
  List.right_unique_forall₂' (fun _ _ _ here there => (there _).mp ((here _).mpr rfl)) first second

theorem Sound.shown_of_evaluate (sound : net.Sound) (length : words.length = net.inputs.size)
    (small : k < 64) {results : List Word} (evaluated : net.evaluate words = .ok results) :
    net.Shown (patternAt words k) (patternAt results k) := by
  obtain ⟨results', evaluated', matched⟩ := sound.evaluate length
  obtain rfl := Except.ok.inj (evaluated.symm.trans evaluated')
  have live : ∀ o ∈ net.outputs.toList, ∃ n, net.node? o = some n := by
    intro o listed
    obtain ⟨m, held, _⟩ := sound.mem_outputs_iff.mp (Array.mem_toList_iff.mp listed)
    exact (Store.layout_eq_some_iff.mp held).imp fun _ => And.left
  refine List.forall₂_map_right_iff.mpr
    (((List.forall₂_and_left _ _).mpr ⟨live, matched⟩).imp fun o word known value => ?_)
  obtain ⟨⟨n, found⟩, evaluates⟩ := known
  have shows := shows_of_evaluates small found evaluates
  exact ⟨fun other => sound.shows_unique other shows, fun same => same ▸ shows⟩

/-- Evaluation gives, at each bit, what the recursion gives on the pattern of that bit, and so no
other bit matters. -/
theorem Reachable.evaluate_patternAt (reachable : net.Reachable)
    (length : words.length = net.inputs.size) :
    ∃ results, net.evaluate words = .ok results ∧
      (∀ k < 64, net.Shown (patternAt words k) (patternAt results k)) ∧
      ∀ others results', net.evaluate others = .ok results' → ∀ k < 64,
        patternAt others k = patternAt words k → patternAt results' k = patternAt results k := by
  have sound := reachable.sound
  obtain ⟨results, evaluated, _⟩ := sound.evaluate length
  refine ⟨results, evaluated, fun k small => sound.shown_of_evaluate length small evaluated,
    fun others results' evaluated' k small same => ?_⟩
  -- One bit of each word tells how many words there are.
  have length' : others.length = net.inputs.size := by
    rw [← length]
    simpa [patternAt] using congrArg List.length same
  have shown := sound.shown_of_evaluate length' small evaluated'
  rw [same] at shown
  exact shown.unique (sound.shown_of_evaluate length small evaluated)

/-- Three outputs: an inverted gate over a gate, the constant `true`, and one without a driver. -/
def shownCommands : List Command :=
  [.addPort "p" 3, .addInput 0 0, .addInput 0 1, .addOutput 0 0, .addOutput 0 1, .addOutput 0 2,
    .addGate .and (.positive 0) (.positive 1), .addGate .xor (.positive 0) (.positive 5),
    .drive 2 (.negative 6), .drive 3 .one]

/-- Words that agree at the lowest bit have results that agree there. -/
theorem evaluate_patternAt_shown :
    ∃ net, (withBuckets 0).runAll shownCommands = .ok net ∧
      net.evaluate [5, 3] = .ok [~~~4, ~~~0, 0] ∧ net.evaluate [1, 1] = .ok [~~~0, ~~~0, 0] ∧
      (∀ k < 64, net.Shown (patternAt [5, 3] k) (patternAt [~~~4, ~~~0, 0] k)) ∧
      patternAt [1, 1] 0 = patternAt [5, 3] 0 ∧
      patternAt [~~~0, ~~~0, 0] 0 = patternAt [~~~4, ~~~0, 0] 0 := by
  refine exists_runAll
    (fun net => (net.inputs.size, (net.evaluate [5, 3]).toOption, (net.evaluate [1, 1]).toOption))
    (2, some [~~~4, ~~~0, 0], some [~~~0, ~~~0, 0])
    (by simp [shownCommands]) (by decide +kernel) ?_
  intro net reached seen
  obtain ⟨inputs, first, second⟩ : net.inputs.size = 2 ∧
      net.evaluate [5, 3] = .ok [~~~4, ~~~0, 0] ∧ net.evaluate [1, 1] = .ok [~~~0, ~~~0, 0] := by
    simpa only [Prod.mk.injEq, toOption_eq_some_iff] using seen
  have length : ([5, 3] : List Word).length = net.inputs.size := inputs.symm
  obtain ⟨results, evaluated, shown, same⟩ := reached.evaluate_patternAt length
  obtain rfl := Except.ok.inj (evaluated.symm.trans first)
  have agreed : patternAt [1, 1] 0 = patternAt [5, 3] 0 := by decide
  exact ⟨first, second, shown, agreed, same [1, 1] _ second 0 (by decide) agreed⟩

end Network

end GateNet
