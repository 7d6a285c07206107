import GateNet.Network.Depth
import GateNet.Network.Evaluation
import GateNet.Proofs.Order

/-!
# Arrays hold the solution

Evaluation and depth both fill an array along an order of evaluation.  Entry by entry the array
agrees with the solution of the equations between the nodes, so what is read off at the end is
the solution at the outputs.
-/

namespace GateNet

namespace Network

variable {net : Network}

/-- The gates are entered so that every node that may drive has its value of the solution. -/
theorem enterGates_spec {α : Type} (sound : net.Sound) {order : List NodeId}
    (ordered : net.nodes.layout.DriversFirst order)
    (enter : Array α → NodeId → Except Fault (Array α)) (combine : Key → α → α → α)
    (enters : ∀ {entries id key x y}, net.nodes.layout.key? id = some key →
      entries[key.first]? = some x → entries[key.second]? = some y →
      enter entries id = storeAt entries id (combine key x y))
    {v : NodeId → α} (solves : ∀ {id key}, net.nodes.layout.key? id = some key →
      v id = combine key (v key.first) (v key.second))
    {start : Array α} (size : start.size = net.nodes.bound)
    (inputs : ∀ id ∈ net.inputs, start[id]? = some (v id)) :
    ∃ final, order.foldlM enter start = .ok final ∧ final.size = net.nodes.bound ∧
      (∀ id, net.nodes.layout.MayDrive id → final[id]? = some (v id)) ∧
      ∀ id, ¬ net.nodes.layout.HasGate id → final[id]? = start[id]? := by
  obtain ⟨final, folded, size, known, kept⟩ := foldlM_spec enter order start
    (fun before (entries : Array α) => entries.size = net.nodes.bound ∧
      (∀ id, id ∈ net.inputs ∨ id ∈ before → entries[id]? = some (v id)) ∧
      ∀ id, ¬ net.nodes.layout.HasGate id → entries[id]? = start[id]?)
    ⟨size, fun id listed => inputs id (by simpa using listed), fun _ _ => rfl⟩ <| by
      rintro before id after entries split ⟨size, known, kept⟩
      have gate := (ordered.exact id).mp (by simp [split])
      obtain ⟨key, keyed, _⟩ := sound.woven.layout.key?_of_hasGate gate
      -- The operands are inputs, or gates that come earlier in the order.
      have operand : ∀ d, key.first = d ∨ key.second = d → entries[d]? = some (v d) := by
        intro d operand
        have read := Layout.reads_circuit_iff.mpr ⟨key, keyed, operand⟩
        refine known d ?_
        exact (sound.mayDrive_iff.mp (sound.woven.layout.mayDrive_of_reads read)).imp_right
          (ordered.earlier split read)
      have small : id < entries.size := by
        obtain ⟨n, held, _⟩ := gate
        rw [size]
        exact sound.lt_bound held
      refine ⟨_, (enters keyed (operand _ (.inl rfl)) (operand _ (.inr rfl))).trans
        (storeAt_eq small _), ?_, fun x listed => ?_, fun x notGate => ?_⟩
      · rw [Array.size_setIfInBounds, size]
      · by_cases same : x = id
        · subst same
          rw [Array.getElem?_setIfInBounds_self_of_lt small, ← solves keyed]
        · rw [Array.getElem?_setIfInBounds_ne (Ne.symm same)]
          refine known x (listed.imp_right fun listed => ?_)
          simpa [same] using listed
      · have other : id ≠ x := by
          rintro rfl
          exact notGate gate
        rw [Array.getElem?_setIfInBounds_ne other, kept x notGate]
  refine ⟨final, folded, size, fun id drives => known id ?_, kept⟩
  exact (sound.mayDrive_iff.mp drives).imp_right (ordered.exact id).mpr

/-! ## Words -/

/-- The word that is given for an input. -/
def inputWord (net : Network) (words : List Word) (id : NodeId) : Option Word :=
  (net.inputs.toList.zip words).lookup id

/-- Words of all nodes that may drive, from words of the inputs. -/
def Carries (net : Network) (words : List Word) (v : NodeId → Word) : Prop :=
  ∀ id, net.nodes.layout.MayDrive id → net.nodes.layout.circuit.Solves (fun r v => r.word v)
    (fun id => (net.inputWord words id).getD 0) v id

/-- What an output reads; the constant `false` for an id without a node. -/
def sourceOf (net : Network) (id : NodeId) : Signal :=
  ((net.nodes.layout id).map Node.source).getD .zero

theorem sourceOf_eq {id : NodeId} {n : Node} (held : net.nodes.layout id = some n) :
    net.sourceOf id = n.source := by
  rw [sourceOf, held]
  rfl

theorem Sound.exists_carries (sound : net.Sound) (words : List Word) :
    ∃ v, net.Carries words v := by
  obtain ⟨v, solves⟩ : ∃ v, ∀ id, net.nodes.layout.circuit.Solves (fun r v => r.word v)
      (fun id => (net.inputWord words id).getD 0) v id :=
    Circuit.exists_solution sound.woven.layout.acyclic Request.local_word
  exact ⟨v, fun id _ => solves id⟩

theorem lookup_eq_some_of_mem {α : Type} {keys : List NodeId} {words : List α}
    (nodup : keys.Nodup) {id : NodeId} {word : α} (listed : (id, word) ∈ keys.zip words) :
    (keys.zip words).lookup id = some word := by
  induction keys generalizing words with
  | nil => simp at listed
  | cons key keys inductionHypothesis =>
    obtain ⟨fresh, nodup⟩ := List.nodup_cons.mp nodup
    cases words with
    | nil => simp at listed
    | cons first words =>
      rw [List.zip_cons_cons, List.mem_cons] at listed
      rw [List.zip_cons_cons, List.lookup_cons]
      rcases listed with same | listed
      · obtain ⟨rfl, rfl⟩ := Prod.mk.inj same
        simp
      · have other : id ≠ key := by
          rintro rfl
          exact fresh (List.of_mem_zip listed).1
        have unequal : (id == key) = false := beq_eq_false_iff_ne.mpr other
        rw [unequal]
        exact inductionHypothesis nodup listed

theorem Sound.nodup_inputs (sound : net.Sound) : net.inputs.toList.Nodup :=
  (sound.registered .inputs).1

theorem Sound.inputWord_isSome (sound : net.Sound) {words : List Word}
    (length : words.length = net.inputs.size) {id : NodeId} (input : id ∈ net.inputs) :
    ∃ word, (id, word) ∈ net.inputs.toList.zip words ∧ net.inputWord words id = some word := by
  obtain ⟨i, small, held⟩ := List.getElem_of_mem (Array.mem_toList_iff.mpr input)
  have small' : i < words.length := by
    rw [length]
    simpa using small
  have listed : (id, words[i]) ∈ net.inputs.toList.zip words := by
    rw [← held, ← List.getElem_zip (h := by simp [length] at small ⊢; exact small)]
    exact List.getElem_mem _
  exact ⟨words[i], listed, lookup_eq_some_of_mem sound.nodup_inputs listed⟩

theorem inputWord_eq_none {words : List Word} {id : NodeId} (other : id ∉ net.inputs) :
    net.inputWord words id = none := by
  rw [inputWord, List.lookup_eq_none_iff]
  rintro ⟨x, word⟩ listed
  have input := Array.mem_toList_iff.mp (List.of_mem_zip listed).1
  have different : id ≠ x := by
    rintro rfl
    exact other input
  simpa using different

theorem enterInputs_spec (sound : net.Sound) {words : List Word}
    (length : words.length = net.inputs.size) {v : NodeId → Word} (carries : net.Carries words v) :
    ∃ start, net.enterInputs words = .ok start ∧ start.size = net.nodes.bound ∧
      ∀ id ∈ net.inputs, start[id]? = some (v id) := by
  obtain ⟨start, folded, size, known⟩ := foldlM_spec
    (fun (values : Array Word) (entry : NodeId × Word) => storeAt values entry.1 entry.2)
    (net.inputs.toList.zip words) (Array.replicate net.nodes.bound 0)
    (fun before (values : Array Word) => values.size = net.nodes.bound ∧
      ∀ id word, (id, word) ∈ before → values[id]? = some (v id))
    ⟨Array.size_replicate, by simp⟩ <| by
      rintro before ⟨id, word⟩ after values split ⟨size, known⟩
      have listed : (id, word) ∈ net.inputs.toList.zip words := by simp [split]
      have input := Array.mem_toList_iff.mp (List.of_mem_zip listed).1
      obtain ⟨n, held, isInput⟩ := sound.mem_inputs_iff.mp input
      have small : id < values.size := by
        rw [size]
        exact sound.lt_bound held
      have value : v id = word := by
        have equation := carries id (sound.mayDrive_iff.mpr (.inl input))
        rw [Circuit.Solves,
          Layout.circuit_of_not_hasGate (sound.not_hasGate_of_input input)] at equation
        rw [equation, inputWord,
          lookup_eq_some_of_mem sound.nodup_inputs listed, Option.getD_some]
      refine ⟨_, storeAt_eq small word, by rw [Array.size_setIfInBounds, size],
        fun x other here => ?_⟩
      by_cases same : x = id
      · subst same
        rw [Array.getElem?_setIfInBounds_self_of_lt small, value]
      · rw [Array.getElem?_setIfInBounds_ne (Ne.symm same)]
        refine known x other ?_
        simpa [same] using here
  refine ⟨start, folded, size, fun id input => ?_⟩
  obtain ⟨word, listed, _⟩ := sound.inputWord_isSome length input
  exact known id word listed

/-- Evaluation gives the words that the outputs read. -/
theorem evaluate_eq (sound : net.Sound) {words : List Word}
    (length : words.length = net.inputs.size) {v : NodeId → Word} (carries : net.Carries words v) :
    net.evaluate words = .ok (net.outputs.toList.map fun id => (net.sourceOf id).word v) := by
  obtain ⟨start, entered, size, inputs⟩ := enterInputs_spec sound length carries
  obtain ⟨order, orderEq, ordered⟩ := driversFirst_spec sound
  -- Entering a gate computes what its equation asks for.
  obtain ⟨final, folded, _, known, _⟩ := enterGates_spec sound ordered net.enterGate
    (fun key x y => key.gate.evalWords x y)
    (fun {entries id key x y} keyed first second => by
      obtain ⟨n, held, nodeKey⟩ := Layout.key?_eq_some_iff.mp keyed
      obtain ⟨m, found, rfl⟩ := Store.layout_eq_some_iff.mp held
      obtain ⟨operands, gate⟩ := Node.gateOperands_of_key? nodeKey
      rw [Node.core_gateOperands] at operands
      simp only [enterGate, Store.fetch_of_get? found, ok_bind, operands,
        fetchAt_eq_ok_iff.mpr first, fetchAt_eq_ok_iff.mpr second]
      rw [← gate, Node.core_gate])
    (fun {id key} keyed => by
      have equation := carries id (Layout.hasGate_of_key? keyed).mayDrive
      rw [Circuit.Solves, Layout.circuit_of_key? keyed] at equation
      exact equation)
    size inputs
  have read : ∀ id ∈ net.outputs.toList, net.readOutput final id =
      .ok ((net.sourceOf id).word v) := by
    intro id listed
    obtain ⟨n, held, _⟩ := sound.mem_outputs_iff.mp (Array.mem_toList_iff.mp listed)
    obtain ⟨m, found, rfl⟩ := Store.layout_eq_some_iff.mp held
    rw [sourceOf_eq held, readOutput, Store.fetch_of_get? found, ok_bind]
    cases first : m.first with
    | none => simp [Signal.word, Signal.polarize, Node.source, first]
    | some d =>
      have drives := sound.woven.layout.driven (p := .first) held first
      simp [fetchAt_eq_ok_iff.mpr (known d drives), Signal.word, Signal.polarize, Node.source, first]
  have outputs : net.outputWords words =
      .ok (net.outputs.toList.map fun id => (net.sourceOf id).word v) := by
    rw [outputWords, values, entered, ok_bind, orderEq, ok_bind, folded, ok_bind]
    exact mapM_eq read
  rw [evaluate, if_pos length, outputs]
  rfl

/-! ## Depth -/

theorem local_heightAbove : Request.Local heightAbove := by
  intro r v w same
  have operand : ∀ s : Signal, (∀ d, s.node = some d → r.Reads d) →
      s.node.elim 0 v = s.node.elim 0 w := by
    intro s read
    cases node : s.node with
    | none => rfl
    | some d => exact same d (read d node)
  rw [heightAbove, heightAbove, operand r.left fun _ => .inl, operand r.right fun _ => .inr]

theorem Sound.exists_heights (sound : net.Sound) : ∃ h, Heights net.nodes.layout h :=
  Circuit.exists_solution sound.woven.layout.acyclic local_heightAbove

theorem Heights.gate {L : Layout} {h : NodeId → Nat} (heights : Heights L h) {id : NodeId}
    {key : Key} (keyed : L.key? id = some key) : h id = 1 + max (h key.first) (h key.second) := by
  have equation := heights id
  rwa [Circuit.Solves, Layout.circuit_of_key? keyed] at equation

theorem Heights.source {L : Layout} {h : NodeId → Nat} (heights : Heights L h) {id : NodeId}
    (unkeyed : L.key? id = none) : h id = 0 := by
  have equation := heights id
  rwa [Circuit.Solves, Layout.circuit, unkeyed] at equation

/-! The depths of the gates come first.  Then every output takes the depth of its driver, which is
no output, so that what is entered for one output is not changed by a later one. -/

/-- Depths are entered for what may drive and for some of the outputs; all other entries are
blank. -/
structure DepthsEntered (net : Network) (h : NodeId → Nat) (before : List NodeId)
    (depths : Array Nat) : Prop where
  size : depths.size = net.nodes.bound
  drivers : ∀ id, net.nodes.layout.MayDrive id → depths[id]? = some (h id)
  done : ∀ id ∈ before, depths[id]? = some (sourceHeight net.nodes.layout h id)
  waits : ∀ id, id < net.nodes.bound → ¬ net.nodes.layout.MayDrive id → id ∉ before →
    depths[id]? = some 0

theorem Sound.output_waits (sound : net.Sound) {id : NodeId} (output : id ∈ net.outputs) :
    id < net.nodes.bound ∧ ¬ net.nodes.layout.MayDrive id := by
  obtain ⟨n, held, isOutput⟩ := sound.mem_outputs_iff.mp output
  exact ⟨sound.lt_bound held, Layout.not_mayDrive_of_isOutput held isOutput⟩

theorem gateDepths_spec (sound : net.Sound) {h : NodeId → Nat}
    (heights : Heights net.nodes.layout h) :
    ∃ order gates, net.driversFirst = .ok order ∧
      order.foldlM net.enterGateDepth (Array.replicate net.nodes.bound 0) = .ok gates ∧
      net.DepthsEntered h [] gates := by
  obtain ⟨order, orderEq, ordered⟩ := driversFirst_spec sound
  have blank : ∀ {id}, id < net.nodes.bound →
      (Array.replicate net.nodes.bound 0)[id]? = some 0 := by
    intro id small
    rw [Array.getElem?_replicate, if_pos small]
  obtain ⟨gates, folded, size, known, kept⟩ := enterGates_spec sound ordered net.enterGateDepth
    (fun _ x y => 1 + max x y)
    (fun {entries id key x y} keyed first second => by
      obtain ⟨n, held, nodeKey⟩ := Layout.key?_eq_some_iff.mp keyed
      obtain ⟨m, found, rfl⟩ := Store.layout_eq_some_iff.mp held
      obtain ⟨operands, _⟩ := Node.gateOperands_of_key? nodeKey
      rw [Node.core_gateOperands] at operands
      simp only [enterGateDepth, Store.fetch_of_get? found, ok_bind, operands,
        fetchAt_eq_ok_iff.mpr first, fetchAt_eq_ok_iff.mpr second])
    heights.gate Array.size_replicate fun id input => by
      obtain ⟨n, held, _⟩ := sound.mem_inputs_iff.mp input
      rw [blank (sound.lt_bound held),
        heights.source (Layout.key?_of_not_hasGate (sound.not_hasGate_of_input input))]
  refine ⟨order, gates, orderEq, folded, size, known, by simp, fun id small undriving _ => ?_⟩
  rw [kept id (mt Layout.HasGate.mayDrive undriving), blank small]

namespace DepthsEntered

variable {h : NodeId → Nat} {before : List NodeId} {depths : Array Nat} {id : NodeId}

theorem skip (entered : net.DepthsEntered h before depths) (sound : net.Sound)
    (output : id ∈ net.outputs) (fresh : id ∉ before)
    (height : sourceHeight net.nodes.layout h id = 0) :
    net.DepthsEntered h (before ++ [id]) depths where
  size := entered.size
  drivers := entered.drivers
  done := by
    intro x listed
    rcases List.mem_append.mp listed with listed | listed
    · exact entered.done x listed
    · rw [List.mem_singleton.mp listed, height]
      obtain ⟨small, undriving⟩ := sound.output_waits output
      exact entered.waits id small undriving fresh
  waits := fun x small undriving late =>
    entered.waits x small undriving fun early => late (List.mem_append.mpr (.inl early))

theorem store (entered : net.DepthsEntered h before depths) (sound : net.Sound)
    (output : id ∈ net.outputs) :
    storeAt depths id (sourceHeight net.nodes.layout h id) =
        .ok (depths.setIfInBounds id (sourceHeight net.nodes.layout h id)) ∧
      net.DepthsEntered h (before ++ [id])
        (depths.setIfInBounds id (sourceHeight net.nodes.layout h id)) := by
  obtain ⟨inside, undriving⟩ := sound.output_waits output
  have small : id < depths.size := by rwa [entered.size]
  refine ⟨storeAt_eq small _, by rw [Array.size_setIfInBounds, entered.size], fun x drives => ?_,
    fun x listed => ?_, fun x inside undriving late => ?_⟩
  · have other : id ≠ x := by
      rintro rfl
      exact undriving drives
    rw [Array.getElem?_setIfInBounds_ne other]
    exact entered.drivers x drives
  · by_cases same : x = id
    · subst same
      rw [Array.getElem?_setIfInBounds_self_of_lt small]
    · rw [Array.getElem?_setIfInBounds_ne (Ne.symm same)]
      exact entered.done x (by simpa [same] using listed)
  · rw [List.mem_append, List.mem_singleton, not_or] at late
    rw [Array.getElem?_setIfInBounds_ne (Ne.symm late.2)]
    exact entered.waits x inside undriving late.1

theorem enterOutput (entered : net.DepthsEntered h before depths) (sound : net.Sound)
    (output : id ∈ net.outputs) (fresh : id ∉ before) :
    ∃ after, net.enterOutputDepth depths id = .ok after ∧
      net.DepthsEntered h (before ++ [id]) after := by
  obtain ⟨n, held, _⟩ := sound.mem_outputs_iff.mp output
  obtain ⟨m, found, rfl⟩ := Store.layout_eq_some_iff.mp held
  cases first : m.first with
  | none =>
    refine ⟨depths, ?_, entered.skip sound output fresh ?_⟩
    · simp [enterOutputDepth, Store.fetch_of_get? found, first]
    · simp [sourceHeight, held, first]
  | some d =>
    have height : sourceHeight net.nodes.layout h id = h d := by
      simp [sourceHeight, held, first]
    have drives := sound.woven.layout.driven (p := .first) held first
    obtain ⟨stored, entered'⟩ := entered.store sound output
    refine ⟨_, ?_, entered'⟩
    simp only [enterOutputDepth, Store.fetch_of_get? found, ok_bind, first,
      fetchAt_eq_ok_iff.mpr (entered.drivers d drives), ← height, stored]

end DepthsEntered

theorem depths_spec (sound : net.Sound) {h : NodeId → Nat} (heights : Heights net.nodes.layout h) :
    ∃ depths, net.depths = .ok depths ∧ net.DepthsEntered h net.outputs.toList depths := by
  obtain ⟨order, gates, orderEq, folded, start⟩ := gateDepths_spec sound heights
  obtain ⟨final, entered, known⟩ := foldlM_spec net.enterOutputDepth net.outputs.toList gates
    (net.DepthsEntered h) start <| by
      intro before id after depths split known
      exact known.enterOutput sound (Array.mem_toList_iff.mp (by simp [split]))
        (not_mem_before (sound.registered .outputs).1 split)
  exact ⟨final, by rw [depths, orderEq, ok_bind, folded, ok_bind, entered], known⟩

/-- The computed depth is the greatest height that an output reads. -/
theorem computeDepth_eq (sound : net.Sound) {h : NodeId → Nat}
    (heights : Heights net.nodes.layout h) :
    net.computeDepth =
      .ok ((net.outputs.toList.map (sourceHeight net.nodes.layout h)).foldl max 0) := by
  obtain ⟨depths, entered, known⟩ := depths_spec sound heights
  rw [computeDepth, entered, ok_bind, mapM_eq fun id listed =>
    fetchAt_eq_ok_iff.mpr (known.done id listed)]
  rfl

/-- Asking for the depth gives it and keeps a network sound. -/
theorem depth_spec (sound : net.Sound) :
    ∃ depth, net.depth = .ok (depth, { net with depth? := some depth }) ∧
      IsDepth net.nodes.layout net.outputs.toList depth := by
  unfold depth
  cases known : net.depth? with
  | some depth =>
    have same : ({ net with depth? := some depth } : Network) = net := by rw [← known]
    exact ⟨depth, by rw [same], sound.coherent depth known⟩
  | none =>
    obtain ⟨h, heights⟩ := sound.exists_heights
    have computed := computeDepth_eq sound heights
    refine ⟨(net.outputs.toList.map (sourceHeight net.nodes.layout h)).foldl max 0,
      by simp only [computed, ok_bind, pure_eq_ok], fun other heights' => ?_⟩
    exact Except.ok.inj (computed.symm.trans (computeDepth_eq sound heights'))

theorem Sound.remember (sound : net.Sound) {depth : Nat}
    (isDepth : IsDepth net.nodes.layout net.outputs.toList depth) :
    ({ net with depth? := some depth } : Network).Sound := by
  refine ⟨⟨sound.woven, fun r => ?_, ?_, fun k held => Option.some.inj held ▸ isDepth⟩,
    fun family => ?_, sound.ports⟩
  · cases r
    · exact sound.registered .inputs
    · exact sound.registered .outputs
    · exact sound.registered .gates
  · rw [net.terminal?_retouch net.nodes net.inputs net.outputs net.gates net.table net.limit
      (some depth)]
    exact sound.owned
  · exact sound.banks_congr (fun family => by cases family <;> rfl) family

end Network

end GateNet
