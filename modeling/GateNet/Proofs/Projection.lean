import GateNet.Proofs.Chronicle
import GateNet.Proofs.Part

/-!
# Erasing is a projection

Erasing a gate or a state element takes away its nodes and the entries of their wires, and nothing
else shows that they were ever there.  The word of an erased input was read by nobody: the same
words solve the equations of both networks, so evaluation loses the words of the erased outputs and
keeps all others, whatever was given for the erased input.
-/

namespace GateNet

/-! ## Words of the ids that stay -/

/-- Of words given id by id, those of the ids that stay. -/
def wordsWithout (gone ids : List NodeId) (words : List Word) : List Word :=
  ((ids.zip words).filter fun entry => entry.1 ∉ gone).map Prod.snd

variable {gone ids : List NodeId} {words : List Word}

theorem zip_wordsWithout (gone ids : List NodeId) (words : List Word) :
    (ids.filter (· ∉ gone)).zip (wordsWithout gone ids words) =
      (ids.zip words).filter fun entry => entry.1 ∉ gone := by
  induction ids generalizing words with
  | nil => rfl
  | cons id ids inductionHypothesis =>
    cases words with
    | nil => simp [wordsWithout]
    | cons word words =>
      have rest := inductionHypothesis words
      unfold wordsWithout at rest ⊢
      by_cases leaves : id ∈ gone
      · simpa [leaves] using rest
      · simpa [leaves] using rest

theorem length_wordsWithout (length : words.length = ids.length) :
    (wordsWithout gone ids words).length = (ids.filter (· ∉ gone)).length := by
  have kept : ids.filter (· ∉ gone) =
      ((ids.zip words).filter fun entry => entry.1 ∉ gone).map Prod.fst := by
    have listed : ids = (ids.zip words).map Prod.fst := (List.map_fst_zip length.ge).symm
    conv_lhs => rw [listed, List.filter_map]
    rfl
  rw [kept, wordsWithout, List.length_map, List.length_map]

theorem wordsWithout_map (gone ids : List NodeId) (word : NodeId → Word) :
    wordsWithout gone ids (ids.map word) = (ids.filter (· ∉ gone)).map word := by
  induction ids with
  | nil => rfl
  | cons id ids inductionHypothesis =>
    unfold wordsWithout at inductionHypothesis ⊢
    by_cases leaves : id ∈ gone
    · simpa [leaves] using inductionHypothesis
    · simpa [leaves] using inductionHypothesis

/-- Ids that are not listed do not matter. -/
theorem wordsWithout_congr {others : List NodeId} (same : ∀ id ∈ ids, id ∈ gone ↔ id ∈ others) :
    wordsWithout gone ids words = wordsWithout others ids words := by
  rw [wordsWithout, wordsWithout]
  refine congrArg _ (List.filter_congr fun entry listed => ?_)
  rw [decide_eq_decide, same entry.1 (List.of_mem_zip listed).1]

theorem lookup_filter_of_not_mem {id : NodeId} (stays : id ∉ gone)
    (entries : List (NodeId × Word)) :
    (entries.filter fun entry => entry.1 ∉ gone).lookup id = entries.lookup id := by
  induction entries with
  | nil => rfl
  | cons entry entries inductionHypothesis =>
    obtain ⟨key, word⟩ := entry
    by_cases leaves : key ∈ gone
    · have other : (id == key) = false := by
        rw [beq_eq_false_iff_ne]
        rintro rfl
        exact stays leaves
      rw [List.filter_cons_of_neg (by simpa using leaves), List.lookup_cons, other]
      exact inductionHypothesis
    · rw [List.filter_cons_of_pos (by simpa using leaves), List.lookup_cons, List.lookup_cons,
        inductionHypothesis]

namespace Network

variable {net after : Network} {id : NodeId}

/-! ## Projections -/

/-- One network is what is left of another one without some nodes.  Every other node stays as it is
up to its link, and loses those of its readers that are gone; who reads none of them is not even
reordered. -/
structure Projected (net after : Network) (gone : List NodeId) : Prop where
  name : after.name = net.name
  ports : after.ports = net.ports
  live : ∀ x ∈ gone, ∃ n, net.node? x = some n
  dead : ∀ x ∈ gone, after.node? x = none
  kept : ∀ x ∉ gone, ∀ n, net.node? x = some n → ∃ m, after.node? x = some m ∧ m.core = n.core ∧
    m.fanouts.toList.Perm (n.fanouts.toList.filter fun e => e.reader ∉ gone) ∧
    ((∀ e ∈ n.fanouts, e.reader ∉ gone) → m.fanouts = n.fanouts)
  only : ∀ x m, after.node? x = some m → ∃ n, net.node? x = some n
  registry : ∀ r, (after.registry r).toList = (net.registry r).toList.filter (· ∉ gone)

/-- A wired store lists a reader as long as it is there. -/
theorem perm_fanouts_of_dropped {before after : Store Node} {wires : List Fanout}
    (dropped : before.Dropped after gone wires) (wired : before.Wired) (wired' : after.Wired)
    {x : NodeId} {n m : Node} (held : before.get? x = some n) (held' : after.get? x = some m) :
    m.fanouts.toList.Perm (n.fanouts.toList.filter fun e => e.reader ∉ gone) := by
  rw [List.perm_iff_count]
  intro e
  have counted := wired.lists x n held e
  have counted' := wired'.lists x m held' e
  rw [Store.driverAt_eq_layout] at counted counted'
  rw [Array.count_toList, counted']
  by_cases leaves : e.reader ∈ gone
  · have unlisted : e ∉ n.fanouts.toList.filter fun e => e.reader ∉ gone := by simp [leaves]
    rw [List.count_eq_zero.mpr unlisted, dropped.dead _ leaves, if_neg nofun]
  · rw [List.count_filter (by simpa using leaves), Array.count_toList, counted,
      dropped.layout_eq _ leaves]

theorem projected_of_dropped {wires : List Fanout} (sound : net.Sound) (sound' : after.Sound)
    (dropped : net.nodes.Dropped after.nodes gone wires) (shrunk : net.Shrunk after)
    (live : ∀ x ∈ gone, ∃ n, net.nodes.layout x = some n) (own : ∀ w ∈ wires, w.reader ∈ gone)
    (name : after.name = net.name) (ports : after.ports = net.ports) :
    net.Projected after gone := by
  refine ⟨name, ports, fun x leaves => Store.exists_get?_iff.mpr (live x leaves),
    fun x leaves => Store.layout_eq_none_iff.mp (dropped.dead x leaves), fun x stays n held => ?_,
    fun x m held => ?_, fun r => ?_⟩
  · have layout_eq := dropped.layout_eq x stays
    rw [Store.layout_of_get? held] at layout_eq
    obtain ⟨m, held', core⟩ := Store.layout_eq_some_iff.mp layout_eq
    refine ⟨m, held', core,
      perm_fanouts_of_dropped dropped sound.woven.wired sound'.woven.wired held held',
      fun unread => ?_⟩
    have readers_eq := dropped.readers_eq x stays
    rw [Store.readers_of_get? held, Store.readers_of_get? held', Option.map_some,
      Fanout.withoutAll_of_not_mem fun w listed read => unread w read (own w listed)] at readers_eq
    exact Option.some.inj readers_eq
  · obtain ⟨kind, kinds⟩ : ∃ kind, after.nodes.layout.kind? x = some kind :=
      ⟨_, Layout.kind?_of_get? held⟩
    exact Layout.exists_get?_of_kind? (shrunk.kept x kind kinds) |>.imp fun _ => And.left
  · refine eq_filter_of_sublist (shrunk.registry r) (sound.registered r).1 fun x listed => ?_
    obtain ⟨kind, held, admits⟩ := ((sound.registered r).2 x).mp (Array.mem_toList_iff.mp listed)
    rw [decide_eq_true_eq]
    refine Iff.trans ?_ (((sound'.registered r).2 x).symm.trans Array.mem_toList_iff.symm)
    by_cases leaves : x ∈ gone
    · refine iff_of_false (not_not_intro leaves) ?_
      rintro ⟨kind, held, _⟩
      rw [Layout.kind?, dropped.dead x leaves] at held
      cases held
    · refine iff_of_true leaves ⟨kind, ?_, admits⟩
      rwa [Layout.kind?, dropped.layout_eq x leaves]

namespace Projected

theorem layout_eq (projected : net.Projected after gone) {x : NodeId} (stays : x ∉ gone) :
    after.nodes.layout x = net.nodes.layout x := by
  cases held : net.node? x with
  | some n =>
    obtain ⟨m, held', core, _⟩ := projected.kept x stays n held
    rw [Store.layout_of_get? held, Store.layout_of_get? held', core]
  | none =>
    cases held' : after.node? x with
    | none => rw [Store.layout_eq_none_iff.mpr held, Store.layout_eq_none_iff.mpr held']
    | some m =>
      obtain ⟨n, live⟩ := projected.only x m held'
      cases held.symm.trans live

theorem kept_of_layout (projected : net.Projected after gone) {x : NodeId} {n : Node}
    (held : after.nodes.layout x = some n) : net.nodes.layout x = some n := by
  by_cases leaves : x ∈ gone
  · rw [Store.layout_eq_none_iff.mpr (projected.dead x leaves)] at held
    cases held
  · rwa [← projected.layout_eq leaves]

/-- Words of the whole are words of what is left, without those of the erased inputs. -/
theorem carries (projected : net.Projected after gone) {v : NodeId → Word}
    (carries : net.Carries words v) :
    after.Carries (wordsWithout gone net.inputs.toList words) v := by
  rintro x ⟨n, held, notOutput⟩
  have before := projected.kept_of_layout held
  have stays : x ∉ gone := fun leaves => by
    rw [Store.layout_eq_none_iff.mpr (projected.dead x leaves)] at held
    cases held
  have word : after.inputWord (wordsWithout gone net.inputs.toList words) x =
      net.inputWord words x := by
    have inputs : after.inputs.toList = net.inputs.toList.filter (· ∉ gone) :=
      projected.registry .inputs
    rw [inputWord, inputWord, inputs, zip_wordsWithout]
    exact lookup_filter_of_not_mem stays _
  have equation := carries x ⟨n, before, notOutput⟩
  rw [← Layout.solves_congr (before.trans held.symm)]
  unfold Circuit.Solves at equation ⊢
  dsimp only at equation ⊢
  rwa [word]

/-- Evaluation loses the words of the erased outputs, whatever is given for the erased inputs. -/
theorem evaluate (projected : net.Projected after gone) (sound : net.Sound) (sound' : after.Sound)
    (length : words.length = net.inputs.size) :
    ∃ results, net.evaluate words = .ok results ∧
      after.evaluate (wordsWithout gone net.inputs.toList words) =
        .ok (wordsWithout gone net.outputs.toList results) := by
  obtain ⟨v, carries⟩ := sound.exists_carries words
  have inputs : after.inputs.toList = net.inputs.toList.filter (· ∉ gone) :=
    projected.registry .inputs
  have outputs : after.outputs.toList = net.outputs.toList.filter (· ∉ gone) :=
    projected.registry .outputs
  have length' : (wordsWithout gone net.inputs.toList words).length = after.inputs.size := by
    rw [length_wordsWithout (by rw [length, Array.length_toList]), ← inputs, Array.length_toList]
  refine ⟨_, evaluate_eq sound length carries, ?_⟩
  rw [evaluate_eq sound' length' (projected.carries carries), wordsWithout_map, ← outputs]
  refine congrArg Except.ok (List.map_congr_left fun o listed => ?_)
  obtain ⟨n, held, _⟩ := sound'.mem_outputs_iff.mp (Array.mem_toList_iff.mp listed)
  rw [sourceOf_eq held, sourceOf_eq (projected.kept_of_layout held)]

end Projected

/-! ## Erasing -/

theorem Sound.of_eraseGate (sound : net.Sound) (done : net.eraseGate id = .ok (.done () after)) :
    (∃ n, net.node? id = some n ∧ n.isGate = true) ∧ after.Sound ∧ net.GateErased after id ∧
      net.Projected after [id] := by
  obtain ⟨⟨gate, unread⟩, dropped⟩ := sound.eraseGate_eq_done_iff.mp done
  obtain ⟨_, dropped', sound', erased⟩ := sound.dropGate gate unread
  obtain rfl := Except.ok.inj (dropped.symm.trans dropped')
  obtain ⟨n, held, isGate⟩ := gate
  obtain ⟨m, found, rfl⟩ := Store.layout_eq_some_iff.mp held
  refine ⟨⟨m, found, isGate⟩, sound', erased, projected_of_dropped sound sound' erased.nodes
    ((leads_eraseGate (R := Erased) _ done).shrunk sound.woven.store) ?_ ?_ erased.name
    erased.ports⟩
  · exact List.forall_mem_singleton.mpr ⟨_, held⟩
  · simp

theorem GateErased.partOf (erased : net.GateErased after id) : after.PartOf net := by
  refine ⟨fun {x n} held => ?_, erased.inputs, erased.outputs⟩
  by_cases same : x ∈ [id]
  · rw [erased.nodes.dead x same] at held
    cases held
  · rwa [erased.nodes.layout_eq x same] at held

theorem Sound.nodup_terminals (sound : net.Sound) {family : Family} {element : ElementId}
    {e : Element} (held : net.element? family element = some e) : e.terminals.Nodup := by
  exact List.Nodup.map (sound.terminal_injective held) (show Pin.all.Nodup by decide)

theorem Sound.of_eraseElement (sound : net.Sound) {family : Family} {element : ElementId}
    (done : net.eraseElement family element = .ok (.done () after)) :
    ∃ e, net.element? family element = some e ∧ after.Sound ∧
      net.ElementErased after family element e ∧ net.Projected after e.terminals := by
  obtain ⟨e, ⟨held, unread⟩, dropped⟩ := sound.eraseElement_eq_done_iff.mp done
  obtain ⟨_, dropped', sound', erased⟩ := sound.dropElement held unread
  obtain rfl := Except.ok.inj (dropped.symm.trans dropped')
  refine ⟨e, held, sound', erased, projected_of_dropped sound sound' erased.nodes
    ((leads_eraseElement (R := Erased) family element _ done).shrunk sound.woven.store) ?_ ?_
    erased.name erased.ports⟩
  · refine List.forall_mem_map.mpr fun pin _ => ?_
    obtain ⟨n, live, _⟩ := Layout.kind?_eq_some_iff.mp ((sound.kind?_terminal held).mp rfl)
    exact ⟨n, live⟩
  · simp

/-- The output of an element is the one input among its terminals. -/
theorem Sound.mem_inputs_terminal_iff (sound : net.Sound) {family : Family} {element : ElementId}
    {e : Element} (held : net.element? family element = some e) (pin : Pin) :
    (e.terminal pin ∈ net.inputs ↔ pin = .output) ∧
      (e.terminal pin ∈ net.outputs ↔ pin ≠ .output) := by
  have kind := (sound.kind?_terminal held).mp (rfl : e.terminal pin = _)
  have inputs := (sound.registered .inputs).2 (e.terminal pin)
  have outputs := (sound.registered .outputs).2 (e.terminal pin)
  rw [kind] at inputs outputs
  constructor
  · refine inputs.trans ?_
    cases pin <;> simp [Registry.admits, Kind.isInput]
  · refine outputs.trans ?_
    cases pin <;> simp [Registry.admits, Kind.isOutput, Kind.isInput, Kind.isGate]

/-- Pins whose terminals are not listed do not matter. -/
theorem wordsWithout_terminals (e : Element) (pins : List Pin)
    (only : ∀ pin, e.terminal pin ∈ ids → pin ∈ pins) :
    wordsWithout (pins.map e.terminal) ids words = wordsWithout e.terminals ids words := by
  refine wordsWithout_congr fun x listed => ⟨fun inside => ?_, fun inside => ?_⟩
  · obtain ⟨pin, _, rfl⟩ := List.mem_map.mp inside
    exact List.mem_map_of_mem pin.mem_all
  · obtain ⟨pin, _, rfl⟩ := List.mem_map.mp inside
    exact List.mem_map_of_mem (only pin listed)

/-- Erasing an element takes the word of its output from the inputs, whatever it was, and the words
of its four other terminals from the results. -/
theorem Sound.evaluate_of_eraseElement (sound : net.Sound) {family : Family} {element : ElementId}
    {e : Element} (held : net.element? family element = some e) (sound' : after.Sound)
    (projected : net.Projected after e.terminals) (length : words.length = net.inputs.size) :
    ∃ results, net.evaluate words = .ok results ∧
      after.evaluate (wordsWithout [e.output] net.inputs.toList words) =
        .ok (wordsWithout [e.data, e.trigger, e.forceA, e.forceB] net.outputs.toList results) := by
  obtain ⟨results, before, evaluated⟩ := projected.evaluate sound sound' length
  refine ⟨results, before, ?_⟩
  have inputs : wordsWithout [e.output] net.inputs.toList words =
      wordsWithout e.terminals net.inputs.toList words := by
    refine wordsWithout_terminals e [.output] fun pin listed => ?_
    rw [List.mem_singleton]
    exact (sound.mem_inputs_terminal_iff held pin).1.mp (Array.mem_toList_iff.mp listed)
  have outputs : wordsWithout [e.data, e.trigger, e.forceA, e.forceB] net.outputs.toList results =
      wordsWithout e.terminals net.outputs.toList results := by
    refine wordsWithout_terminals e [.data, .trigger, .forceA, .forceB] fun pin listed => ?_
    have other := (sound.mem_inputs_terminal_iff held pin).2.mp (Array.mem_toList_iff.mp listed)
    cases pin <;> simp at other ⊢
  rw [inputs, evaluated, outputs]

/-- Erasing is a projection.  A gate goes alone, and evaluation does not notice.  A state element
goes with its five terminals, from its bank too; the word of its output, whatever it was, is missing
from the inputs afterwards, and the words of its other terminals from the results.  In both cases
the drivers of what is gone lose the entries of its wires, and all else stays, in its order. -/
theorem Reachable.erase_projects (reachable : net.Reachable) :
    (∀ id after, net.eraseGate id = .ok (.done () after) →
      (∃ n, net.node? id = some n ∧ n.isGate = true) ∧ net.Projected after [id] ∧
        (∀ family, after.bank family = net.bank family) ∧
        ∀ words, after.evaluate words = net.evaluate words) ∧
    ∀ family id after, net.eraseElement family id = .ok (.done () after) →
      ∃ e, net.element? family id = some e ∧ e.terminals.Nodup ∧ net.Projected after e.terminals ∧
        (∀ x, after.element? family x = if x = id then none else net.element? family x) ∧
        (after.bank family).order = (net.bank family).order.filter (· != id) ∧
        (∀ other, other ≠ family → after.bank other = net.bank other) ∧
        (∀ pin, (e.terminal pin ∈ net.inputs ↔ pin = .output) ∧
          (e.terminal pin ∈ net.outputs ↔ pin ≠ .output)) ∧
        ∀ words, words.length = net.inputs.size → ∃ results, net.evaluate words = .ok results ∧
          after.evaluate (wordsWithout [e.output] net.inputs.toList words) =
            .ok (wordsWithout [e.data, e.trigger, e.forceA, e.forceB] net.outputs.toList
              results) := by
  have sound := reachable.sound
  refine ⟨fun id after done => ?_, fun family id after done => ?_⟩
  · obtain ⟨gate, sound', erased, projected⟩ := sound.of_eraseGate done
    exact ⟨gate, projected, erased.bank, fun words =>
      (erased.partOf.evaluate sound' sound words).symm⟩
  · obtain ⟨e, held, sound', erased, projected⟩ := sound.of_eraseElement done
    exact ⟨e, held, sound.nodup_terminals held, projected, erased.element, erased.order,
      erased.bank, sound.mem_inputs_terminal_iff held,
      fun words => sound.evaluate_of_eraseElement held sound' projected⟩

/-- An operation that answers, as seen by its answer. -/
theorem exists_done {α : Type} {answer : α} {result : Except Fault (Outcome α)}
    (answered : (result.toOption.map fun outcome => outcome.answer.toOption) = some (some answer)) :
    ∃ after, result = .ok (.done answer after) := by
  obtain ⟨outcome, made, answered⟩ := Option.map_eq_some_iff.mp answered
  obtain ⟨answer' | answer', after⟩ := outcome
  · cases answered
  · obtain rfl := Option.some.inj answered
    cases result with
    | error fault => cases made
    | ok outcome =>
      obtain rfl := Option.some.inj made
      exact ⟨after, rfl⟩

/-- One gate drives two pins of a flip-flop and two outputs, and nothing reads the other gate. -/
def flipFlopCommands : List Command :=
  [.addPort "p" 2, .addInput 0 0, .addInput 0 1, .addElement .flipFlop "f", .addOutput 0 0,
    .addOutput 0 1, .addGate .and (.positive 0) (.positive 1),
    .addGate .xor (.positive 0) (.positive 1), .drive 3 (.positive 9), .drive 4 (.negative 9),
    .drive 6 (.positive 1), .drive 7 (.positive 9), .drive 8 (.negative 9)]

/-- Either of them can be erased; without the flip-flop, what is read at the ports is the same for
every word that the flip-flop could hold. -/
theorem erase_projects_shared :
    ∃ net, (withBuckets 0).runAll flipFlopCommands = .ok net ∧
      (∃ after, net.eraseGate 10 = .ok (.done () after) ∧ net.Projected after [10] ∧
        ∀ words, after.evaluate words = net.evaluate words) ∧
      ∃ after, net.eraseElement .flipFlop 0 = .ok (.done () after) ∧
        net.Projected after [2, 3, 4, 5, 6] ∧
        ∀ word, ∃ results, net.evaluate [5, 3, word] = .ok results ∧
          after.evaluate [5, 3] = .ok (wordsWithout [3, 4, 5, 6] [3, 4, 5, 6, 7, 8] results) := by
  refine exists_runAll (fun net => ([net.inputs, net.outputs],
      [net.eraseGate 10, net.eraseElement .flipFlop 0].map fun result =>
        result.toOption.map fun outcome => outcome.answer.toOption, net.element? .flipFlop 0))
    ([#[0, 1, 2], #[3, 4, 5, 6, 7, 8]], [some (some ()), some (some ())],
      some ⟨0, "f", 2, 3, 4, 5, 6⟩)
    (by simp [flipFlopCommands]) (by decide +kernel) ?_
  intro net reached seen
  simp only [Prod.mk.injEq, List.map_cons, List.map_nil, List.cons.injEq, and_true] at seen
  obtain ⟨⟨inputs, outputs⟩, ⟨gate, element⟩, named⟩ := seen
  obtain ⟨eraseGate, eraseElement⟩ := reached.erase_projects
  obtain ⟨after, done⟩ := exists_done gate
  obtain ⟨after', done'⟩ := exists_done element
  obtain ⟨_, projected, _, evaluated⟩ := eraseGate 10 after done
  obtain ⟨e, held, _, projected', _, _, _, _, evaluated'⟩ := eraseElement .flipFlop 0 after' done'
  obtain rfl : e = ⟨0, "f", 2, 3, 4, 5, 6⟩ := Option.some.inj (held.symm.trans named)
  refine ⟨⟨after, done, projected, evaluated⟩, after', done', projected', fun word => ?_⟩
  obtain ⟨results, before, later⟩ := evaluated' [5, 3, word] (by rw [inputs]; rfl)
  rw [inputs, outputs] at later
  exact ⟨results, before, later⟩

end Network

end GateNet
