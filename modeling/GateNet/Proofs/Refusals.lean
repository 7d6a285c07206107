import GateNet.Proofs.Answers
import GateNet.Proofs.Part

/-!
# What a refusal leaves

An operation that makes all of its checks first is refused on the network as it was.  A tree of
gates is different: each signal is checked when its turn comes, on a network that has the gates
built so far.  So a refused tree leaves new gates, but no old node is changed; and a signal that
names one of the new gates passes, although it named nothing when the tree was asked for.
-/

namespace GateNet

theorem forM_congr {ε α : Type} {check other : α → Except ε Unit} {items : List α}
    (same : ∀ a ∈ items, check a = other a) : items.forM check = items.forM other := by
  induction items with
  | nil => rfl
  | cons a rest inductionHypothesis =>
    change (check a >>= fun _ => rest.forM check) = other a >>= fun _ => rest.forM other
    rw [same a (.head _), inductionHypothesis fun b listed => same b (.tail _ listed)]

namespace Network

variable {net after : Network}

/-! ## Refusals before any change -/

/-- The operation answers, faults, or leaves the network as it was. -/
def Atomic {α : Type} (net : Network) (result : Except Fault (Outcome α)) : Prop :=
  ∀ outcome, result = .ok outcome → ∀ refusal, outcome.answer = .error refusal →
    outcome.network = net

theorem atomic_done {α : Type} (answer : α) (after : Network) :
    net.Atomic (.ok (.done answer after)) := by
  intro outcome made refusal refused
  cases made
  cases refused

theorem atomic_guarded {α β : Type} {check : Except Failure β}
    {act : β → Except Fault (α × Network)} : net.Atomic (net.guarded check act) := by
  intro outcome made refusal refused
  rcases guarded_eq_ok made with ⟨_, _, rfl⟩ | ⟨answer, after, rfl⟩
  · rfl
  · cases refused

theorem Atomic.map {α β : Type} {result : Except Fault (Outcome α)} (atomic : net.Atomic result)
    (change : α → β) : net.Atomic (result >>= fun outcome => pure (outcome.map change)) := by
  intro last made refusal refused
  obtain ⟨⟨answer, middle⟩, ran, made⟩ := bind_eq_ok_iff.mp made
  cases made
  cases answer with
  | ok answer => cases refused
  | error other => exact atomic _ ran other rfl

/-- A command that makes all of its checks first is refused on the network as it was. -/
theorem Sound.atomic_run (sound : net.Sound) {command : Command}
    (sources : ∀ source, command = .overwrite source → source.Sound)
    (noTree : ∀ op signals, command ≠ .combine op signals) : net.Atomic (net.run command) := by
  cases command with
  | rename name => exact atomic_done _ _
  | addPort name width => exact atomic_done _ _
  | addInput port bit => exact atomic_guarded.map _
  | addOutput port bit => exact atomic_guarded.map _
  | addElement family name =>
    obtain ⟨id, _, after, made, _⟩ := addElement_spec sound family name
    rw [run, made]
    exact atomic_done _ _
  | addGate gate s t => exact atomic_guarded.map _
  | combine op signals => exact absurd rfl (noTree op signals)
  | drive id signal => exact atomic_guarded.map _
  | redefine id gate s t => exact atomic_guarded.map _
  | eraseGate id => exact atomic_guarded.map _
  | eraseElement family id => exact atomic_guarded.map _
  | prune =>
    obtain ⟨count, after, pruned, _⟩ := prune_spec sound
    rw [run, pruned]
    exact atomic_done _ _
  | clear => exact atomic_done _ _
  | overwrite source =>
    obtain ⟨_, _, _, _, _, after, copied, _⟩ := overwrite_spec sound (sources source rfl)
    rw [run, copied]
    exact atomic_done _ _
  | depth =>
    obtain ⟨depth, made, _⟩ := depth_spec sound
    rw [run, made]
    exact atomic_done _ _

/-! ## Trees -/

namespace PartOf

/-- A signal that passes still passes when there are more gates. -/
theorem checkDriver_eq_ok (inside : net.PartOf after) {s : Signal}
    (passed : net.checkDriver s = .ok ()) : after.checkDriver s = .ok () :=
  checkDriver_eq_ok_iff.mpr (inside.fit (checkDriver_eq_ok_iff.mp passed))

theorem forM_checkDriver_eq_ok (inside : net.PartOf after) {signals : List Signal}
    (passed : signals.forM net.checkDriver = .ok ()) :
    signals.forM after.checkDriver = .ok () :=
  forM_eq_ok fun s listed => inside.checkDriver_eq_ok (forM_eq_ok_iff.mp passed s listed)

/-- A signal that does not pass did not pass with fewer gates either, for the same reason: the new
nodes are no outputs. -/
theorem checkDriver_eq_error (inside : net.PartOf after) (sound : net.Sound)
    (sound' : after.Sound) {s : Signal} {refusal : Refusal}
    (failed : after.checkDriver s = .error refusal) : net.checkDriver s = .error refusal := by
  unfold checkDriver at failed ⊢
  cases named : s.node with
  | none => simp [named] at failed
  | some id =>
    simp only [named, node?] at failed ⊢
    cases held : net.nodes.get? id with
    | some n =>
      obtain ⟨m, found, core⟩ :=
        Store.layout_eq_some_iff.mp (inside.kept (Store.layout_of_get? held))
      have same : m.isOutput = n.isOutput := by rw [← m.core_isOutput, core, n.core_isOutput]
      simp only [found, same] at failed
      exact failed
    | none =>
      cases found : after.nodes.get? id with
      | none =>
        rw [found] at failed
        exact failed
      | some m =>
        -- An output is registered, so it would be an output of the network before.
        have notOutput : m.isOutput = false := by
          rw [Bool.eq_false_iff]
          intro isOutput
          have listed : id ∈ after.outputs :=
            sound'.mem_outputs_iff.mpr ⟨m.core, Store.layout_of_get? found, isOutput⟩
          rw [← inside.outputs] at listed
          obtain ⟨n, live, _⟩ := sound.mem_outputs_iff.mp listed
          rw [Store.layout_eq_none_iff.mpr held] at live
          cases live
        simp [found, notOutput] at failed

end PartOf

/-- What a tree leaves: an old network with more gates, on which the signals pass or fail in turn
as the tree has it. -/
structure Combined (net : Network) (signals : List Signal) (outcome : Outcome Signal) : Prop where
  sound : outcome.network.Sound
  partOf : net.PartOf outcome.network
  checked : signals.forM outcome.network.checkDriver = outcome.answer.map fun _ => ()
  fit : ∀ signal, outcome.answer = .ok signal → signals ≠ [] → outcome.network.Fit signal

theorem combined_single (sound : net.Sound) (s : Signal) :
    ∃ outcome, net.guarded (liftM (net.checkDriver s)) (fun _ => .ok (s, net)) = .ok outcome ∧
      net.Combined [s] outcome := by
  have alone : [s].forM net.checkDriver = net.checkDriver s := by
    change (net.checkDriver s >>= fun _ => .ok ()) = _
    cases net.checkDriver s <;> rfl
  rw [guarded_lift]
  rcases net.checkDriver_spec s with ⟨passed, fit⟩ | ⟨refusal, failed, _⟩
  · refine ⟨.done s net, by rw [passed]; rfl, sound, .refl net, alone.trans passed, ?_⟩
    intro signal same _
    cases same
    exact fit
  · exact ⟨.refused refusal net, by rw [failed], sound, .refl net, alone.trans failed, nofun⟩

namespace Combined

variable {middle : Network} {lower upper : List Signal} {outcome : Outcome Signal} {a b : Signal}

theorem refused_append {refusal : Refusal} (first : net.Combined lower ⟨.error refusal, after⟩) :
    net.Combined (lower ++ upper) (.refused refusal after) := by
  refine ⟨first.sound, first.partOf, ?_, nofun⟩
  have failed : lower.forM after.checkDriver = .error refusal := first.checked
  rw [Outcome.refused, List.forM_eq_forM, List.forM_append, ← List.forM_eq_forM, failed]
  rfl

theorem checked_append (first : net.Combined lower ⟨.ok a, middle⟩)
    (second : middle.Combined upper outcome) :
    (lower ++ upper).forM outcome.network.checkDriver = outcome.answer.map fun _ => () := by
  rw [List.forM_eq_forM, List.forM_append, ← List.forM_eq_forM,
    second.partOf.forM_checkDriver_eq_ok first.checked, second.checked]
  rfl

/-- Two halves that are built are joined by a gate, which is not refused. -/
theorem join (first : net.Combined lower ⟨.ok a, middle⟩) (notEmpty : lower ≠ [])
    (second : middle.Combined upper ⟨.ok b, after⟩) (notEmpty' : upper ≠ []) (gate : Gate) :
    ∃ outcome, after.addGate gate a b = .ok outcome ∧ net.Combined (lower ++ upper) outcome := by
  have left : after.Fit a := second.partOf.fit (first.fit a rfl notEmpty)
  have right : after.Fit b := second.fit b rfl notEmpty'
  rcases addGate_spec second.sound.woven gate a b with
    ⟨_, _, signal, last, made, realized⟩ | ⟨unfit, _⟩
  · refine ⟨.done signal last, made, realized.sound second.sound,
      (first.partOf.trans second.partOf).trans realized.partOf,
      realized.partOf.forM_checkDriver_eq_ok (first.checked_append second), ?_⟩
    intro other same _
    cases same
    exact realized.fit left right
  · exact absurd ⟨left, right⟩ unfit

/-- The halves of a tree are built in turn, the second on what the first leaves; the first refusal
ends it. -/
theorem of_halves {one : Except Fault (Outcome Signal)}
    {two : Network → Except Fault (Outcome Signal)}
    (first : ∃ outcome, one = .ok outcome ∧ net.Combined lower outcome) (notEmpty : lower ≠ [])
    (second : ∀ middle : Network, middle.Sound →
      ∃ outcome, two middle = .ok outcome ∧ middle.Combined upper outcome)
    (notEmpty' : upper ≠ []) (gate : Gate) :
    ∃ outcome, (one >>= fun lower => lower.andThen fun a middle => two middle >>= fun upper =>
        upper.andThen fun b after => after.addGate gate a b) = .ok outcome ∧
      net.Combined (lower ++ upper) outcome := by
  obtain ⟨⟨answer, middle⟩, rfl, first⟩ := first
  rw [ok_bind]
  cases answer with
  | error refusal => exact ⟨_, rfl, first.refused_append⟩
  | ok a =>
    obtain ⟨⟨answer, after⟩, made, second⟩ := second middle first.sound
    simp only [Outcome.andThen, made, ok_bind]
    cases answer with
    | error refusal =>
      exact ⟨_, rfl, second.sound, first.partOf.trans second.partOf, first.checked_append second,
        by rintro a ⟨⟩⟩
    | ok b => exact first.join notEmpty second notEmpty' gate

end Combined

theorem combine_spec (sound : net.Sound) (op : Operator) (signals : List Signal) :
    ∃ outcome, net.combine op signals = .ok outcome ∧ net.Combined signals outcome := by
  induction net, signals using combine.induct with
  | case1 net =>
    refine ⟨.done op.neutral net, by rw [combine], sound, .refl net, rfl, ?_⟩
    exact fun _ _ notEmpty => absurd rfl notEmpty
  | case2 net s =>
    rw [combine]
    exact combined_single sound s
  | case3 net s t rest half lower upper =>
    have notEmpty : (s :: t :: rest).take half ≠ [] := by
      simp [half]
    have notEmpty' : (s :: t :: rest).drop half ≠ [] := by
      simp only [ne_eq, List.drop_eq_nil_iff, List.length_cons, half]
      omega
    have built := Combined.of_halves (lower sound) notEmpty (fun middle => upper middle) notEmpty'
      op.gate
    rw [List.take_append_drop] at built
    rw [combine]
    exact built

/-! ## Refused commands -/

/-- What a refused tree leaves: every old node is as it was, so that signals and outputs have their
words.  The refusal is that of the first signal that may not be read when the tree ends, and that
signal could not be read before either. -/
structure RefusedTree (net : Network) (signals : List Signal) (refusal : Refusal)
    (after : Network) : Prop where
  partOf : net.PartOf after
  words : ∀ words : List Word, words.length = net.inputs.size → ∀ s, net.Fit s →
    ∃ word, net.Evaluates words s word ∧ after.Evaluates words s word
  evaluate : ∀ words, after.evaluate words = net.evaluate words
  first : signals.forM after.checkDriver = .error refusal
  blamed : ∃ s ∈ signals, net.checkDriver s = .error refusal
  /-- No signal has come to be readable on the way. -/
  exact : (∀ s ∈ signals, after.checkDriver s = .ok () → net.checkDriver s = .ok ()) →
    signals.forM net.checkDriver = .error refusal

theorem Combined.refusedTree (sound : net.Sound) {signals : List Signal} {outcome : Outcome Signal}
    (combined : net.Combined signals outcome) {refusal : Refusal}
    (refused : outcome.answer = .error refusal) :
    net.RefusedTree signals refusal outcome.network := by
  have inside := combined.partOf
  have first : signals.forM outcome.network.checkDriver = .error refusal := by
    rw [combined.checked, refused]
    rfl
  obtain ⟨before, s, rest, split, _, failed⟩ := forM_eq_error_iff.mp first
  refine ⟨inside, fun words length s fit => inside.exists_evaluates sound combined.sound length fit,
    fun words => inside.evaluate sound combined.sound words, first, ⟨s, by simp [split], ?_⟩,
    fun known => ?_⟩
  · exact inside.checkDriver_eq_error sound combined.sound failed
  · rw [← first]
    refine forM_congr fun s listed => ?_
    rcases outcome.network.checkDriver_spec s with ⟨passed, _⟩ | ⟨other, failed, _⟩
    · rw [passed, known s listed passed]
    · rw [failed, inside.checkDriver_eq_error sound combined.sound failed]

/-- Every command is carried out or refused.  A refused command leaves the network as it was, unless
it asks for a tree of gates; a refused tree leaves every old node as it was. -/
theorem Reachable.refused_run (reachable : net.Reachable) {command : Command}
    (sources : ∀ source, command = .overwrite source → source.Reachable) :
    ∃ outcome, net.run command = .ok outcome ∧
      ∀ refusal, outcome.answer = .error refusal →
        ((∀ op signals, command ≠ .combine op signals) → outcome.network = net) ∧
        ∀ op signals, command = .combine op signals →
          net.RefusedTree signals refusal outcome.network := by
  have sound := reachable.sound
  obtain ⟨outcome, ran, _⟩ := reachable.exists_run sources
  refine ⟨outcome, ran, fun refusal refused => ⟨fun noTree => ?_, ?_⟩⟩
  · have atomic := sound.atomic_run (fun source same => (sources source same).sound) noTree
    exact atomic outcome ran refusal refused
  · rintro op signals rfl
    obtain ⟨⟨answer, after⟩, made, combined⟩ := combine_spec sound op signals
    rw [Network.run, made] at ran
    cases ran
    cases answer with
    | ok signal => cases refused
    | error other =>
      cases refused
      exact combined.refusedTree sound rfl

/-- A gate that would read itself is refused and changes nothing.  A tree whose last signal is
unknown is refused with one more gate, and the network evaluates as before. -/
theorem refused_run_half_built :
    ∃ net, (withBuckets 0).runAll [.addPort "p" 2, .addInput 0 0, .addInput 0 1, .addOutput 0 0,
        .addGate .and (.positive 0) (.positive 1), .drive 2 (.negative 3), .depth] = .ok net ∧
      ∃ one two, net.run (.redefine 3 .or (.positive 0) (.positive 3)) = .ok one ∧
        one.answer = .error (.unfitDriver 3) ∧ one.network = net ∧
        net.run (.combine .parity [.positive 0, .positive 3, .positive 1, .positive 7]) = .ok two ∧
        two.answer = .error (.noNode 7) ∧ two.network.gates.size = 2 ∧
        ∀ words, two.network.evaluate words = net.evaluate words := by
  refine exists_runAll (fun net =>
    ((net.run (.redefine 3 .or (.positive 0) (.positive 3))).toOption.map (·.answer),
      (net.run (.combine .parity [.positive 0, .positive 3, .positive 1,
        .positive 7])).toOption.map fun outcome => (outcome.answer, outcome.network.gates.size)))
    (some (.error (.unfitDriver 3)), some (.error (.noNode 7), 2)) (by simp) (by decide +kernel) ?_
  intro net reached seen
  have noSource : ∀ source, Command.redefine 3 .or (.positive 0) (.positive 3) =
    .overwrite source → source.Reachable := by simp
  have noSource' : ∀ source, Command.combine .parity [.positive 0, .positive 3, .positive 1,
    .positive 7] = .overwrite source → source.Reachable := by simp
  obtain ⟨one, ran, left⟩ := reached.refused_run noSource
  obtain ⟨two, ran', left'⟩ := reached.refused_run noSource'
  rw [ran, ran'] at seen
  simp only [Except.toOption, Option.map_some, Prod.mk.injEq, Option.some.injEq] at seen
  obtain ⟨refused, refused', size⟩ := seen
  exact ⟨one, two, ran, refused, (left _ refused).1 (by simp), ran', refused', size,
    ((left' _ refused').2 _ _ rfl).evaluate⟩

/-- A tree over two inputs, a node that does not exist and another one: the gate over the inputs
takes the id of the first of them, and the refusal names the second. -/
theorem refused_tree_names_later_signal :
    ∃ net, (withBuckets 0).runAll [.addPort "a" 2, .addInput 0 0, .addInput 0 1] = .ok net ∧
      [.positive 0, .positive 1, .positive 2, .positive 9].forM net.checkDriver =
        .error (.noNode 2) ∧
      ∃ outcome, net.run (.combine .conjunction [.positive 0, .positive 1, .positive 2,
        .positive 9]) = .ok outcome ∧ outcome.answer = .error (.noNode 9) := by
  refine exists_runAll (fun net =>
    ([.positive 0, .positive 1, .positive 2, .positive 9].forM net.checkDriver,
      (net.run (.combine .conjunction [.positive 0, .positive 1, .positive 2,
        .positive 9])).toOption.map (·.answer)))
    (.error (.noNode 2), some (.error (.noNode 9))) (by simp) (by decide +kernel) ?_
  intro net _ seen
  obtain ⟨checked, answered⟩ := Prod.mk.inj seen
  obtain ⟨outcome, ran, refused⟩ := Option.map_eq_some_iff.mp answered
  exact ⟨checked, outcome, toOption_eq_some_iff.mp ran, refused⟩

end Network

end GateNet
