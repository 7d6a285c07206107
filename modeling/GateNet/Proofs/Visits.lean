import GateNet.Proofs.Checks
import GateNet.Proofs.Meaning

/-!
# Between two visits

While the cone of a gate is rebuilt, each gate that was visited has a carrier: the replacement that
is recorded for it, or the gate itself.  Between any two visits the carriers evaluate to what the
gates have to become, and nothing on which a carrier depends is changed any more, although the rest
of the cone is still to be rewired.
-/

namespace GateNet

/-! ## Carriers -/

/-- What carries the new value of a node once some gates were visited: the recorded replacement, and
otherwise the node, if it is one of these gates. -/
inductive Rebuild.Carries (r : Rebuild) (visited : List NodeId) : NodeId → Signal → Prop
  | recorded {x : NodeId} {signal : Signal} (held : r.replaced[x]? = some (some signal)) :
      Carries r visited x signal
  | kept {x : NodeId} (listed : x ∈ visited) (unrecorded : (r.replaced[x]?).join = none) :
      Carries r visited x (.positive x)

theorem Rebuild.Carries.resolve_eq {r : Rebuild} {visited : List NodeId} {x : NodeId}
    {signal : Signal} (carries : r.Carries visited x signal) :
    Rebuild.resolve r.replaced (.positive x) = signal := by
  cases carries with
  | recorded held => exact Rebuild.resolve_of_some held
  | kept _ unrecorded => simp [Rebuild.resolve, Signal.positive, unrecorded]

namespace Rebuilding

variable {net : Network} {id : NodeId} {source old new : NodeId → Word}
  {above front back : List NodeId} {r : Rebuild} {member : NodeId → Prop} {g : NodeId → Word}
  {x : NodeId} {signal : Signal}

theorem visited_of_carries (rebuilding : Rebuilding net id source old new above front r member g)
    (carries : r.Carries front x signal) : x = id ∨ x ∈ front := by
  cases carries with
  | recorded held => exact rebuilding.recorded held
  | kept listed => exact .inr listed

/-- A carrier is settled, with the new word of its node. -/
theorem carried_of_carries (rebuilding : Rebuilding net id source old new above front r member g)
    (listing : Above net.nodes.layout id above) (gate : net.nodes.layout.HasGate id)
    (split : above = front ++ back) (carries : r.Carries front x signal) :
    Carried member g signal (new x) := by
  rw [← carries.resolve_eq]
  rcases rebuilding.visited_of_carries carries with rfl | listed
  · exact rebuilding.carried gate.mayDrive fun listed =>
      absurd rfl ((listing.exact x).mp listed).2.2
  · have isGate := ((listing.exact x).mp (by simp [split, listed])).1
    exact rebuilding.carried isGate.mayDrive fun _ => listed

/-- Later visits change nothing on which a settled signal depends. -/
theorem layout_eq_of_visits (rebuilding : Rebuilding net id source old new above front r member g)
    (sound : net.Sound) (listing : Above net.nodes.layout id above)
    (rewording : Rewording net id source old new) {later : List NodeId} {next : Rebuild}
    (split : above = front ++ later ++ back) (ran : later.foldlM Rebuild.visit r = .ok next)
    {word : Word} (carried : Carried member g signal word) {d y : NodeId}
    (read : signal.node = some d) (depends : r.network.nodes.layout.circuit.Depends d y) :
    next.network.nodes.layout y = r.network.nodes.layout y := by
  obtain ⟨_, _, _, ran', _, keeps⟩ := rebuilding.visits sound listing rewording split
  cases ran'.symm.trans ran
  exact keeps.layout_eq (rebuilding.settled.of_depends (carried.inside d read) depends)

end Rebuilding

namespace Network

/-- What is settled has its words in every evaluation. -/
theorem Sound.evaluates_of_carried {net : Network} (sound : net.Sound) {words : List Word}
    (length : words.length = net.inputs.size) {member : NodeId → Prop} {g : NodeId → Word}
    (settled : Settled net.nodes.layout (fun id => (net.inputWord words id).getD 0) member g)
    {s : Signal} {word : Word} (carried : Carried member g s word) :
    net.Evaluates words s word := by
  obtain ⟨v, carries⟩ := sound.exists_carries words
  have same : ∀ {x}, member x → member x ∧ v x = g x := fun inside =>
    ⟨inside, settled.eq_of_solves sound.woven.layout.acyclic (fun _ => carries _) inside⟩
  obtain ⟨inside, rfl⟩ := carried.mono same
  exact sound.evaluates length carries fun d read => settled.drives (inside d read)

/-! ## The invariant -/

/-- A network in which some gates of a cone were visited, and others are still to be: the gates have
keys, all different, and form no cycle; each carrier evaluates to what its node is in the given
circuit; and no later visit changes a node on which a carrier depends. -/
structure Halfway (net : Network) (C : Circuit) (front back : List NodeId) (r : Rebuild) : Prop where
  inputs : r.network.inputs = net.inputs
  acyclic : r.network.nodes.layout.circuit.Acyclic
  keyed : ∀ x, r.network.nodes.layout.HasGate x ↔ ∃ key, r.network.nodes.layout.key? x = some key
  unique : ∀ {x y key}, r.network.nodes.layout.key? x = some key →
    r.network.nodes.layout.key? y = some key → x = y
  computes : ∀ {x signal}, r.Carries front x signal →
    ∀ {words : List Word}, words.length = net.inputs.size →
      ∃ word, C.Yields (net.inputWord words) (.positive x) word ∧
        r.network.Evaluates words signal word
  frozen : ∀ {later rest next}, back = later ++ rest → later.foldlM Rebuild.visit r = .ok next →
    ∀ {x signal d y}, r.Carries front x signal → signal.node = some d →
      r.network.nodes.layout.circuit.Depends d y →
        next.network.nodes.layout y = r.network.nodes.layout y

variable {net middle : Network} {id : NodeId} {gate : Gate} {s t answer : Signal}

/-- Every number of visits is carried out.  The visits do not look at words, so what they leave fits
the words from any words of the inputs. -/
theorem Redefinable.exists_visited (redefinable : net.Redefinable id s t) (sound : net.Sound)
    (realized : net.Realized (some id) (.ofRequest gate s t) answer middle)
    (other : answer ≠ .positive id) {above front back : List NodeId}
    (listing : Above middle.nodes.layout id above) (split : above = front ++ back) :
    ∃ r, front.foldlM Rebuild.visit (.start middle id answer) = .ok r ∧
      ∀ source, ∃ old new member g, middle.Replaces id gate s t answer source old new ∧
        Rebuilding middle id source old new above front r member g := by
  have visits : ∀ source, ∃ old new r member g,
      front.foldlM Rebuild.visit (.start middle id answer) = .ok r ∧
      middle.Replaces id gate s t answer source old new ∧
      Rebuilding middle id source old new above front r member g := by
    intro source
    obtain ⟨old, new, replaces⟩ := redefinable.exists_replaces sound realized other source
    obtain ⟨r, member, g, ran, rebuilding⟩ := rebuilding_visits (realized.sound sound)
      (replaces.replaceable redefinable sound realized other) listing split
    exact ⟨old, new, r, member, g, ran, replaces, rebuilding⟩
  obtain ⟨_, _, r, _, _, ran, _⟩ := visits fun _ => 0
  refine ⟨r, ran, fun source => ?_⟩
  obtain ⟨old, new, r', member, g, ran', replaces, rebuilding⟩ := visits source
  cases ran.symm.trans ran'
  exact ⟨old, new, member, g, replaces, rebuilding⟩

/-- Every number of visits leaves a network between two visits. -/
theorem Redefinable.halfway (redefinable : net.Redefinable id s t) (sound : net.Sound)
    (realized : net.Realized (some id) (.ofRequest gate s t) answer middle)
    (other : answer ≠ .positive id) {above front back : List NodeId}
    (listing : Above middle.nodes.layout id above) (split : above = front ++ back) :
    ∃ r, front.foldlM Rebuild.visit (.start middle id answer) = .ok r ∧
      net.Halfway (net.redefined id gate s t) front back r := by
  have soundMiddle := realized.sound sound
  have gateMiddle := (redefinable.realized sound realized other).gate
  obtain ⟨r, ran, fits⟩ := redefinable.exists_visited sound realized other listing split
  obtain ⟨_, _, _, _, replaces, rebuilding⟩ := fits fun _ => 0
  have layout := rebuilding.sound.woven.layout
  have inputs := rebuilding.inputs.trans realized.inputs
  refine ⟨r, ran, inputs, layout.acyclic, fun _ => layout.hasGate_iff, layout.unique, ?_, ?_⟩
  · intro x signal carries words length
    obtain ⟨_, new, _, _, replaces, rebuilding⟩ :=
      fits fun id => (net.inputWord words id).getD 0
    -- The node was there before the request was realized, so the redefined circuit speaks of it.
    have isGate : net.nodes.layout.HasGate x := by
      rcases rebuilding.visited_of_carries carries with rfl | listed
      · exact redefinable.gate
      · obtain ⟨isGate, depends, different⟩ := (listing.exact x).mp (by simp [split, listed])
        exact redefinable.hasGate_of_above sound realized other isGate depends different
    refine ⟨new x, ?_, ?_⟩
    · exact sound.yields (s := .positive x) length (redefinable.acyclic sound gate)
        (redefinable.isSome_redefined_iff sound) (redefinable.closed sound)
        (replaces.solves_redefined (realized.kept other))
        fun d same => Option.some.inj same ▸ isGate.mayDrive
    · refine rebuilding.sound.evaluates_of_carried (by rw [inputs, length]) ?_
        (rebuilding.carried_of_carries listing gateMiddle split carries)
      simpa only [inputWord, inputs] using rebuilding.settled
  · intro later rest next rests ran' x signal d y carries read depends
    have all : above = front ++ later ++ rest := by rw [split, rests, List.append_assoc]
    exact rebuilding.layout_eq_of_visits soundMiddle listing replaces.rewording all ran'
      (rebuilding.carried_of_carries listing gateMiddle split carries) read depends

/-! ## The operation -/

/-- Redefining a gate of a reachable network is refused, or leaves the answer with the gate itself,
or rebuilds the cone of the gate: then it visits the gates above in turn, and moves outputs after
that.  Before, between and after all visits, each recorded replacement and each visited gate without
one evaluates to what its node is in the redefined circuit, nothing on which they depend is changed
by a later visit, the gates form no cycle, and no two gates have the same key. -/
theorem Reachable.visits_settle (reachable : net.Reachable) (id : NodeId) (gate : Gate)
    (s t : Signal) :
    (∃ refusal, net.redefine id gate s t = .ok (.refused refusal net)) ∨
    (∃ after, net.realize (some id) gate s t = .ok (.positive id, after) ∧
      net.redefine id gate s t = .ok (.done (.positive id) after)) ∨
    ∃ answer middle order after, ∃ readings : List (NodeId × Signal), answer ≠ .positive id ∧
      net.realize (some id) gate s t = .ok (answer, middle) ∧
      middle.visitOrder id = .ok order ∧
      (middle.rebuild id answer =
        order.foldlM Rebuild.visit (.start middle id answer) >>= fun r =>
          readings.foldlM (Rebuild.redrive r.replaced) r.network) ∧
      middle.rebuild id answer = .ok after ∧
      net.redefine id gate s t = .ok (.done answer after) ∧
      ∀ front back, order = front ++ back →
        ∃ r, front.foldlM Rebuild.visit (.start middle id answer) = .ok r ∧
          net.Halfway (net.redefined id gate s t) front back r := by
  have sound := reachable.sound
  rcases checkRedefine_spec sound id s t with ⟨passed, redefinable⟩ | ⟨refusal, failed⟩
  · obtain ⟨answer, middle, made, realized⟩ := redefinable.realize sound gate
    by_cases inPlace : answer = .positive id
    · subst inPlace
      exact .inr (.inl ⟨middle, made, (redefine_eq passed made).trans (if_pos rfl)⟩)
    · obtain ⟨after, _, _, _, rebuilt, _⟩ :=
        redefinable.elsewhere sound realized inPlace fun _ => 0
      obtain ⟨_, order, _, _, ordered, listing, rebuildEq⟩ := rebuild_eq (realized.sound sound)
        (redefinable.realized sound realized inPlace).gate answer
      refine .inr (.inr ⟨answer, middle, order, after, _, inPlace, made, ordered, rebuildEq, rebuilt,
        ?_, fun front back split => redefinable.halfway sound realized inPlace listing split⟩)
      rw [redefine_eq passed made, if_neg inPlace, rebuilt]
      rfl
  · exact .inl ⟨refusal, by rw [redefine, failed, guarded]⟩

/-- The and-gate of two layers becomes a nand-gate, and its inverse carries the new value.  The next
gate above it is found to be its own inverse, which is recorded before the last gate is visited. -/
theorem visits_settle_inverted :
    ∃ net, (withBuckets 0).runAll layeredCommands = .ok net ∧ ∃ middle r,
      net.realize (some 3) Gate.and.complement (.positive 0) (.positive 1) =
        .ok (.negative 3, middle) ∧
      middle.visitOrder 3 = .ok [5, 6] ∧
      [5].foldlM Rebuild.visit (.start middle 3 (.negative 3)) = .ok r ∧
      r.Carries [5] 3 (.negative 3) ∧ r.Carries [5] 5 (.negative 5) ∧
      net.Halfway (net.redefined 3 Gate.and.complement (.positive 0) (.positive 1)) [5] [6] r := by
  refine exists_runAll (fun net => (
      (net.redefine 3 Gate.and.complement (.positive 0) (.positive 1)).toOption.map (·.answer),
      (do
        let made ← net.realize (some 3) Gate.and.complement (.positive 0) (.positive 1)
        let order ← made.2.visitOrder 3
        let r ← [5].foldlM Rebuild.visit (.start made.2 3 made.1)
        return (order, r.replaced)).toOption))
    (some (.ok (.negative 3)), some ([5, 6], #[none, none, none, some (.negative 3), none,
      some (.negative 5), none])) (by simp [layeredCommands]) (by decide +kernel) ?_
  intro net reached seen
  obtain ⟨answered, looped⟩ := Prod.mk.inj seen
  obtain ⟨⟨answer, middle⟩, realized, looped⟩ :=
    bind_eq_ok_iff.mp (toOption_eq_some_iff.mp looped)
  obtain ⟨order, ordered, looped⟩ := bind_eq_ok_iff.mp looped
  obtain ⟨r, ran, looped⟩ := bind_eq_ok_iff.mp looped
  obtain ⟨rfl, replaced⟩ := Prod.mk.inj (Except.ok.inj looped)
  rcases reached.visits_settle 3 Gate.and.complement (.positive 0) (.positive 1) with
    ⟨refusal, made⟩ | ⟨after, _, made⟩ |
    ⟨_, _, _, after, readings, _, realized', ordered', _, _, made, halfway⟩
  · rw [made] at answered
    cases answered
  · rw [made] at answered
    cases answered
  · rw [made] at answered
    cases answered
    cases realized.symm.trans realized'
    cases ordered.symm.trans ordered'
    obtain ⟨_, ran', between⟩ := halfway [5] [6] rfl
    cases ran.symm.trans ran'
    exact ⟨middle, r, realized, ordered, ran, .recorded (by rw [replaced]; rfl),
      .recorded (by rw [replaced]; rfl), between⟩

end Network

end GateNet
