import GateNet.Proofs.Checks
import GateNet.Proofs.Part

/-!
# What a redefined gate can change

A change is confined to some nodes when every other node is as it was.  Redefining a gate is
confined to what depends on it: a gate of its cone is rewired, or realized by one new gate, or shares
some gate of the network, which stays as it is; and the outputs that are moved read the cone.
-/

namespace GateNet

namespace Network

variable {net middle after : Network} {affected more : NodeId → Prop} {made later : List NodeId}
  {id : NodeId}

/-! ## Confined changes -/

/-- A network after changes to some nodes, with new gates.  No node is gone or has another kind;
only fanouts and links of the nodes that are not affected may differ, and the table. -/
structure Confined (net : Network) (affected : NodeId → Prop) (made : List NodeId)
    (after : Network) : Prop where
  kept : ∀ {x n}, net.nodes.layout x = some n → ¬ affected x → after.nodes.layout x = some n
  kinds : ∀ {x}, x ∉ made → after.nodes.layout.kind? x = net.nodes.layout.kind? x
  fresh : ∀ {x}, x ∈ made → net.nodes.layout.kind? x = none
  new : ∀ {x}, x ∈ made → after.nodes.layout.HasGate x
  gates : after.gates = net.gates ++ made.toArray
  inputs : after.inputs = net.inputs
  outputs : after.outputs = net.outputs
  ports : after.ports = net.ports
  banks : ∀ family, after.bank family = net.bank family

namespace Confined

theorem refl (net : Network) (affected : NodeId → Prop) : net.Confined affected [] net where
  kept held _ := held
  kinds _ := rfl
  fresh := nofun
  new := nofun
  gates := by simp
  inputs := rfl
  outputs := rfl
  ports := rfl
  banks _ := rfl

theorem kind_of_node (confined : net.Confined affected made after) {x : NodeId} {n : Node}
    (held : net.nodes.layout x = some n) : after.nodes.layout.kind? x = some n.kind := by
  rw [confined.kinds, Layout.kind?_of_node held]
  intro listed
  have fresh := confined.fresh listed
  rw [Layout.kind?_of_node held] at fresh
  cases fresh

theorem exists_node (confined : net.Confined affected made after) {x : NodeId} {n : Node}
    (held : net.nodes.layout x = some n) :
    ∃ m, after.nodes.layout x = some m ∧ m.kind = n.kind :=
  Layout.kind?_eq_some_iff.mp (confined.kind_of_node held)

theorem exists_output (confined : net.Confined affected made after) {x : NodeId} {n : Node}
    (held : net.nodes.layout x = some n) (output : n.isOutput = true) :
    ∃ m, after.nodes.layout x = some m ∧ m.isOutput = true := by
  obtain ⟨m, held', same⟩ := confined.exists_node held
  exact ⟨m, held', by rwa [Node.isOutput, same]⟩

theorem mayDrive (confined : net.Confined affected made after) {x : NodeId}
    (drives : net.nodes.layout.MayDrive x) : after.nodes.layout.MayDrive x := by
  obtain ⟨n, held, drives⟩ := drives
  obtain ⟨m, held', same⟩ := confined.exists_node held
  exact ⟨m, held', by rwa [Node.isOutput, same]⟩

theorem widen (confined : net.Confined affected made after)
    (wider : ∀ {x n}, net.nodes.layout x = some n → affected x → more x) :
    net.Confined more made after :=
  { confined with kept := fun held apart => confined.kept held fun here => apart (wider held here) }

theorem trans (first : net.Confined affected made middle)
    (second : middle.Confined more later after) :
    net.Confined (fun x => affected x ∨ more x) (made ++ later) after where
  kept held apart := by
    rw [not_or] at apart
    exact second.kept (first.kept held apart.1) apart.2
  kinds unlisted := by
    rw [List.mem_append, not_or] at unlisted
    rw [second.kinds unlisted.2, first.kinds unlisted.1]
  fresh {x} listed := by
    by_cases early : x ∈ made
    · exact first.fresh early
    · rw [← first.kinds early]
      exact second.fresh ((List.mem_append.mp listed).resolve_left early)
  new listed := by
    rcases List.mem_append.mp listed with early | late
    · obtain ⟨n, held, isGate⟩ := first.new early
      obtain ⟨m, held', same⟩ := second.exists_node held
      exact ⟨m, held', by rwa [Node.isGate, same]⟩
    · exact second.new late
  gates := by simp [second.gates, first.gates]
  inputs := second.inputs.trans first.inputs
  outputs := second.outputs.trans first.outputs
  ports := second.ports.trans first.ports
  banks family := (second.banks family).trans (first.banks family)

/-- One node reads something else. -/
theorem update {n m : Node} {nodes : Store Node} {table : Array (Option NodeId)} {limit : Nat}
    (held : net.nodes.layout id = some n)
    (layout_eq : nodes.layout = Function.update net.nodes.layout id (some m))
    (same : m.kind = n.kind) :
    net.Confined (· = id) [] { net with nodes, table, limit, depth? := none } where
  kept held' apart := by
    show nodes.layout _ = _
    rw [layout_eq, Function.update_of_ne apart, held']
  kinds {x} _ := by
    show nodes.layout.kind? x = _
    rw [layout_eq, Layout.kind?_update_of_kind held same]
  fresh := nofun
  new := nofun
  gates := by simp
  inputs := rfl
  outputs := rfl
  ports := rfl
  banks family := by cases family <;> rfl

/-- There is one gate more. -/
theorem add {m : Node} {nodes : Store Node} {table : Array (Option NodeId)} {limit : Nat}
    (free : net.nodes.layout id = none)
    (layout_eq : nodes.layout = Function.update net.nodes.layout id (some m))
    (isGate : m.isGate = true) :
    net.Confined (fun _ => False) [id]
      { net with nodes, table, limit, gates := net.gates.push id, depth? := none } where
  kept held _ := by
    show nodes.layout _ = _
    rw [layout_eq, Function.update_of_ne (Layout.ne_of_free free held), held]
  kinds {x} unlisted := by
    show nodes.layout.kind? x = _
    rw [layout_eq, Layout.kind?_update, Function.update_of_ne (by simpa using unlisted)]
  fresh listed := by
    rw [List.mem_singleton.mp listed, Layout.kind?, free]
    rfl
  new listed := by
    rw [List.mem_singleton.mp listed]
    show nodes.layout.HasGate id
    rw [layout_eq]
    exact ⟨m, Function.update_self .., isGate⟩
  gates := by simp
  inputs := rfl
  outputs := rfl
  ports := rfl
  banks family := by cases family <;> rfl

/-- What is not affected anywhere is part of what comes out. -/
theorem partOf (confined : net.Confined (fun _ => False) made after) : net.PartOf after :=
  ⟨fun held => confined.kept held id, confined.inputs.symm, confined.outputs.symm⟩

end Confined

/-! ## Realized requests -/

/-- Realizing a request affects at most the gate to reuse, and makes at most the gate that carries
the answer. -/
theorem Realized.confined {reuse : Option NodeId} {normal : Normal} {signal : Signal}
    (realized : net.Realized reuse normal signal after) :
    ∃ made, (made = [] ∨ ∃ x, made = [x] ∧ signal.node = some x) ∧
      net.Confined (fun x => reuse = some x) made after := by
  cases realized with
  | settled | found => exact ⟨[], .inl rfl, .refl net _⟩
  | rewired held _ _ _ layout_eq =>
    exact ⟨[], .inl rfl,
      (Confined.update held layout_eq rfl).widen fun _ here => congrArg some here.symm⟩
  | added _ _ _ free _ layout_eq =>
    exact ⟨_, .inr ⟨_, rfl, rfl⟩, (Confined.add free layout_eq rfl).widen fun _ => False.elim⟩

/-- A gate that carries the answer itself is all that is affected. -/
theorem Realized.confined_in_place {reuse : Option NodeId} {normal : Normal} {n : Node}
    (held : net.nodes.layout id = some n)
    (realized : net.Realized reuse normal (.positive id) after) :
    net.Confined (· = id) [] after := by
  cases realized with
  | settled | found => exact .refl net _
  | rewired held' _ _ _ layout_eq => exact .update held' layout_eq rfl
  | added _ _ _ free =>
    rw [held] at free
    cases free

end Network

/-! ## Rebuilding a cone -/

section

variable {net after : Network} {id : NodeId} {source old new : NodeId → Word}

/-- A visit affects the visited gate at most, and makes one gate at most. -/
theorem Rebuilding.visit_confined {above before : List NodeId} {r next : Rebuild}
    {member : NodeId → Prop} {g : NodeId → Word}
    (rebuilding : Rebuilding net id source old new above before r member g) {x : NodeId} {key : Key}
    (turn : Turn above before r member g new x key) (visited : r.visit x = .ok next) :
    ∃ made, made.length ≤ 1 ∧ r.network.Confined (· = x) made next.network := by
  rw [rebuilding.visit_eq turn] at visited
  split at visited
  · cases visited
    exact ⟨[], Nat.zero_le _, .refl _ _⟩
  · obtain ⟨signal, middle, realizedEq, realized⟩ := rebuilding.realize turn
    obtain ⟨made, few, confined⟩ := realized.confined
    rw [realizedEq, ok_bind] at visited
    have network : next.network = middle := by
      cases visited
      split <;> rfl
    rw [network]
    refine ⟨made, ?_, confined.widen fun _ reused => (rebuilding.reusable turn reused).1⟩
    rcases few with rfl | ⟨y, rfl, _⟩ <;> simp

/-- The visits affect the visited gates, and make at most one gate each. -/
theorem visits_confined (sound : net.Sound) {signal : Signal}
    (replaceable : Replaceable net id source old new signal) {above : List NodeId}
    (listing : Above net.nodes.layout id above) {visited : Rebuild}
    (ran : above.foldlM Rebuild.visit (.start net id signal) = .ok visited) :
    (∃ member g, Rebuilding net id source old new above above visited member g) ∧
      ∃ made, made.length ≤ above.length ∧ net.Confined (· ∈ above) made visited.network := by
  obtain ⟨rebuilding, made, few, confined⟩ := foldlM_keeps ran
    (fun done r => (∃ member g, Rebuilding net id source old new above done r member g) ∧
      ∃ made, made.length ≤ done.length ∧ net.Confined (· ∈ done) made r.network)
    ⟨⟨_, old, rebuilding_start sound replaceable listing⟩, [], Nat.le_refl _, .refl net _⟩ <| by
      rintro before x rest r next split ⟨⟨member, g, rebuilding⟩, made, few, confined⟩ visited
      obtain ⟨key, turn⟩ := rebuilding.turn sound listing replaceable.rewording split
      obtain ⟨_, more, g', visited', rebuilding', _⟩ :=
        rebuilding.visit sound listing replaceable.rewording split
      obtain rfl := Except.ok.inj (visited.symm.trans visited')
      obtain ⟨later, few', confined'⟩ := rebuilding.visit_confined turn visited
      refine ⟨⟨more, g', rebuilding'⟩, made ++ later, ?_, ?_⟩
      · simp only [List.length_append, List.length_singleton]
        omega
      · exact (confined.trans confined').widen fun _ here => by simpa using here
  exact ⟨rebuilding, made, few, confined⟩

/-- Moving an output affects that output alone. -/
theorem Network.Sound.redrive_confined (sound : net.Sound) {replaced : Array (Option Signal)}
    {o : NodeId} {n : Node} {read : Signal} (held : net.nodes.layout o = some n)
    (output : n.isOutput = true) (fit : net.Fit (Rebuild.resolve replaced read))
    (moved : Rebuild.redrive replaced net (o, read) = .ok after) :
    after.Sound ∧ net.Confined (· = o) [] after := by
  unfold Rebuild.redrive at moved
  dsimp only at moved
  split at moved
  · cases moved
    exact ⟨sound, .refl net _⟩
  · obtain ⟨nodes, driven, sound', layout_eq⟩ := sound.driveOutput held output fit
    obtain rfl := Except.ok.inj (driven.symm.trans moved)
    exact ⟨sound', .update held layout_eq rfl⟩

/-- Moving the outputs that read a cone affects those outputs alone. -/
theorem redrives_confined (sound : net.Sound) {replaced : Array (Option Signal)}
    {readings : List (NodeId × Signal)}
    (outputs : ∀ reading ∈ readings, ∃ n, net.nodes.layout reading.1 = some n ∧ n.isOutput = true)
    (fit : ∀ reading ∈ readings, net.Fit (Rebuild.resolve replaced reading.2))
    (moved : readings.foldlM (Rebuild.redrive replaced) net = .ok after) :
    net.Confined (fun x => ∃ reading ∈ readings, reading.1 = x) [] after := by
  obtain ⟨_, confined⟩ := foldlM_keeps moved
    (fun done state => state.Sound ∧
      net.Confined (fun x => ∃ reading ∈ done, reading.1 = x) [] state)
    ⟨sound, .refl net _⟩ <| by
      rintro before reading rest state next split ⟨sound, confined⟩ moved
      have listed : reading ∈ readings := by simp [split]
      obtain ⟨n, held, output⟩ := outputs reading listed
      obtain ⟨m, held', output'⟩ := confined.exists_output held output
      obtain ⟨sound', confined'⟩ := sound.redrive_confined held' output'
        (fun d read => confined.mayDrive (fit reading listed d read)) moved
      refine ⟨sound', (confined.trans confined').widen fun _ here => ?_⟩
      simpa [or_and_right, exists_or, eq_comm] using here
  exact confined

/-- The gates above a gate depend on it along one wire at least. -/
theorem Above.transGen {above : List NodeId} (listing : Above net.nodes.layout id above)
    (sound : net.Sound) {x : NodeId} (listed : x ∈ above) :
    Relation.TransGen net.WireTo x id := by
  obtain ⟨gate, depends, different⟩ := (listing.exact x).mp listed
  rw [← sound.depends_iff_wires gate.mayDrive, Relation.reflTransGen_iff_eq_or_transGen] at depends
  exact depends.resolve_left (Ne.symm different)

/-- Rebuilding affects what depends on the gate, and makes at most one gate for each gate above
it. -/
theorem rebuild_confined (sound : net.Sound) {signal : Signal}
    (replaceable : Replaceable net id source old new signal)
    (rebuilt : net.rebuild id signal = .ok after) :
    ∃ above made, Above net.nodes.layout id above ∧ made.length ≤ above.length ∧
      net.Confined (fun x => Relation.TransGen net.WireTo x id) made after := by
  obtain ⟨cone, above, _, exact, _, listing, rebuildEq⟩ := rebuild_eq sound replaceable.gate signal
  rw [rebuildEq] at rebuilt
  obtain ⟨visited, ran, moved⟩ := bind_eq_ok_iff.mp rebuilt
  obtain ⟨⟨member, g, rebuilding⟩, made, few, confined⟩ :=
    visits_confined sound replaceable listing ran
  -- The readers of the cone are outputs, and their replacements may be read after the visits.
  have reader : ∀ reading ∈ cone.readers.toList.map fun y => (y, net.sourceOf y),
      ∃ n, net.nodes.layout reading.1 = some n ∧ n.isOutput = true ∧ reading.2 = n.source ∧
        Relation.TransGen net.WireTo reading.1 id := by
    intro reading listed
    obtain ⟨y, reads, rfl⟩ := List.mem_map.mp listed
    obtain ⟨notGate, x, wire, depends⟩ := (exact.readers y).mp (Array.mem_toList_iff.mp reads)
    obtain ⟨n, held, output⟩ := sound.isOutput_of_wire wire notGate
    exact ⟨n, held, output, Network.sourceOf_eq held,
      .head' wire ((sound.depends_iff_wires (sound.mayDrive_of_wire wire)).mpr depends)⟩
  have confined' := redrives_confined rebuilding.sound (fun reading listed => ?_)
    (fun reading listed d read => ?_) moved
  · refine ⟨_, made, listing, few, ?_⟩
    rw [← List.append_nil made]
    refine (confined.trans confined').widen fun {x n} _ here => ?_
    rcases here with visited | ⟨reading, listed, rfl⟩
    · exact listing.transGen sound visited
    · obtain ⟨_, _, _, _, above⟩ := reader reading listed
      exact above
  · obtain ⟨n, held, output, _⟩ := reader reading listed
    exact confined.exists_output held output
  · obtain ⟨n, held, output, source_eq, _⟩ := reader reading listed
    rw [source_eq] at read
    have carried := (rebuilding.carried_source sound replaceable.rewording exact held output).1
    exact rebuilding.settled.drives (carried.inside d read)

end

/-! ## Redefining a gate -/

namespace Network

variable {net middle after : Network} {id : NodeId} {gate : Gate} {s t answer : Signal}

namespace PartOf

variable {part whole : Network} {x d : NodeId} {n : Node}

/-- A node of the part has the same wires in the whole. -/
theorem wireTo_iff (inside : part.PartOf whole) (held : part.nodes.layout x = some n) :
    whole.WireTo x d ↔ part.WireTo x d := by
  simp only [WireTo, Store.Woven.driverAt_eq _ held, Store.Woven.driverAt_eq _ (inside.kept held)]

theorem transGen_wireTo_iff (inside : part.PartOf whole) (sound : part.Sound)
    (held : part.nodes.layout x = some n) :
    Relation.TransGen whole.WireTo x d ↔ Relation.TransGen part.WireTo x d := by
  constructor
  · intro wires
    -- By induction from the reader: what a node of the part reads is in the part as well.
    induction wires using Relation.TransGen.head_induction_on generalizing n with
    | single wire => exact .single ((inside.wireTo_iff held).mp wire)
    | head wire _ inductionHypothesis =>
      have wire := (inside.wireTo_iff held).mp wire
      obtain ⟨m, held', _⟩ := sound.mayDrive_of_wire wire
      exact .head wire (inductionHypothesis held')
  · refine Relation.TransGen.mono (fun y z wire => ?_) x d
    obtain ⟨m, held⟩ := wire.live
    exact (inside.wireTo_iff held).mpr wire

end PartOf

/-- What was done when a redefinition was carried out. -/
theorem redefine_eq_ok (sound : net.Sound)
    (done : net.redefine id gate s t = .ok (.done answer after)) :
    net.Redefinable id s t ∧ ∃ middle,
      net.Realized (some id) (.ofRequest gate s t) answer middle ∧
      ((answer = .positive id ∧ after = middle) ∨
        (answer ≠ .positive id ∧ middle.rebuild id answer = .ok after)) := by
  rcases checkRedefine_spec sound id s t with ⟨passed, redefinable⟩ | ⟨refusal, failed⟩
  · obtain ⟨signal, middle, made, realized⟩ := redefinable.realize sound gate
    rw [redefine_eq passed made] at done
    refine ⟨redefinable, middle, ?_⟩
    split at done
    · next inPlace =>
      cases done
      exact ⟨realized, .inl ⟨inPlace, rfl⟩⟩
    · next other =>
      obtain ⟨last, rebuilt, done⟩ := bind_eq_ok_iff.mp done
      cases done
      exact ⟨realized, .inr ⟨other, rebuilt⟩⟩
  · rw [redefine, failed, guarded] at done
    cases done

/-- The gates that are reached from a gate along fanouts, with the gate itself. -/
theorem Sound.exists_cone (sound : net.Sound) (id : NodeId) :
    ∃ cone : List NodeId, cone.Nodup ∧
      ∀ x, x ∈ cone ↔ net.nodes.layout.HasGate x ∧ Relation.ReflTransGen net.ReadBy id x := by
  obtain ⟨order, _, ordered⟩ := driversFirst_spec sound
  classical
  refine ⟨order.filter fun x => decide (Relation.ReflTransGen net.ReadBy id x),
    ordered.nodup.filter _, fun x => ?_⟩
  rw [List.mem_filter, ordered.exact, decide_eq_true_iff]

/-- If another signal replaces a gate, what is strictly above the gate is affected, and a gate is
made for the request and for each gate above at most. -/
theorem Redefinable.confined_elsewhere (redefinable : net.Redefinable id s t) (sound : net.Sound)
    (realized : net.Realized (some id) (.ofRequest gate s t) answer middle)
    (other : answer ≠ .positive id) (rebuilt : middle.rebuild id answer = .ok after) :
    ∃ above made : List NodeId, (id :: above).Nodup ∧ made.length ≤ above.length + 1 ∧
      (∀ x ∈ above, net.nodes.layout.HasGate x ∧ Relation.TransGen net.ReadBy id x) ∧
      net.Confined (Relation.TransGen net.ReadBy id) made after := by
  obtain ⟨made, new, confined⟩ := realized.confined
  replace confined : net.Confined (fun _ => False) made middle :=
    { confined with kept := fun held _ => realized.kept other held }
  have soundMiddle := realized.sound sound
  -- Any words at the inputs will do: that the visits succeed is all that they are needed for.
  obtain ⟨_, _, replaces⟩ := redefinable.exists_replaces sound realized other fun _ => 0
  obtain ⟨above, later, listing, few, confined'⟩ := rebuild_confined soundMiddle
    (replaces.replaceable redefinable sound realized other) rebuilt
  have reached : ∀ {x n}, net.nodes.layout x = some n →
      Relation.TransGen middle.WireTo x id → Relation.TransGen net.ReadBy id x := by
    intro x n held wires
    rw [sound.readBy_eq, Relation.transGen_swap]
    exact (confined.partOf.transGen_wireTo_iff sound held).mp wires
  refine ⟨above, made ++ later,
    List.nodup_cons.mpr ⟨fun listed => ((listing.exact id).mp listed).2.2 rfl, listing.nodup⟩, ?_,
    fun x listed => ?_,
    (confined.trans confined').widen fun held here => reached held (here.resolve_left not_false)⟩
  · rw [List.length_append]
    rcases new with rfl | ⟨y, rfl, _⟩ <;> simp <;> omega
  · obtain ⟨isGate, depends, different⟩ := (listing.exact x).mp listed
    obtain ⟨n, held, isGate'⟩ :=
      redefinable.hasGate_of_above sound realized other isGate depends different
    exact ⟨⟨n, held, isGate'⟩, reached held (listing.transGen soundMiddle listed)⟩

/-- Redefining a gate stays inside its cone, the gates that are reached from it along fanouts.  No
node is gone, every node that is not reached is as it was, and gates are appended only, at most one
for each gate of the cone.  If the gate itself carries the answer, it alone is changed and no gate
is made; otherwise the gate itself is as it was. -/
theorem Reachable.redefine_confined (reachable : net.Reachable)
    (done : net.redefine id gate s t = .ok (.done answer after)) :
    ∃ cone made : List NodeId,
      (∀ x, x ∈ cone ↔ net.nodes.layout.HasGate x ∧ Relation.ReflTransGen net.ReadBy id x) ∧
      cone.Nodup ∧ made.length ≤ cone.length ∧
      net.Confined (Relation.ReflTransGen net.ReadBy id) made after ∧
      (answer = .positive id → made = [] ∧ net.Confined (· = id) [] after) ∧
      (answer ≠ .positive id → net.Confined (Relation.TransGen net.ReadBy id) made after) := by
  have sound := reachable.sound
  obtain ⟨redefinable, middle, realized, outcome⟩ := redefine_eq_ok sound done
  obtain ⟨cone, nodup, exact⟩ := sound.exists_cone id
  obtain ⟨n, held, isGate⟩ := redefinable.gate
  rcases outcome with ⟨rfl, rfl⟩ | ⟨other, rebuilt⟩
  · have confined := realized.confined_in_place held
    refine ⟨cone, [], exact, nodup, Nat.zero_le _, confined.widen ?_, fun _ => ⟨rfl, confined⟩,
      fun other => absurd rfl other⟩
    rintro x m _ rfl
    exact .refl
  · obtain ⟨above, made, nodup', few, reached, confined⟩ :=
      redefinable.confined_elsewhere sound realized other rebuilt
    refine ⟨cone, made, exact, nodup, few.trans ?_,
      confined.widen fun _ => Relation.TransGen.to_reflTransGen, fun inPlace => absurd inPlace other,
      fun _ => confined⟩
    -- The gate and the gates above it are different gates of the cone.
    refine (nodup'.subperm fun x listed => (exact x).mpr ?_).length_le
    rcases List.mem_cons.mp listed with rfl | listed
    · exact ⟨⟨n, held, isGate⟩, .refl⟩
    · exact ⟨(reached x listed).1, (reached x listed).2.to_reflTransGen⟩

/-- The and-gate of two layers becomes a nand-gate: the same gate, inverted, carries the answer.  One
gate above it is shared inverted, one is made, and the output is moved to it. -/
theorem redefine_confined_inverted :
    ∃ net, (withBuckets 0).runAll layeredCommands = .ok net ∧ ∃ after, ∃ cone made : List NodeId,
      net.redefine 3 Gate.and.complement (.positive 0) (.positive 1) =
        .ok (.done (.negative 3) after) ∧
      (∀ x, x ∈ cone ↔ net.nodes.layout.HasGate x ∧ Relation.ReflTransGen net.ReadBy 3 x) ∧
      after.gates = #[3, 4, 5, 6, 7] ∧ made.length ≤ cone.length ∧
      net.Confined (Relation.TransGen net.ReadBy 3) made after := by
  refine exists_runAll (fun net =>
    (net.redefine 3 Gate.and.complement (.positive 0) (.positive 1)).toOption.map
      fun outcome => (outcome.answer, outcome.network.gates))
    (some (.ok (.negative 3), #[3, 4, 5, 6, 7])) (by simp [layeredCommands]) (by decide +kernel) ?_
  intro net reached seen
  obtain ⟨⟨answer, after⟩, made, same⟩ := Option.map_eq_some_iff.mp seen
  obtain ⟨rfl, gates⟩ := Prod.mk.inj same
  have done := toOption_eq_some_iff.mp made
  obtain ⟨cone, made, exact, _, few, _, _, confined⟩ := reached.redefine_confined done
  exact ⟨after, cone, made, done, exact, gates, few, confined (by decide)⟩

end Network

end GateNet
