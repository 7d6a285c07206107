import GateNet.Proofs.CopyGates

/-!
# A copy is isomorphic to its source

When terminals and gates are copied, every output is made to read the copy of what it read.  Then
the table of copies is an isomorphism, whatever the target was before, and so copying is never
refused.
-/

namespace GateNet

namespace Network

def Copies.map (copies : Copies) (x : NodeId) : NodeId := (copies.copy? x).getD 0

theorem Copies.map_eq {copies : Copies} {x y : NodeId} (copy : copies.copy? x = some y) :
    copies.map x = y := by
  rw [Copies.map, copy, Option.getD_some]

/-! ## Copying the readings -/

/-- A target while readings are copied, after the gates: those of the outputs in `done` were. -/
structure ReadingsCopied (src : Network) (copies : Copies) (start : Network) (done : List NodeId)
    (net : Network) : Prop where
  sound : net.Sound
  eq : ∃ nodes depth?, net = { start with nodes, depth? }
  kinds : net.nodes.layout.kind? = start.nodes.layout.kind?
  keys : net.nodes.layout.key? = start.nodes.layout.key?
  reading : ∀ o ∈ done, net.sourceOf (copies.map o) = (src.sourceOf o).relabel copies.map

namespace GatesCopied

variable {src first start : Network} {base copies : Copies} {order : List NodeId}

theorem driver (gates : src.GatesCopied base first order copies start)
    (terminals : src.Seated src.IsTerminal base first)
    (ordered : src.nodes.layout.DriversFirst order) {d : NodeId}
    (drives : src.nodes.layout.MayDrive d) :
    ∃ a, copies.copy? d = some a ∧ start.nodes.layout.MayDrive a :=
  gates.operand terminals drives (ordered.exact d).mpr

/-- The gates leave the copies of the terminals as they were. -/
theorem terminal (gates : src.GatesCopied base first order copies start)
    (ordered : src.nodes.layout.DriversFirst order) {x y : NodeId} {kind kind' : Kind}
    (held : src.nodes.layout.kind? x = some kind) (isTerminal : kind.isGate = false)
    (copy : base.copy? x = some y) (there : first.nodes.layout.kind? y = some kind') :
    copies.copy? x = some y ∧ start.nodes.layout.kind? y = some kind' := by
  obtain ⟨n, live, rfl⟩ := Layout.kind?_eq_some_iff.mp there
  have notGate := ordered.not_mem held isTerminal
  exact ⟨by rw [gates.others x notGate, copy], Layout.kind?_of_node (gates.kept live)⟩

theorem output (gates : src.GatesCopied base first order copies start)
    (terminals : src.Seated src.IsTerminal base first) (legible : src.Legible)
    (ordered : src.nodes.layout.DriversFirst order) {o : NodeId} (listed : o ∈ src.outputs) :
    ∃ n y kind', src.nodes.layout o = some n ∧ copies.copy? o = some y ∧
      start.nodes.layout.kind? y = some kind' ∧ kind'.isOutput = true := by
  obtain ⟨n, held, output⟩ := legible.outputs o listed
  have kind := Layout.kind?_of_node held
  have isTerminal := Node.not_isGate_of_isOutput output
  obtain ⟨y, copy⟩ := terminals.covers ⟨n.kind, kind, isTerminal⟩
  obtain ⟨kind', kind'', _, here, there, same⟩ := terminals.sorts copy
  obtain rfl := Option.some.inj (kind.symm.trans here)
  obtain ⟨copy, there⟩ := gates.terminal ordered kind isTerminal copy there
  exact ⟨n, y, kind'', held, copy, there, (same .outputs).trans output⟩

end GatesCopied

theorem copiedReading_eq {src : Network} {copies : Copies} {o y : NodeId} {n : Node}
    (held : src.nodes.layout o = some n) (copy : copies.copy? o = some y)
    (drivers : ∀ d, n.first = some d → ∃ a, copies.copy? d = some a) :
    src.copiedReading copies o = .ok (y, n.source.relabel copies.map) := by
  obtain ⟨m, found, rfl⟩ := Store.layout_eq_some_iff.mp held
  have fetched : (liftM (src.nodes.fetch o) : Except Failure Node) = .ok m := by
    rw [Store.fetch_of_get? found]
    rfl
  have source : m.core.source.relabel copies.map = ⟨m.first.map copies.map, m.inverted⟩ := rfl
  rw [copiedReading, fetched, ok_bind, source]
  cases reads : m.first with
  | none =>
    simp only [Copies.of_eq_ok_iff.mpr copy, Node.source, reads]
    rfl
  | some d =>
    obtain ⟨a, copyOf⟩ := drivers d reads
    simp only [Copies.of_eq_ok_iff.mpr copy, Copies.of_eq_ok_iff.mpr copyOf, Option.map_some,
      Copies.map_eq copyOf]
    rfl

namespace ReadingsCopied

variable {src first start net : Network} {base copies : Copies} {order done : List NodeId}

theorem fit (readings : src.ReadingsCopied copies start done net) {s : Signal}
    (drivers : ∀ d, s.node = some d → ∃ a, copies.copy? d = some a ∧ start.nodes.layout.MayDrive a) :
    net.Fit (s.relabel copies.map) := by
  intro a reads
  obtain ⟨d, source, rfl⟩ := Option.map_eq_some_iff.mp reads
  obtain ⟨a, copyOf, m, live, drives⟩ := drivers d source
  rw [Copies.map_eq copyOf]
  have kind := Layout.kind?_of_node live
  rw [← readings.kinds] at kind
  obtain ⟨m', live', same⟩ := Layout.kind?_eq_some_iff.mp kind
  exact ⟨m', live', by rw [Node.isOutput, same]; exact drives⟩

theorem add (readings : src.ReadingsCopied copies start done net) {o y : NodeId} {n n' : Node}
    (held : src.nodes.layout o = some n) (copy : copies.copy? o = some y)
    (held' : net.nodes.layout y = some n') (output' : n'.isOutput = true)
    (apart : ∀ o' ∈ done, copies.map o' = y → o' = o) {nodes : Store Node}
    (sound : ({ net with nodes, depth? := none } : Network).Sound)
    (layout_eq : nodes.layout = Function.update net.nodes.layout y
      (some (n'.reading (n.source.relabel copies.map)))) :
    src.ReadingsCopied copies start (done ++ [o]) { net with nodes, depth? := none } := by
  have unkeyed := Node.key?_of_not_isGate (Node.not_isGate_of_isOutput output')
  have unkeyed' : (n'.reading (n.source.relabel copies.map)).key? = none :=
    Node.key?_of_not_isGate (Node.not_isGate_of_isOutput output')
  obtain ⟨nodes₀, depth₀, rfl⟩ := readings.eq
  refine ⟨sound, ⟨_, _, rfl⟩, ?_, ?_, fun o' listed => ?_⟩
  · refine (congrArg Layout.kind? layout_eq).trans (.trans ?_ readings.kinds)
    exact Layout.kind?_update_of_kind held' rfl
  · refine (congrArg Layout.key? layout_eq).trans (.trans ?_ readings.keys)
    exact Layout.key?_update_of_not_gate ((Layout.key?_of_node held').trans unkeyed) unkeyed'
  · rw [sourceOf]
    show ((nodes.layout _).map Node.source).getD .zero = _
    by_cases same : o' = o
    · subst same
      rw [Copies.map_eq copy, sourceOf_eq held, layout_eq, Function.update_self]
      rfl
    · have earlier : o' ∈ done := by simpa [same] using listed
      rw [layout_eq, Function.update_of_ne fun equal => same (apart o' earlier equal)]
      exact readings.reading o' earlier

theorem copyReading (readings : src.ReadingsCopied copies start done net)
    (gates : src.GatesCopied base first order copies start)
    (terminals : src.Seated src.IsTerminal base first) (legible : src.Legible)
    (ordered : src.nodes.layout.DriversFirst order) {rest : List NodeId} {o : NodeId}
    (split : src.outputs.toList = done ++ o :: rest) :
    ∃ after, Network.copyReading src copies () o net = .ok (.done () after) ∧
      src.ReadingsCopied copies start (done ++ [o]) after := by
  have listed : ∀ o' ∈ done ++ o :: rest, o' ∈ src.outputs := by simp [← split]
  obtain ⟨n, y, kind', held, copy, there, output'⟩ :=
    gates.output terminals legible ordered (listed o (by simp))
  have drivers : ∀ d, n.first = some d → ∃ a, copies.copy? d = some a ∧
      start.nodes.layout.MayDrive a := fun d reads =>
    gates.driver terminals ordered (legible.layout.driven (p := .first) held reads)
  rw [← readings.kinds] at there
  obtain ⟨n', held', rfl⟩ := Layout.kind?_eq_some_iff.mp there
  have fit : net.Fit (n.source.relabel copies.map) := readings.fit drivers
  -- Other outputs have other copies, so what these read is not touched.
  have apart : ∀ o' ∈ done, copies.map o' = y → o' = o := by
    intro o' earlier same
    obtain ⟨_, y', _, _, copy', _⟩ :=
      gates.output terminals legible ordered (listed o' (List.mem_append_left _ earlier))
    rw [Copies.map_eq copy'] at same
    subst same
    exact gates.injective copy' copy
  obtain ⟨nodes, driven, sound, layout_eq⟩ := readings.sound.driveOutput held' output' fit
  refine ⟨_, ?_, readings.add held copy held' output' apart sound layout_eq⟩
  have passed := checkDrive_eq_ok_iff.mpr ⟨⟨n', held', output'⟩, fit⟩
  rw [Network.copyReading, copiedReading_eq held copy fun d reads =>
    (drivers d reads).imp fun _ => And.left]
  show Network.drive _ y _ = _
  rw [drive, passed]
  simp only [driven]
  rfl

end ReadingsCopied

/-! ## The copy is isomorphic -/

/-- A target when everything is copied, with what it was after each stage. -/
structure Copied (src : Network) (base : Copies) (first : Network) (order : List NodeId)
    (copies : Copies) (second net : Network) : Prop where
  terminals : src.TerminalsCopied base first
  ordered : src.nodes.layout.DriversFirst order
  gates : src.GatesCopied base first order copies second
  readings : src.ReadingsCopied copies second src.outputs.toList net

namespace Copied

variable {src first second net : Network} {base copies : Copies} {order : List NodeId}

theorem kept (copied : src.Copied base first order copies second net) :
    net.ports = first.ports ∧ (∀ family, net.bank family = first.bank family) ∧
      net.terminal? = first.terminal? ∧ net.name = first.name ∧
      ∀ side : Side, net.registry side.registry = first.registry side.registry := by
  obtain ⟨nodes, _, _, _, _, rfl⟩ := copied.gates.eq
  obtain ⟨nodes', _, rfl⟩ := copied.readings.eq
  refine ⟨rfl, fun family => by cases family <;> rfl, ?_, rfl, fun side => by cases side <;> rfl⟩
  exact terminal?_congr rfl fun family => by cases family <;> rfl

theorem total (copied : src.Copied base first order copies second net) (soundSrc : src.Sound)
    {x : NodeId} {kind : Kind}
    (held : src.nodes.layout.kind? x = some kind) :
    ∃ y kind', copies.copy? x = some y ∧ net.nodes.layout.kind? y = some kind' ∧
      src.Matches net kind kind' := by
  obtain ⟨_, banks, _⟩ := copied.kept
  rw [copied.readings.kinds]
  cases isGate : kind.isGate with
  | true =>
    obtain rfl : kind = .gate := by
      cases kind with
      | gate => rfl
      | _ => cases isGate
    have listed := (copied.ordered.exact x).mpr (Layout.hasGate_iff_kind?.mpr held)
    obtain ⟨_, _, _, y, _, _, _, copy, keyed⟩ := copied.gates.copied x listed
    exact ⟨y, _, copy, Layout.hasGate_iff_kind?.mp (Layout.hasGate_of_key? keyed), .gate⟩
  | false =>
    obtain ⟨y, copy⟩ := copied.terminals.complete soundSrc held isGate
    obtain ⟨_, kind', _, held', live, same⟩ := copied.terminals.kinds copy
    obtain rfl := Option.some.inj (held.symm.trans held')
    obtain ⟨copy, live⟩ := copied.gates.terminal copied.ordered held isGate copy live
    refine ⟨y, kind', copy, live, ?_⟩
    cases same with
    | portInput port bit => exact .portInput port bit
    | portOutput port bit => exact .portOutput port bit
    | gate => exact .gate
    | state family k pin here there => exact .state family k pin here (by rwa [banks])

theorem onto (copied : src.Copied base first order copies second net) (soundSrc : src.Sound)
    {y : NodeId} {kind : Kind}
    (held : net.nodes.layout.kind? y = some kind) :
    ∃ x kind', copies.copy? x = some y ∧ src.nodes.layout.kind? x = some kind' := by
  obtain ⟨_, _, names, _⟩ := copied.kept
  cases isGate : kind.isGate with
  | true =>
    obtain rfl : kind = .gate := by
      cases kind with
      | gate => rfl
      | _ => cases isGate
    rw [copied.readings.kinds] at held
    obtain ⟨x, listed, copy⟩ := copied.gates.onto y (Layout.hasGate_iff_kind?.mpr held)
    exact ⟨x, _, copy, Layout.hasGate_iff_kind?.mp ((copied.ordered.exact x).mp listed)⟩
  | false =>
    have named := (copied.readings.sound.owned.named kind isGate not_false y).mpr held
    rw [names] at named
    obtain ⟨x, copy⟩ := copied.terminals.onto soundSrc
      ((copied.terminals.sound.owned.named kind isGate not_false y).mp named) isGate
    obtain ⟨kind', _, terminal, here, _⟩ := copied.terminals.kinds copy
    have notGate := copied.ordered.not_mem here terminal
    exact ⟨x, kind', by rw [copied.gates.others x notGate, copy], here⟩

/-- The copy of a terminal that the source names is named in the same place. -/
theorem map_terminal (copied : src.Copied base first order copies second net)
    (soundSrc : src.Sound) {kind kind' : Kind} {x y : NodeId}
    (same : src.Matches first kind kind') (here : src.terminal? kind = some x)
    (there : first.terminal? kind' = some y) : copies.map x = y := by
  have terminal := isGate_of_terminal? here
  have held := (soundSrc.owned.named kind terminal not_false x).mp here
  have notGate := copied.ordered.not_mem held terminal
  apply Copies.map_eq
  rw [copied.gates.others x notGate, copied.terminals.entries]
  exact ⟨kind, kind', held, same, there⟩

/-- The ports name the copies of the terminals that they named. -/
theorem ports_eq (copied : src.Copied base first order copies second net)
    (soundSrc : src.Sound) :
    first.ports = src.ports.map fun p => p.relabel copies.map := by
  -- A terminal is named in the copy exactly when it is in the source, and then by its copy.
  have named : ∀ (side : Side) port bit, first.terminal? (side.kind port bit) =
      (src.terminal? (side.kind port bit)).map copies.map := by
    intro side port bit
    have both := copied.terminals.ports side port bit
    cases here : src.terminal? (side.kind port bit) with
    | none =>
      rw [here] at both
      simpa using both
    | some x =>
      obtain ⟨y, there⟩ := Option.isSome_iff_exists.mp
        (both.mpr (Option.isSome_iff_exists.mpr ⟨x, here⟩))
      rw [there, Option.map_some, copied.map_terminal soundSrc ?_ here there]
      cases side
      · exact .portInput port bit
      · exact .portOutput port bit
  have shape : ∀ i : Nat, first.ports[i]?.map (fun p => (p.name, p.width)) =
      src.ports[i]?.map fun p => (p.name, p.width) := by
    intro i
    have same := congrArg (·[i]?) copied.terminals.shape
    simpa [Network.shape] using same
  apply Array.ext_getElem?
  intro i
  have same := shape i
  rw [Array.getElem?_map]
  cases here : src.ports[i]? with
  | none =>
    rw [here] at same
    simpa using same
  | some p =>
    rw [here] at same
    obtain ⟨q, there, same⟩ := Option.map_eq_some_iff.mp same
    obtain ⟨name, width⟩ := Prod.mk.inj same
    rw [there, Option.map_some]
    refine congrArg some (Port.eq_relabel (soundSrc.ports here) (copied.terminals.sound.ports there)
      name width (fun bit _ => ?_) fun bit small => ?_)
    · have input := named .input i bit
      simpa only [Side.kind, terminal?, here, there, Option.bind_some] using input
    · have output := named .output i bit
      simpa only [Side.kind, terminal?, here, there, Option.bind_some, small, width, if_true]
        using output

theorem element (copied : src.Copied base first order copies second net) (soundSrc : src.Sound)
    {family : Family} {k : Nat} {e e' : ElementId} (here : (src.bank family).order[k]? = some e)
    (there : (first.bank family).order[k]? = some e') :
    src.SameElement first copies.map family e e' := by
  obtain ⟨a, foundA⟩ := ((soundSrc.banks family).exact e).mp (Array.mem_of_getElem? here)
  obtain ⟨b, foundB⟩ :=
    ((copied.terminals.sound.banks family).exact e').mp (Array.mem_of_getElem? there)
  have names := copied.terminals.named here there
  rw [element?, element?, foundA, foundB] at names
  refine ⟨a, b, foundA, foundB, Option.some.inj names, fun pin => ?_⟩
  refine (copied.map_terminal soundSrc (.state family k pin here there) ?_ ?_).symm
  · rw [terminal?, element?, foundA]
    rfl
  · rw [terminal?, element?, foundB]
    rfl

/-- The table of copies is an isomorphism. -/
theorem isomorphic (copied : src.Copied base first order copies second net)
    (soundSrc : src.Sound) : src.Isomorphic net copies.map := by
  obtain ⟨ports, banks, _⟩ := copied.kept
  refine ⟨⟨?_, ?_, ?_⟩, fun {x kind} held => ?_, ports.trans (copied.ports_eq soundSrc),
    fun family => by rw [banks, copied.terminals.position], fun {family k e e'} here there => ?_,
    fun {o n} held output => ?_, fun {g key} keyed => ?_⟩
  · rintro x ⟨n, held⟩
    obtain ⟨y, kind', copy, there, _⟩ := copied.total soundSrc (Layout.kind?_of_node held)
    obtain ⟨m, live, _⟩ := Layout.kind?_eq_some_iff.mp there
    exact ⟨m, by rw [Copies.map_eq copy, live]⟩
  · rintro x ⟨n, held⟩ x' ⟨n', held'⟩ same
    obtain ⟨y, _, copy, _⟩ := copied.total soundSrc (Layout.kind?_of_node held)
    obtain ⟨y', _, copy', _⟩ := copied.total soundSrc (Layout.kind?_of_node held')
    rw [Copies.map_eq copy, Copies.map_eq copy'] at same
    subst same
    exact copied.gates.injective copy copy'
  · rintro y ⟨m, live⟩
    obtain ⟨x, kind, copy, held⟩ := copied.onto soundSrc (Layout.kind?_of_node live)
    obtain ⟨n, held, _⟩ := Layout.kind?_eq_some_iff.mp held
    exact ⟨x, ⟨n, held⟩, Copies.map_eq copy⟩
  · obtain ⟨y, kind', copy, there, same⟩ := copied.total soundSrc held
    exact ⟨kind', by rw [Copies.map_eq copy, there], same⟩
  · rw [banks] at there
    obtain ⟨a, b, foundA, foundB, same⟩ := copied.element soundSrc here there
    exact ⟨a, b, foundA, by rw [element?, banks]; exact foundB, same⟩
  · have listed := soundSrc.mem_outputs_iff.mpr ⟨n, held, output⟩
    rw [copied.readings.reading o (Array.mem_toList_iff.mpr listed), sourceOf_eq held]
  · have listed := (copied.ordered.exact g).mpr (Layout.hasGate_of_key? keyed)
    obtain ⟨key', a, b, y, keyed', first', second', copy, held⟩ := copied.gates.copied g listed
    obtain rfl := Option.some.inj (keyed.symm.trans keyed')
    rw [copied.readings.keys, Copies.map_eq copy, held, Key.relabel, Copies.map_eq first',
      Copies.map_eq second']

/-- The registries of the copy list the ports bit by bit, then the two families of elements. -/
theorem listed (copied : src.Copied base first order copies second net) (side : Side) :
    (net.registry side.registry).toList = net.portTerminals side.kind ++
      net.pinTerminals .flipFlop side.pins ++ net.pinTerminals .latch side.pins := by
  obtain ⟨ports, banks, _, _, registries⟩ := copied.kept
  rw [registries, copied.terminals.listed, portTerminals_congr ports, pinTerminals_congr (banks _),
    pinTerminals_congr (banks _)]

end Copied

/-! ## The operations -/

/-- A cleared network is a target of which nothing is copied. -/
theorem portsCopied_clear {net : Network} (sound : net.Sound) (src : Network) :
    src.PortsCopied [] (fun _ => []) (Array.replicate src.nodes.bound none)
      (net.clear.rename src.name) := by
  have unnamed : ∀ kind, (net.clear.rename src.name).terminal? kind = none := by
    intro kind
    cases kind with
    | state family element pin =>
      rw [terminal?, element?]
      cases family
      · exact congrArg _ (Store.get?_clear net.flipFlops.elements element)
      · exact congrArg _ (Store.get?_clear net.latches.elements element)
    | _ => rfl
  refine ⟨(sound_clear sound).rename src.name, Array.size_replicate, fun x y => ?_, rfl,
    fun side port bit => ?_, fun side => by cases side <;> rfl,
    fun family => by cases family <;> rfl, rfl, rfl⟩
  · refine iff_of_false (fun copy => ?_) ?_
    · rw [Copies.copy?, Array.getElem?_replicate] at copy
      split at copy <;> cases copy
    · rintro ⟨kind, _, named⟩
      rw [unnamed] at named
      cases named
  · rw [unnamed]
    exact iff_of_false (by rintro ⟨⟩) (by rintro ⟨⟨⟩, _⟩)

/-- Once the terminals are seated, the rest of a copy is made, whatever else the source is. -/
theorem overwrite_of_seated {net src first : Network} {base : Copies} {order : List NodeId}
    (made : src.copyTerminals (Array.replicate src.nodes.bound none) (net.clear.rename src.name) =
      .ok (.done base first))
    (terminals : src.Seated src.IsTerminal base first) (legible : src.Legible)
    (orderEq : src.driversFirst = .ok order) (ordered : src.nodes.layout.DriversFirst order) :
    ∃ copies second after, net.overwrite src = .ok (.done () after) ∧
      src.GatesCopied base first order copies second ∧
      src.ReadingsCopied copies second src.outputs.toList after := by
  obtain ⟨copies, second, made₂, gatesCopied⟩ := Outcome.fold_spec (copyGate src) order base first
    (fun done copies net => src.GatesCopied base first done copies net) terminals.start
    fun _ _ _ _ _ split gates => gates.copyGate terminals legible ordered split
  obtain ⟨_, after, made₃, readings⟩ := Outcome.fold_spec (copyReading src copies)
    src.outputs.toList () second
    (fun done _ net => src.ReadingsCopied copies second done net)
    ⟨gatesCopied.sound, ⟨_, _, rfl⟩, rfl, rfl, by simp⟩ <| by
      rintro before o rest _ net split readings
      obtain ⟨after, made, readings⟩ :=
        readings.copyReading gatesCopied terminals legible ordered split
      exact ⟨(), after, made, readings⟩
  refine ⟨copies, second, after, ?_, gatesCopied, readings⟩
  have copied₂ : copyGates src base first = .ok (.done copies second) := by
    rw [copyGates, orderEq, ok_bind]
    exact made₂
  rw [overwrite]
  refine (congrArg (· >>= _) made).trans ?_
  rw [ok_bind]
  refine (congrArg (· >>= _) copied₂).trans ?_
  exact made₃

/-- Copying is done, on top of any target, and gives a relabelled copy of the source. -/
theorem overwrite_spec {net src : Network} (sound : net.Sound) (soundSrc : src.Sound) :
    ∃ base first order copies second after, net.overwrite src = .ok (.done () after) ∧
      src.Copied base first order copies second after := by
  obtain ⟨order, orderEq, ordered⟩ := driversFirst_spec soundSrc
  obtain ⟨base, first, made₁, terminals⟩ :=
    copyTerminals_spec soundSrc (portsCopied_clear sound src)
  obtain ⟨copies, second, after, made, gates, readings⟩ :=
    overwrite_of_seated made₁ (terminals.seated soundSrc) soundSrc.legible orderEq ordered
  exact ⟨base, first, order, copies, second, after, made, terminals, ordered, gates, readings⟩

theorem safe_overwrite {net src : Network} (sound : net.Sound) (soundSrc : src.Sound) :
    Safe (net.overwrite src) := by
  obtain ⟨_, _, _, _, _, after, made, copied⟩ := overwrite_spec sound soundSrc
  exact ⟨_, made, copied.readings.sound⟩

end Network

end GateNet
