import GateNet.Proofs.Terminals

/-!
# State elements

Adding a state element adds a terminal for each of its pins, one after the other; until the last
one is there, the network is sound but for the pins that wait.  Erasing an element drops the
terminals in the same way.
-/

namespace GateNet

namespace Network

/-! ## Adding a state element -/

theorem terminal?_withPin {net : Network} {family : Family} {id : ElementId} {e : Element}
    (held : (net.bank family).elements.get? id = some e) (pin : Pin) (node : NodeId)
    (nodes : Store Node) :
    (net.withPin family id pin node nodes).terminal? =
      Function.update net.terminal? (.state family id pin) (some node) := by
  -- Registering the node names nothing yet; only the write to the element does.
  have registered : (({ net with nodes } : Network).register node
      (.state family id pin)).terminal? = net.terminal? := by
    unfold register
    split
    all_goals exact terminal?_congr rfl fun family => by cases family <;> rfl
  funext kind
  rw [withPin, terminal?_withBank, registered]
  cases kind with
  | state other element q =>
    simp only [Function.update_apply, Kind.state.injEq]
    by_cases family_eq : other = family
    · subst family_eq
      by_cases here : element = id
      · subst here
        simp only [if_true, Store.get?_modify, held, Option.map_some,
          Element.terminal_withTerminal, true_and]
        split
        · rfl
        · simp [terminal?, element?, held]
      · simp [here, terminal?, element?]
    · simp [family_eq]
  | portInput | portOutput | gate => rfl

theorem addPin_spec {net : Network} {pending : Kind → Prop} (sound : net.SoundBut pending)
    {family : Family} {id : ElementId} {e : Element}
    (held : (net.bank family).elements.get? id = some e) {pin : Pin}
    (waits : pending (.state family id pin)) :
    ∃ node nodes, addPin family id net pin = .ok (net.withPin family id pin node nodes) ∧
      net.nodes.Added nodes node { id := node, kind := .state family id pin } ∧
      (net.withPin family id pin node nodes).SoundBut
        fun kind => pending kind ∧ kind ≠ .state family id pin := by
  obtain ⟨node, nodes, addedEq, added⟩ :=
    addTerminal_spec sound.woven.store (.state family id pin)
  -- The element is fetched after the node was registered, and is still the same.
  have bank : (({ net with nodes } : Network).register node (.state family id pin)).bank family =
      net.bank family := by
    unfold register
    split <;> cases family <;> rfl
  refine ⟨node, nodes, ?_, added, sound.addTerminal rfl added ?_ ?_ (fun r => ?_) ?_ ?_⟩
  · rw [addPin, addedEq, ok_bind]
    simp only [bank, Store.update_eq held, ok_bind, pure_eq_ok]
    rfl
  · rw [withPin, nodes_withBank, nodes_register]
  · rw [withPin, table_withBank]
    unfold register
    split <;> rfl
  · rw [withPin, registry_withBank]
  · rw [withPin, depth?_withBank]
    unfold register
    split <;> rfl
  · rw [terminal?_withPin held]
    exact sound.owned.add (by rw [Layout.kind?, added.layout_free]; rfl)
      (sound.owned.absent _ rfl waits) (Function.update_self ..)
      fun k other => Function.update_of_ne other ..

/-- What adding terminals to an element does: `t` names them by their pins. -/
structure Pinned (net after : Network) (family : Family) (id : ElementId) (pins : List Pin)
    (t : Pin → NodeId) : Prop where
  live : ∀ {x n}, net.nodes.get? x = some n → after.nodes.get? x = some n
  free : ∀ pin ∈ pins, net.nodes.layout (t pin) = none
  placed : ∀ pin ∈ pins,
    after.nodes.layout (t pin) = some { id := t pin, kind := .state family id pin }
  only : ∀ {x n}, after.nodes.layout x = some n →
    net.nodes.layout x = some n ∨ ∃ pin ∈ pins, x = t pin
  inputs : after.inputs.toList = net.inputs.toList ++
    (pins.filter fun pin => (Kind.state family id pin).isInput).map t
  outputs : after.outputs.toList = net.outputs.toList ++
    (pins.filter fun pin => !(Kind.state family id pin).isInput).map t
  rest : after.name = net.name ∧ after.ports = net.ports ∧ after.gates = net.gates ∧
    after.table = net.table ∧ after.depth? = net.depth?
  elements : (after.bank family).elements.Sound
  element : ∀ x, (after.bank family).elements.get? x =
    if x = id then ((net.bank family).elements.get? x).map fun e =>
      pins.foldl (fun e pin => e.withTerminal pin (t pin)) e
    else (net.bank family).elements.get? x
  order : (after.bank family).order = (net.bank family).order
  bank : ∀ other, other ≠ family → after.bank other = net.bank other

/-- Records that are kept are kept in the layout. -/
theorem layout_of_live {before after : Store Node}
    (live : ∀ {x n}, before.get? x = some n → after.get? x = some n) {x : NodeId} {n : Node}
    (held : before.layout x = some n) : after.layout x = some n := by
  obtain ⟨m, found, rfl⟩ := Store.layout_eq_some_iff.mp held
  exact Store.layout_of_get? (live found)

theorem Pinned.kept {net after : Network} {family : Family} {id : ElementId} {pins : List Pin}
    {t : Pin → NodeId} (pinned : net.Pinned after family id pins t) {x : NodeId} {n : Node}
    (held : net.nodes.layout x = some n) : after.nodes.layout x = some n :=
  layout_of_live pinned.live held

theorem pinned_withPin {net : Network} {family : Family} {id : ElementId} {pin : Pin}
    {node : NodeId} {nodes : Store Node} (elements : (net.bank family).elements.Sound)
    (added : net.nodes.Added nodes node { id := node, kind := .state family id pin }) :
    net.Pinned (net.withPin family id pin node nodes) family id [pin] fun _ => node := by
  have after : (net.withPin family id pin node nodes).nodes = nodes := by
    rw [withPin, nodes_withBank, nodes_register]
  have layout_eq := added.layout_eq
  have bank : ∀ other, (net.withPin family id pin node nodes).bank other =
      if other = family then { net.bank family with
        elements := (net.bank family).elements.modify id (·.withTerminal pin node) }
      else net.bank other := by
    intro other
    unfold withPin register
    split <;> cases family <;> cases other <;> rfl
  refine ⟨fun {x n} held => ?_, fun q _ => added.layout_free, fun q listed => ?_,
    fun {x n} held => ?_, ?_, ?_, ?_, ?_, fun x => ?_, ?_, fun other different => ?_⟩
  · rw [after, added.get?_of_ne, held]
    rintro rfl
    cases added.free.symm.trans held
  · obtain rfl := List.mem_singleton.mp listed
    rw [after, layout_eq, Function.update_self]
    rfl
  · rw [after, layout_eq] at held
    by_cases here : x = node
    · exact .inr ⟨pin, .head _, here⟩
    · rw [Function.update_of_ne here] at held
      exact .inl held
  · unfold withPin register
    cases input : (Kind.state family id pin).isInput <;> cases family <;> simp [input, withBank]
  · unfold withPin register
    cases input : (Kind.state family id pin).isInput <;> cases family <;> simp [input, withBank]
  · unfold withPin register
    cases input : (Kind.state family id pin).isInput <;> cases family <;> simp [withBank]
  · rw [bank, if_pos rfl]
    show ((net.bank family).elements.modify id (·.withTerminal pin node)).Sound
    exact elements.modify id _
  · rw [bank, if_pos rfl, Store.get?_modify]
    rfl
  · rw [bank, if_pos rfl]
  · rw [bank, if_neg different]

theorem Pinned.cons {net middle after : Network} {family : Family} {id : ElementId} {pin : Pin}
    {pins : List Pin} {node : NodeId} {t : Pin → NodeId}
    (first : net.Pinned middle family id [pin] fun _ => node)
    (second : middle.Pinned after family id pins t) (fresh : pin ∉ pins) :
    net.Pinned after family id (pin :: pins) (Function.update t pin node) := by
  -- The first pin does not come again, so the later ones keep the ids that `t` gives them.
  have later : ∀ q ∈ pins, Function.update t pin node q = t q := by
    intro q listed
    rw [Function.update_of_ne]
    rintro rfl
    exact fresh listed
  have placed := first.placed pin (.head _)
  refine ⟨fun held => second.live (first.live held), fun q listed => ?_, fun q listed => ?_,
    fun {x n} held => ?_, ?_, ?_, ?_, second.elements, fun x => ?_, second.order.trans first.order,
    fun other different => (second.bank other different).trans (first.bank other different)⟩
  · rcases List.mem_cons.mp listed with rfl | listed
    · rw [Function.update_self]
      exact first.free q (.head _)
    · rw [later q listed]
      cases held : net.nodes.layout (t q) with
      | none => rfl
      | some n => exact absurd (first.kept held) (by rw [second.free q listed]; rintro ⟨⟩)
  · rcases List.mem_cons.mp listed with rfl | listed
    · rw [Function.update_self]
      exact second.kept placed
    · rw [later q listed]
      exact second.placed q listed
  · rcases second.only held with held | ⟨q, listed, rfl⟩
    · rcases first.only held with held | ⟨q, listed, rfl⟩
      · exact .inl held
      · exact .inr ⟨pin, .head _, by rw [Function.update_self]⟩
    · exact .inr ⟨q, .tail _ listed, (later q listed).symm⟩
  · have tail : (pins.filter fun q => (Kind.state family id q).isInput).map
        (Function.update t pin node) = (pins.filter fun q => (Kind.state family id q).isInput).map t :=
      List.map_congr_left fun q listed => later q (List.mem_filter.mp listed).1
    rw [second.inputs, first.inputs]
    cases input : (Kind.state family id pin).isInput <;> simp [input, tail]
  · have tail : (pins.filter fun q => !(Kind.state family id q).isInput).map
          (Function.update t pin node) =
        (pins.filter fun q => !(Kind.state family id q).isInput).map t :=
      List.map_congr_left fun q listed => later q (List.mem_filter.mp listed).1
    rw [second.outputs, first.outputs]
    cases input : (Kind.state family id pin).isInput <;> simp [input, tail]
  · obtain ⟨a, b, c, d, e⟩ := first.rest
    obtain ⟨a', b', c', d', e'⟩ := second.rest
    exact ⟨a'.trans a, b'.trans b, c'.trans c, d'.trans d, e'.trans e⟩
  · have tail : ∀ e : Element,
        pins.foldl (fun e q => e.withTerminal q (Function.update t pin node q)) e =
        pins.foldl (fun e q => e.withTerminal q (t q)) e := by
      intro e
      exact List.foldl_ext _ _ _ fun e q listed => by rw [later q listed]
    rw [second.element, first.element]
    split
    · rw [Option.map_map]
      congr 1
      funext e
      simp [tail]
    · rfl

theorem addPins_spec {family : Family} {id : ElementId} {pins : List Pin} (nodup : pins.Nodup) :
    ∀ {net : Network} {pending : Kind → Prop}, net.SoundBut pending →
      (net.bank family).elements.Sound →
      (∃ e, (net.bank family).elements.get? id = some e) →
      (∀ pin ∈ pins, pending (.state family id pin)) →
      ∃ t after, pins.foldlM (addPin family id) net = .ok after ∧
        net.Pinned after family id pins t ∧
        after.SoundBut fun kind => pending kind ∧ ∀ pin ∈ pins, kind ≠ .state family id pin := by
  -- By induction on the pins: each one takes its kind out of the pending ones.
  induction pins with
  | nil =>
    intro net pending sound elements held _
    refine ⟨fun _ => 0, net, rfl, ⟨fun held => held, by simp, by simp, .inl, by simp, by simp,
      by simp, elements, fun x => by simp, rfl, fun _ _ => rfl⟩, ?_⟩
    simpa using sound
  | cons pin rest inductionHypothesis =>
    obtain ⟨fresh, nodup⟩ := List.nodup_cons.mp nodup
    rintro net pending sound elements ⟨e, held⟩ waits
    obtain ⟨node, nodes, addedEq, added, sound₁⟩ := addPin_spec sound held (waits pin (.head _))
    have first := pinned_withPin elements added
    obtain ⟨t, after, folded, second, sound₂⟩ := inductionHypothesis nodup sound₁ first.elements
      ⟨_, by rw [first.element, if_pos rfl, held]; rfl⟩ fun q listed =>
        ⟨waits q (.tail _ listed), by rintro ⟨⟩; exact fresh listed⟩
    refine ⟨Function.update t pin node, after, ?_, first.cons second fresh, ?_⟩
    · rw [List.foldlM_cons, addedEq, ok_bind, folded]
    · -- What is pending after the first pin and the rest is what is pending after all of them.
      refine ⟨sound₂.woven, sound₂.registered, ?_, sound₂.coherent⟩
      have same : ∀ kind, ((pending kind ∧ kind ≠ .state family id pin) ∧
          ∀ q ∈ rest, kind ≠ .state family id q) ↔
          (pending kind ∧ ∀ q ∈ pin :: rest, kind ≠ .state family id q) := by
        intro kind
        rw [List.forall_mem_cons, and_assoc]
      simpa only [same] using sound₂.owned

/-- What adding a state element does: `t` names its terminals by their pins. -/
structure ElementAdded (net after : Network) (family : Family) (id : ElementId) (name : String)
    (t : Pin → NodeId) : Prop where
  live : ∀ {x n}, net.nodes.get? x = some n → after.nodes.get? x = some n
  free : ∀ pin, net.nodes.layout (t pin) = none
  placed : ∀ pin, after.nodes.layout (t pin) = some { id := t pin, kind := .state family id pin }
  only : ∀ {x n}, after.nodes.layout x = some n →
    net.nodes.layout x = some n ∨ ∃ pin, x = t pin
  inputs : after.inputs.toList = net.inputs.toList ++ [t .output]
  outputs : after.outputs.toList =
    net.outputs.toList ++ [t .data, t .trigger, t .forceA, t .forceB]
  rest : after.name = net.name ∧ after.ports = net.ports ∧ after.gates = net.gates ∧
    after.table = net.table ∧ after.depth? = net.depth?
  unused : (net.bank family).elements.get? id = none
  element : ∀ x, (after.bank family).elements.get? x =
    if x = id then some ⟨id, name, t .output, t .data, t .trigger, t .forceA, t .forceB⟩
    else (net.bank family).elements.get? x
  order : (after.bank family).order = (net.bank family).order.push id
  bank : ∀ other, other ≠ family → after.bank other = net.bank other

theorem ElementAdded.kept {net after : Network} {family : Family} {id : ElementId} {name : String}
    {t : Pin → NodeId} (added : net.ElementAdded after family id name t) {x : NodeId} {n : Node}
    (held : net.nodes.layout x = some n) : after.nodes.layout x = some n :=
  layout_of_live added.live held

theorem renewed_element (elements : Store Element) (id : ElementId) (e : Element) :
    elements.renewed id e = e := by
  unfold Store.renewed
  split <;> rfl

/-- A new element that has no terminals yet leaves a network sound but for them. -/
theorem Sound.withElement {net : Network} (sound : net.Sound) {family : Family} {id : ElementId}
    {elements : Store Element} {e : Element}
    (unused : (net.bank family).elements.get? id = none)
    (view : ∀ x, elements.get? x = if x = id then some e else (net.bank family).elements.get? x) :
    (net.withBank family { net.bank family with elements }).SoundBut
      fun kind => ∃ pin, kind = .state family id pin := by
  refine sound.toSoundBut.reowned (nodes_withBank ..) (table_withBank ..)
    (registry_withBank net family _) (depth?_withBank ..) ⟨fun kind terminal settled x => ?_, ?_⟩
  · rw [← sound.owned.named kind terminal not_false, terminal?_withBank]
    cases kind with
    | state other element pin =>
      by_cases here : other = family
      · subst here
        have other : element ≠ id := by
          rintro rfl
          exact settled ⟨pin, rfl⟩
        simp only [if_true, view, if_neg other]
        rfl
      · simp only [if_neg here]
    | portInput | portOutput | gate => rfl
  · rintro kind terminal ⟨pin, rfl⟩ x held
    rw [← sound.owned.named _ rfl not_false] at held
    simp [terminal?, element?, unused] at held

theorem terminal?_withOrder (net : Network) (family : Family) (order : Array ElementId) :
    (net.withBank family { net.bank family with order }).terminal? = net.terminal? := by
  refine terminal?_congr (ports_withBank ..) fun other => ?_
  rw [bank_withBank]
  split
  · next same => rw [same]
  · rfl

/-- An element with all its terminals, appended to the order of its bank, is added. -/
theorem Pinned.elementAdded {net after : Network} {family : Family} {id : ElementId} {name : String}
    {elements : Store Element} {t : Pin → NodeId}
    (pinned : (net.withBank family { net.bank family with elements }).Pinned after family id
      Pin.all t)
    (unused : (net.bank family).elements.get? id = none)
    (view : ∀ x, elements.get? x =
      if x = id then some { id, name } else (net.bank family).elements.get? x) :
    net.ElementAdded (after.withBank family
      { after.bank family with order := (after.bank family).order.push id }) family id name t := by
  have nodes : (after.withBank family
      { after.bank family with order := (after.bank family).order.push id }).nodes = after.nodes :=
    nodes_withBank ..
  have opens : (net.withBank family { net.bank family with elements }).nodes = net.nodes :=
    nodes_withBank ..
  -- The bank with the bare element is the same but for that element.
  have opened : (net.withBank family { net.bank family with elements }).bank family =
      { net.bank family with elements } := by
    rw [bank_withBank, if_pos rfl]
  refine ⟨fun held => ?_, fun pin => ?_, fun pin => ?_, fun held => ?_, ?_, ?_, ?_, unused,
    fun x => ?_, ?_, fun other different => ?_⟩
  · rw [nodes]
    exact pinned.live (by rwa [opens])
  · rw [← opens]
    exact pinned.free pin pin.mem_all
  · rw [nodes]
    exact pinned.placed pin pin.mem_all
  · rw [nodes] at held
    rcases pinned.only held with held | ⟨pin, _, rfl⟩
    · exact .inl (opens ▸ held)
    · exact .inr ⟨pin, rfl⟩
  · have inputs := pinned.inputs
    rw [show (net.withBank family _).inputs = net.inputs from
      registry_withBank net family _ .inputs] at inputs
    rw [show (after.withBank family _).inputs = after.inputs from
      registry_withBank after family _ .inputs]
    exact inputs
  · have outputs := pinned.outputs
    rw [show (net.withBank family _).outputs = net.outputs from
      registry_withBank net family _ .outputs] at outputs
    rw [show (after.withBank family _).outputs = after.outputs from
      registry_withBank after family _ .outputs]
    exact outputs
  · obtain ⟨a, b, c, d, e⟩ := pinned.rest
    cases family <;> exact ⟨a, b, c, d, e⟩
  · rw [bank_withBank, if_pos rfl]
    show (after.bank family).elements.get? x = _
    rw [pinned.element, opened]
    simp only [view]
    split <;> rfl
  · rw [bank_withBank, if_pos rfl, pinned.order, opened]
  · rw [bank_withBank, if_neg different, pinned.bank other different, bank_withBank,
      if_neg different]

/-- A state element can be added with its terminals. -/
theorem addElement_spec {net : Network} (sound : net.Sound) (family : Family) (name : String) :
    ∃ id t after, net.addElement family name = .ok (id, after) ∧ after.Sound ∧
      net.ElementAdded after family id name t := by
  obtain ⟨id, elements, inserted, store, unused, _, _, view⟩ :=
    Store.insert_spec (sound.banks family).store fun id => ({ id, name } : Element)
  simp only [renewed_element] at view
  obtain ⟨t, after, folded, pinned, afterSound⟩ := addPins_spec (show Pin.all.Nodup by decide)
    (sound.withElement unused view) (by rw [bank_withBank, if_pos rfl]; exact store)
    ⟨{ id, name }, by rw [bank_withBank, if_pos rfl]; simp only [view, if_true]⟩
    fun pin _ => ⟨pin, rfl⟩
  have added := pinned.elementAdded unused view
  refine ⟨id, t, _, ?_, ⟨afterSound.reowned (nodes_withBank ..) (table_withBank ..)
    (registry_withBank after family _) (depth?_withBank ..) ?_, fun other => ?_, ?_⟩, added⟩
  · rw [addElement_eq]
    simp only [inserted, ok_bind]
    rw [folded]
    rfl
  · -- All pins have their terminals now, so nothing is pending.
    rw [terminal?_withOrder]
    refine ⟨fun kind terminal _ => afterSound.owned.named kind terminal ?_,
      fun kind _ waits => waits.elim⟩
    rintro ⟨⟨pin, rfl⟩, settled⟩
    exact settled pin pin.mem_all rfl
  · by_cases here : other = family
    · subst here
      have bank := (sound.banks other).push pinned.elements unused rfl fun x => by
        have element := added.element x
        rwa [bank_withBank, if_pos rfl] at element
      rw [bank_withBank, if_pos rfl, pinned.order, bank_withBank, if_pos rfl]
      exact bank
    · rw [added.bank other here]
      exact sound.banks other
  · rw [added.rest.2.1]
    exact sound.ports

/-! ## Erasing a state element -/

/-- Nodes are gone with the entries of their wires; names, ports and elements stay. -/
structure Stripped (net after : Network) (gone : List NodeId) (wires : List Fanout) : Prop where
  nodes : net.nodes.Dropped after.nodes gone wires
  name : after.name = net.name
  ports : after.ports = net.ports
  bank : after.bank = net.bank

theorem Stripped.refl (net : Network) : net.Stripped net [] [] :=
  ⟨.refl _, rfl, rfl, rfl⟩

theorem Stripped.trans {net middle after : Network} {gone more : List NodeId}
    {wires others : List Fanout} (first : net.Stripped middle gone wires)
    (second : middle.Stripped after more others) :
    net.Stripped after (gone ++ more) (wires ++ others) :=
  ⟨first.nodes.trans second.nodes, second.name.trans first.name, second.ports.trans first.ports,
    second.bank.trans first.bank⟩

/-- A terminal that nothing reads can be dropped; its kind is pending afterwards. -/
theorem SoundBut.dropTerminal {net : Network} {pending : Kind → Prop} (sound : net.SoundBut pending)
    {id : NodeId} {kind : Kind} (held : net.nodes.layout.kind? id = some kind)
    (terminal : kind.isGate = false) (unread : net.Unread id) :
    ∃ after, net.dropTerminal id = .ok after ∧
      after.SoundBut (fun k => pending k ∨ k = kind) ∧ net.Stripped after [id] [⟨id, .first⟩] := by
  obtain ⟨n, live, rfl⟩ := Layout.kind?_eq_some_iff.mp held
  obtain ⟨nodes, dropped, woven, gone⟩ := dropTerminal_spec sound.woven live terminal unread
  have layout_eq := gone.layout_update
  have kinds : nodes.layout.kind? = Function.update net.nodes.layout.kind? id none := by
    rw [layout_eq, Layout.kind?_update]
    rfl
  -- The registry that lists the terminal loses it, the other two never had it.
  have isOutput : n.kind.isOutput = !n.kind.isInput := by simp [Kind.isOutput, terminal]
  refine ⟨_, dropped, ⟨woven, fun r => ?_, ?_, by rintro k ⟨⟩⟩, gone, rfl, rfl,
    funext fun family => by cases family <;> rfl⟩
  · rw [kinds]
    cases input : n.kind.isInput with
    | true =>
      rw [input] at isOutput
      cases r with
      | inputs =>
        show Registry.Exact _ _ (if n.kind.isInput then _ else _)
        rw [if_pos input]
        exact (sound.registered .inputs).erase
      | outputs =>
        show Registry.Exact _ _ (if n.kind.isInput then _ else _)
        rw [if_pos input]
        exact (sound.registered .outputs).keep held isOutput
      | gates => exact (sound.registered .gates).keep held terminal
    | false =>
      rw [input] at isOutput
      cases r with
      | inputs =>
        show Registry.Exact _ _ (if n.kind.isInput then _ else _)
        rw [if_neg (by rw [input]; decide)]
        exact (sound.registered .inputs).keep held input
      | outputs =>
        show Registry.Exact _ _ (if n.kind.isInput then _ else _)
        rw [if_neg (by rw [input]; decide)]
        exact (sound.registered .outputs).erase
      | gates => exact (sound.registered .gates).keep held terminal
  · show Owned _ nodes.layout.kind? _
    rw [net.terminal?_retouch nodes _ _ net.gates net.table net.limit none, kinds]
    exact sound.owned.drop held terminal

theorem dropPins_spec {family : Family} {id : ElementId} {t : Pin → NodeId} {pins : List Pin}
    (nodup : pins.Nodup) :
    ∀ {net : Network} {pending : Kind → Prop}, net.SoundBut pending →
      (∀ pin ∈ pins, net.nodes.layout.kind? (t pin) = some (.state family id pin)) →
      (∀ pin ∈ pins, net.Unread (t pin)) →
      ∃ after, (pins.map t).foldlM dropTerminal net = .ok after ∧
        after.SoundBut (fun k => pending k ∨ ∃ pin ∈ pins, k = .state family id pin) ∧
        net.Stripped after (pins.map t) (pins.map fun pin => ⟨t pin, .first⟩) := by
  -- By induction on the pins: each one adds its kind to the pending ones.
  induction pins with
  | nil =>
    intro net pending sound _ _
    exact ⟨net, rfl, by simpa using sound, .refl net⟩
  | cons pin rest inductionHypothesis =>
    obtain ⟨fresh, nodup⟩ := List.nodup_cons.mp nodup
    intro net pending sound held unread
    obtain ⟨middle, dropped, sound₁, stripped₁⟩ :=
      sound.dropTerminal (held pin (.head _)) rfl (unread pin (.head _))
    have layout_eq := stripped₁.nodes.layout_update
    -- Terminals of different pins have different kinds, so they are different nodes.
    have apart : ∀ q ∈ rest, t q ≠ t pin := by
      intro q listed same
      have one := held q (.tail _ listed)
      rw [same, held pin (.head _)] at one
      cases one
      exact fresh listed
    obtain ⟨after, folded, sound₂, stripped₂⟩ := inductionHypothesis nodup sound₁
      (fun q listed => by
        rw [Layout.kind?, layout_eq, Function.update_of_ne (apart q listed)]
        exact held q (.tail _ listed))
      (fun q listed x n p live wire => by
        rw [layout_eq] at live
        by_cases here : x = t pin
        · rw [here, Function.update_self] at live
          cases live
        · rw [Function.update_of_ne here] at live
          exact unread q (.tail _ listed) x n p live wire)
    refine ⟨after, by rw [List.map_cons, List.foldlM_cons, dropped, ok_bind, folded], ?_,
      stripped₁.trans stripped₂⟩
    have same : ∀ k, ((pending k ∨ k = .state family id pin) ∨
        ∃ q ∈ rest, k = .state family id q) ↔
        (pending k ∨ ∃ q ∈ pin :: rest, k = .state family id q) := by
      intro k
      rw [List.exists_mem_cons_iff, or_assoc]
    refine ⟨sound₂.woven, sound₂.registered, ?_, sound₂.coherent⟩
    simpa only [same] using sound₂.owned

theorem Woven.unread_output {net : Network} (woven : net.Woven) {id : NodeId} {n : Node}
    (held : net.nodes.layout id = some n) (output : n.isOutput = true) : net.Unread id := by
  intro x m p live wire
  obtain ⟨n', held', drives⟩ := woven.layout.driven live wire
  obtain rfl := Option.some.inj (held.symm.trans held')
  rw [output] at drives
  cases drives

/-- What erasing an element does: its terminals go with the entries of their wires, and the element
goes from its bank. -/
structure ElementErased (net after : Network) (family : Family) (id : ElementId) (e : Element) :
    Prop where
  nodes : net.nodes.Dropped after.nodes e.terminals (e.terminals.map (⟨·, .first⟩))
  name : after.name = net.name
  ports : after.ports = net.ports
  element : ∀ x, (after.bank family).elements.get? x =
    if x = id then none else (net.bank family).elements.get? x
  order : (after.bank family).order = (net.bank family).order.filter (· != id)
  bank : ∀ other, other ≠ family → after.bank other = net.bank other

/-- Once the terminals of an element are gone, its bank may forget it. -/
theorem SoundBut.forget {net : Network} {family : Family} {id : ElementId} {b : Bank}
    (sound : net.SoundBut fun k => False ∨ ∃ pin ∈ Pin.all, k = .state family id pin)
    (view : ∀ x, b.elements.get? x = if x = id then none else (net.bank family).elements.get? x) :
    (net.withBank family b).SoundBut fun _ => False := by
  refine sound.reowned (nodes_withBank ..) (table_withBank ..) (registry_withBank net family b)
    (depth?_withBank ..) ⟨fun k terminal _ x => ?_, fun k _ waits => waits.elim⟩
  rw [terminal?_withBank]
  cases k with
  | state other element pin =>
    by_cases here : other = family ∧ element = id
    · -- Nothing is of a pending kind, and now nothing is named for it either.
      obtain ⟨rfl, rfl⟩ := here
      simp only [if_true, view, Option.map_none]
      exact iff_of_false (by rintro ⟨⟩)
        (sound.owned.absent _ rfl (.inr ⟨pin, pin.mem_all, rfl⟩) x)
    · rw [← sound.owned.named _ rfl]
      · by_cases same : other = family
        · subst same
          have different : element ≠ id := fun equal => here ⟨rfl, equal⟩
          simp only [if_true, view, if_neg different, terminal?, element?]
        · simp only [if_neg same]
      · rintro (⟨⟨⟩⟩ | ⟨q, _, equal⟩)
        cases equal
        exact here ⟨rfl, rfl⟩
  | portInput | portOutput =>
    exact sound.owned.named _ rfl (by rintro (⟨⟨⟩⟩ | ⟨q, _, ⟨⟩⟩)) x
  | gate => cases terminal

theorem Sound.dropElement {net : Network} (sound : net.Sound) {family : Family} {id : ElementId}
    {e : Element} (held : net.element? family id = some e) (unread : net.Unread e.output) :
    ∃ after, net.dropElement family id e = .ok after ∧ after.Sound ∧
      net.ElementErased after family id e := by
  have kind : ∀ pin, net.nodes.layout.kind? (e.terminal pin) = some (.state family id pin) := by
    intro pin
    rw [← sound.owned.named _ rfl not_false, terminal?, held, Option.map_some]
  -- Only the output of an element can be read, and the check has seen to that one.
  have quiet : ∀ pin, net.Unread (e.terminal pin) := by
    intro pin
    obtain ⟨n, live, named⟩ := Layout.kind?_eq_some_iff.mp (kind pin)
    cases pin with
    | output => exact unread
    | _ => exact Woven.unread_output sound.woven live (by rw [Node.isOutput, named]; rfl)
  obtain ⟨stripped, dropped, strippedSound, gone⟩ := dropPins_spec (show Pin.all.Nodup by decide)
    sound.toSoundBut (fun pin _ => kind pin) fun pin _ => quiet pin
  have bank := gone.bank
  obtain ⟨elements, removed, elementsSound, view⟩ :=
    Store.remove_spec (sound.banks family).store held
  refine ⟨stripped.withBank family
    { elements, order := (stripped.bank family).order.filter (· != id) }, ?_,
    ⟨strippedSound.forget (bank ▸ view), fun other => ?_, ?_⟩, ?_⟩
  · rw [Network.dropElement]
    show (Pin.all.map e.terminal).foldlM Network.dropTerminal net >>= _ = _
    rw [dropped, ok_bind]
    simp only [bank, removed, ok_bind, pure_eq_ok]
  · rw [bank_withBank, bank]
    split
    · exact (sound.banks family).drop elementsSound view
    · exact sound.banks other
  · rw [ports_withBank, gone.ports]
    exact sound.ports
  · refine ⟨?_, ?_, (ports_withBank ..).trans gone.ports, fun x => ?_, ?_, fun other different => ?_⟩
    · rw [nodes_withBank]
      simpa only [Element.terminals, List.map_map, Function.comp_def] using gone.nodes
    · cases family <;> exact gone.name
    · rw [bank_withBank, if_pos rfl, view]
    · rw [bank_withBank, if_pos rfl, bank]
    · rw [bank_withBank, if_neg different, bank]

/-- The output of an element is a live node that its bank names. -/
theorem Sound.exists_output {net : Network} (sound : net.Sound) {family : Family} {id : ElementId}
    {e : Element} (held : net.element? family id = some e) :
    ∃ n, net.nodes.get? e.output = some n := by
  have named := (sound.owned.named (.state family id .output) rfl not_false e.output).mp
    (by rw [terminal?, held]; rfl)
  obtain ⟨n, live, _⟩ := Layout.kind?_eq_some_iff.mp named
  exact (Store.layout_eq_some_iff.mp live).imp fun _ => And.left

/-- The check looks at the fanouts of the output, which are empty when nothing reads it. -/
theorem Sound.checkEraseElement_eq {net : Network} (sound : net.Sound) {family : Family}
    {id : ElementId} {e : Element} (held : net.element? family id = some e) :
    (net.Unread e.output ∧ net.checkEraseElement family id = .ok e) ∨
      (¬ net.Unread e.output ∧
        net.checkEraseElement family id = .error (.refused (.stillRead e.output))) := by
  obtain ⟨n, found⟩ := sound.exists_output held
  have fetched : (liftM (net.nodes.fetch e.output) : Except Failure Node) = .ok n := by
    rw [Store.fetch_of_get? found]
    rfl
  rw [← unread_iff sound.woven found, checkEraseElement, held]
  simp only [fetched, ok_bind]
  cases n.fanouts.isEmpty with
  | true => exact .inl ⟨rfl, rfl⟩
  | false => exact .inr ⟨Bool.false_ne_true, rfl⟩

theorem Sound.checkEraseElement_eq_ok_iff {net : Network} (sound : net.Sound) {family : Family}
    {id : ElementId} {e : Element} :
    net.checkEraseElement family id = .ok e ↔
      net.element? family id = some e ∧ net.Unread e.output := by
  cases held : net.element? family id with
  | none =>
    rw [checkEraseElement, held]
    exact ⟨nofun, fun both => nomatch both.1⟩
  | some e' =>
    rcases sound.checkEraseElement_eq held with ⟨unread, passed⟩ | ⟨read, refused⟩
    · rw [passed, Except.ok.injEq, Option.some.injEq]
      exact ⟨fun same => ⟨same, same ▸ unread⟩, And.left⟩
    · rw [refused]
      exact ⟨nofun, fun both => absurd (Option.some.inj both.1 ▸ both.2) read⟩

/-- An element is erased exactly when nothing reads its output. -/
theorem Sound.eraseElement_eq_done_iff {net after : Network} (sound : net.Sound) {family : Family}
    {id : ElementId} :
    net.eraseElement family id = .ok (.done () after) ↔
      ∃ e, (net.element? family id = some e ∧ net.Unread e.output) ∧
        net.dropElement family id e = .ok after := by
  rw [eraseElement, guarded_eq_done_iff]
  refine exists_congr fun e => and_congr sound.checkEraseElement_eq_ok_iff ⟨fun acted => ?_,
    fun dropped => by rw [dropped]; rfl⟩
  obtain ⟨last, dropped, acted⟩ := bind_eq_ok_iff.mp acted
  cases acted
  exact dropped

theorem safe_eraseElement {net : Network} (sound : net.Sound) (family : Family) (id : ElementId) :
    Safe (net.eraseElement family id) := by
  refine safe_guarded sound (fun fault failed => ?_) fun e passed => ?_
  · cases held : net.element? family id with
    | none =>
      rw [checkEraseElement, held] at failed
      cases failed
    | some e =>
      rcases sound.checkEraseElement_eq held with ⟨_, made⟩ | ⟨_, made⟩ <;>
        cases made.symm.trans failed
  · obtain ⟨held, unread⟩ := sound.checkEraseElement_eq_ok_iff.mp passed
    obtain ⟨after, dropped, sound', _⟩ := sound.dropElement held unread
    exact ⟨(), after, by rw [dropped]; rfl, sound'⟩

end Network

end GateNet
