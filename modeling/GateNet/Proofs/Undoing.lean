import GateNet.Proofs.Ledger
import GateNet.Proofs.Load
import GateNet.Proofs.Projection

/-!
# Erasing undoes adding

A gate that was just created, or a state element that was just added, is read by nobody, so it can
be erased.  Its wires were appended to the readers of its drivers, so they are taken away from the
end, and its ids are the smallest free ones again.  What is left of it is that more slots were used
and that the table may have been doubled; nothing that a network is asked depends on either.
-/

namespace GateNet

theorem Store.Sound.sameUse {α : Type} {s t : Store α} (sound : s.Sound) (sound' : t.Sound)
    (same : ∀ id, s.contains id = t.contains id) : s.ids.SameUse t.ids :=
  ⟨sound.ids, sound'.ids, fun id => by rw [← sound.contains_eq, ← sound'.contains_eq, same]⟩

namespace Network

variable {net mid after : Network} {id : NodeId}

/-! ## Restored networks -/

/-- All that a network is asked is as before; slots and buckets may have been added. -/
structure Restored (net after : Network) : Prop where
  name : after.name = net.name
  ports : after.ports = net.ports
  /-- The records of the nodes, with their readers in order, but for the links. -/
  node : ∀ id, (after.node? id).map Node.unlinked = (net.node? id).map Node.unlinked
  element : ∀ family id, after.element? family id = net.element? family id
  order : ∀ family, (after.bank family).order = (net.bank family).order
  registry : ∀ r, after.registry r = net.registry r
  nodeIds : after.nodes.ids.Matches net.nodes.ids
  elementIds : ∀ family, (after.bank family).elements.ids.Matches (net.bank family).elements.ids
  find : ∀ key, after.find? key = net.find? key
  depth : after.depth.map Prod.fst = net.depth.map Prod.fst
  evaluate : ∀ words, after.evaluate words = net.evaluate words
  bound : net.nodes.bound ≤ after.nodes.bound
  buckets : net.buckets ≤ after.buckets

theorem Sound.find?_eq (sound : net.Sound) (sound' : after.Sound)
    (layout_eq : after.nodes.layout = net.nodes.layout) (key : Key) :
    after.find? key = net.find? key := by
  obtain ⟨found, searched, exact⟩ := find?_spec net sound.woven.layout sound.woven.tabled key
  obtain ⟨found', searched', exact'⟩ := find?_spec after sound'.woven.layout sound'.woven.tabled key
  rw [searched, searched']
  refine congrArg Except.ok (Option.ext fun id => ?_)
  rw [exact, exact', layout_eq]

theorem Sound.depth_eq (sound : net.Sound) (sound' : after.Sound)
    (layout_eq : after.nodes.layout = net.nodes.layout) (outputs : after.outputs = net.outputs) :
    after.depth.map Prod.fst = net.depth.map Prod.fst := by
  obtain ⟨k, asked, isDepth⟩ := depth_spec sound
  obtain ⟨k', asked', isDepth'⟩ := depth_spec sound'
  obtain ⟨h, heights⟩ := sound.exists_heights
  rw [layout_eq, outputs] at isDepth'
  rw [asked, asked']
  exact congrArg Except.ok ((isDepth' h heights).trans (isDepth h heights).symm)

/-- A sound network is restored with its nodes, their readers, its registries and its elements. -/
theorem Sound.restored (sound : net.Sound) (sound' : after.Sound)
    (layout_eq : after.nodes.layout = net.nodes.layout)
    (readers : ∀ x n, net.node? x = some n → after.nodes.readers x = some n.fanouts)
    (name : after.name = net.name) (ports : after.ports = net.ports)
    (registry : ∀ r, after.registry r = net.registry r)
    (element : ∀ family id, after.element? family id = net.element? family id)
    (order : ∀ family, (after.bank family).order = (net.bank family).order)
    (bound : net.nodes.bound ≤ after.nodes.bound) (buckets : net.buckets ≤ after.buckets) :
    net.Restored after := by
  -- The links of the chains may differ: a table that grew has other chains.
  have node : ∀ x, (after.node? x).map Node.unlinked = (net.node? x).map Node.unlinked := by
    intro x
    refine Store.unlinked_eq_of_layout_eq (congrFun layout_eq x) ?_
    cases held : net.node? x with
    | some n => rw [readers x n held, Store.readers_of_get? held]
    | none =>
      have dead : after.node? x = none := by
        rw [node?, ← Store.layout_eq_none_iff, layout_eq, Store.layout_eq_none_iff]
        exact held
      exact (congrArg (Option.map Node.fanouts) dead).trans
        (congrArg (Option.map Node.fanouts) held).symm
  have inside : after.PartOf net :=
    ⟨fun held => layout_eq ▸ held, registry .inputs, registry .outputs⟩
  have nodeIds : after.nodes.ids.SameUse net.nodes.ids := by
    refine sound'.woven.store.sameUse sound.woven.store fun x => ?_
    have same := congrArg Option.isSome (node x)
    rwa [Option.isSome_map, Option.isSome_map] at same
  have elementIds : ∀ family,
      (after.bank family).elements.ids.SameUse (net.bank family).elements.ids := fun family =>
    (sound'.banks family).store.sameUse (sound.banks family).store fun x =>
      congrArg Option.isSome (element family x)
  exact {
    name, ports, node, element, order, registry, bound, buckets
    nodeIds := nodeIds.matching
    elementIds := fun family => (elementIds family).matching
    find := sound.find?_eq sound' layout_eq
    depth := sound.depth_eq sound' layout_eq (registry .outputs)
    evaluate := fun words => (inside.evaluate sound' sound words).symm }

/-! ## Gates -/

/-- A gate was created: it reads two nodes that were there, and is the last of their readers. -/
structure GateAdded (net after : Network) (id : NodeId) (key : Key) : Prop where
  free : net.nodes.layout id = none
  proper : key.Proper
  first : net.nodes.layout.MayDrive key.first
  second : net.nodes.layout.MayDrive key.second
  layout_eq : after.nodes.layout =
    Function.update net.nodes.layout id (some ((Node.blank id).keyed key))
  readers_eq : ∀ x, x ≠ id →
    after.nodes.readers x = (net.nodes.readers x).map (Fanout.planted id key x)
  name : after.name = net.name
  ports : after.ports = net.ports
  inputs : after.inputs = net.inputs
  outputs : after.outputs = net.outputs
  gates : after.gates = net.gates.push id
  bank : ∀ family, after.bank family = net.bank family

/-- When the answer to a request is a node that was not there, a gate was created. -/
theorem Sound.gateAdded (sound : net.Sound) {gate : Gate} {s t : Signal} {inverted : Bool}
    (made : net.addGate gate s t = .ok (.done ⟨some id, inverted⟩ after))
    (free : net.node? id = none) : after.Sound ∧ ∃ key, net.GateAdded after id key := by
  have free := Store.layout_eq_none_iff.mpr free
  have sound' : after.Sound := by
    obtain ⟨outcome, made', sound'⟩ := safe_addGate sound gate s t
    obtain rfl := Except.ok.inj (made.symm.trans made')
    exact sound'
  refine ⟨sound', ?_⟩
  obtain ⟨⟨fitFirst, fitSecond⟩, realized⟩ := addGate_eq_done_iff.mp made
  unfold realize at realized
  rcases Normal.ofRequest_cases gate s t with
    ⟨r, settled, read⟩ | ⟨key, i, keyed, proper, operands⟩
  · -- A settled value is a constant or that of an operand, which is live.
    rw [settled] at realized
    cases realized
    rcases read id rfl with here | here
    · exact absurd (fitFirst id here) (Layout.not_mayDrive_of_none free)
    · exact absurd (fitSecond id here) (Layout.not_mayDrive_of_none free)
  · obtain ⟨first, second⟩ := mayDrive_of_keyed fitFirst fitSecond operands
    obtain ⟨found, searched, exact⟩ := find?_spec net sound.woven.layout sound.woven.tabled key
    simp only [keyed, searched, ok_bind] at realized
    cases found with
    | some old =>
      cases realized
      exact absurd (Layout.hasGate_of_key? ((exact id).mp rfl)) (Layout.not_hasGate_of_none free)
    | none =>
      have absent : ∀ x, net.nodes.layout.key? x ≠ some key := by
        intro x held
        cases (exact x).mpr held
      have apart : (none : Option NodeId) = none ∨ i = true := .inl rfl
      obtain ⟨new, out, last, addedEq, assigned, added, readers_eq⟩ :=
        extend_spec sound.woven none apart proper first second absent
      simp only [site, addedEq, assigned, ok_bind, pure_eq_ok] at realized
      cases realized
      refine ⟨key, ?_⟩
      cases added with
      | found _ held => exact absurd held (absent _)
      | added _ _ _ _ _ layout_eq =>
        exact ⟨free, proper, first, second, layout_eq, readers_eq, rfl, rfl, rfl, rfl, rfl,
          fun family => by cases family <;> rfl⟩

namespace GateAdded

variable {key : Key}

theorem hasGate (added : net.GateAdded mid id key) : mid.nodes.layout.HasGate id :=
  ⟨(Node.blank id).keyed key, by rw [added.layout_eq, Function.update_self], rfl⟩

/-- Nothing read the id of the gate before it was created, and the gate does not read itself. -/
theorem unread (added : net.GateAdded mid id key) (sound : net.Sound) : mid.Unread id := by
  have dead := Layout.not_mayDrive_of_none added.free
  intro x n p held wire
  rw [added.layout_eq] at held
  by_cases here : x = id
  · subst here
    rw [Function.update_self] at held
    obtain rfl := Option.some.inj held
    cases p with
    | first => exact dead (Option.some.inj wire ▸ added.first)
    | second => exact dead (Option.some.inj wire ▸ added.second)
  · rw [Function.update_of_ne here] at held
    exact dead (sound.woven.layout.driven held wire)

/-- Without the gate the layout is as it was. -/
theorem layout_erased (added : net.GateAdded mid id key) (erased : mid.GateErased after id) :
    after.nodes.layout = net.nodes.layout := by
  rw [erased.nodes.layout_update, added.layout_eq, Function.update_idem, ← added.free,
    Function.update_eq_self]

/-- The entries of the gate were the last ones of its drivers. -/
theorem readers_erased (added : net.GateAdded mid id key) (erased : mid.GateErased after id)
    (sound : net.Sound) {x : NodeId} {n : Node} (held : net.node? x = some n) :
    after.nodes.readers x = some n.fanouts := by
  have other : x ≠ id := Layout.ne_of_free added.free (Store.layout_of_get? held)
  have unlisted : ∀ p, ⟨id, p⟩ ∉ n.fanouts := by
    intro p
    rw [sound.woven.wired.mem_fanouts_iff held, Store.driverAt_eq_layout, added.free]
    exact nofun
  have apart : key.first ≠ key.second := Nat.ne_of_lt added.proper.ordered
  rw [erased.nodes.readers_eq x (by simpa using other), added.readers_eq x other,
    Store.readers_of_get? held, Option.map_some, Option.map_some,
    Fanout.withoutAll_planted apart x unlisted]

theorem registry_erased (added : net.GateAdded mid id key) (erased : mid.GateErased after id)
    (sound : net.Sound) (r : Registry) : after.registry r = net.registry r := by
  cases r with
  | inputs => exact erased.inputs.trans added.inputs
  | outputs => exact erased.outputs.trans added.outputs
  | gates =>
    have unlisted : id ∉ net.gates.toList := by
      intro listed
      obtain ⟨kind, held, _⟩ :=
        ((sound.registered .gates).2 id).mp (Array.mem_toList_iff.mp listed)
      rw [Layout.kind?, added.free] at held
      cases held
    show after.gates = net.gates
    rw [erased.gates, added.gates, ← Array.toList_inj, Registry.toList_erase, Array.toList_push,
      List.erase_append_right _ unlisted, List.erase_cons_head, List.append_nil]

end GateAdded

/-- A gate that was just created can be erased, and then all is as before. -/
theorem Sound.addGate_undone (sound : net.Sound) {gate : Gate} {s t : Signal} {inverted : Bool}
    (made : net.addGate gate s t = .ok (.done ⟨some id, inverted⟩ mid))
    (free : net.node? id = none) :
    ∃ after, mid.eraseGate id = .ok (.done () after) ∧ net.Restored after := by
  obtain ⟨soundMid, key, added⟩ := sound.gateAdded made free
  have unread := added.unread sound
  obtain ⟨after, dropped, sound', erased⟩ := soundMid.dropGate added.hasGate unread
  have done : mid.eraseGate id = .ok (.done () after) :=
    soundMid.eraseGate_eq_done_iff.mpr ⟨⟨added.hasGate, unread⟩, dropped⟩
  have widens : net.Widens after := IsTrans.trans _ _ _
    (leads_addGate (R := Widens) gate s t _ made) (leads_eraseGate (R := Widens) _ done)
  have bank : ∀ family, after.bank family = net.bank family := fun family =>
    (erased.bank family).trans (added.bank family)
  refine ⟨after, done, sound.restored sound' (added.layout_erased erased)
    (fun x n held => added.readers_erased erased sound held) (erased.name.trans added.name)
    (erased.ports.trans added.ports) (added.registry_erased erased sound) (fun family x => ?_)
    (fun family => by rw [bank]) widens.bound widens.buckets⟩
  rw [element?, element?, bank]

/-! ## State elements -/

namespace ElementAdded

variable {family : Family} {element : ElementId} {name : String} {t : Pin → NodeId} {e : Element}

/-- The element that was added. -/
theorem exists_element (added : net.ElementAdded mid family element name t) :
    ∃ e, mid.element? family element = some e ∧ e.terminal = t := by
  refine ⟨_, (added.element element).trans (if_pos rfl), funext fun pin => ?_⟩
  cases pin <;> rfl

/-- Nothing reads the terminals of a new element. -/
theorem unread (added : net.ElementAdded mid family element name t) (sound : net.Sound)
    (pin : Pin) : mid.Unread (t pin) := by
  intro x n p held wire
  rcases added.only held with held | ⟨q, rfl⟩
  · exact Layout.not_mayDrive_of_none (added.free pin) (sound.woven.layout.driven held wire)
  · obtain rfl := Option.some.inj ((added.placed q).symm.trans held)
    cases p <;> cases wire

theorem mem_terminals_iff (named : e.terminal = t) {x : NodeId} :
    x ∈ e.terminals ↔ ∃ pin, x = t pin := by
  simp [Element.terminals, named, Pin.mem_all, eq_comm]

theorem layout_erased (added : net.ElementAdded mid family element name t) (named : e.terminal = t)
    (erased : mid.ElementErased after family element e) :
    after.nodes.layout = net.nodes.layout := by
  funext x
  by_cases gone : x ∈ e.terminals
  · rw [erased.nodes.dead x gone]
    obtain ⟨pin, rfl⟩ := (mem_terminals_iff named).mp gone
    exact (added.free pin).symm
  · rw [erased.nodes.layout_eq x gone]
    cases held : net.nodes.layout x with
    | some n => exact added.kept held
    | none =>
      cases later : mid.nodes.layout x with
      | none => rfl
      | some n =>
        rcases added.only later with before | here
        · cases held.symm.trans before
        · exact absurd ((mem_terminals_iff named).mpr here) gone

theorem ne_terminal (added : net.ElementAdded mid family element name t) {x : NodeId} {n : Node}
    (held : net.nodes.layout x = some n) (named : e.terminal = t) : x ∉ e.terminals := by
  rw [mem_terminals_iff named]
  rintro ⟨pin, rfl⟩
  cases held.symm.trans (added.free pin)

/-- No node lists a new terminal as its reader. -/
theorem readers_erased (added : net.ElementAdded mid family element name t) (named : e.terminal = t)
    (erased : mid.ElementErased after family element e) (sound : net.Sound) {x : NodeId} {n : Node}
    (held : net.node? x = some n) : after.nodes.readers x = some n.fanouts := by
  have stays := added.ne_terminal (Store.layout_of_get? held) named
  rw [erased.nodes.readers_eq x stays, Store.readers_of_get? (added.live held), Option.map_some,
    Fanout.withoutAll_of_not_mem]
  refine List.forall_mem_map.mpr fun y gone => ?_
  obtain ⟨pin, rfl⟩ := (mem_terminals_iff named).mp gone
  rw [sound.woven.wired.mem_fanouts_iff held, Store.driverAt_eq_layout, added.free]
  exact nofun

/-- The registries end with the new terminals. -/
theorem exists_registry_eq (added : net.ElementAdded mid family element name t) (r : Registry) :
    ∃ pins : List Pin, (mid.registry r).toList = (net.registry r).toList ++ pins.map t := by
  cases r with
  | inputs => exact ⟨[.output], added.inputs⟩
  | outputs => exact ⟨[.data, .trigger, .forceA, .forceB], added.outputs⟩
  | gates => exact ⟨[], by simp [registry, added.rest.2.2.1]⟩

theorem registry_erased (added : net.ElementAdded mid family element name t)
    (named : e.terminal = t) (projected : mid.Projected after e.terminals) (sound : net.Sound)
    (r : Registry) : after.registry r = net.registry r := by
  obtain ⟨pins, appended⟩ := added.exists_registry_eq r
  have older : ∀ x ∈ (net.registry r).toList, x ∉ e.terminals := by
    intro x listed
    obtain ⟨kind, held, _⟩ := ((sound.registered r).2 x).mp (Array.mem_toList_iff.mp listed)
    obtain ⟨n, live, _⟩ := Layout.kind?_eq_some_iff.mp held
    exact added.ne_terminal live named
  have newer : ∀ x ∈ pins.map t, ¬ x ∉ e.terminals := by
    refine List.forall_mem_map.mpr fun pin _ => not_not_intro ?_
    exact (mem_terminals_iff named).mpr ⟨pin, rfl⟩
  rw [← Array.toList_inj, projected.registry, appended, List.filter_append,
    List.filter_eq_self.mpr (by simpa using older),
    List.filter_eq_nil_iff.mpr (by simpa using newer), List.append_nil]

theorem element_erased (added : net.ElementAdded mid family element name t)
    (erased : mid.ElementErased after family element e) (other : Family) (x : ElementId) :
    after.element? other x = net.element? other x := by
  unfold element?
  by_cases here : other = family
  · subst here
    rw [erased.element, added.element]
    split
    · next same => rw [same, added.unused]
    · rfl
  · rw [erased.bank other here, added.bank other here]

theorem order_erased (added : net.ElementAdded mid family element name t)
    (erased : mid.ElementErased after family element e) (sound : net.Sound) (other : Family) :
    (after.bank other).order = (net.bank other).order := by
  by_cases here : other = family
  · subst here
    have older : ∀ x ∈ (net.bank other).order.toList, x ≠ element := by
      rintro x listed rfl
      exact added.unlisted sound (Array.mem_toList_iff.mp listed)
    rw [erased.order, added.order, ← Array.toList_inj, Array.toList_filter, Array.toList_push,
      List.filter_append, List.filter_eq_self.mpr (by simpa using older)]
    simp
  · rw [erased.bank other here, added.bank other here]

end ElementAdded

/-- A state element that was just added can be erased, and then all is as before. -/
theorem Sound.addElement_undone (sound : net.Sound) (family : Family) (name : String) :
    ∃ element mid after, net.addElement family name = .ok (element, mid) ∧
      mid.eraseElement family element = .ok (.done () after) ∧ net.Restored after := by
  obtain ⟨element, t, mid, made, soundMid, added⟩ := addElement_spec sound family name
  obtain ⟨e, held, named⟩ := added.exists_element
  have unread : mid.Unread (e.terminal .output) := by
    rw [named]
    exact added.unread sound .output
  obtain ⟨after, dropped, _⟩ := soundMid.dropElement held unread
  have done : mid.eraseElement family element = .ok (.done () after) :=
    soundMid.eraseElement_eq_done_iff.mpr ⟨e, ⟨held, unread⟩, dropped⟩
  obtain ⟨e', held', sound', erased, projected⟩ := soundMid.of_eraseElement done
  obtain rfl := Option.some.inj (held.symm.trans held')
  have widens : net.Widens after := IsTrans.trans _ _ _ (related_addElement (R := Widens) made)
    (leads_eraseElement (R := Widens) family element _ done)
  exact ⟨element, mid, after, made, done, sound.restored sound' (added.layout_erased named erased)
    (fun x n held => added.readers_erased named erased sound held)
    (erased.name.trans added.rest.1) (erased.ports.trans added.rest.2.1)
    (added.registry_erased named projected sound) (added.element_erased erased)
    (added.order_erased erased sound) widens.bound widens.buckets⟩

/-! ## Reachable networks -/

/-- Erasing undoes adding.  When adding a gate creates one, or a state element is added, erasing it
at once succeeds, and all that the network is asked is as before, orders and future ids included. -/
theorem Reachable.erase_undoes (reachable : net.Reachable) :
    (∀ gate s t id inverted mid, net.addGate gate s t = .ok (.done ⟨some id, inverted⟩ mid) →
      net.node? id = none →
      ∃ after, mid.eraseGate id = .ok (.done () after) ∧ net.Restored after) ∧
    ∀ family name, ∃ element mid after, net.addElement family name = .ok (element, mid) ∧
      mid.eraseElement family element = .ok (.done () after) ∧ net.Restored after :=
  ⟨fun _ _ _ _ _ _ made free => reachable.sound.addGate_undone made free,
    fun family name => reachable.sound.addElement_undone family name⟩

/-- A gate was erased before, so the next one has an id between those of older nodes, and becomes
the last reader of both inputs. -/
theorem erase_undoes_recycled :
    ∃ net, (withBuckets 0).runAll [.addPort "p" 2, .addInput 0 0, .addInput 0 1, .addOutput 0 0,
        .addGate .and (.positive 0) (.positive 1), .addGate .xor (.positive 0) (.positive 1),
        .drive 2 (.negative 4), .eraseGate 3] = .ok net ∧
      (∃ mid after, net.addGate .or (.positive 0) (.positive 1) = .ok (.done (.positive 3) mid) ∧
        mid.eraseGate 3 = .ok (.done () after) ∧ net.Restored after) ∧
      ∃ element mid after, net.addElement .latch "l" = .ok (element, mid) ∧
        mid.eraseElement .latch element = .ok (.done () after) ∧ net.Restored after := by
  refine exists_runAll (fun net => ((net.addGate .or (.positive 0) (.positive 1)).toOption.map
      fun outcome => outcome.answer.toOption, net.node? 3))
    (some (some (.positive 3)), none) (by simp) (by decide +kernel) ?_
  intro net reached seen
  simp only [Prod.mk.injEq] at seen
  obtain ⟨mid, made⟩ := exists_done seen.1
  obtain ⟨gates, elements⟩ := reached.erase_undoes
  obtain ⟨after, done, restored⟩ := gates _ _ _ _ _ mid made seen.2
  exact ⟨⟨mid, after, made, done, restored⟩, elements .latch "l"⟩

end Network

end GateNet
