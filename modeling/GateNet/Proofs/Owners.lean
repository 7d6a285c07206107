import Mathlib.Data.List.Induction
import GateNet.Proofs.CopyElements
import GateNet.Proofs.Registries

/-!
# What a passed audit says about owners

The audit follows every terminal that an owner names, so each of them is live and of the kind that
its owner expects.  What an owner expects, it says by the number that its record carries, which
need not be the number under which it is kept.  Nothing leads from the terminals back to their
owners: a live terminal that no owner names is found only by counting the terminals that are named.
-/

namespace GateNet

/-- The order lists the live elements, each once. -/
structure Bank.Listed (b : Bank) : Prop where
  nodup : b.order.toList.Nodup
  exact : ∀ id, id ∈ b.order ↔ ∃ element, b.elements.get? id = some element

namespace Network

variable {net : Network} {side : Side} {kind : Kind} {id : NodeId}

/-- The kind that the owner of a place writes down for it, with the number that its record
carries. -/
def written (net : Network) : Kind → Kind
  | .portInput port bit => .portInput ((net.ports[port]?).elim port Port.id) bit
  | .portOutput port bit => .portOutput ((net.ports[port]?).elim port Port.id) bit
  | .state family element pin =>
      .state family ((net.element? family element).elim element Element.id) pin
  | .gate => .gate

/-- Every live terminal is the one that its owner names for its kind. -/
def Recorded (net : Network) : Prop :=
  ∀ id n, net.node? id = some n → n.isGate = false → net.terminal? n.kind = some id

/-! ## Places -/

theorem nodup_positions (widths : List Nat) : (positions widths).Nodup := by
  induction widths using List.reverseRecOn with
  | nil => exact List.nodup_nil
  | append_singleton widths width inductionHypothesis =>
    rw [positions_append]
    apply inductionHypothesis.append
    · exact List.nodup_range.map fun one two same => (Prod.mk.inj same).2
    · intro (port, bit) here last
      obtain ⟨_, held, _⟩ := mem_positions.mp here
      obtain ⟨_, _, same⟩ := List.mem_map.mp last
      obtain ⟨rfl, _⟩ := Prod.mk.inj same
      simp at held

/-- The pins of one sort of the listed elements of a family. -/
def pinPlaces (net : Network) (family : Family) (side : Side) : List Kind :=
  (net.bank family).order.toList.flatMap fun element => side.pins.map (.state family element)

/-- All places where an owner may name a terminal of one sort. -/
def places (net : Network) (side : Side) : List Kind :=
  (positions (net.shape.map Prod.snd)).map (fun (port, bit) => side.kind port bit) ++
    (net.pinPlaces .flipFlop side ++ net.pinPlaces .latch side)

/-- What is named at a place by an owner that carries the number under which it is kept. -/
def ownTerminal? (net : Network) (kind : Kind) : Option NodeId :=
  if net.written kind = kind then net.terminal? kind else none

theorem ownTerminal?_eq_some_iff :
    net.ownTerminal? kind = some id ↔ net.written kind = kind ∧ net.terminal? kind = some id := by
  unfold ownTerminal?
  split <;> simp_all

/-- The terminals of one sort that are named by owners which carry their own numbers. -/
def terminals (net : Network) (side : Side) : List NodeId :=
  (net.places side).filterMap net.ownTerminal?

theorem mem_terminals_iff :
    id ∈ net.terminals side ↔
      ∃ kind ∈ net.places side, net.written kind = kind ∧ net.terminal? kind = some id := by
  simp only [terminals, List.mem_filterMap, ownTerminal?_eq_some_iff]

theorem mem_pinPlaces_iff {family : Family} :
    kind ∈ net.pinPlaces family side ↔
      ∃ element ∈ (net.bank family).order, ∃ pin ∈ side.pins, kind = .state family element pin := by
  simp [pinPlaces, eq_comm]

theorem admits_state_iff {family : Family} {element : ElementId} {pin : Pin} :
    side.registry.admits (.state family element pin) = true ↔ pin ∈ side.pins := by
  have admits : side.registry.admits (.state family element pin) = decide (pin ∈ side.pins) := by
    cases side <;> cases pin <;> rfl
  rw [admits, decide_eq_true_iff]

theorem admits_of_mem_places (here : kind ∈ net.places side) :
    side.registry.admits kind = true := by
  have pins : ∀ family, kind ∈ net.pinPlaces family side → side.registry.admits kind = true := by
    intro family here
    obtain ⟨element, _, pin, listed, rfl⟩ := mem_pinPlaces_iff.mp here
    exact admits_state_iff.mpr listed
  cases List.mem_append.mp here with
  | inl port =>
    obtain ⟨_, _, rfl⟩ := List.mem_map.mp port
    cases side <;> rfl
  | inr element => exact (List.mem_append.mp element).elim (pins _) (pins _)

theorem nodup_pinPlaces {family : Family} (nodup : (net.bank family).order.toList.Nodup) :
    (net.pinPlaces family side).Nodup := by
  apply List.nodup_flatMap.mpr
  constructor
  · intro element _
    have pins : side.pins.Nodup := by cases side <;> decide
    exact pins.map fun one two same => by cases same; rfl
  · apply nodup.imp
    intro one two different kind here there
    obtain ⟨_, _, rfl⟩ := List.mem_map.mp here
    obtain ⟨_, _, same⟩ := List.mem_map.mp there
    cases same
    exact different rfl

theorem nodup_places (orders : ∀ family, (net.bank family).order.toList.Nodup) :
    (net.places side).Nodup := by
  apply List.Nodup.append
  · apply (nodup_positions _).map
    intro (port, bit) (port', bit') same
    obtain ⟨_, rfl, rfl⟩ := Side.kind_inj.mp same
    rfl
  · apply (nodup_pinPlaces (orders .flipFlop)).append (nodup_pinPlaces (orders .latch))
    intro kind here there
    obtain ⟨_, _, _, _, rfl⟩ := mem_pinPlaces_iff.mp here
    obtain ⟨_, _, _, _, same⟩ := mem_pinPlaces_iff.mp there
    cases same
  · intro kind port element
    obtain ⟨_, _, rfl⟩ := List.mem_map.mp port
    cases List.mem_append.mp element with
    | inl flipFlop =>
      obtain ⟨_, _, _, _, same⟩ := mem_pinPlaces_iff.mp flipFlop
      cases side <;> cases same
    | inr latch =>
      obtain ⟨_, _, _, _, same⟩ := mem_pinPlaces_iff.mp latch
      cases side <;> cases same

/-- Whatever is named of one sort is named at one of the places. -/
theorem mem_places_of_terminal? (banks : ∀ family, (net.bank family).Listed)
    (named : net.terminal? kind = some id) (admitted : side.registry.admits kind = true) :
    kind ∈ net.places side := by
  have atBit : ∀ port bit, net.terminal? (side.kind port bit) = some id →
      side.kind port bit ∈ net.places side := by
    intro port bit named
    have inside := mem_positions_of_terminal (Option.isSome_iff_exists.mpr ⟨id, named⟩)
    exact List.mem_append_left _ (List.mem_map_of_mem inside)
  cases kind with
  | gate => cases named
  | portInput port number =>
    cases side with
    | input => exact atBit port number named
    | output => cases admitted
  | portOutput port number =>
    cases side with
    | input => cases admitted
    | output => exact atBit port number named
  | state family element pin =>
    obtain ⟨e, held, _⟩ := Option.map_eq_some_iff.mp named
    have listed := ((banks family).exact element).mpr ⟨e, held⟩
    have here := mem_pinPlaces_iff.mpr ⟨element, listed, pin, admits_state_iff.mp admitted, rfl⟩
    cases family with
    | flipFlop => exact List.mem_append_right _ (List.mem_append_left _ here)
    | latch => exact List.mem_append_right _ (List.mem_append_right _ here)

/-! ## Terminals -/

namespace Checked

theorem listed (checked : net.Checked) {family : Family}
    (store : (net.bank family).elements.Sound) (nodup : (net.bank family).order.toList.Nodup) :
    (net.bank family).Listed := by
  refine ⟨nodup, fun id => ?_⟩
  rw [← Array.mem_toList_iff]
  exact (checked.bank_counted family store).mem_iff nodup id

/-- What a listed element names is live and of the kind that the element writes down. -/
theorem kind_of_pin (checked : net.Checked) {family : Family} {element : ElementId} {e : Element}
    (listed : element ∈ (net.bank family).order) (held : net.element? family element = some e)
    (pin : Pin) :
    ∃ n, net.node? (e.terminal pin) = some n ∧ n.kind = .state family e.id pin := by
  obtain ⟨_, elements⟩ := auditBank_eq_ok_iff.mp (checked.banks family)
  obtain ⟨e', held', pins⟩ := auditElement_eq_ok_iff.mp (elements element listed)
  obtain rfl := Option.some.inj (held.symm.trans held')
  exact auditTerminal_eq_ok_iff.mp (pins pin)

/-- What a port names for a bit is live and of the kind that the port writes down. -/
theorem kind_of_side (checked : net.Checked) {p : Port} (listed : p ∈ net.ports) {bit : Nat}
    (small : bit < p.width) (named : side.terminal p bit = some id) :
    ∃ n, net.node? id = some n ∧ n.kind = side.kind p.id bit := by
  obtain ⟨input, output⟩ := auditPort_eq_ok_iff.mp (checked.ports p listed) bit small
  cases side with
  | input => exact auditTerminal_eq_ok_iff.mp (input id named)
  | output => exact auditTerminal_eq_ok_iff.mp (output id named)

/-- What an owner names at a place is live and of the kind that the owner writes down. -/
theorem kind_of_terminal? (checked : net.Checked) (banks : ∀ family, (net.bank family).Listed)
    (named : net.terminal? kind = some id) :
    ∃ n, net.node? id = some n ∧ n.kind = net.written kind := by
  cases kind with
  | gate => cases named
  | portInput port bit =>
    obtain ⟨p, held, named⟩ := Option.bind_eq_some_iff.mp named
    simp only [written, held, Option.elim_some]
    have here : Side.input.terminal p bit = some id := named
    exact checked.kind_of_side (Array.mem_of_getElem? held) (Port.lt_width_of_input named) here
  | portOutput port bit =>
    obtain ⟨p, held, named⟩ := Option.bind_eq_some_iff.mp named
    split at named
    · next small =>
      simp only [written, held, Option.elim_some]
      have here : Side.output.terminal p bit = some id := named
      exact checked.kind_of_side (Array.mem_of_getElem? held) small here
    · cases named
  | state family element pin =>
    obtain ⟨e, held, rfl⟩ := Option.map_eq_some_iff.mp named
    simp only [written, held, Option.elim_some]
    exact checked.kind_of_pin (((banks family).exact element).mpr ⟨e, held⟩) held pin

theorem nodup_terminals (checked : net.Checked) (banks : ∀ family, (net.bank family).Listed)
    (side : Side) : (net.terminals side).Nodup := by
  apply (nodup_places fun family => (banks family).nodup).filterMap
  intro one two id own own'
  obtain ⟨numbered, named⟩ := ownTerminal?_eq_some_iff.mp own
  obtain ⟨numbered', named'⟩ := ownTerminal?_eq_some_iff.mp own'
  obtain ⟨n, held, kind⟩ := checked.kind_of_terminal? banks named
  obtain ⟨m, held', kind'⟩ := checked.kind_of_terminal? banks named'
  obtain rfl := Option.some.inj (held.symm.trans held')
  rw [← numbered, ← numbered', ← kind, kind']

theorem terminals_subset (checked : net.Checked) (banks : ∀ family, (net.bank family).Listed)
    (side : Side) : net.terminals side ⊆ net.live side.registry := by
  intro id listed
  obtain ⟨kind, here, numbered, named⟩ := mem_terminals_iff.mp listed
  obtain ⟨n, held, same⟩ := checked.kind_of_terminal? banks named
  rw [numbered] at same
  exact mem_live_iff.mpr ⟨n, held, same ▸ admits_of_mem_places here⟩

/-- All live terminals are recorded when all of both sorts are named somewhere, by owners that carry
their own numbers. -/
theorem recorded_iff_subset (checked : net.Checked) (banks : ∀ family, (net.bank family).Listed) :
    net.Recorded ↔ ∀ side : Side, net.live side.registry ⊆ net.terminals side := by
  constructor
  · intro recorded side id live
    obtain ⟨n, held, admitted⟩ := mem_live_iff.mp live
    have terminal : n.isGate = false := by
      cases side with
      | input => exact Node.not_isGate_of_isInput admitted
      | output => exact Node.not_isGate_of_isOutput admitted
    have named := recorded id n held terminal
    obtain ⟨m, held', numbered⟩ := checked.kind_of_terminal? banks named
    obtain rfl := Option.some.inj (held.symm.trans held')
    exact mem_terminals_iff.mpr
      ⟨n.kind, mem_places_of_terminal? banks named admitted, numbered.symm, named⟩
  · intro complete id n held terminal
    have live : ∃ side : Side, id ∈ net.live side.registry := by
      cases input : n.isInput with
      | true => exact ⟨.input, mem_live_iff.mpr ⟨n, held, input⟩⟩
      | false =>
        have output : n.isOutput = true := by rw [Node.isOutput_eq, input, terminal]; rfl
        exact ⟨.output, mem_live_iff.mpr ⟨n, held, output⟩⟩
    obtain ⟨side, live⟩ := live
    obtain ⟨kind, _, numbered, named⟩ := mem_terminals_iff.mp (complete side live)
    obtain ⟨m, held', same⟩ := checked.kind_of_terminal? banks named
    obtain rfl := Option.some.inj (held.symm.trans held')
    rwa [same, numbered]

/-- These terminals are named at most once each and are live, so only their numbers need
comparing. -/
theorem recorded_iff (checked : net.Checked) (banks : ∀ family, (net.bank family).Listed) :
    net.Recorded ↔
      ∀ side : Side, (net.terminals side).length = (net.registry side.registry).size := by
  rw [checked.recorded_iff_subset banks]
  refine forall_congr' fun side => ?_
  have nodup := checked.nodup_terminals banks side
  have inside := checked.terminals_subset banks side
  have count := (auditRegistry_eq_ok_iff.mp (checked.registries side.registry)).1
  rw [count, ← length_live]
  constructor
  · intro complete
    exact Nat.le_antisymm (nodup.subperm inside).length_le
      ((nodup_live side.registry).subperm complete).length_le
  · intro length
    exact (nodup_iff_subset (nodup_live side.registry) inside length).mp nodup

end Checked

end Network

end GateNet
