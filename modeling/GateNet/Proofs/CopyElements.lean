import GateNet.Proofs.CopyPorts

/-!
# Copying the state elements

State elements are copied in their order, first one family, then the other.  The ids of elements
may change, so an entered copy is the terminal that the target names in the same place: for the
element at the same position, and the same pin.
-/

namespace GateNet

namespace Network

/-- The terminals of given pins, element by element. -/
def pinTerminals (net : Network) (family : Family) (pins : List Pin) : List NodeId :=
  (net.bank family).order.toList.flatMap fun element =>
    pins.filterMap fun pin => net.terminal? (.state family element pin)

/-- The terminals of ports that are made by a rule, bit by bit. -/
def portTerminals (net : Network) (kind : PortId → Nat → Kind) : List NodeId :=
  (positions (net.shape.map Prod.snd)).filterMap fun (port, bit) => net.terminal? (kind port bit)

/-- The entered copies are the terminals that stand in the same places. -/
def Entered (src : Network) (copies : Copies) (net : Network) : Prop :=
  ∀ x y, copies.copy? x = some y ↔ ∃ kind kind', src.nodes.layout.kind? x = some kind ∧
    src.Matches net kind kind' ∧ net.terminal? kind' = some y

/-- A target while the elements of a family are copied: the ones in `done` were. -/
structure BankCopied (src start : Network) (family : Family) (done : List ElementId)
    (copies : Copies) (net : Network) : Prop where
  sound : net.Sound
  size : copies.size = src.nodes.bound
  entries : src.Entered copies net
  ports : net.ports = start.ports
  others : ∀ other, other ≠ family → net.bank other = start.bank other
  position : (net.bank family).order.size = done.length
  named : ∀ {position : Nat} {element other}, (src.bank family).order[position]? = some element →
    (net.bank family).order[position]? = some other →
    (net.element? family other).map Element.name = (src.element? family element).map Element.name
  listed : ∀ side : Side, (net.registry side.registry).toList =
    (start.registry side.registry).toList ++ net.pinTerminals family side.pins
  ungated : net.gates = #[]
  name : net.name = src.name

/-! ## Entering the terminals of an element -/

theorem enterPins_spec (copies : Copies) {e : Element}
    (distinct : ∀ p q, e.terminal p = e.terminal q → p = q)
    (small : ∀ pin, e.terminal pin < copies.size) (t : Pin → NodeId) :
    ∃ copies', (Pin.all.map fun pin => (e.terminal pin, t pin)).foldlM
        (fun (copies : Copies) (old, new) => copies.enter old new) copies = .ok copies' ∧
      copies'.size = copies.size ∧ (∀ pin, copies'.copy? (e.terminal pin) = some (t pin)) ∧
      ∀ x, (∀ pin, x ≠ e.terminal pin) → copies'.copy? x = copies.copy? x := by
  obtain ⟨copies', entered, size, placed, kept⟩ := foldlM_spec
    (fun (copies : Copies) (pin : Pin) => copies.enter (e.terminal pin) (t pin)) Pin.all copies
    (fun before (state : Copies) => state.size = copies.size ∧
      (∀ pin ∈ before, state.copy? (e.terminal pin) = some (t pin)) ∧
      ∀ x, (∀ pin, x ≠ e.terminal pin) → state.copy? x = copies.copy? x)
    ⟨rfl, by simp, fun _ _ => rfl⟩ <| by
      rintro before pin after state split ⟨size, placed, kept⟩
      have inside : e.terminal pin < state.size := by
        rw [size]
        exact small pin
      obtain ⟨next, entered, adds⟩ := Copies.exists_enter inside (t pin)
      refine ⟨next, entered, adds.size.trans size, fun q listed => ?_, fun x other => ?_⟩
      · by_cases same : e.terminal q = e.terminal pin
        · rw [same, adds.self, distinct q pin same]
        · rw [adds.other same]
          refine placed q ((List.mem_append.mp listed).resolve_right fun last => same ?_)
          rw [List.mem_singleton.mp last]
      · rw [adds.other (other pin), kept x other]
  exact ⟨copies', (List.foldlM_map ..).trans entered, size,
    fun pin => placed pin (Pin.mem_all pin), kept⟩

theorem Sound.kind?_terminal {net : Network} (sound : net.Sound) {family : Family}
    {element : ElementId} {e : Element} (found : (net.bank family).elements.get? element = some e)
    {pin : Pin} {x : NodeId} :
    x = e.terminal pin ↔ net.nodes.layout.kind? x = some (.state family element pin) := by
  rw [← sound.owned.named _ rfl not_false]
  simp [terminal?, element?, found, eq_comm]

theorem Sound.terminal_injective {net : Network} (sound : net.Sound) {family : Family}
    {element : ElementId} {e : Element} (found : (net.bank family).elements.get? element = some e)
    (p q : Pin) (same : e.terminal p = e.terminal q) : p = q := by
  have one := (sound.kind?_terminal found).mp (rfl : e.terminal p = _)
  have two := (sound.kind?_terminal found).mp same
  rw [one] at two
  cases two
  rfl

/-! ## Adding one element -/

namespace ElementAdded

variable {net after : Network} {family : Family} {id : ElementId} {name : String} {t : Pin → NodeId}

theorem terminal?_self (added : net.ElementAdded after family id name t) (pin : Pin) :
    after.terminal? (.state family id pin) = some (t pin) := by
  rw [terminal?, element?, added.element, if_pos rfl]
  cases pin <;> rfl

theorem terminal?_of_ne (added : net.ElementAdded after family id name t) {kind : Kind}
    (other : ∀ pin, kind ≠ .state family id pin) : after.terminal? kind = net.terminal? kind := by
  cases kind with
  | portInput port bit | portOutput port bit => simp only [terminal?, added.rest.2.1]
  | gate => rfl
  | state family' element pin =>
    rw [terminal?, terminal?, element?, element?]
    by_cases here : family' = family
    · subst here
      have different : element ≠ id := by
        rintro rfl
        exact other pin rfl
      rw [added.element, if_neg different]
    · rw [added.bank family' here]

theorem unlisted (added : net.ElementAdded after family id name t) (sound : net.Sound) :
    id ∉ (net.bank family).order := by
  intro listed
  obtain ⟨e, found⟩ := ((sound.banks family).exact id).mp listed
  rw [added.unused] at found
  cases found

theorem element_of_listed (added : net.ElementAdded after family id name t) (sound : net.Sound)
    {other : ElementId} (listed : other ∈ (net.bank family).order) (pin : Pin) :
    after.terminal? (.state family other pin) = net.terminal? (.state family other pin) := by
  refine added.terminal?_of_ne fun q same => ?_
  cases same
  exact added.unlisted sound listed

theorem order_eq (added : net.ElementAdded after family id name t) (k : Nat) :
    (after.bank family).order[k]? =
      if k = (net.bank family).order.size then some id else (net.bank family).order[k]? := by
  rw [added.order, Array.getElem?_push]

/-- The places of the elements so far are kept. -/
theorem matches_iff (added : net.ElementAdded after family id name t) {src : Network}
    {element : ElementId}
    (position : (src.bank family).order[(net.bank family).order.size]? = some element)
    {kind kind' : Kind} (other : ∀ pin, kind ≠ .state family element pin) :
    src.Matches after kind kind' ↔ src.Matches net kind kind' := by
  constructor
  · intro same
    cases same with
    | portInput port bit => exact .portInput port bit
    | portOutput port bit => exact .portOutput port bit
    | gate => exact .gate
    | @state family' k pin element' other' here there =>
      refine .state family' k pin here ?_
      -- The new element is the last one, so no earlier position is concerned.
      by_cases same : family' = family
      · subst same
        rw [added.order_eq] at there
        split at there
        · next last =>
          subst last
          cases position.symm.trans here
          exact absurd rfl (other pin)
        · exact there
      · rwa [added.bank family' same] at there
  · intro same
    cases same with
    | portInput port bit => exact .portInput port bit
    | portOutput port bit => exact .portOutput port bit
    | gate => exact .gate
    | @state family' k pin element' other' here there =>
      refine .state family' k pin here ?_
      by_cases same : family' = family
      · subst same
        rw [added.order_eq, if_neg, there]
        rintro rfl
        rw [Array.getElem?_size] at there
        cases there
      · rwa [added.bank family' same]

theorem matches_self (added : net.ElementAdded after family id name t) {src : Network}
    {element : ElementId} (soundSrc : src.Sound)
    (position : (src.bank family).order[(net.bank family).order.size]? = some element) {pin : Pin}
    {kind' : Kind} :
    src.Matches after (.state family element pin) kind' ↔ kind' = .state family id pin := by
  constructor
  · intro same
    cases same with
    | @state _ k _ _ other here there =>
      have index : k = (net.bank family).order.size := by
        rw [← Array.getElem?_toList] at here position
        exact (List.getElem?_inj (List.getElem?_eq_some_iff.mp here).1
          (soundSrc.banks family).nodup).mp (here.trans position.symm)
      rw [added.order_eq, if_pos index] at there
      rw [Option.some.inj there]
  · rintro rfl
    exact .state family (net.bank family).order.size pin position (by rw [added.order_eq, if_pos rfl])

theorem pinTerminals_eq (added : net.ElementAdded after family id name t) (sound : net.Sound)
    (pins : List Pin) :
    after.pinTerminals family pins = net.pinTerminals family pins ++ pins.map t := by
  have last : (pins.filterMap fun pin => after.terminal? (.state family id pin)) = pins.map t := by
    rw [← List.filterMap_eq_map]
    exact List.filterMap_congr fun pin _ => added.terminal?_self pin
  unfold pinTerminals
  rw [added.order, Array.toList_push, List.flatMap_append, List.flatMap_singleton, last]
  congr 1
  refine List.flatMap_congr fun other listed => List.filterMap_congr fun pin _ => ?_
  exact added.element_of_listed sound (Array.mem_toList_iff.mp listed) pin

/-- An element is copied by adding one of its name and entering the new terminals. -/
theorem copyElement_eq (added : net.ElementAdded after family id name t) {src : Network}
    {element : ElementId} {e : Element} {copies copies' : Copies}
    (found : (src.bank family).elements.get? element = some e)
    (made : net.addElement family e.name = .ok (id, after))
    (entered : (Pin.all.map fun pin => (e.terminal pin, t pin)).foldlM
      (fun (copies : Copies) (old, new) => copies.enter old new) copies = .ok copies') :
    copyElement src family copies element net = .ok (.done copies' after) := by
  have fetched : (after.bank family).elements.fetch id =
      .ok ⟨id, name, t .output, t .data, t .trigger, t .forceA, t .forceB⟩ :=
    Store.fetch_of_get? (by rw [added.element, if_pos rfl])
  rw [Network.copyElement, Store.fetch_of_get? found, ok_bind, made, ok_bind]
  simp only [fetched, ok_bind]
  exact (congrArg (· >>= _) entered).trans rfl

end ElementAdded

/-! ## Copying one element -/

namespace BankCopied

variable {src start net : Network} {family : Family} {done : List ElementId} {copies : Copies}

/-- With the terminals of one more element, the entered copies stand in the same places again. -/
theorem entered_added (copied : src.BankCopied start family done copies net)
    (soundSrc : src.Sound) {element : ElementId}
    (position : (src.bank family).order[(net.bank family).order.size]? = some element)
    {e : Element} (found : (src.bank family).elements.get? element = some e)
    {after : Network} {id : ElementId} {t : Pin → NodeId}
    (added : net.ElementAdded after family id e.name t) {copies' : Copies}
    (placed : ∀ pin, copies'.copy? (e.terminal pin) = some (t pin))
    (kept : ∀ x, (∀ pin, x ≠ e.terminal pin) → copies'.copy? x = copies.copy? x) :
    src.Entered copies' after := by
  intro x y
  -- A terminal of the element stands in the place of the new one; all others keep their places.
  by_cases terminal : ∃ pin, x = e.terminal pin
  · obtain ⟨pin, rfl⟩ := terminal
    rw [placed, (soundSrc.kind?_terminal found).mp rfl]
    constructor
    · rintro ⟨⟩
      exact ⟨_, _, rfl, (added.matches_self soundSrc position).mpr rfl, added.terminal?_self pin⟩
    · rintro ⟨_, kind', ⟨⟩, same, named⟩
      obtain rfl := (added.matches_self soundSrc position).mp same
      exact (added.terminal?_self pin).symm.trans named
  · rw [not_exists] at terminal
    rw [kept x terminal, copied.entries]
    refine exists_congr fun kind => exists_congr fun kind' => and_congr_right fun held => ?_
    have other : ∀ pin, kind ≠ .state family element pin := by
      rintro pin rfl
      exact terminal pin ((soundSrc.kind?_terminal found).mpr held)
    rw [added.matches_iff position other]
    refine and_congr_right fun same => ?_
    rw [added.terminal?_of_ne]
    rintro pin rfl
    cases same with
    | state _ k _ here there => exact added.unlisted copied.sound (Array.mem_of_getElem? there)

theorem named_added (copied : src.BankCopied start family done copies net) {element : ElementId}
    (last : (src.bank family).order[(net.bank family).order.size]? = some element)
    {e : Element} (found : (src.bank family).elements.get? element = some e)
    {after : Network} {id : ElementId} {t : Pin → NodeId}
    (added : net.ElementAdded after family id e.name t) {k : Nat} {here there : ElementId}
    (held : (src.bank family).order[k]? = some here)
    (held' : (after.bank family).order[k]? = some there) :
    (after.element? family there).map Element.name = (src.element? family here).map Element.name := by
  rw [added.order_eq] at held'
  split at held'
  · next same =>
    obtain rfl := Option.some.inj held'
    rw [same, last] at held
    obtain rfl := Option.some.inj held
    simp [element?, added.element, found]
  · have listed := Array.mem_of_getElem? held'
    have different : there ≠ id := by
      rintro rfl
      exact added.unlisted copied.sound listed
    rw [← copied.named held held']
    simp [element?, added.element, different]

theorem copyElement (copied : src.BankCopied start family done copies net) (soundSrc : src.Sound)
    {element : ElementId} {rest : List ElementId}
    (split : (src.bank family).order.toList = done ++ element :: rest) :
    ∃ copies' after, Network.copyElement src family copies element net =
        .ok (.done copies' after) ∧
      src.BankCopied start family (done ++ [element]) copies' after := by
  have position : (src.bank family).order[(net.bank family).order.size]? = some element := by
    rw [copied.position, ← Array.getElem?_toList, split]
    simp
  obtain ⟨e, found⟩ := ((soundSrc.banks family).exact element).mp (Array.mem_of_getElem? position)
  obtain ⟨id, t, after, made, sound, added⟩ := addElement_spec copied.sound family e.name
  obtain ⟨copies', entered, size, placed, kept⟩ :=
    enterPins_spec copies (soundSrc.terminal_injective found) (by
      intro pin
      obtain ⟨n, held, _⟩ := Layout.kind?_eq_some_iff.mp ((soundSrc.kind?_terminal found).mp rfl)
      rw [copied.size]
      exact soundSrc.lt_bound held) t
  refine ⟨copies', after, ?_, sound, size.trans copied.size,
    copied.entered_added soundSrc position found added placed kept,
    added.rest.2.1.trans copied.ports, fun other different => ?_, ?_,
    copied.named_added position found added, fun side => ?_,
    added.rest.2.2.1.trans copied.ungated, added.rest.1.trans copied.name⟩
  · exact added.copyElement_eq found made entered
  · rw [added.bank other different, copied.others other different]
  · rw [added.order, Array.size_push, copied.position, List.length_append, List.length_singleton]
  · rw [added.pinTerminals_eq copied.sound, ← List.append_assoc, ← copied.listed]
    cases side
    · exact added.inputs
    · exact added.outputs

end BankCopied

theorem copyBank_spec {src start : Network} (soundSrc : src.Sound) {family : Family}
    {copies : Copies} (blank : src.BankCopied start family [] copies start) :
    ∃ copies' after,
      Outcome.fold (copyElement src family) (src.bank family).order.toList copies start =
        .ok (.done copies' after) ∧
      src.BankCopied start family (src.bank family).order.toList copies' after :=
  Outcome.fold_spec (copyElement src family) _ copies start
    (fun before copies net => src.BankCopied start family before copies net) blank
    fun _ _ _ _ _ split copied => copied.copyElement soundSrc split

/-! ## All terminals -/

/-- A target with all terminals of the source, and nothing else. -/
structure TerminalsCopied (src : Network) (copies : Copies) (net : Network) : Prop where
  sound : net.Sound
  size : copies.size = src.nodes.bound
  entries : src.Entered copies net
  shape : net.shape = src.shape
  ports : ∀ (side : Side) port bit, (net.terminal? (side.kind port bit)).isSome = true ↔
    (src.terminal? (side.kind port bit)).isSome = true
  position : ∀ family, (net.bank family).order.size = (src.bank family).order.size
  named : ∀ {family} {position : Nat} {element other},
    (src.bank family).order[position]? = some element →
    (net.bank family).order[position]? = some other →
    (net.element? family other).map Element.name = (src.element? family element).map Element.name
  listed : ∀ side : Side, (net.registry side.registry).toList = net.portTerminals side.kind ++
    net.pinTerminals .flipFlop side.pins ++ net.pinTerminals .latch side.pins
  ungated : net.gates = #[]
  name : net.name = src.name

theorem pinTerminals_of_bare {net : Network} {family : Family}
    (bare : (net.bank family).order = #[]) (pins : List Pin) : net.pinTerminals family pins = [] := by
  rw [pinTerminals, bare]
  rfl

theorem pinTerminals_congr {net other : Network} {family : Family}
    (same : other.bank family = net.bank family) (pins : List Pin) :
    other.pinTerminals family pins = net.pinTerminals family pins := by
  simp only [pinTerminals, terminal?, element?, same]

theorem portTerminals_congr {net other : Network} (same : other.ports = net.ports) (side : Side) :
    other.portTerminals side.kind = net.portTerminals side.kind := by
  unfold portTerminals shape
  rw [same]
  refine List.filterMap_congr fun ⟨port, bit⟩ _ => ?_
  cases side <;> simp only [Side.kind, terminal?, same]

theorem BankCopied.start {src net : Network} {family : Family} {copies : Copies} (sound : net.Sound)
    (size : copies.size = src.nodes.bound) (entries : src.Entered copies net)
    (bare : (net.bank family).order = #[]) (ungated : net.gates = #[]) (name : net.name = src.name) :
    src.BankCopied net family [] copies net where
  sound := sound
  size := size
  entries := entries
  ports := rfl
  others _ _ := rfl
  position := by rw [bare]; rfl
  named _ there := by
    rw [bare] at there
    cases there
  listed side := by rw [pinTerminals_of_bare bare, List.append_nil]
  ungated := ungated
  name := name

/-- While there are no elements, copies stand in the same places when they have the same kinds. -/
theorem PortsCopied.entered {src net : Network} {shown : List (String × Nat)}
    {done : Side → List (PortId × Nat)} {copies : Copies}
    (copied : src.PortsCopied shown done copies net) : src.Entered copies net := by
  have unnamed : ∀ family element pin, net.terminal? (.state family element pin) = none := by
    intro family element pin
    cases held : net.element? family element with
    | none => rw [terminal?, held]; rfl
    | some e =>
      have listed := ((copied.sound.banks family).exact element).mpr ⟨e, held⟩
      rw [copied.bare] at listed
      simp at listed
  intro x y
  rw [copied.entries]
  constructor
  · rintro ⟨kind, held, named⟩
    cases kind with
    | portInput port bit => exact ⟨_, _, held, .portInput port bit, named⟩
    | portOutput port bit => exact ⟨_, _, held, .portOutput port bit, named⟩
    | gate => cases named
    | state family element pin =>
      rw [unnamed] at named
      cases named
  · rintro ⟨kind, kind', held, same, named⟩
    cases same with
    | state family position pin here there =>
      rw [unnamed] at named
      cases named
    | _ => exact ⟨_, held, named⟩

theorem mem_positions_of_terminal {src : Network} {side : Side} {port bit : Nat}
    (present : (src.terminal? (side.kind port bit)).isSome = true) :
    (port, bit) ∈ positions (src.shape.map Prod.snd) := by
  have inside : ∃ p, src.ports[port]? = some p ∧ bit < p.width := by
    obtain ⟨id, named⟩ := Option.isSome_iff_exists.mp present
    cases side with
    | input =>
      obtain ⟨p, held, named⟩ := Option.bind_eq_some_iff.mp named
      exact ⟨p, held, Port.lt_width_of_input named⟩
    | output =>
      obtain ⟨p, held, named⟩ := Option.bind_eq_some_iff.mp named
      split at named
      · next small => exact ⟨p, held, small⟩
      · cases named
  obtain ⟨p, held, small⟩ := inside
  rw [mem_positions]
  refine ⟨p.width, ?_, small⟩
  rw [shape, List.map_map, List.getElem?_map, Array.getElem?_toList, held]
  rfl

/-- The ports and all state elements are copied with their terminals. -/
theorem copyTerminals_spec {src start : Network} (soundSrc : src.Sound) {copies : Copies}
    (blank : src.PortsCopied [] (fun _ => []) copies start) :
    ∃ copies' after, src.copyTerminals copies start = .ok (.done copies' after) ∧
      src.TerminalsCopied copies' after := by
  obtain ⟨copies₁, net₁, made₁, copied₁⟩ := copyPorts_spec soundSrc blank
  obtain ⟨copies₂, net₂, made₂, copied₂⟩ := copyBank_spec soundSrc
    (BankCopied.start copied₁.sound copied₁.size copied₁.entered (copied₁.bare .flipFlop)
      copied₁.ungated copied₁.name)
  -- Copying one family leaves the other, so the latches are still to come.
  have latches : net₂.bank .latch = net₁.bank .latch := copied₂.others .latch (by rintro ⟨⟩)
  obtain ⟨copies₃, net₃, made₃, copied₃⟩ := copyBank_spec soundSrc
    (BankCopied.start copied₂.sound copied₂.size copied₂.entries (by rw [latches, copied₁.bare])
      copied₂.ungated copied₂.name)
  have flipFlops : net₃.bank .flipFlop = net₂.bank .flipFlop :=
    copied₃.others .flipFlop (by rintro ⟨⟩)
  have ports : net₃.ports = net₁.ports := copied₃.ports.trans copied₂.ports
  have named : ∀ side : Side, ∀ port bit,
      net₃.terminal? (side.kind port bit) = net₁.terminal? (side.kind port bit) := by
    intro side port bit
    cases side <;> simp only [Side.kind, terminal?, ports]
  refine ⟨copies₃, net₃, ?_, copied₃.sound, copied₃.size, copied₃.entries, ?_,
    fun side port bit => ?_, fun family => ?_, fun {family} position element other here there => ?_,
    fun side => ?_, copied₃.ungated, copied₃.name⟩
  · rw [copyTerminals, made₁, ok_bind]
    refine (congrArg (· >>= _) made₂).trans ?_
    exact made₃
  · rw [← copied₁.shape, shape, shape, ports]
  · rw [named, copied₁.named]
    exact ⟨And.right, fun present => ⟨mem_positions_of_terminal present, present⟩⟩
  · cases family with
    | flipFlop => rw [flipFlops, copied₂.position, Array.length_toList]
    | latch => rw [copied₃.position, Array.length_toList]
  · cases family with
    | flipFlop =>
      rw [flipFlops] at there
      rw [← copied₂.named here there, element?, element?, flipFlops]
    | latch => exact copied₃.named here there
  · rw [copied₃.listed, copied₂.listed, copied₁.listed, pinTerminals_congr flipFlops,
      portTerminals_congr ports, portTerminals, copied₁.shape]

end Network

end GateNet
