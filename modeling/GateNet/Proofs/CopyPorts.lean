import GateNet.Network.Copy
import GateNet.Proofs.Isomorphism
import GateNet.Proofs.Elements

/-!
# Copying the ports

While ports are copied, the entered copies are exactly the terminals that the target names for the
kinds of the source, and each registry lists them position by position.
-/

namespace GateNet

namespace Network

/-! ## The table of copies -/

def Copies.copy? (copies : Copies) (x : NodeId) : Option NodeId := (copies[x]?).join

theorem Copies.of_eq_ok_iff {copies : Copies} {x y : NodeId} :
    copies.of x = .ok y ↔ copies.copy? x = some y := by
  unfold Copies.of Copies.copy?
  split <;> simp_all

/-- A table with one more copy: `y` is the copy of `x`. -/
structure Copies.Adds (copies after : Copies) (x y : NodeId) : Prop where
  size : after.size = copies.size
  copy?_eq : ∀ z, after.copy? z = if z = x then some y else copies.copy? z

theorem Copies.exists_enter {copies : Copies} {x : NodeId} (small : x < copies.size) (y : NodeId) :
    ∃ after, copies.enter x y = .ok after ∧ copies.Adds after x y := by
  refine ⟨_, storeAt_eq small (some y), Array.size_setIfInBounds, fun z => ?_⟩
  unfold Copies.copy?
  by_cases same : z = x
  · subst same
    rw [Array.getElem?_setIfInBounds_self_of_lt small, if_pos rfl]
    rfl
  · rw [Array.getElem?_setIfInBounds_ne (Ne.symm same), if_neg same]

namespace Copies.Adds

variable {copies after : Copies} {x y : NodeId}

theorem self (adds : copies.Adds after x y) : after.copy? x = some y := by
  rw [adds.copy?_eq, if_pos rfl]

theorem other (adds : copies.Adds after x y) {z : NodeId} (different : z ≠ x) :
    after.copy? z = copies.copy? z := by
  rw [adds.copy?_eq, if_neg different]

theorem kept (adds : copies.Adds after x y) (uncopied : copies.copy? x = none) {z w : NodeId}
    (copy : copies.copy? z = some w) : after.copy? z = some w := by
  have different : z ≠ x := by
    rintro rfl
    rw [uncopied] at copy
    cases copy
  rw [adds.other different, copy]

/-- Copies stay different when the new one is not a copy yet. -/
theorem injective (adds : copies.Adds after x y) (apart : ∀ z, copies.copy? z ≠ some y)
    (injective : ∀ {z z' w}, copies.copy? z = some w → copies.copy? z' = some w → z = z')
    {z z' w : NodeId} (copy : after.copy? z = some w) (copy' : after.copy? z' = some w) :
    z = z' := by
  by_cases here : z = x <;> by_cases here' : z' = x
  · rw [here, here']
  · rw [here, adds.self] at copy
    rw [adds.other here', ← copy] at copy'
    exact absurd copy' (apart z')
  · rw [here', adds.self] at copy'
    rw [adds.other here, ← copy'] at copy
    exact absurd copy (apart z)
  · rw [adds.other here] at copy
    rw [adds.other here'] at copy'
    exact injective copy copy'

end Copies.Adds

/-! ## Positions -/

/-- The bits of ports of some widths, port by port. -/
def positions (widths : List Nat) : List (PortId × Nat) :=
  widths.zipIdx.flatMap fun (width, port) => (List.range width).map (port, ·)

theorem mem_positions {widths : List Nat} {port bit : Nat} :
    (port, bit) ∈ positions widths ↔ ∃ width, widths[port]? = some width ∧ bit < width := by
  simp [positions, List.mem_zipIdx_iff_getElem?]

theorem positions_append (widths : List Nat) (width : Nat) :
    positions (widths ++ [width]) =
      positions widths ++ (List.range width).map (widths.length, ·) := by
  simp [positions, List.zipIdx_append]

def shape (net : Network) : List (String × Nat) :=
  net.ports.toList.map fun p => (p.name, p.width)

end Network

theorem Port.lt_width_of_input {p : Port} {bit : Nat} {id : NodeId}
    (named : p.input bit = some id) : bit < p.width :=
  (Array.getElem?_eq_some_iff.mp (Option.join_eq_some_iff.mp named)).1

namespace Network

/-! ## Adding one terminal -/

/-- What adding a terminal of a port does. -/
structure PortTerminalAdded (net after : Network) (side : Side) (port bit : Nat) (id : NodeId) :
    Prop where
  sound : after.Sound
  terminal : after.terminal? = Function.update net.terminal? (side.kind port bit) (some id)
  shape : after.shape = net.shape
  registry : ∀ other : Side, (after.registry other.registry).toList =
    (net.registry other.registry).toList ++ if other = side then [id] else []
  bank : ∀ family, after.bank family = net.bank family
  gates : after.gates = net.gates
  name : after.name = net.name

namespace PortTerminalAdded

variable {net after : Network} {side : Side} {port bit : Nat} {id : NodeId}

theorem terminal?_self (added : net.PortTerminalAdded after side port bit id) :
    after.terminal? (side.kind port bit) = some id := by
  rw [added.terminal, Function.update_self]

theorem terminal?_of_ne (added : net.PortTerminalAdded after side port bit id) {kind : Kind}
    (other : kind ≠ side.kind port bit) : after.terminal? kind = net.terminal? kind := by
  rw [added.terminal, Function.update_of_ne other]

end PortTerminalAdded

theorem shape_modify {net after : Network} (port : PortId) (change : Port → Port)
    (ports : after.ports = net.ports.modify port change)
    (same : ∀ p, ((change p).name, (change p).width) = (p.name, p.width)) :
    after.shape = net.shape := by
  unfold shape
  rw [ports]
  apply List.ext_getElem?
  intro i
  simp only [List.getElem?_map, Array.getElem?_toList, Array.getElem?_modify]
  split
  · cases net.ports[i]? <;> simp [same]
  · rfl

theorem exists_added {net : Network} (sound : net.Sound) {side : Side} {port bit : Nat}
    {name : String} {width : Nat} (held : net.shape[port]? = some (name, width))
    (small : bit < width) (free : net.terminal? (side.kind port bit) = none) :
    ∃ id after, side.add net port bit = .ok (.done id after) ∧
      net.PortTerminalAdded after side port bit id := by
  rw [Network.shape, List.getElem?_map, Option.map_eq_some_iff] at held
  obtain ⟨p, held, same⟩ := held
  obtain ⟨rfl, rfl⟩ := Prod.mk.inj same
  rw [Array.getElem?_toList] at held
  rw [terminal?_kind held small] at free
  obtain ⟨id, nodes, made, _, sound'⟩ :=
    side.add_spec sound ((side.check_eq_ok_iff sound).mpr ⟨p, held, small, free⟩)
  refine ⟨id, _, made, sound', ?_, ?_, fun other => ?_, side.bank_added net port bit id nodes, ?_, ?_⟩
  · exact side.terminal?_added sound held small id nodes
  · exact shape_modify port (side.set · bit (some id)) rfl fun q => by
      rw [side.name_set, side.width_set]
  · cases side <;> cases other <;> simp [Side.added, Side.kind, Side.registry, register,
      Kind.isInput, Network.registry]
  · cases side <;> rfl
  · cases side <;> rfl

/-! ## Copying the terminals of ports -/

/-- A target while ports of the source are copied: `shown` are the ports that it has, and `done`
the bits whose terminals were copied. -/
structure PortsCopied (src : Network) (shown : List (String × Nat))
    (done : Side → List (PortId × Nat)) (copies : Copies) (net : Network) : Prop where
  sound : net.Sound
  size : copies.size = src.nodes.bound
  entries : ∀ x y, copies.copy? x = some y ↔
    ∃ kind, src.nodes.layout.kind? x = some kind ∧ net.terminal? kind = some y
  shape : net.shape = shown
  named : ∀ side port bit, (net.terminal? (side.kind port bit)).isSome = true ↔
    (port, bit) ∈ done side ∧ (src.terminal? (side.kind port bit)).isSome = true
  listed : ∀ side, (net.registry side.registry).toList =
    (done side).filterMap fun (port, bit) => net.terminal? (side.kind port bit)
  bare : ∀ family, (net.bank family).order = #[]
  ungated : net.gates = #[]
  name : net.name = src.name

namespace PortsCopied

variable {src net : Network} {shown : List (String × Nat)} {done : Side → List (PortId × Nat)}
  {copies : Copies}

theorem skip (copied : src.PortsCopied shown done copies net) {side : Side} {port bit : Nat}
    (absent : src.terminal? (side.kind port bit) = none) :
    src.PortsCopied shown (Function.update done side (done side ++ [(port, bit)])) copies net := by
  have unnamed : net.terminal? (side.kind port bit) = none := by
    rw [← Option.not_isSome_iff_eq_none]
    intro named
    have present := ((copied.named side port bit).mp named).2
    rw [absent] at present
    cases present
  refine ⟨copied.sound, copied.size, copied.entries, copied.shape, fun other port' bit' => ?_,
    fun other => ?_, copied.bare, copied.ungated, copied.name⟩
  · rw [copied.named]
    by_cases same : other = side
    · subst same
      rw [Function.update_self, List.mem_append, List.mem_singleton, Prod.mk.injEq]
      refine ⟨fun ⟨listed, present⟩ => ⟨.inl listed, present⟩, ?_⟩
      rintro ⟨listed | ⟨rfl, rfl⟩, present⟩
      · exact ⟨listed, present⟩
      · rw [absent] at present
        cases present
    · rw [Function.update_of_ne same]
  · rw [copied.listed]
    by_cases same : other = side
    · subst same
      simp [unnamed]
    · rw [Function.update_of_ne same]

theorem entries_added (copied : src.PortsCopied shown done copies net) (soundSrc : src.Sound)
    {side : Side} {port bit : Nat} {old new : NodeId} {after : Network} {copies' : Copies}
    (present : src.terminal? (side.kind port bit) = some old)
    (added : net.PortTerminalAdded after side port bit new) (adds : copies.Adds copies' old new)
    (x y : NodeId) :
    copies'.copy? x = some y ↔
      ∃ kind, src.nodes.layout.kind? x = some kind ∧ after.terminal? kind = some y := by
  have owned := soundSrc.owned.named _ (side.isGate_kind port bit) not_false
  -- Only the old node gets a copy, and only its kind gets a terminal.
  by_cases same : x = old
  · subst same
    rw [adds.self, (owned x).mp present]
    constructor
    · rintro ⟨⟩
      exact ⟨_, rfl, added.terminal?_self⟩
    · rintro ⟨_, ⟨⟩, named⟩
      exact added.terminal?_self.symm.trans named
  · rw [adds.other same, copied.entries]
    refine exists_congr fun other => and_congr_right fun held => ?_
    rw [added.terminal?_of_ne]
    rintro rfl
    exact same (Option.some.inj (present.symm.trans ((owned x).mpr held))).symm

theorem named_added (copied : src.PortsCopied shown done copies net) {side : Side}
    {port bit : Nat} {old new : NodeId} {after : Network}
    (present : src.terminal? (side.kind port bit) = some old)
    (added : net.PortTerminalAdded after side port bit new) (other : Side) (port' bit' : Nat) :
    (after.terminal? (other.kind port' bit')).isSome = true ↔
      (port', bit') ∈ Function.update done side (done side ++ [(port, bit)]) other ∧
        (src.terminal? (other.kind port' bit')).isSome = true := by
  by_cases here : other = side ∧ port' = port ∧ bit' = bit
  · obtain ⟨rfl, rfl, rfl⟩ := here
    rw [added.terminal?_self, present]
    simp
  · rw [added.terminal?_of_ne (fun same => here (Side.kind_inj.mp same)), copied.named]
    refine and_congr_left fun _ => ?_
    by_cases same : other = side
    · subst same
      rw [Function.update_self, List.mem_append, List.mem_singleton, Prod.mk.injEq]
      exact ⟨.inl, fun listed => listed.resolve_right fun last => here ⟨rfl, last⟩⟩
    · rw [Function.update_of_ne same]

theorem listed_added (copied : src.PortsCopied shown done copies net) {side : Side}
    {port bit : Nat} {new : NodeId} {after : Network} (fresh : (port, bit) ∉ done side)
    (added : net.PortTerminalAdded after side port bit new) (other : Side) :
    (after.registry other.registry).toList =
      (Function.update done side (done side ++ [(port, bit)]) other).filterMap
        fun (port, bit) => after.terminal? (other.kind port bit) := by
  rw [added.registry, copied.listed]
  -- The new terminal is at none of the bits that were done before.
  have same : ((done other).filterMap fun (port, bit) => net.terminal? (other.kind port bit)) =
      (done other).filterMap fun (port, bit) => after.terminal? (other.kind port bit) := by
    refine List.filterMap_congr fun ⟨port', bit'⟩ here =>
      (added.terminal?_of_ne fun same => ?_).symm
    obtain ⟨rfl, rfl, rfl⟩ := Side.kind_inj.mp same
    exact fresh here
  rw [same]
  by_cases here : other = side
  · subst here
    simp [added.terminal?_self]
  · rw [if_neg here, Function.update_of_ne here, List.append_nil]

/-- A bit with a terminal in the source gets one, which is entered as its copy. -/
theorem enter (copied : src.PortsCopied shown done copies net) (soundSrc : src.Sound) {side : Side}
    {port bit : Nat} {old new : NodeId} {after : Network}
    (present : src.terminal? (side.kind port bit) = some old) (fresh : (port, bit) ∉ done side)
    (added : net.PortTerminalAdded after side port bit new) :
    ∃ copies', copies.enter old new = .ok copies' ∧
      src.PortsCopied shown (Function.update done side (done side ++ [(port, bit)])) copies'
        after := by
  have small : old < copies.size := by
    have kind := (soundSrc.owned.named _ (side.isGate_kind port bit) not_false old).mp present
    obtain ⟨n, held, _⟩ := Layout.kind?_eq_some_iff.mp kind
    rw [copied.size]
    exact soundSrc.lt_bound held
  obtain ⟨copies', entered, adds⟩ := Copies.exists_enter small new
  exact ⟨copies', entered, added.sound, adds.size.trans copied.size,
    copied.entries_added soundSrc present added adds, added.shape.trans copied.shape,
    copied.named_added present added, copied.listed_added fresh added,
    fun family => by rw [added.bank, copied.bare], added.gates.trans copied.ungated,
    added.name.trans copied.name⟩

theorem copySide (copied : src.PortsCopied shown done copies net) (soundSrc : src.Sound)
    {side : Side} {source : Port} {port bit : Nat} {name : String} {width : Nat}
    (held : shown[port]? = some (name, width)) (small : bit < width)
    (terminal : src.terminal? (side.kind port bit) = side.terminal source bit)
    (fresh : (port, bit) ∉ done side) :
    ∃ copies' after, side.copy source port bit copies net = .ok (.done copies' after) ∧
      src.PortsCopied shown (Function.update done side (done side ++ [(port, bit)])) copies'
        after := by
  rw [Side.copy_eq]
  cases named : side.terminal source bit with
  | none => exact ⟨copies, net, rfl, copied.skip (terminal.trans named)⟩
  | some id =>
    have free : net.terminal? (side.kind port bit) = none := by
      rw [← Option.not_isSome_iff_eq_none]
      exact fun there => fresh ((copied.named side port bit).mp there).1
    rw [← copied.shape] at held
    obtain ⟨new, after, made, added⟩ := exists_added copied.sound held small free
    obtain ⟨copies', entered, copied'⟩ :=
      copied.enter soundSrc (terminal.trans named) fresh added
    refine ⟨copies', after, ?_, copied'⟩
    simp only [made, ok_bind]
    exact congrArg (· >>= _) entered

theorem copyBit {before : List (PortId × Nat)}
    (copied : src.PortsCopied shown (fun _ => before) copies net) (soundSrc : src.Sound)
    {port bit : Nat} {p : Port} (heldSrc : src.ports[port]? = some p) (small : bit < p.width)
    (held : shown[port]? = some (p.name, p.width)) (fresh : (port, bit) ∉ before) :
    ∃ copies' after, Network.copyBit p port copies bit net = .ok (.done copies' after) ∧
      src.PortsCopied shown (fun _ => before ++ [(port, bit)]) copies' after := by
  have named := terminal?_kind heldSrc small
  obtain ⟨copies₁, middle, first, copied₁⟩ :=
    copied.copySide soundSrc held small (named .input) fresh
  obtain ⟨copies₂, after, second, copied₂⟩ :=
    copied₁.copySide soundSrc held small (named .output)
      (by rwa [Function.update_of_ne (by rintro ⟨⟩)])
  have both : Function.update (Function.update (fun _ : Side => before) .input
      (before ++ [(port, bit)])) .output (before ++ [(port, bit)]) =
      fun _ => before ++ [(port, bit)] := by
    funext side
    cases side <;> rfl
  rw [Function.update_of_ne (by rintro ⟨⟩), both] at copied₂
  refine ⟨copies₂, after, ?_, copied₂⟩
  refine (congrArg (· >>= _) first).trans ?_
  rw [ok_bind]
  exact second

theorem addPort (copied : src.PortsCopied shown done copies net) (name : String) (width : Nat) :
    src.PortsCopied (shown ++ [(name, width)]) done copies (net.addPort name width).2 where
  sound := copied.sound.addPort name width
  size := copied.size
  entries := by
    rw [terminal?_addPort]
    exact copied.entries
  shape := by
    rw [← copied.shape]
    simp [Network.shape, Network.addPort, Port.blank, Port.width]
  named := by
    rw [terminal?_addPort]
    exact copied.named
  listed side := by
    rw [terminal?_addPort]
    cases side
    · exact copied.listed .input
    · exact copied.listed .output
  bare family := by
    cases family
    · exact copied.bare .flipFlop
    · exact copied.bare .latch
  ungated := copied.ungated
  name := copied.name

end PortsCopied

theorem range_split {count i : Nat} {before after : List Nat}
    (split : List.range count = before ++ i :: after) : i = before.length ∧ i < count := by
  have here : (List.range count)[before.length]? = some i := by
    rw [split, List.getElem?_append_right (Nat.le_refl _), Nat.sub_self]
    rfl
  obtain ⟨small, same⟩ := List.getElem?_eq_some_iff.mp here
  rw [List.getElem_range] at same
  rw [List.length_range] at small
  exact ⟨same.symm, same ▸ small⟩

theorem PortsCopied.copyPort {src net : Network} {shown : List (String × Nat)} {copies : Copies}
    (copied : src.PortsCopied shown (fun _ => positions (shown.map Prod.snd)) copies net)
    (soundSrc : src.Sound) {p : Port} (held : src.ports[shown.length]? = some p) :
    ∃ copies' after, Network.copyPort copies p net = .ok (.done copies' after) ∧
      src.PortsCopied (shown ++ [(p.name, p.width)])
        (fun _ => positions ((shown ++ [(p.name, p.width)]).map Prod.snd)) copies' after := by
  have number : (net.addPort p.name p.width).1 = shown.length := by
    show net.ports.size = _
    rw [← copied.shape, Network.shape, List.length_map, Array.length_toList]
  obtain ⟨copies', after, folded, copied'⟩ := Outcome.fold_spec (Network.copyBit p shown.length)
    (List.range p.width) copies (net.addPort p.name p.width).2
    (fun before copies net => src.PortsCopied (shown ++ [(p.name, p.width)])
      (fun _ => positions (shown.map Prod.snd) ++
        (List.range before.length).map (shown.length, ·)) copies net)
    (by simpa using copied.addPort p.name p.width) <| by
      rintro before bit rest copies net split copied
      obtain ⟨rfl, small⟩ := range_split split
      obtain ⟨copies', after, made, copied'⟩ := copied.copyBit soundSrc held small (by simp) (by
        rw [List.mem_append, mem_positions]
        rintro (⟨width, here, _⟩ | listed)
        · rw [List.getElem?_eq_none (by simp)] at here
          cases here
        · simp at listed)
      refine ⟨copies', after, made, ?_⟩
      rw [List.length_append, List.length_singleton, List.range_succ, List.map_append,
        ← List.append_assoc]
      exact copied'
  refine ⟨copies', after, ?_, ?_⟩
  · rw [← number] at folded
    exact folded
  · rw [List.map_append, List.map_singleton, positions_append, List.length_map]
    simpa using copied'

/-- All ports are copied with their terminals. -/
theorem copyPorts_spec {src start : Network} (soundSrc : src.Sound) {copies : Copies}
    (blank : src.PortsCopied [] (fun _ => []) copies start) :
    ∃ copies' after, Outcome.fold copyPort src.ports.toList copies start =
        .ok (.done copies' after) ∧
      src.PortsCopied src.shape (fun _ => positions (src.shape.map Prod.snd)) copies' after := by
  refine Outcome.fold_spec copyPort src.ports.toList copies start (fun before copies net =>
    src.PortsCopied (before.map fun p => (p.name, p.width))
      (fun _ => positions ((before.map fun p => (p.name, p.width)).map Prod.snd)) copies net)
    blank ?_
  rintro before p rest copies net split copied
  obtain ⟨copies', after, made, copied'⟩ := copied.copyPort soundSrc (p := p) (by
    rw [← Array.getElem?_toList, split]
    simp)
  refine ⟨copies', after, made, ?_⟩
  rw [List.map_append, List.map_singleton]
  exact copied'

end Network

end GateNet
