import GateNet.Patch
import GateNet.Proofs.Copy
import GateNet.Proofs.Owners

/-!
# Copies of networks that pass the audit

A network that passes the audit can be copied once its owners name all its live terminals.  Little
else is known of the owners: one that carries the number of another may name a terminal of the other
as well.  Such a terminal is copied twice, and the later copy stands for it.  So the entered copies
need not be all terminals of the target, but each is a terminal of its own, of the right sort, and
that is all that the gates and the readings need.
-/

namespace GateNet

namespace Network

variable {src net after : Network} {done : NodeId → Prop} {copies : Copies}

/-! ## Seats -/

namespace Seated

theorem weaken {less : NodeId → Prop} (seated : src.Seated done copies net)
    (inside : ∀ {x}, less x → done x) : src.Seated less copies net :=
  { seated with covers := fun here => seated.covers (inside here) }

/-- One more item of a list is handled. -/
theorem extend {α : Type} {R : α → NodeId → Prop} {before : List α} {item : α}
    (seated : src.Seated (fun x => (done x ∨ ∃ a ∈ before, R a x) ∨ R item x) copies net) :
    src.Seated (fun x => done x ∨ ∃ a ∈ before ++ [item], R a x) copies net := by
  refine seated.weaken ?_
  rintro x (earlier | ⟨a, listed, here⟩)
  · exact .inl (.inl earlier)
  · rcases List.mem_append.mp listed with listed | last
    · exact .inl (.inr ⟨a, listed, here⟩)
    · exact .inr (List.mem_singleton.mp last ▸ here)

/-- A list of owners is copied when each of them can be copied. -/
theorem fold {α : Type} {R : α → NodeId → Prop}
    {step : Copies → α → Network → Except Fault (Outcome Copies)} {items : List α}
    (steps : ∀ item ∈ items, ∀ {done copies net}, src.Seated done copies net →
      ∃ copies' after, step copies item net = .ok (.done copies' after) ∧
        src.Seated (fun x => done x ∨ R item x) copies' after)
    (seated : src.Seated done copies net) :
    ∃ copies' after, Outcome.fold step items copies net = .ok (.done copies' after) ∧
      src.Seated (fun x => done x ∨ ∃ item ∈ items, R item x) copies' after :=
  Outcome.fold_spec step items copies net
    (fun before copies net => src.Seated (fun x => done x ∨ ∃ item ∈ before, R item x) copies net)
    (seated.weaken (by simp)) <| by
      intro before item rest copies net split seated
      obtain ⟨copies', after, made, seated'⟩ := steps item (by simp [split]) seated
      exact ⟨copies', after, made, seated'.extend⟩

/-- Copies stay terminals when the target grows. -/
theorem grow (seated : src.Seated done copies net) (sound : after.Sound)
    (gates : after.gates = net.gates)
    (kept : ∀ {y kind}, kind.isGate = false → net.nodes.layout.kind? y = some kind →
      after.nodes.layout.kind? y = some kind) : src.Seated done copies after where
  sound := sound
  size := seated.size
  ungated := gates.trans seated.ungated
  sorts copy := by
    obtain ⟨kind, kind', terminal, here, there, same⟩ := seated.sorts copy
    exact ⟨kind, kind', terminal, here, kept ((same .gates).trans terminal) there, same⟩
  injective := seated.injective
  covers := seated.covers

/-- What is no terminal of the target is not a copy. -/
theorem apart (seated : src.Seated done copies net) {new : NodeId}
    (fresh : ∀ kind, kind.isGate = false → net.nodes.layout.kind? new ≠ some kind) (x : NodeId) :
    copies.copy? x ≠ some new := by
  intro copy
  obtain ⟨kind, kind', terminal, _, there, same⟩ := seated.sorts copy
  exact fresh kind' ((same .gates).trans terminal) there

/-- A terminal that is not a copy yet may be entered as the copy of a node of its sort, also of one
that has a copy already. -/
theorem enter (seated : src.Seated done copies net) (store : src.nodes.Sound) {old new : NodeId}
    {kind kind' : Kind} (terminal : kind.isGate = false)
    (here : src.nodes.layout.kind? old = some kind)
    (there : net.nodes.layout.kind? new = some kind')
    (same : ∀ r : Registry, r.admits kind' = r.admits kind)
    (apart : ∀ x, copies.copy? x ≠ some new) :
    ∃ copies', copies.enter old new = .ok copies' ∧ copies.Adds copies' old new ∧
      src.Seated (fun x => done x ∨ x = old) copies' net := by
  have small : old < copies.size := by
    obtain ⟨n, held, _⟩ := Layout.exists_get?_of_kind? here
    rw [seated.size]
    exact Store.lt_bound store held
  obtain ⟨copies', entered, adds⟩ := Copies.exists_enter small new
  refine ⟨copies', entered, adds, seated.sound, adds.size.trans seated.size, seated.ungated,
    fun {x y} copy => ?_, adds.injective apart seated.injective, fun {x} covered => ?_⟩
  · by_cases renewed : x = old
    · subst renewed
      obtain rfl := Option.some.inj (adds.self.symm.trans copy)
      exact ⟨kind, kind', terminal, here, there, same⟩
    · rw [adds.other renewed] at copy
      exact seated.sorts copy
  · by_cases renewed : x = old
    · exact ⟨new, renewed ▸ adds.self⟩
    · rw [adds.other renewed]
      exact seated.covers (covered.resolve_right renewed)

end Seated

/-- A cleared network has no seats. -/
theorem seated_clear (sound : net.Sound) (src : Network) :
    src.Seated (fun _ => False) (Array.replicate src.nodes.bound none)
      (net.clear.rename src.name) := by
  have uncopied : ∀ x y, Copies.copy? (Array.replicate src.nodes.bound none) x ≠ some y := by
    intro x y copy
    rw [Copies.copy?, Array.getElem?_replicate] at copy
    split at copy <;> cases copy
  exact ⟨(sound_clear sound).rename src.name, Array.size_replicate, rfl,
    fun copy => absurd copy (uncopied _ _), fun copy => absurd copy (uncopied _ _), False.elim⟩

/-! ## The terminals of ports -/

namespace PortTerminalAdded

variable {side : Side} {port bit : Nat} {id : NodeId}

theorem kept (added : net.PortTerminalAdded after side port bit id) (sound : net.Sound)
    (free : net.terminal? (side.kind port bit) = none) {y : NodeId} {kind : Kind}
    (terminal : kind.isGate = false) (held : net.nodes.layout.kind? y = some kind) :
    after.nodes.layout.kind? y = some kind := by
  have named := (sound.owned.named kind terminal not_false y).mpr held
  rw [← added.sound.owned.named kind terminal not_false, added.terminal?_of_ne, named]
  rintro rfl
  rw [free] at named
  cases named

theorem placed (added : net.PortTerminalAdded after side port bit id) :
    after.nodes.layout.kind? id = some (side.kind port bit) :=
  (added.sound.owned.named _ (side.isGate_kind port bit) not_false id).mp added.terminal?_self

theorem fresh (added : net.PortTerminalAdded after side port bit id) (sound : net.Sound)
    (free : net.terminal? (side.kind port bit) = none) (kind : Kind)
    (terminal : kind.isGate = false) : net.nodes.layout.kind? id ≠ some kind := by
  intro held
  obtain rfl := Option.some.inj ((added.kept sound free terminal held).symm.trans added.placed)
  have named := (sound.owned.named _ terminal not_false id).mpr held
  rw [free] at named
  cases named

end PortTerminalAdded

theorem admits_kind (side : Side) (port bit number : Nat) (r : Registry) :
    r.admits (side.kind port bit) = r.admits (side.kind number bit) := by
  cases side <;> cases r <;> rfl

namespace Seated

/-- A bit of a port is copied to a free bit of another port, whatever number the first one
carries. -/
theorem copySide (seated : src.Seated done copies net) (store : src.nodes.Sound) (side : Side)
    {p : Port} {port bit : Nat} (shape : net.shape[port]? = some (p.name, p.width))
    (small : bit < p.width) (free : net.terminal? (side.kind port bit) = none)
    (held : ∀ x, side.terminal p bit = some x →
      ∃ number, src.nodes.layout.kind? x = some (side.kind number bit)) :
    ∃ copies' after, side.copy p port bit copies net = .ok (.done copies' after) ∧
      src.Seated (fun x => done x ∨ side.terminal p bit = some x) copies' after ∧
      after.shape = net.shape ∧
      ∀ kind, kind ≠ side.kind port bit → after.terminal? kind = net.terminal? kind := by
  rw [Side.copy_eq]
  cases named : side.terminal p bit with
  | none => exact ⟨copies, net, rfl, seated.weaken (by simp), rfl, fun _ _ => rfl⟩
  | some old =>
    obtain ⟨number, here⟩ := held old named
    obtain ⟨new, after, made, added⟩ := exists_added seated.sound shape small free
    have grown := seated.grow added.sound added.gates (added.kept seated.sound free)
    obtain ⟨copies', entered, _, seated'⟩ := grown.enter store (side.isGate_kind number bit) here
      added.placed (admits_kind side port bit number)
      (seated.apart (added.fresh seated.sound free))
    refine ⟨copies', after, ?_, seated'.weaken (by simp [eq_comm]), added.shape,
      fun _ => added.terminal?_of_ne⟩
    simp only [made, ok_bind]
    exact congrArg (· >>= _) entered

theorem copyBit (seated : src.Seated done copies net) (store : src.nodes.Sound) {p : Port}
    {port bit : Nat} (shape : net.shape[port]? = some (p.name, p.width)) (small : bit < p.width)
    (free : ∀ side : Side, net.terminal? (side.kind port bit) = none)
    (held : ∀ (side : Side) x, side.terminal p bit = some x →
      ∃ number, src.nodes.layout.kind? x = some (side.kind number bit)) :
    ∃ copies' after, Network.copyBit p port copies bit net = .ok (.done copies' after) ∧
      src.Seated (fun x => done x ∨ ∃ side : Side, side.terminal p bit = some x) copies' after ∧
      after.shape = net.shape ∧
      ∀ kind, (∀ side : Side, kind ≠ side.kind port bit) →
        after.terminal? kind = net.terminal? kind := by
  obtain ⟨copies₁, middle, first, seated₁, shape₁, kept₁⟩ :=
    seated.copySide store .input shape small (free .input) (held .input)
  have free' : middle.terminal? (Side.output.kind port bit) = none := by
    rw [kept₁ _ (by rintro ⟨⟩), free]
  obtain ⟨copies₂, after, second, seated₂, shape₂, kept₂⟩ :=
    seated₁.copySide store .output (by rw [shape₁, shape]) small free' (held .output)
  refine ⟨copies₂, after, ?_, seated₂.weaken ?_, shape₂.trans shape₁, fun kind other => ?_⟩
  · refine (congrArg (· >>= _) first).trans ?_
    rw [ok_bind]
    exact second
  · rintro x (earlier | ⟨_ | _, named⟩)
    · exact .inl (.inl earlier)
    · exact .inl (.inr named)
    · exact .inr named
  · rw [kept₂ kind (other .output), kept₁ kind (other .input)]

/-- A port is copied to a new one. -/
theorem copyPort (seated : src.Seated done copies net) (store : src.nodes.Sound) {p : Port}
    (held : ∀ (side : Side), ∀ bit < p.width, ∀ x, side.terminal p bit = some x →
      ∃ number, src.nodes.layout.kind? x = some (side.kind number bit)) :
    ∃ copies' after, Network.copyPort copies p net = .ok (.done copies' after) ∧
      src.Seated (fun x => done x ∨ ∃ bit < p.width, ∃ side : Side, side.terminal p bit = some x)
        copies' after := by
  -- The new port is behind all others, and none of its bits has a terminal.
  have blank : (net.addPort p.name p.width).2.shape = net.shape ++ [(p.name, p.width)] := by
    simp [Network.shape, Network.addPort, Port.blank, Port.width]
  have free : ∀ (side : Side) bit,
      (net.addPort p.name p.width).2.terminal? (side.kind net.ports.size bit) = none := by
    intro side bit
    rw [terminal?_addPort]
    cases side <;> simp [Side.kind, terminal?]
  have grown : src.Seated done copies (net.addPort p.name p.width).2 :=
    seated.grow (seated.sound.addPort p.name p.width) rfl fun _ held => held
  obtain ⟨copies', after, made, seated', _⟩ := Outcome.fold_spec
    (Network.copyBit p net.ports.size) (List.range p.width) copies
    (net.addPort p.name p.width).2
    (fun before copies state => src.Seated (fun x => done x ∨ ∃ bit ∈ before, ∃ side : Side,
        side.terminal p bit = some x) copies state ∧
      state.shape = net.shape ++ [(p.name, p.width)] ∧
      ∀ (side : Side) bit, before.length ≤ bit →
        state.terminal? (side.kind net.ports.size bit) = none)
    ⟨grown.weaken (by simp), blank, fun side bit _ => free side bit⟩ <| by
      rintro before bit rest copies state split ⟨seated, shape, free⟩
      obtain ⟨rfl, small⟩ := range_split split
      have place : state.shape[net.ports.size]? = some (p.name, p.width) := by
        rw [shape, List.getElem?_append_right] <;> simp [Network.shape]
      obtain ⟨copies', after, made, seated', shape', kept⟩ := seated.copyBit store place small
        (fun side => free side _ (Nat.le_refl _)) fun side => held side _ small
      refine ⟨copies', after, made, seated'.extend, shape'.trans shape, fun side bit later => ?_⟩
      rw [List.length_append, List.length_singleton] at later
      rw [kept, free side bit (by omega)]
      intro other same
      obtain ⟨_, _, same⟩ := Side.kind_inj.mp same
      omega
  exact ⟨copies', after, made, seated'.weaken (by simp)⟩

end Seated

/-! ## The terminals of elements -/

/-- An element is copied when its terminals are live terminals of the right pins, whatever number
the element carries. -/
theorem Seated.copyElement (seated : src.Seated done copies net) (store : src.nodes.Sound)
    {family : Family} {element number : ElementId} {e : Element}
    (found : (src.bank family).elements.get? element = some e)
    (held : ∀ pin, src.nodes.layout.kind? (e.terminal pin) = some (.state family number pin)) :
    ∃ copies' after, Network.copyElement src family copies element net =
        .ok (.done copies' after) ∧
      src.Seated (fun x => done x ∨ ∃ pin, x = e.terminal pin) copies' after := by
  obtain ⟨id, t, after, made, sound, added⟩ := addElement_spec seated.sound family e.name
  have placed : ∀ pin, after.nodes.layout.kind? (t pin) = some (.state family id pin) :=
    fun pin => Layout.kind?_of_node (added.placed pin)
  have grown : src.Seated done copies after := seated.grow sound added.rest.2.2.1 fun _ held => by
    obtain ⟨n, live, rfl⟩ := Layout.kind?_eq_some_iff.mp held
    exact Layout.kind?_of_node (added.kept live)
  -- By induction on the pins: the terminals of the later ones are not copies yet.
  obtain ⟨copies', entered, seated', _⟩ := foldlM_spec
    (fun (copies : Copies) (pin : Pin) => copies.enter (e.terminal pin) (t pin)) Pin.all copies
    (fun before copies => src.Seated (fun x => done x ∨ ∃ pin ∈ before, x = e.terminal pin) copies
        after ∧ ∀ pin ∉ before, ∀ x, copies.copy? x ≠ some (t pin))
    ⟨grown.weaken (by simp), fun pin _ => seated.apart fun kind _ => by
      simp [Layout.kind?, added.free]⟩ <| by
      rintro before pin rest copies split ⟨seated, apart⟩
      have new : pin ∉ before := not_mem_before (by decide) split
      obtain ⟨copies', entered, adds, seated'⟩ :=
        seated.enter store rfl (held pin) (placed pin) (fun r => by cases r <;> cases pin <;> rfl)
          (apart pin new)
      refine ⟨copies', entered, seated'.extend, fun later unlisted x copy => ?_⟩
      rw [List.mem_append, List.mem_singleton, not_or] at unlisted
      rw [adds.copy?_eq] at copy
      split at copy
      · have same := placed pin
        rw [Option.some.inj copy, placed later] at same
        cases same
        exact unlisted.2 rfl
      · exact apart later unlisted.1 x copy
  refine ⟨copies', after, added.copyElement_eq found made ?_, seated'.weaken ?_⟩
  · exact (List.foldlM_map ..).trans entered
  · simp [Pin.mem_all]

/-! ## Copies of networks that pass the audit -/

namespace Checked

/-- A source that passes the audit has all that its gates and readings need. -/
theorem legible (checked : src.Checked) (nodes : src.nodes.Sound) : src.Legible where
  store := nodes
  layout := checked.layout
  outputs o listed := by
    obtain ⟨_, entries⟩ := auditRegistry_eq_ok_iff.mp (checked.registries .outputs)
    obtain ⟨n, held, output⟩ := entries o listed
    exact ⟨n.core, Store.layout_of_get? held, output⟩

theorem kind?_of_side (checked : src.Checked) {p : Port} (listed : p ∈ src.ports) {side : Side}
    {bit : Nat} (small : bit < p.width) {x : NodeId} (named : side.terminal p bit = some x) :
    src.nodes.layout.kind? x = some (side.kind p.id bit) := by
  obtain ⟨n, held, same⟩ := checked.kind_of_side listed small named
  exact (Layout.kind?_of_get? held).trans (congrArg some same)

theorem copyBank (checked : src.Checked) (nodes : src.nodes.Sound) (family : Family)
    (banks : ∀ family, (src.bank family).Listed) (seated : src.Seated done copies net) :
    ∃ copies' after,
      Outcome.fold (copyElement src family) (src.bank family).order.toList copies net =
        .ok (.done copies' after) ∧
      src.Seated (fun x => done x ∨
        ∃ element pin, src.terminal? (.state family element pin) = some x) copies' after := by
  have steps : ∀ element ∈ (src.bank family).order.toList, ∀ {done copies net},
      src.Seated done copies net → ∃ copies' after,
        copyElement src family copies element net = .ok (.done copies' after) ∧
        src.Seated (fun x => done x ∨ ∃ pin, src.terminal? (.state family element pin) = some x)
          copies' after := by
    intro element listed done copies net seated
    rw [Array.mem_toList_iff] at listed
    obtain ⟨e, found⟩ := ((banks family).exact element).mp listed
    have held : ∀ pin, src.nodes.layout.kind? (e.terminal pin) =
        some (.state family e.id pin) := by
      intro pin
      obtain ⟨n, held, same⟩ := checked.kind_of_pin listed found pin
      exact same ▸ Layout.kind?_of_get? held
    obtain ⟨copies', after, made, seated'⟩ := seated.copyElement nodes found held
    refine ⟨copies', after, made, seated'.weaken ?_⟩
    rintro x (earlier | ⟨pin, named⟩)
    · exact .inl earlier
    · obtain ⟨e', found', same⟩ := Option.map_eq_some_iff.mp named
      obtain rfl := Option.some.inj (found.symm.trans found')
      exact .inr ⟨pin, same.symm⟩
  obtain ⟨copies', after, made, seated'⟩ := seated.fold steps
  refine ⟨copies', after, made, seated'.weaken ?_⟩
  rintro x (earlier | ⟨element, pin, named⟩)
  · exact .inl earlier
  · obtain ⟨e, found, _⟩ := Option.map_eq_some_iff.mp named
    have listed := ((banks family).exact element).mpr ⟨e, found⟩
    exact .inr ⟨element, Array.mem_toList_iff.mpr listed, pin, named⟩

theorem copyPorts (checked : src.Checked) (nodes : src.nodes.Sound)
    (seated : src.Seated done copies net) :
    ∃ copies' after, Outcome.fold copyPort src.ports.toList copies net = .ok (.done copies' after) ∧
      src.Seated (fun x => done x ∨
        ∃ (side : Side) (port : PortId) (bit : Nat), src.terminal? (side.kind port bit) = some x)
        copies' after := by
  have steps : ∀ p ∈ src.ports.toList, ∀ {done copies net}, src.Seated done copies net →
      ∃ copies' after, copyPort copies p net = .ok (.done copies' after) ∧
        src.Seated (fun x => done x ∨ ∃ bit < p.width, ∃ side : Side, side.terminal p bit = some x)
          copies' after := by
    intro p listed done copies net seated
    rw [Array.mem_toList_iff] at listed
    exact seated.copyPort nodes fun side bit small x named =>
      ⟨p.id, checked.kind?_of_side listed small named⟩
  obtain ⟨copies', after, made, seated'⟩ := seated.fold steps
  refine ⟨copies', after, made, seated'.weaken ?_⟩
  rintro x (earlier | ⟨side, port, bit, named⟩)
  · exact .inl earlier
  · obtain ⟨width, here, small⟩ :=
      mem_positions.mp (mem_positions_of_terminal (Option.isSome_iff_exists.mpr ⟨x, named⟩))
    rw [Network.shape, List.map_map, List.getElem?_map, Option.map_eq_some_iff] at here
    obtain ⟨p, held, rfl⟩ := here
    rw [Array.getElem?_toList] at held
    rw [terminal?_kind held small] at named
    exact .inr ⟨p, Array.mem_toList_iff.mpr (Array.mem_of_getElem? held), bit, small, side, named⟩

/-- Copying the owners gives every terminal that they name a seat. -/
theorem copyTerminals (checked : src.Checked) (nodes : src.nodes.Sound)
    (banks : ∀ family, (src.bank family).Listed) (recorded : src.Recorded)
    (seated : src.Seated (fun _ => False) copies net) :
    ∃ copies' after, src.copyTerminals copies net = .ok (.done copies' after) ∧
      src.Seated src.IsTerminal copies' after := by
  obtain ⟨copies₁, net₁, made₁, seated₁⟩ := checked.copyPorts nodes seated
  obtain ⟨copies₂, net₂, made₂, seated₂⟩ := checked.copyBank nodes .flipFlop banks seated₁
  obtain ⟨copies₃, net₃, made₃, seated₃⟩ := checked.copyBank nodes .latch banks seated₂
  refine ⟨copies₃, net₃, ?_, seated₃.weaken ?_⟩
  · rw [Network.copyTerminals, made₁, ok_bind]
    refine (congrArg (· >>= _) made₂).trans ?_
    exact made₃
  · rintro x ⟨kind, held, terminal⟩
    obtain ⟨n, found, rfl⟩ := Layout.exists_get?_of_kind? held
    have named := recorded x n found terminal
    cases place : n.kind with
    | gate =>
      rw [place] at terminal
      cases terminal
    | portInput port bit =>
      rw [place] at named
      exact .inl (.inl (.inr ⟨.input, port, bit, named⟩))
    | portOutput port bit =>
      rw [place] at named
      exact .inl (.inl (.inr ⟨.output, port, bit, named⟩))
    | state family element pin =>
      rw [place] at named
      cases family with
      | flipFlop => exact .inl (.inr ⟨element, pin, named⟩)
      | latch => exact .inr ⟨element, pin, named⟩

theorem duplicate (checked : src.Checked) (nodes : src.nodes.Sound)
    (banks : ∀ family, (src.bank family).Listed) (recorded : src.Recorded) :
    ∃ copy, src.duplicate = .ok copy ∧ copy.Sound := by
  obtain ⟨base, first, made, seated⟩ := checked.copyTerminals nodes banks recorded
    (seated_clear (sound_withBuckets src.buckets) src)
  obtain ⟨order, orderEq, ordered⟩ := checked.driversFirst
  obtain ⟨_, _, copy, copied, _, readings⟩ :=
    overwrite_of_seated made seated (checked.legible nodes) orderEq ordered
  refine ⟨copy, ?_, readings.sound⟩
  rw [Network.duplicate, copied]
  rfl

end Checked

/-- What a passed audit says about the owners, whatever the state.  What they name is live and of
the kind that they write down.  That they name all live terminals can be told by counting, which the
audit does not do; then the network can be copied, and the copy passes the audit. -/
theorem owned_of_audit (accepted : net.audit = .ok ()) (nodes : net.nodes.Sound)
    (stores : ∀ family, (net.bank family).elements.Sound)
    (orders : ∀ family, (net.bank family).order.toList.Nodup) :
    (∀ kind id, net.terminal? kind = some id →
      ∃ n, net.node? id = some n ∧ n.kind = net.written kind) ∧
    (net.Recorded ↔
      ∀ side : Side, (net.terminals side).length = (net.registry side.registry).size) ∧
    (net.Recorded → ∃ copy, net.duplicate = .ok copy ∧ copy.audit = .ok ()) := by
  have checked := audit_eq_ok_iff.mp accepted
  have banks : ∀ family, (net.bank family).Listed := fun family =>
    checked.listed (stores family) (orders family)
  refine ⟨fun _ _ named => checked.kind_of_terminal? banks named, checked.recorded_iff banks,
    fun recorded => ?_⟩
  obtain ⟨copy, made, sound⟩ := checked.duplicate nodes banks recorded
  exact ⟨copy, made, sound.audit⟩

/-- A network whose second port takes itself for the first one, and names its input as well. -/
def aliased (net : Network) : Network :=
  { net with ports := net.ports.modify 1 fun p => { p with id := 0, inputs := #[some 0] } }

/-- It passes the audit and can be copied, since the input is the one that the first port records;
in the copy, either port has an input of its own. -/
theorem owned_of_audit_aliased :
    ∃ net, (withBuckets 0).runAll [.addPort "p" 1, .addInput 0 0, .addPort "q" 1] = .ok net ∧
      net.aliased.audit = .ok () ∧ net.aliased.Recorded ∧
      ∃ copy, net.aliased.duplicate = .ok copy ∧ copy.audit = .ok () ∧
        net.aliased.inputs.size = 1 ∧ copy.inputs.size = 2 := by
  refine exists_runAll (fun net => (net.aliased.audit.toOption,
      [(net.aliased.terminals .input).length, net.inputs.size],
      [(net.aliased.terminals .output).length, net.outputs.size],
      net.aliased.duplicate.toOption.map fun copy => copy.inputs.size))
    (some (), [1, 1], [0, 0], some 2) (by simp) (by decide +kernel) ?_
  intro net reached evaluated
  simp only [Prod.mk.injEq, List.cons.injEq, and_true] at evaluated
  obtain ⟨passed, ⟨inputs, inputCount⟩, ⟨outputs, outputCount⟩, copied⟩ := evaluated
  have accepted := toOption_eq_some_iff.mp passed
  have banks : ∀ family, (net.aliased.bank family).Sound := by
    intro family
    have bank := reached.sound.banks family
    cases family <;> exact bank
  obtain ⟨_, recorded_iff, copies⟩ := owned_of_audit accepted reached.sound.woven.store
    (fun family => (banks family).store) fun family => (banks family).nodup
  have recorded : net.aliased.Recorded := recorded_iff.mpr fun side => by
    cases side with
    | input => exact inputs.trans inputCount.symm
    | output => exact outputs.trans outputCount.symm
  obtain ⟨copy, made, passed⟩ := copies recorded
  rw [made] at copied
  exact ⟨accepted, recorded, copy, made, passed, inputCount, Option.some.inj copied⟩

/-- A network whose port forgot its terminal passes the audit, but it cannot be copied. -/
theorem audit_overlooks_unnamed :
    ∃ net damaged, (withBuckets 0).runAll [.addPort "y" 1, .addOutput 0 0] = .ok net ∧
      net.patch (.output 0 0 none) = .ok (none, damaged) ∧ damaged.audit = .ok () ∧
      ¬ damaged.Recorded ∧
      damaged.duplicate = .error (.refused (.defective (.notCopied 0))) := by
  have checked : (((withBuckets 0).runAll [.addPort "y" 1, .addOutput 0 0]).toOption.bind fun net =>
      (net.patch (.output 0 0 none)).toOption.map fun (signal, damaged) =>
        (signal, damaged.audit.toOption, (damaged.node? 0).map Node.kind,
          damaged.terminal? (.portOutput 0 0), decide (damaged.duplicate =
            .error (.refused (.defective (.notCopied 0)))))) =
      some (none, some (), some (.portOutput 0 0), none, true) := by
    decide +kernel
  obtain ⟨net, ran, patched⟩ := Option.bind_eq_some_iff.mp checked
  obtain ⟨⟨signal, damaged⟩, made, found⟩ := Option.map_eq_some_iff.mp patched
  obtain ⟨rfl, accepted, kind, unnamed, refused⟩ := by
    simpa only [Prod.mk.injEq] using found
  refine ⟨net, damaged, toOption_eq_some_iff.mp ran, toOption_eq_some_iff.mp made,
    toOption_eq_some_iff.mp accepted, fun recorded => ?_, of_decide_eq_true refused⟩
  obtain ⟨n, held, output⟩ := Option.map_eq_some_iff.mp kind
  have named := recorded 0 n held (by rw [Node.isGate, output]; rfl)
  rw [output, unnamed] at named
  cases named

end Network

end GateNet
