import GateNet.Proofs.Making
import GateNet.Proofs.Safety

/-!
# Terminals of ports

A terminal is added together with the entry of its owner, one step after the other; between the
two steps the kind of the terminal is pending.
-/

namespace GateNet

theorem Port.join_setIfInBounds {entries : Array (Option NodeId)} {bit : Nat}
    (small : bit < entries.size) (node : Option NodeId) (c : Nat) :
    ((entries.setIfInBounds bit node)[c]?).join = if c = bit then node else (entries[c]?).join := by
  rw [Array.getElem?_setIfInBounds]
  by_cases same : c = bit
  · subst same
    simp [small]
  · rw [if_neg (Ne.symm same), if_neg same]

namespace Side

variable {p : Port} {port : PortId} {bit : Nat}

/-- The port with another terminal at a bit. -/
def set (side : Side) (p : Port) (bit : Nat) (node : Option NodeId) : Port :=
  match side with
  | input => { p with inputs := p.inputs.setIfInBounds bit node }
  | output => { p with outputs := p.outputs.setIfInBounds bit node }

theorem size_entries (side : Side) (sound : p.Sound port) : (side.entries p).size = p.width := by
  cases side with
  | input => rfl
  | output => exact sound.paired

theorem fetchAt_entries (side : Side) (sound : p.Sound port) (small : bit < p.width) :
    fetchAt (side.entries p) bit = .ok (side.terminal p bit) := by
  rw [fetchAt_eq_ok_iff, terminal_eq,
    Array.getElem?_eq_getElem ((side.size_entries sound).symm ▸ small)]
  rfl

theorem enter_eq (side : Side) (sound : p.Sound port) (small : bit < p.width)
    (node : Option NodeId) : side.enter p bit node = .ok (side.set p bit node) := by
  have inside : bit < (side.entries p).size := (side.size_entries sound).symm ▸ small
  have stored := storeAt_eq inside node
  cases side with
  | input => exact congrArg (· >>= _) stored
  | output => exact congrArg (· >>= _) stored

@[simp] theorem width_set (side : Side) (p : Port) (bit : Nat) (node : Option NodeId) :
    (side.set p bit node).width = p.width := by
  cases side with
  | input => exact Array.size_setIfInBounds
  | output => rfl

@[simp] theorem name_set (side : Side) (p : Port) (bit : Nat) (node : Option NodeId) :
    (side.set p bit node).name = p.name := by
  cases side <;> rfl

theorem sound_set (side : Side) (sound : p.Sound port) (bit : Nat) (node : Option NodeId) :
    (side.set p bit node).Sound port := by
  cases side with
  | input => exact ⟨sound.numbered, sound.paired.trans Array.size_setIfInBounds.symm⟩
  | output => exact ⟨sound.numbered, Array.size_setIfInBounds.trans sound.paired⟩

theorem terminal_set (side : Side) (sound : p.Sound port) (small : bit < p.width)
    (node : Option NodeId) (other : Side) (c : Nat) :
    other.terminal (side.set p bit node) c =
      if other = side ∧ c = bit then node else other.terminal p c := by
  have inside : bit < (side.entries p).size := (side.size_entries sound).symm ▸ small
  have here := Port.join_setIfInBounds inside node c
  by_cases same : other = side
  · subst same
    simp only [true_and]
    cases other <;> exact here
  · rw [if_neg fun both => same both.1]
    cases side <;> cases other <;> first | rfl | exact absurd rfl same

end Side

/-! ## Banks of a network -/

namespace Network

@[simp] theorem nodes_withBank (net : Network) (family : Family) (b : Bank) :
    (net.withBank family b).nodes = net.nodes := by
  cases family <;> rfl

@[simp] theorem ports_withBank (net : Network) (family : Family) (b : Bank) :
    (net.withBank family b).ports = net.ports := by
  cases family <;> rfl

@[simp] theorem table_withBank (net : Network) (family : Family) (b : Bank) :
    (net.withBank family b).table = net.table := by
  cases family <;> rfl

@[simp] theorem registry_withBank (net : Network) (family : Family) (b : Bank) (r : Registry) :
    (net.withBank family b).registry r = net.registry r := by
  cases family <;> cases r <;> rfl

@[simp] theorem depth?_withBank (net : Network) (family : Family) (b : Bank) :
    (net.withBank family b).depth? = net.depth? := by
  cases family <;> rfl

theorem terminal?_withBank (net : Network) (family : Family) (b : Bank) (kind : Kind) :
    (net.withBank family b).terminal? kind = match kind with
      | .state other element pin =>
          if other = family then (b.elements.get? element).map (·.terminal pin)
          else net.terminal? kind
      | _ => net.terminal? kind := by
  cases kind with
  | state other element pin =>
    simp only [terminal?, element?, bank_withBank]
    split <;> rfl
  | _ => simp only [terminal?, ports_withBank]

/-- What a network needs of its banks and ports is which terminals they name. -/
theorem SoundBut.reowned {net other : Network} {pending waiting : Kind → Prop}
    (sound : net.SoundBut pending) (nodes : other.nodes = net.nodes)
    (table : other.table = net.table) (registry : ∀ r, other.registry r = net.registry r)
    (depth : other.depth? = net.depth?)
    (owned : Owned other.terminal? net.nodes.layout.kind? waiting) : other.SoundBut waiting := by
  refine ⟨?_, fun r => ?_, ?_, fun k held => ?_⟩
  · rw [Woven, nodes, table]
    exact sound.woven
  · rw [nodes, registry]
    exact sound.registered r
  · rw [nodes]
    exact owned
  · rw [nodes, show other.outputs = net.outputs from registry .outputs]
    exact sound.coherent k (depth ▸ held)

/-! ## Names and ports -/

theorem Sound.rename {net : Network} (sound : net.Sound) (name : String) :
    (net.rename name).Sound := by
  refine ⟨sound.toSoundBut.reowned rfl rfl (fun r => by cases r <;> rfl) rfl ?_, fun family => ?_,
    sound.ports⟩
  · rw [@terminal?_congr net (net.rename name) rfl fun family => by
      cases family <;> rfl]
    exact sound.owned
  · exact sound.banks_congr (fun family => by cases family <;> rfl) family

theorem terminal?_addPort (net : Network) (name : String) (width : Nat) :
    (net.addPort name width).2.terminal? = net.terminal? := by
  funext kind
  cases kind with
  | portInput port bit | portOutput port bit =>
    simp only [terminal?, addPort, Array.getElem?_push]
    split
    · next last =>
      subst last
      have empty : ((Array.replicate width (none : Option NodeId))[bit]?).join = none := by
        rw [Array.getElem?_replicate]
        split <;> rfl
      simp [Port.blank, Port.input, Port.output, empty]
    · rfl
  | state | gate => rfl

theorem Sound.addPort {net : Network} (sound : net.Sound) (name : String) (width : Nat) :
    (net.addPort name width).2.Sound := by
  refine ⟨sound.toSoundBut.reowned rfl rfl (fun r => by cases r <;> rfl) rfl ?_, fun family => ?_,
    fun {port p} held => ?_⟩
  · rw [terminal?_addPort]
    exact sound.owned
  · exact sound.banks_congr (fun family => by cases family <;> rfl) family
  · rw [Network.addPort, Array.getElem?_push] at held
    split at held
    · next last =>
      cases held
      exact last ▸ Port.sound_blank port name width
    · exact sound.ports held

/-! ## Adding a terminal -/

theorem nodes_register (net : Network) (id : NodeId) (kind : Kind) :
    (net.register id kind).nodes = net.nodes := by
  unfold register
  split <;> rfl

theorem addTerminal_spec {net : Network} (sound : net.nodes.Sound) (kind : Kind) :
    ∃ id nodes, net.addTerminal kind = .ok (id, ({ net with nodes } : Network).register id kind) ∧
      net.nodes.Added nodes id { id, kind } := by
  obtain ⟨id, nodes, addedEq, added⟩ := addNode_spec sound kind
  exact ⟨id, nodes, by rw [addTerminal, addedEq]; rfl, added⟩

/-- An output that reads nothing leaves the depth. -/
theorem isDepth_added {L : Layout} {outputs : List NodeId} {depth : Nat} {id : NodeId} {n : Node}
    (isDepth : IsDepth L outputs depth) (free : L id = none) (unkeyed : n.key? = none)
    (undriven : n.first = none) (live : ∀ x ∈ outputs, ∃ m, L x = some m) :
    IsDepth (Function.update L id (some n)) outputs depth ∧
      IsDepth (Function.update L id (some n)) (outputs ++ [id]) depth := by
  have circuit : Layout.circuit (Function.update L id (some n)) = L.circuit :=
    Layout.circuit_update_of_not_gate (by simp [Layout.key?, free]) unkeyed
  have kept : ∀ h, outputs.map (sourceHeight (Function.update L id (some n)) h) =
      outputs.map (sourceHeight L h) := by
    intro h
    refine List.map_congr_left fun x listed => ?_
    obtain ⟨m, held⟩ := live x listed
    rw [sourceHeight, sourceHeight, Function.update_of_ne (Layout.ne_of_free free held)]
  have same : ∀ h, Heights (Function.update L id (some n)) h → Heights L h := by
    intro h heights x
    have equation := heights x
    rwa [circuit] at equation
  refine ⟨fun h heights => ?_, fun h heights => ?_⟩
  · rw [kept]
    exact isDepth h (same h heights)
  · have last : sourceHeight (Function.update L id (some n)) h id = 0 := by
      simp [sourceHeight, undriven]
    rw [List.map_append, kept, List.foldl_append, ← isDepth h (same h heights)]
    simp [last]

/-- A registered terminal whose owner names it is settled. -/
theorem SoundBut.addTerminal {net other : Network} {pending waiting : Kind → Prop}
    (sound : net.SoundBut pending) {nodes : Store Node} {id : NodeId} {kind : Kind}
    (terminal : kind.isGate = false) (added : net.nodes.Added nodes id { id, kind })
    (nodes_eq : other.nodes = nodes) (table : other.table = net.table)
    (registry : ∀ r, other.registry r =
      (({ net with nodes } : Network).register id kind).registry r)
    (depth : other.depth? = net.depth?)
    (owned : Owned other.terminal? (Function.update net.nodes.layout.kind? id (some kind)) waiting) :
    other.SoundBut waiting := by
  subst nodes_eq
  have layout_eq := added.layout_eq
  have kinds : other.nodes.layout.kind? = Function.update net.nodes.layout.kind? id (some kind) := by
    rw [layout_eq, Layout.kind?_update]
    rfl
  have free : net.nodes.layout.kind? id = none := by rw [Layout.kind?, added.layout_free]; rfl
  -- A terminal is either an input or an output, which decides about the registry that grows.
  have isOutput : kind.isOutput = !kind.isInput := by simp [Kind.isOutput, terminal]
  refine ⟨?_, fun r => ?_, ?_, fun k held => ?_⟩
  · rw [Woven, table]
    exact sound.woven.added terminal added
  · rw [kinds, registry]
    unfold register
    cases input : kind.isInput with
    | true =>
      rw [input] at isOutput
      cases r with
      | inputs => exact (sound.registered .inputs).push free input
      | outputs => exact (sound.registered .outputs).skip free isOutput
      | gates => exact (sound.registered .gates).skip free terminal
    | false =>
      rw [input] at isOutput
      cases r with
      | inputs => exact (sound.registered .inputs).skip free input
      | outputs => exact (sound.registered .outputs).push free isOutput
      | gates => exact (sound.registered .gates).skip free terminal
  · rw [kinds]
    exact owned
  · have live : ∀ x ∈ net.outputs.toList, ∃ m, net.nodes.layout x = some m := by
      intro x listed
      obtain ⟨_, held, _⟩ := ((sound.registered .outputs).2 x).mp (Array.mem_toList_iff.mp listed)
      obtain ⟨m, held, _⟩ := Layout.kind?_eq_some_iff.mp held
      exact ⟨m, held⟩
    -- A new output reads nothing and has depth 0, so a remembered depth stays right.
    obtain ⟨same, grown⟩ := isDepth_added (n := ({ id, kind } : Node).core)
      (sound.coherent k (depth ▸ held)) added.layout_free (by cases kind <;> rfl) rfl live
    rw [layout_eq, show other.outputs = _ from registry .outputs]
    unfold register
    cases kind.isInput with
    | true => exact same
    | false =>
      show IsDepth _ (net.outputs.push id).toList k
      rw [Array.toList_push]
      exact grown

/-! ## Terminals of ports -/

theorem checkBit_eq_ok_iff {net : Network} {port : PortId} {bit : Nat} {p : Port} :
    net.checkBit port bit = .ok p ↔ net.ports[port]? = some p ∧ bit < p.width := by
  unfold checkBit
  cases net.ports[port]? with
  | none => simp
  | some q =>
    by_cases small : bit < q.width
    · simp only [small, if_true, Except.ok.injEq, Option.some.injEq]
      constructor
      · rintro rfl
        exact ⟨rfl, small⟩
      · exact And.left
    · simp only [small, if_false, Option.some.injEq]
      refine iff_of_false (by rintro ⟨⟩) ?_
      rintro ⟨rfl, small'⟩
      exact small small'

/-- A port that is there can be changed, and no other port is. -/
theorem updatePort_eq {net : Network} {port : PortId} {p : Port}
    (held : net.ports[port]? = some p) {change : Port → Except Fault Port} (changed : Port → Port)
    (made : change p = .ok (changed p)) :
    net.updatePort port change = .ok { net with ports := net.ports.modify port changed } := by
  obtain ⟨small, same⟩ := Array.getElem?_eq_some_iff.mp held
  have ports : net.ports.setIfInBounds port (changed p) = net.ports.modify port changed := by
    refine Array.ext_getElem? fun q => ?_
    rw [Array.getElem?_setIfInBounds, Array.getElem?_modify]
    split
    · next here =>
      subst here
      simp [small, same]
    · rfl
  rw [updatePort, fetchAt_eq_ok_iff.mpr held, ok_bind, made, ok_bind, storeAt_eq small, ports]
  rfl

theorem Sound.modify_port {net : Network} (sound : net.Sound) {port : PortId} {change : Port → Port}
    (kept : ∀ p : Port, p.Sound port → (change p).Sound port) {q : PortId} {p : Port}
    (held : (net.ports.modify port change)[q]? = some p) : p.Sound q := by
  rw [Array.getElem?_modify] at held
  split at held
  · next same =>
    subst same
    obtain ⟨before, found, rfl⟩ := Option.map_eq_some_iff.mp held
    exact kept before (sound.ports found)
  · exact sound.ports held

/-- What the owners name for a bit of a port. -/
theorem terminal?_side (net : Network) (side : Side) (port : PortId) (bit : Nat) :
    net.terminal? (side.kind port bit) = net.ports[port]?.bind fun p =>
      if bit < p.width then side.terminal p bit else none := by
  cases side with
  | output => rfl
  | input =>
    show net.ports[port]?.bind (·.input bit) = _
    congr 1
    funext p
    split
    · rfl
    · next large => rw [Port.input, Array.getElem?_eq_none (Nat.le_of_not_lt large)]; rfl

/-- The terminals that the owners name for the bits of a port are those of its record. -/
theorem terminal?_kind {net : Network} {port bit : Nat} {p : Port}
    (held : net.ports[port]? = some p) (small : bit < p.width) (side : Side) :
    net.terminal? (side.kind port bit) = side.terminal p bit := by
  rw [terminal?_side, held, Option.bind_some, if_pos small]

/-- Entering a terminal changes what the owners name for its kind, and for no other one. -/
theorem Sound.terminal?_set {net : Network} (sound : net.Sound) {other : Network}
    {port : PortId} {bit : Nat} {p : Port} (held : net.ports[port]? = some p)
    (small : bit < p.width) {side : Side} {id : NodeId}
    (ports : other.ports = net.ports.modify port (side.set · bit (some id)))
    (elements : ∀ family, (other.bank family).elements = (net.bank family).elements) :
    other.terminal? = Function.update net.terminal? (side.kind port bit) (some id) := by
  -- For both sorts of terminals at once: only the entered bit is named anew.
  have bits : ∀ (side' : Side) q c, other.terminal? (side'.kind q c) =
      Function.update net.terminal? (side.kind port bit) (some id) (side'.kind q c) := by
    intro side' q c
    simp only [Function.update_apply, Side.kind_inj, terminal?_side, ports, Array.getElem?_modify]
    by_cases here : q = port
    · subst here
      simp only [if_true, held, Option.map_some, Option.bind_some, Side.width_set,
        side.terminal_set (sound.ports held) small, true_and]
      by_cases same : side' = side ∧ c = bit
      · rw [if_pos same, if_pos same, if_pos (same.2 ▸ small)]
      · rw [if_neg same, if_neg same]
    · rw [if_neg (Ne.symm here), if_neg fun all => here all.2.1]
  funext kind
  cases kind with
  | portInput q c => exact bits .input q c
  | portOutput q c => exact bits .output q c
  | state family element pin => cases side <;> simp [Side.kind, terminal?, element?, elements]
  | gate => cases side <;> simp [Side.kind, terminal?]

theorem Owned.name {terminal? : Kind → Option NodeId} {kinds : NodeId → Option Kind} {id : NodeId}
    {kind : Kind} (owned : Owned terminal? kinds fun _ => False) (terminal : kind.isGate = false)
    (free : kinds id = none) (unnamed : terminal? kind = none) :
    Owned (Function.update terminal? kind (some id)) (Function.update kinds id (some kind))
      fun _ => False := by
  have new : ∀ x, kinds x ≠ some kind := by
    intro x held
    rw [← owned.named kind terminal not_false, unnamed] at held
    cases held
  have added := owned.add free new (Function.update_self ..)
    fun k other => Function.update_of_ne other ..
  exact ⟨fun k gate _ => added.named k gate (fun waits => waits.1), fun k _ waits => waits.elim⟩

end Network

namespace Side

open Network

variable {net : Network} {port : PortId} {bit : Nat}

/-- On a bit of a port, the check only looks at what the bit holds. -/
theorem check_eq (side : Side) (sound : net.Sound) (port : PortId) (bit : Nat) :
    side.check net port bit = liftM (net.checkBit port bit >>= fun p =>
      if (side.terminal p bit).isSome then .error (.bitTaken port bit) else .ok ()) := by
  rw [check_def]
  cases checked : net.checkBit port bit with
  | error refusal => rfl
  | ok p =>
    obtain ⟨held, small⟩ := checkBit_eq_ok_iff.mp checked
    simp only [lift_ok, lift_fault_ok, ok_bind, side.fetchAt_entries (sound.ports held) small]
    split <;> rfl

theorem check_eq_ok_iff (side : Side) (sound : net.Sound) : side.check net port bit = .ok () ↔
    ∃ p, net.ports[port]? = some p ∧ bit < p.width ∧ side.terminal p bit = none := by
  rw [side.check_eq sound, lift_eq_ok_iff, bind_eq_ok_iff]
  simp only [checkBit_eq_ok_iff, and_assoc]
  refine exists_congr fun p => and_congr_right fun _ => and_congr_right fun _ => ?_
  cases side.terminal p bit <;> simp

/-- The network after a terminal was made, registered and entered. -/
def added (side : Side) (net : Network) (port : PortId) (bit : Nat) (id : NodeId)
    (nodes : Store Node) : Network :=
  { ({ net with nodes } : Network).register id (side.kind port bit) with
    ports := net.ports.modify port (side.set · bit (some id)) }

theorem bank_added (side : Side) (net : Network) (port : PortId) (bit : Nat) (id : NodeId)
    (nodes : Store Node) (family : Family) :
    (side.added net port bit id nodes).bank family = net.bank family := by
  cases side <;> cases family <;> rfl

theorem terminal?_added (side : Side) (sound : net.Sound) {p : Port}
    (held : net.ports[port]? = some p) (small : bit < p.width) (id : NodeId) (nodes : Store Node) :
    (side.added net port bit id nodes).terminal? =
      Function.update net.terminal? (side.kind port bit) (some id) :=
  sound.terminal?_set held small rfl fun family => by rw [bank_added]

/-- Making a terminal of a free bit keeps the invariant. -/
theorem sound_added (side : Side) (sound : net.Sound) {p : Port}
    (held : net.ports[port]? = some p) (small : bit < p.width)
    (free : side.terminal p bit = none) {id : NodeId} {nodes : Store Node}
    (added : net.nodes.Added nodes id { id, kind := side.kind port bit }) :
    (side.added net port bit id nodes).Sound := by
  refine ⟨sound.toSoundBut.addTerminal (side.isGate_kind port bit) added ?_ ?_ (fun r => ?_) ?_ ?_,
    fun family => ?_, sound.modify_port fun _ sound => side.sound_set sound bit (some id)⟩
  · cases side <;> rfl
  · cases side <;> rfl
  · cases side <;> cases r <;> rfl
  · cases side <;> rfl
  · rw [side.terminal?_added sound held small]
    refine sound.owned.name (side.isGate_kind port bit)
      (by rw [Layout.kind?, added.layout_free]; rfl) ?_
    rw [terminal?_kind held small, free]
  · exact sound.banks_congr (side.bank_added net port bit id nodes) family

theorem add_spec (side : Side) (sound : net.Sound) (passed : side.check net port bit = .ok ()) :
    ∃ id nodes, side.add net port bit = .ok (.done id (side.added net port bit id nodes)) ∧
      net.nodes.Added nodes id { id, kind := side.kind port bit } ∧
      (side.added net port bit id nodes).Sound := by
  obtain ⟨p, held, small, free⟩ := (side.check_eq_ok_iff sound).mp passed
  obtain ⟨id, nodes, addedEq, added⟩ := addTerminal_spec sound.woven.store (side.kind port bit)
  refine ⟨id, nodes, ?_, added, side.sound_added sound held small free added⟩
  have registered :
      (({ net with nodes } : Network).register id (side.kind port bit)).ports[port]? = some p := by
    rw [ports_register]
    exact held
  have named : Network.updatePort _ port (side.enter · bit (some id)) = .ok _ :=
    updatePort_eq registered (side.set · bit (some id))
      (side.enter_eq (sound.ports held) small (some id))
  rw [side.add_eq, passed, guarded]
  simp only [addedEq, ok_bind, named, ports_register]
  rfl

theorem safe_add (side : Side) (sound : net.Sound) (port : PortId) (bit : Nat) :
    Safe (side.add net port bit) := by
  cases passed : side.check net port bit with
  | ok =>
    obtain ⟨id, nodes, made, _, sound'⟩ := side.add_spec sound passed
    exact ⟨_, made, sound'⟩
  | error failure =>
    rw [side.add_eq]
    refine safe_guarded sound (fun fault failed => ?_) fun _ other => nomatch passed.symm.trans other
    rw [side.check_eq sound] at failed
    exact lift_ne_faulted _ fault failed

end Side

end GateNet
