import GateNet.Proofs.CopyElements
import GateNet.Proofs.Order

/-!
# Copying gates and readings

The gates are copied after their drivers.  Copies of different nodes are different, so the key of a
copied gate is never one that the target has already: realizing it neither folds nor merges, and
adds a gate.  At the end every output is made to read the copy of what it read.
-/

namespace GateNet

/-- A proper gate over two different nodes is its own normal form, up to the order of the nodes. -/
theorem Normal.ofRequest_of_proper {key : Key} (proper : key.Proper) {a b : NodeId}
    (different : a ≠ b) :
    ofRequest key.gate (.positive a) (.positive b) = .keyed (.sorted key.gate a b) false := by
  obtain ⟨_, grounded, first, second⟩ := proper
  simp only [ofRequest, absorb, Signal.positive, Bool.false_eq_true, if_false, if_neg different,
    first, second, Bool.not_true, order, grounded, Key.sorted]
  rcases Nat.lt_or_gt_of_ne different with lower | higher
  · rw [if_neg (Nat.not_lt.mpr lower.le), if_pos lower]
  · rw [if_pos higher, if_neg (Nat.not_lt.mpr higher.le)]

/-- Keys over nodes agree only in the two ways of ordering the nodes. -/
theorem Key.sorted_inj {gate gate' : Gate} {a b a' b' : NodeId}
    (same : Key.sorted gate a b = .sorted gate' a' b') :
    (gate = gate' ∧ a = a' ∧ b = b') ∨ (a = b' ∧ b = a') := by
  unfold sorted at same
  split at same <;> split at same
  all_goals simp only [Key.mk.injEq] at same
  · exact .inl same
  · exact .inr ⟨same.2.1, same.2.2⟩
  · exact .inr ⟨same.2.2, same.2.1⟩
  · exact .inl ⟨congrArg Gate.swap same.1, same.2.2, same.2.1⟩

namespace Network

/-! ## Copies of terminals -/

theorem Matches.left_unique {src dst : Network} (soundDst : dst.Sound) {one two kind : Kind}
    (first : src.Matches dst one kind) (second : src.Matches dst two kind) : one = two := by
  cases first with
  | state family k pin here there =>
    cases second with
    | state _ l _ here' there' =>
      have index : k = l := by
        rw [← Array.getElem?_toList] at there there'
        exact (List.getElem?_inj (List.getElem?_eq_some_iff.mp there).1
          (soundDst.banks family).nodup).mp (there.trans there'.symm)
      subst index
      rw [Option.some.inj (here.symm.trans here')]
  | _ => cases second; rfl

theorem Matches.isGate {src dst : Network} {kind kind' : Kind} (same : src.Matches dst kind kind') :
    kind'.isGate = kind.isGate := by
  cases same <;> rfl

theorem isGate_of_terminal? {net : Network} {kind : Kind} {id : NodeId}
    (named : net.terminal? kind = some id) : kind.isGate = false := by
  cases kind with
  | gate => cases named
  | _ => rfl

namespace TerminalsCopied

variable {src net : Network} {copies : Copies}

theorem kinds (copied : src.TerminalsCopied copies net) {x y : NodeId}
    (copy : copies.copy? x = some y) :
    ∃ kind kind', kind.isGate = false ∧ src.nodes.layout.kind? x = some kind ∧
      net.nodes.layout.kind? y = some kind' ∧ src.Matches net kind kind' := by
  obtain ⟨kind, kind', held, same, named⟩ := (copied.entries x y).mp copy
  have terminal := isGate_of_terminal? named
  exact ⟨kind, kind', same.isGate.symm.trans terminal, held,
    (copied.sound.owned.named kind' terminal not_false y).mp named, same⟩

theorem injective (copied : src.TerminalsCopied copies net) (soundSrc : src.Sound) {x x' y : NodeId}
    (copy : copies.copy? x = some y) (copy' : copies.copy? x' = some y) : x = x' := by
  obtain ⟨kind, one, terminal, held, there, same⟩ := copied.kinds copy
  obtain ⟨kind', two, _, held', there', same'⟩ := copied.kinds copy'
  obtain rfl := Option.some.inj (there.symm.trans there')
  obtain rfl := same.left_unique copied.sound same'
  have named := soundSrc.owned.named kind terminal not_false
  exact Option.some.inj (((named x).mpr held).symm.trans ((named x').mpr held'))

theorem complete (copied : src.TerminalsCopied copies net) (soundSrc : src.Sound) {x : NodeId}
    {kind : Kind} (held : src.nodes.layout.kind? x = some kind) (terminal : kind.isGate = false) :
    ∃ y, copies.copy? x = some y := by
  have named := (soundSrc.owned.named kind terminal not_false x).mpr held
  cases kind with
  | gate => cases terminal
  | portInput port bit =>
    obtain ⟨y, there⟩ := Option.isSome_iff_exists.mp
      ((copied.ports .input port bit).mpr (Option.isSome_iff_exists.mpr ⟨x, named⟩))
    exact ⟨y, (copied.entries x y).mpr ⟨_, _, held, .portInput port bit, there⟩⟩
  | portOutput port bit =>
    obtain ⟨y, there⟩ := Option.isSome_iff_exists.mp
      ((copied.ports .output port bit).mpr (Option.isSome_iff_exists.mpr ⟨x, named⟩))
    exact ⟨y, (copied.entries x y).mpr ⟨_, _, held, .portOutput port bit, there⟩⟩
  | state family element pin =>
    obtain ⟨e, found, _⟩ := Option.map_eq_some_iff.mp named
    obtain ⟨k, small, here⟩ := Array.getElem_of_mem (((soundSrc.banks family).exact element).mpr
      ⟨e, found⟩)
    have small' : k < (net.bank family).order.size := by rwa [copied.position]
    have there := Array.getElem?_eq_getElem small'
    obtain ⟨e', found'⟩ := ((copied.sound.banks family).exact _).mp (Array.getElem_mem small')
    refine ⟨e'.terminal pin, (copied.entries x _).mpr ⟨_, _, held,
      .state family k pin ((Array.getElem?_eq_getElem small).trans (congrArg some here)) there, ?_⟩⟩
    rw [terminal?, element?, found']
    rfl

theorem onto (copied : src.TerminalsCopied copies net) (soundSrc : src.Sound) {y : NodeId}
    {kind : Kind} (held : net.nodes.layout.kind? y = some kind) (terminal : kind.isGate = false) :
    ∃ x, copies.copy? x = some y := by
  have named := (copied.sound.owned.named kind terminal not_false y).mpr held
  cases kind with
  | gate => cases terminal
  | portInput port bit =>
    obtain ⟨x, here⟩ := Option.isSome_iff_exists.mp
      ((copied.ports .input port bit).mp (Option.isSome_iff_exists.mpr ⟨y, named⟩))
    exact ⟨x, (copied.entries x y).mpr
      ⟨_, _, (soundSrc.owned.named _ rfl not_false x).mp here, .portInput port bit, named⟩⟩
  | portOutput port bit =>
    obtain ⟨x, here⟩ := Option.isSome_iff_exists.mp
      ((copied.ports .output port bit).mp (Option.isSome_iff_exists.mpr ⟨y, named⟩))
    exact ⟨x, (copied.entries x y).mpr
      ⟨_, _, (soundSrc.owned.named _ rfl not_false x).mp here, .portOutput port bit, named⟩⟩
  | state family element pin =>
    obtain ⟨e, found, _⟩ := Option.map_eq_some_iff.mp named
    obtain ⟨k, small, there⟩ := Array.getElem_of_mem (((copied.sound.banks family).exact element).mpr
      ⟨e, found⟩)
    have small' : k < (src.bank family).order.size := by rwa [← copied.position]
    have here := Array.getElem?_eq_getElem small'
    obtain ⟨e', found'⟩ := ((soundSrc.banks family).exact _).mp (Array.getElem_mem small')
    have named' : src.terminal? (.state family (src.bank family).order[k] pin) =
        some (e'.terminal pin) := by
      rw [terminal?, element?, found']
      rfl
    exact ⟨e'.terminal pin, (copied.entries _ y).mpr ⟨_, _,
      (soundSrc.owned.named _ rfl not_false _).mp named',
      .state family k pin here ((Array.getElem?_eq_getElem small).trans (congrArg some there)), named⟩⟩

end TerminalsCopied

/-! ## What the gates need -/

/-- What copying relies on in its source: a graph of gates, and outputs listed as outputs. -/
structure Legible (src : Network) : Prop where
  store : src.nodes.Sound
  layout : src.nodes.layout.Sound
  outputs : ∀ o ∈ src.outputs, ∃ n, src.nodes.layout o = some n ∧ n.isOutput = true

theorem Sound.legible {src : Network} (sound : src.Sound) : src.Legible :=
  ⟨sound.woven.store, sound.woven.layout, fun _ => sound.mem_outputs_iff.mp⟩

def IsTerminal (net : Network) (x : NodeId) : Prop :=
  ∃ kind, net.nodes.layout.kind? x = some kind ∧ kind.isGate = false

/-- A target without gates: the entered copies are terminals of their own, of the same sorts as
their originals, and the nodes in `done` have copies.  Nothing is asked of other terminals of the
target, nor of the owners on either side. -/
structure Seated (src : Network) (done : NodeId → Prop) (copies : Copies) (net : Network) :
    Prop where
  sound : net.Sound
  size : copies.size = src.nodes.bound
  ungated : net.gates = #[]
  sorts : ∀ {x y}, copies.copy? x = some y →
    ∃ kind kind', kind.isGate = false ∧ src.nodes.layout.kind? x = some kind ∧
      net.nodes.layout.kind? y = some kind' ∧ ∀ r : Registry, r.admits kind' = r.admits kind
  injective : ∀ {x x' y}, copies.copy? x = some y → copies.copy? x' = some y → x = x'
  covers : ∀ {x}, done x → ∃ y, copies.copy? x = some y

theorem TerminalsCopied.seated {src net : Network} {copies : Copies}
    (copied : src.TerminalsCopied copies net) (soundSrc : src.Sound) :
    src.Seated src.IsTerminal copies net where
  sound := copied.sound
  size := copied.size
  ungated := copied.ungated
  sorts copy := by
    obtain ⟨kind, kind', terminal, here, there, same⟩ := copied.kinds copy
    exact ⟨kind, kind', terminal, here, there, same.admits⟩
  injective := copied.injective soundSrc
  covers := by
    rintro x ⟨kind, held, terminal⟩
    exact copied.complete soundSrc held terminal

/-! ## Copying the gates -/

/-- A gate of the source has a copy over the copies of its operands. -/
def GateCopied (src : Network) (copies : Copies) (net : Network) (g : NodeId) : Prop :=
  ∃ key a b y, src.nodes.layout.key? g = some key ∧ copies.copy? key.first = some a ∧
    copies.copy? key.second = some b ∧ copies.copy? g = some y ∧
    net.nodes.layout.key? y = some (.sorted key.gate a b)

theorem GateCopied.grow {src net after : Network} {copies copies' : Copies} {g : NodeId}
    (copied : src.GateCopied copies net g)
    (grown : ∀ {x y}, copies.copy? x = some y → copies'.copy? x = some y)
    (kept : ∀ {y n}, net.nodes.layout y = some n → after.nodes.layout y = some n) :
    src.GateCopied copies' after g := by
  obtain ⟨key, a, b, y, keyed, first, second, copy, held⟩ := copied
  obtain ⟨n, live, nodeKey⟩ := Layout.key?_eq_some_iff.mp held
  exact ⟨key, a, b, y, keyed, grown first, grown second, grown copy,
    (Layout.key?_of_node (kept live)).trans nodeKey⟩

/-- A target while gates are copied, after the terminals: the ones in `done` were. -/
structure GatesCopied (src : Network) (base : Copies) (start : Network) (done : List NodeId)
    (copies : Copies) (net : Network) : Prop where
  sound : net.Sound
  eq : ∃ nodes gates table limit depth?, net = { start with nodes, gates, table, limit, depth? }
  size : copies.size = src.nodes.bound
  others : ∀ x, x ∉ done → copies.copy? x = base.copy? x
  kept : ∀ {y n}, start.nodes.layout y = some n → net.nodes.layout y = some n
  copied : ∀ g ∈ done, src.GateCopied copies net g
  onto : ∀ y, net.nodes.layout.HasGate y → ∃ g ∈ done, copies.copy? g = some y
  live : ∀ {x y}, copies.copy? x = some y → ∃ n, net.nodes.layout y = some n
  injective : ∀ {x x' y}, copies.copy? x = some y → copies.copy? x' = some y → x = x'

theorem Seated.start {src net : Network} {done : NodeId → Prop} {copies : Copies}
    (seated : src.Seated done copies net) : src.GatesCopied copies net [] copies net where
  sound := seated.sound
  eq := ⟨_, _, _, _, _, rfl⟩
  size := seated.size
  others _ _ := rfl
  kept held := held
  copied _ listed := by cases listed
  onto y gate := by
    have listed := seated.sound.mem_gates_iff.mpr gate
    rw [seated.ungated] at listed
    simp at listed
  live copy := by
    obtain ⟨_, kind, _, _, held, _⟩ := seated.sorts copy
    obtain ⟨n, held, _⟩ := Layout.kind?_eq_some_iff.mp held
    exact ⟨n, held⟩
  injective := seated.injective

namespace GatesCopied

variable {src start net : Network} {base copies : Copies} {done : List NodeId}

/-- What may drive in the source, and is copied, may drive in the target. -/
theorem operand (gates : src.GatesCopied base start done copies net)
    (terminals : src.Seated src.IsTerminal base start) {d : NodeId}
    (drives : src.nodes.layout.MayDrive d) (early : src.nodes.layout.HasGate d → d ∈ done) :
    ∃ a, copies.copy? d = some a ∧ net.nodes.layout.MayDrive a := by
  by_cases listed : d ∈ done
  · obtain ⟨key, a, b, y, _, _, _, copy, keyed⟩ := gates.copied d listed
    exact ⟨y, copy, (Layout.hasGate_of_key? keyed).mayDrive⟩
  · obtain ⟨n, held, drives⟩ := drives
    have terminal : n.isGate = false := by
      cases isGate : n.isGate with
      | true => exact absurd (early ⟨n, held, isGate⟩) listed
      | false => rfl
    obtain ⟨a, copy⟩ := terminals.covers ⟨n.kind, Layout.kind?_of_node held, terminal⟩
    obtain ⟨kind, kind', _, here, there, same⟩ := terminals.sorts copy
    obtain ⟨n', held', rfl⟩ := Layout.kind?_eq_some_iff.mp there
    obtain rfl := Option.some.inj ((Layout.kind?_of_node held).symm.trans here)
    exact ⟨a, by rw [gates.others d listed, copy], n', gates.kept held',
      (same .outputs).trans drives⟩

/-- The copy of a gate is a gate of its own: no gate of the target has the key. -/
theorem absent (gates : src.GatesCopied base start done copies net) (legible : src.Legible)
    {g : NodeId} {key : Key} (keyed : src.nodes.layout.key? g = some key) (late : g ∉ done)
    {a b : NodeId} (first : copies.copy? key.first = some a)
    (second : copies.copy? key.second = some b) (y : NodeId) :
    net.nodes.layout.key? y ≠ some (.sorted key.gate a b) := by
  intro taken
  obtain ⟨g', listed, copy⟩ := gates.onto y (Layout.hasGate_of_key? taken)
  obtain ⟨key', a', b', y', keyed', first', second', copy', taken'⟩ := gates.copied g' listed
  obtain rfl := Option.some.inj (copy.symm.trans copy')
  rcases Key.sorted_inj (Option.some.inj (taken.symm.trans taken')) with
    ⟨gate, rfl, rfl⟩ | ⟨rfl, rfl⟩
  · have same : key' = key := by
      have one := gates.injective first first'
      have two := gates.injective second second'
      obtain ⟨_, _, _⟩ := key
      obtain ⟨_, _, _⟩ := key'
      simp_all
    rw [same] at keyed'
    exact late (legible.layout.unique keyed keyed' ▸ listed)
  · -- The operands would be swapped, but both keys have them in increasing order.
    have one := gates.injective first second'
    have two := gates.injective second first'
    have ordered := (legible.layout.proper keyed).ordered
    have ordered' := (legible.layout.proper keyed').ordered
    rw [one, two] at ordered
    exact absurd ordered (Nat.lt_asymm ordered')

theorem copiedRequest_eq {g a b : NodeId} {key : Key} (keyed : src.nodes.layout.key? g = some key)
    (first : copies.copy? key.first = some a) (second : copies.copy? key.second = some b) :
    src.copiedRequest copies g = .ok (key.gate, a, b) := by
  obtain ⟨n, held, nodeKey⟩ := Layout.key?_eq_some_iff.mp keyed
  obtain ⟨m, found, rfl⟩ := Store.layout_eq_some_iff.mp held
  obtain ⟨operands, gate⟩ := Node.gateOperands_of_key? nodeKey
  rw [Node.core_gateOperands] at operands
  rw [Node.core_gate] at gate
  have fetched : (liftM (src.nodes.fetch g) : Except Failure Node) = .ok m := by
    rw [Store.fetch_of_get? found]
    rfl
  rw [copiedRequest, fetched, ok_bind, operands]
  simp only [Copies.of_eq_ok_iff.mpr first, Copies.of_eq_ok_iff.mpr second, gate]
  rfl

theorem small (gates : src.GatesCopied base start done copies net) (legible : src.Legible)
    {g : NodeId} (gate : src.nodes.layout.HasGate g) : g < copies.size := by
  obtain ⟨n, held, _⟩ := gate
  obtain ⟨m, found, _⟩ := Store.layout_eq_some_iff.mp held
  rw [gates.size]
  exact Store.lt_bound legible.store found

theorem uncopied (gates : src.GatesCopied base start done copies net)
    (terminals : src.Seated src.IsTerminal base start) {g : NodeId} (gate : src.nodes.layout.HasGate g)
    (late : g ∉ done) : copies.copy? g = none := by
  rw [gates.others g late, Option.eq_none_iff_forall_ne_some]
  intro y copy
  obtain ⟨kind, _, terminal, held, _⟩ := terminals.sorts copy
  obtain rfl := Option.some.inj (held.symm.trans (Layout.hasGate_iff_kind?.mp gate))
  cases terminal

theorem add (gates : src.GatesCopied base start done copies net) {g : NodeId} {key : Key}
    (keyed : src.nodes.layout.key? g = some key) (uncopied : copies.copy? g = none) {a b : NodeId}
    (first : copies.copy? key.first = some a) (second : copies.copy? key.second = some b)
    {id : NodeId} {nodes : Store Node} {table : Array (Option NodeId)} {limit : Nat}
    (sound : ({ net with nodes, table, limit, gates := net.gates.push id, depth? := none } :
      Network).Sound) (free : net.nodes.layout id = none)
    (layout_eq : nodes.layout = Function.update net.nodes.layout id
      (some ((Node.blank id).keyed (.sorted key.gate a b))))
    {copies' : Copies} (adds : copies.Adds copies' g id) :
    src.GatesCopied base start (done ++ [g]) copies'
      { net with nodes, table, limit, gates := net.gates.push id, depth? := none } := by
  have kept : ∀ {y n}, net.nodes.layout y = some n → nodes.layout y = some n := by
    intro y n held
    rw [layout_eq, Function.update_of_ne (Layout.ne_of_free free held), held]
  have here : nodes.layout.key? id = some (.sorted key.gate a b) := by
    rw [layout_eq, Layout.key?_update, Function.update_self]
    exact Node.key?_keyed rfl _
  -- Copies are live, and the id of the new gate was not.
  have apart : ∀ x, copies.copy? x ≠ some id := by
    intro x copy
    obtain ⟨n, held⟩ := gates.live copy
    exact Layout.ne_of_free free held rfl
  obtain ⟨nodes₀, gates₀, table₀, limit₀, depth₀, rfl⟩ := gates.eq
  refine ⟨sound, ⟨_, _, _, _, _, rfl⟩, adds.size.trans gates.size, fun x other => ?_,
    fun held => kept (gates.kept held), fun g' listed => ?_, fun y gate => ?_, fun {x y} copy => ?_,
    adds.injective apart gates.injective⟩
  · rw [List.mem_append, List.mem_singleton, not_or] at other
    rw [adds.other other.2, gates.others x other.1]
  · rcases List.mem_append.mp listed with listed | last
    · exact (gates.copied g' listed).grow (adds.kept uncopied) kept
    · rw [List.mem_singleton.mp last]
      exact ⟨key, a, b, id, keyed, adds.kept uncopied first, adds.kept uncopied second, adds.self,
        here⟩
  · by_cases same : y = id
    · exact ⟨g, by simp, same ▸ adds.self⟩
    · obtain ⟨n, held, isGate⟩ := gate
      rw [layout_eq, Function.update_of_ne same] at held
      obtain ⟨g', listed, copy⟩ := gates.onto y ⟨n, held, isGate⟩
      exact ⟨g', List.mem_append.mpr (.inl listed), adds.kept uncopied copy⟩
  · by_cases same : x = g
    · rw [same, adds.self] at copy
      obtain rfl := Option.some.inj copy
      exact ⟨_, by rw [layout_eq, Function.update_self]⟩
    · rw [adds.other same] at copy
      obtain ⟨n, held⟩ := gates.live copy
      exact ⟨n, kept held⟩

theorem copyGate (gates : src.GatesCopied base start done copies net)
    (terminals : src.Seated src.IsTerminal base start) (legible : src.Legible)
    {order rest : List NodeId}
    (ordered : src.nodes.layout.DriversFirst order) {g : NodeId} (split : order = done ++ g :: rest) :
    ∃ copies' after, Network.copyGate src copies g net = .ok (.done copies' after) ∧
      src.GatesCopied base start (done ++ [g]) copies' after := by
  have late : g ∉ done := not_mem_before ordered.nodup split
  have gate := (ordered.exact g).mp (by simp [split])
  obtain ⟨key, keyed, proper⟩ := legible.layout.key?_of_hasGate gate
  have copyOf : ∀ d, key.first = d ∨ key.second = d →
      ∃ a, copies.copy? d = some a ∧ net.nodes.layout.MayDrive a := by
    intro d operand
    have read := Layout.reads_circuit_iff.mpr ⟨key, keyed, operand⟩
    exact gates.operand terminals (legible.layout.mayDrive_of_reads read)
      (ordered.earlier split read)
  obtain ⟨a, first, fitFirst⟩ := copyOf _ (.inl rfl)
  obtain ⟨b, second, fitSecond⟩ := copyOf _ (.inr rfl)
  -- Different nodes have different copies, so the gate is not simplified away.
  have different : a ≠ b := by
    rintro rfl
    exact absurd (gates.injective first second) (Nat.ne_of_lt proper.ordered)
  have absent := gates.absent legible keyed late first second
  have fit : net.Fit (.positive a) ∧ net.Fit (.positive b) :=
    ⟨fun d same => Option.some.inj same ▸ fitFirst, fun d same => Option.some.inj same ▸ fitSecond⟩
  -- The request is its own normal form and its key is absent, so a gate is added.
  rcases addGate_spec gates.sound.woven key.gate (.positive a) (.positive b) with
    ⟨_, _, signal, after, made, realized⟩ | ⟨unfit, _⟩
  · have sound := realized.sound gates.sound
    rw [Normal.ofRequest_of_proper proper different] at realized
    cases realized with
    | found _ held => exact absurd held (absent _)
    | @added _ _ id nodes table _ _ _ _ free woven layout_eq =>
      obtain ⟨copies', entered, adds⟩ := Copies.exists_enter (gates.small legible gate) id
      refine ⟨copies', _, ?_, gates.add keyed (gates.uncopied terminals gate late) first second
        sound free (show nodes.layout = _ from layout_eq) adds⟩
      rw [Network.copyGate, copiedRequest_eq keyed first second]
      simp only [onAnswer, made, ok_bind]
      exact congrArg (· >>= _) entered
  · exact absurd fit unfit

end GatesCopied

end Network

end GateNet
