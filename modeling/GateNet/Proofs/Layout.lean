import GateNet.Node
import GateNet.Network.Table
import GateNet.Proofs.Normal
import GateNet.Proofs.Store

/-!
# Layouts

The layout of a network is its live nodes without what is kept for bookkeeping: fanouts and links.
What a network means and which wires it has is a matter of the layout alone.  A layout is sound
when each node fits its kind, each driver may drive, no two gates have one key, and the gates form
no cycle.
-/

namespace GateNet

namespace Node

/-- The node without its fanouts and its link. -/
def core (n : Node) : Node := { n with fanouts := #[], link := none }

@[simp] theorem core_id (n : Node) : n.core.id = n.id := rfl

@[simp] theorem core_kind (n : Node) : n.core.kind = n.kind := rfl

@[simp] theorem core_gate (n : Node) : n.core.gate = n.gate := rfl

@[simp] theorem core_first (n : Node) : n.core.first = n.first := rfl

@[simp] theorem core_second (n : Node) : n.core.second = n.second := rfl

@[simp] theorem core_inverted (n : Node) : n.core.inverted = n.inverted := rfl

@[simp] theorem core_isGate (n : Node) : n.core.isGate = n.isGate := rfl

@[simp] theorem core_isInput (n : Node) : n.core.isInput = n.isInput := rfl

@[simp] theorem core_isOutput (n : Node) : n.core.isOutput = n.isOutput := rfl

@[simp] theorem core_gateOperands (n : Node) : n.core.gateOperands = n.gateOperands := rfl

@[simp] theorem core_key (n : Node) : n.core.key = n.key := rfl

@[simp] theorem core_source (n : Node) : n.core.source = n.source := rfl

@[simp] theorem core_driver (n : Node) (p : Operand) : n.core.driver p = n.driver p := by
  cases p <;> rfl

theorem core_withDriver (n : Node) (p : Operand) (d : Option NodeId) :
    (n.withDriver p d).core = n.core.withDriver p d := by
  cases p <;> rfl

def key? (n : Node) : Option Key :=
  n.gateOperands.map fun (a, b) => ⟨n.gate, a, b⟩

@[simp] theorem core_key? (n : Node) : n.core.key? = n.key? := rfl

theorem key?_eq_some_iff {n : Node} {key : Key} :
    n.key? = some key ↔ n.isGate = true ∧ n.hasKey key = true := by
  obtain ⟨id, kind, gate, first, second, fanouts, inverted, link⟩ := n
  obtain ⟨keyGate, keyFirst, keySecond⟩ := key
  cases kind <;> cases first <;> cases second <;>
    simp [key?, gateOperands, hasKey, isGate, Kind.isGate, and_assoc]

theorem key_of_key? {n : Node} {key : Key} (held : n.key? = some key) : n.key = key := by
  unfold key?  at held
  unfold Node.key
  cases operands : n.gateOperands with
  | none => simp [operands] at held
  | some pair => simpa [operands] using held

theorem gateOperands_of_key? {n : Node} {key : Key} (held : n.key? = some key) :
    n.gateOperands = some (key.first, key.second) ∧ n.gate = key.gate := by
  unfold key? at held
  cases operands : n.gateOperands with
  | none => simp [operands] at held
  | some pair =>
    obtain rfl : (⟨n.gate, pair.1, pair.2⟩ : Key) = key := by simpa [operands] using held
    exact ⟨rfl, rfl⟩

theorem key?_of_gateOperands {n : Node} {a b : NodeId} (operands : n.gateOperands = some (a, b)) :
    n.key? = some ⟨n.gate, a, b⟩ := by
  rw [key?, operands, Option.map_some]

theorem driver_of_key? {n : Node} {key : Key} (held : n.key? = some key) :
    n.first = some key.first ∧ n.second = some key.second := by
  have keyed := (key?_eq_some_iff.mp held).2
  simp only [hasKey, Bool.and_eq_true, beq_iff_eq] at keyed
  exact ⟨keyed.1.2, keyed.2⟩

theorem not_isGate_of_isInput {n : Node} (input : n.isInput = true) : n.isGate = false := by
  obtain ⟨id, kind, gate, first, second, fanouts, inverted, link⟩ := n
  cases kind <;> simp_all [isInput, isGate, Kind.isInput, Kind.isGate]

theorem isOutput_eq (n : Node) : n.isOutput = (!n.isInput && !n.isGate) := rfl

theorem not_isGate_of_isOutput {n : Node} (output : n.isOutput = true) : n.isGate = false := by
  rw [isOutput_eq] at output
  simp_all

theorem not_isInput_of_isOutput {n : Node} (output : n.isOutput = true) : n.isInput = false := by
  rw [isOutput_eq] at output
  simp_all

theorem key?_of_not_isGate {n : Node} (notGate : n.isGate = false) : n.key? = none := by
  rw [Option.eq_none_iff_forall_ne_some]
  intro key keyed
  rw [(key?_eq_some_iff.mp keyed).1] at notGate
  cases notGate

/-- A node names its slot and uses the operands that its kind allows; a gate has a proper key. -/
structure Fits (n : Node) (id : NodeId) : Prop where
  id_eq : n.id = id
  gate : n.isGate = true → ∃ key, n.key? = some key ∧ key.Proper
  input : n.isInput = true → n.first = none ∧ n.second = none
  output : n.isOutput = true → n.second = none

theorem fits_of_isOutput {n : Node} {id : NodeId} (id_eq : n.id = id) (output : n.isOutput = true)
    (second : n.second = none) : n.Fits id where
  id_eq := id_eq
  gate isGate := by
    rw [not_isGate_of_isOutput output] at isGate
    cases isGate
  input isInput := by
    rw [not_isInput_of_isOutput output] at isInput
    cases isInput
  output _ := second

end Node

/-- Live nodes by their ids. -/
abbrev Layout := NodeId → Option Node

namespace Store

/-- The live nodes of a store, without fanouts and links. -/
def layout (nodes : Store Node) : Layout :=
  fun id => (nodes.get? id).map Node.core

theorem layout_eq_some_iff {nodes : Store Node} {id : NodeId} {n : Node} :
    nodes.layout id = some n ↔ ∃ m, nodes.get? id = some m ∧ m.core = n :=
  Option.map_eq_some_iff

theorem layout_eq_none_iff {nodes : Store Node} {id : NodeId} :
    nodes.layout id = none ↔ nodes.get? id = none :=
  Option.map_eq_none_iff

theorem layout_of_get? {nodes : Store Node} {id : NodeId} {n : Node}
    (held : nodes.get? id = some n) : nodes.layout id = some n.core := by
  simp [layout, held]

theorem layout_modify {nodes : Store Node} {id : NodeId} {n : Node}
    (held : nodes.get? id = some n) (change : Node → Node) :
    (nodes.modify id change).layout = Function.update nodes.layout id (some (change n).core) := by
  funext x
  by_cases same : x = id
  · subst same
    simp [layout, held]
  · simp [layout, same]

/-- Changing fanouts or links leaves the layout. -/
theorem layout_modify_of_core (nodes : Store Node) (id : NodeId) {change : Node → Node}
    (same : ∀ n, (change n).core = n.core) : (nodes.modify id change).layout = nodes.layout := by
  funext x
  simp only [layout, get?_modify]
  split
  · cases nodes.get? x <;> simp [same]
  · rfl

end Store

namespace Layout

/-- Some live gate has the id. -/
def HasGate (L : Layout) (id : NodeId) : Prop :=
  ∃ n, L id = some n ∧ n.isGate = true

/-- The id is that of a live node that may drive others. -/
def MayDrive (L : Layout) (id : NodeId) : Prop :=
  ∃ n, L id = some n ∧ n.isOutput = false

def key? (L : Layout) (id : NodeId) : Option Key :=
  (L id).bind Node.key?

/-- The requests that the gates carry out. -/
def circuit (L : Layout) : Circuit :=
  fun id => (L.key? id).map Key.request

theorem key?_of_node {L : Layout} {id : NodeId} {n : Node} (held : L id = some n) :
    L.key? id = n.key? := by
  simp [key?, held]

theorem key?_of_get? {nodes : Store Node} {id : NodeId} {n : Node}
    (held : nodes.get? id = some n) : nodes.layout.key? id = n.key? := by
  rw [key?_of_node (Store.layout_of_get? held), Node.core_key?]

theorem key?_eq_some_iff {L : Layout} {id : NodeId} {key : Key} :
    L.key? id = some key ↔ ∃ n, L id = some n ∧ n.key? = some key :=
  Option.bind_eq_some_iff

theorem circuit_eq_some_iff {L : Layout} {id : NodeId} {r : Request} :
    L.circuit id = some r ↔ ∃ key, L.key? id = some key ∧ key.request = r :=
  Option.map_eq_some_iff

theorem circuit_of_key? {L : Layout} {id : NodeId} {key : Key} (keyed : L.key? id = some key) :
    L.circuit id = some key.request := by
  rw [circuit, keyed, Option.map_some]

theorem reads_circuit_iff {L : Layout} {id d : NodeId} :
    L.circuit.Reads id d ↔ ∃ key, L.key? id = some key ∧ (key.first = d ∨ key.second = d) := by
  constructor
  · rintro ⟨r, held, read⟩
    obtain ⟨key, keyed, rfl⟩ := circuit_eq_some_iff.mp held
    exact ⟨key, keyed, Key.reads_request.mp read⟩
  · rintro ⟨key, held, read⟩
    exact ⟨key.request, circuit_eq_some_iff.mpr ⟨key, held, rfl⟩, Key.reads_request.mpr read⟩

theorem HasGate.mayDrive {L : Layout} {id : NodeId} (gate : L.HasGate id) : L.MayDrive id := by
  obtain ⟨n, held, isGate⟩ := gate
  exact ⟨n, held, by simp [Node.isOutput_eq, isGate]⟩

theorem ne_of_free {L : Layout} {id x : NodeId} {n : Node} (free : L id = none)
    (held : L x = some n) : x ≠ id := by
  rintro rfl
  rw [free] at held
  cases held

theorem not_mayDrive_of_none {L : Layout} {id : NodeId} (free : L id = none) :
    ¬ L.MayDrive id := by
  rintro ⟨n, held, _⟩
  exact ne_of_free free held rfl

theorem not_hasGate_of_none {L : Layout} {id : NodeId} (free : L id = none) : ¬ L.HasGate id :=
  fun gate => not_mayDrive_of_none free gate.mayDrive

theorem hasGate_of_key? {L : Layout} {id : NodeId} {key : Key} (held : L.key? id = some key) :
    L.HasGate id := by
  obtain ⟨n, live, keyed⟩ := key?_eq_some_iff.mp held
  exact ⟨n, live, (Node.key?_eq_some_iff.mp keyed).1⟩

theorem not_hasGate_of_isGate {L : Layout} {id : NodeId} {n : Node} (held : L id = some n)
    (notGate : n.isGate = false) : ¬ L.HasGate id := by
  rintro ⟨m, held', isGate⟩
  obtain rfl := Option.some.inj (held.symm.trans held')
  rw [notGate] at isGate
  cases isGate

theorem not_hasGate_of_isOutput {L : Layout} {id : NodeId} {n : Node} (held : L id = some n)
    (output : n.isOutput = true) : ¬ L.HasGate id :=
  not_hasGate_of_isGate held (Node.not_isGate_of_isOutput output)

theorem not_mayDrive_of_isOutput {L : Layout} {id : NodeId} {n : Node} (held : L id = some n)
    (output : n.isOutput = true) : ¬ L.MayDrive id := by
  rintro ⟨m, held', drives⟩
  obtain rfl := Option.some.inj (held.symm.trans held')
  rw [output] at drives
  cases drives

theorem key?_of_not_hasGate {L : Layout} {id : NodeId} (notGate : ¬ L.HasGate id) :
    L.key? id = none := by
  rw [Option.eq_none_iff_forall_ne_some]
  exact fun key keyed => notGate (hasGate_of_key? keyed)

theorem circuit_of_not_hasGate {L : Layout} {id : NodeId} (notGate : ¬ L.HasGate id) :
    L.circuit id = none := by
  rw [circuit, key?_of_not_hasGate notGate, Option.map_none]

/-- Nodes fit their kinds, drivers may drive, keys are unique, and gates form no cycle. -/
structure Sound (L : Layout) : Prop where
  fits : ∀ {id n}, L id = some n → n.Fits id
  driven : ∀ {id n p d}, L id = some n → n.driver p = some d → L.MayDrive d
  unique : ∀ {x y key}, L.key? x = some key → L.key? y = some key → x = y
  acyclic : L.circuit.Acyclic

namespace Sound

variable {L : Layout}

theorem key?_of_hasGate (sound : L.Sound) {id : NodeId} (gate : L.HasGate id) :
    ∃ key, L.key? id = some key ∧ key.Proper := by
  obtain ⟨n, held, isGate⟩ := gate
  rw [key?_of_node held]
  exact (sound.fits held).gate isGate

theorem hasGate_iff (sound : L.Sound) {id : NodeId} :
    L.HasGate id ↔ ∃ key, L.key? id = some key :=
  ⟨fun gate => (sound.key?_of_hasGate gate).imp fun _ => And.left,
    fun ⟨_, held⟩ => hasGate_of_key? held⟩

theorem proper (sound : L.Sound) {id : NodeId} {key : Key} (held : L.key? id = some key) :
    key.Proper := by
  obtain ⟨other, held', proper⟩ := sound.key?_of_hasGate (hasGate_of_key? held)
  rw [held] at held'
  exact Option.some.inj held' ▸ proper

theorem mayDrive_operand (sound : L.Sound) {id d : NodeId} {key : Key}
    (held : L.key? id = some key) (operand : key.first = d ∨ key.second = d) : L.MayDrive d := by
  obtain ⟨n, live, keyed⟩ := key?_eq_some_iff.mp held
  obtain ⟨first, second⟩ := Node.driver_of_key? keyed
  rcases operand with rfl | rfl
  · exact sound.driven (p := .first) live first
  · exact sound.driven (p := .second) live second

theorem mayDrive_of_reads (sound : L.Sound) {id d : NodeId} (read : L.circuit.Reads id d) :
    L.MayDrive d := by
  obtain ⟨key, held, operand⟩ := reads_circuit_iff.mp read
  exact sound.mayDrive_operand held operand

end Sound

theorem sound_empty : Sound fun _ => none where
  fits held := by cases held
  driven held := by cases held
  unique held := by cases held
  acyclic := ⟨fun _ => 0, by rintro id d ⟨r, held, _⟩; cases held⟩

/-! ## Changing one node -/

theorem key?_update (L : Layout) (id : NodeId) (n : Option Node) :
    key? (Function.update L id n) = Function.update L.key? id (n.bind Node.key?) := by
  funext x
  by_cases same : x = id
  · subst same
    simp [key?]
  · simp [key?, same]

theorem circuit_update (L : Layout) (id : NodeId) (n : Option Node) :
    circuit (Function.update L id n) =
      Function.update L.circuit id ((n.bind Node.key?).map Key.request) := by
  funext x
  unfold circuit
  rw [key?_update]
  by_cases same : x = id
  · subst same
    simp
  · simp [same]

theorem circuit_update_of_not_gate {L : Layout} {id : NodeId} {n : Option Node}
    (before : L.key? id = none) (after : n.bind Node.key? = none) :
    circuit (Function.update L id n) = L.circuit := by
  rw [circuit_update, after, Function.update_eq_self_iff]
  simp [circuit, before]

theorem key?_update_of_not_gate {L : Layout} {id : NodeId} {n : Option Node}
    (before : L.key? id = none) (after : n.bind Node.key? = none) :
    key? (Function.update L id n) = L.key? := by
  rw [key?_update, after, Function.update_eq_self_iff, before]

theorem mayDrive_update {L : Layout} {id : NodeId} {n : Node} {x : NodeId} :
    MayDrive (Function.update L id (some n)) x ↔
      if x = id then n.isOutput = false else L.MayDrive x := by
  unfold MayDrive
  split
  · next same => simp [same]
  · next other => simp [other]

theorem hasGate_update {L : Layout} {id : NodeId} {n : Node} {x : NodeId} :
    HasGate (Function.update L id (some n)) x ↔
      if x = id then n.isGate = true else L.HasGate x := by
  unfold HasGate
  split
  · next same => simp [same]
  · next other => simp [other]

/-- A node may be put in place of another one, or where there was none, if it fits its kind, its
drivers may drive, it may drive if the old one could, its key is new, and what it reads does not
depend on it. -/
theorem Sound.update {L : Layout} (sound : L.Sound) {id : NodeId} {n : Node} (fits : n.Fits id)
    (driven : ∀ p d, n.driver p = some d → L.MayDrive d)
    (drives : L.MayDrive id → n.isOutput = false)
    (fresh : ∀ key, n.key? = some key → ∀ x, x ≠ id → L.key? x ≠ some key)
    (apart : ∀ key, n.key? = some key → ∀ d, key.first = d ∨ key.second = d →
      ¬ L.circuit.Depends d id) :
    Sound (Function.update L id (some n)) := by
  -- Whatever could drive before still can, so the drivers of the other nodes stay fit.
  have drivers : ∀ {d}, L.MayDrive d → MayDrive (Function.update L id (some n)) d := by
    intro d before
    rw [mayDrive_update]
    split
    · next same => exact drives (same ▸ before)
    · exact before
  refine ⟨fun {x m} held => ?_, fun {x m p d} held wire => ?_, fun {x y key} one two => ?_, ?_⟩
  · by_cases same : x = id
    · subst same
      rw [Function.update_self] at held
      exact Option.some.inj held ▸ fits
    · rw [Function.update_of_ne same] at held
      exact sound.fits held
  · by_cases same : x = id
    · subst same
      rw [Function.update_self] at held
      exact drivers (driven p d (Option.some.inj held ▸ wire))
    · rw [Function.update_of_ne same] at held
      exact drivers (sound.driven held wire)
  · rw [key?_update] at one two
    -- Two nodes with one key are both old, or the key of the new one was not fresh.
    by_cases left : x = id <;> by_cases right : y = id
    · rw [left, right]
    · rw [left, Function.update_self] at one
      rw [Function.update_of_ne right] at two
      exact absurd two (fresh key one y right)
    · rw [right, Function.update_self] at two
      rw [Function.update_of_ne left] at one
      exact absurd one (fresh key two x left)
    · rw [Function.update_of_ne left] at one
      rw [Function.update_of_ne right] at two
      exact sound.unique one two
  · rw [circuit_update, Option.bind_some]
    cases keyed : n.key? with
    -- Without a key the node reads nothing as a gate, and the old ranks serve.
    | none =>
      obtain ⟨rank, ranked⟩ := sound.acyclic
      refine ⟨rank, fun x d read => ranked x d ?_⟩
      obtain ⟨r, held, read⟩ := read
      by_cases same : x = id
      · subst same
        simp at held
      · rw [Function.update_of_ne same] at held
        exact ⟨r, held, read⟩
    | some key =>
      exact sound.acyclic.update fun d read => apart key keyed d (Key.reads_request.mp read)

/-- A node that nothing reads may be removed. -/
theorem Sound.erase {L : Layout} (sound : L.Sound) {id : NodeId}
    (unread : ∀ x n p, L x = some n → n.driver p ≠ some id) :
    Sound (Function.update L id none) := by
  -- All that is left was there before, so only the liveness of drivers needs the hypothesis.
  have before : ∀ {x n}, Function.update L id none x = some n → x ≠ id ∧ L x = some n := by
    intro x n held
    by_cases same : x = id
    · subst same
      simp at held
    · rw [Function.update_of_ne same] at held
      exact ⟨same, held⟩
  have keyBefore : ∀ {x key}, key? (Function.update L id none) x = some key →
      L.key? x = some key := by
    intro x key held
    obtain ⟨n, live, keyed⟩ := key?_eq_some_iff.mp held
    exact key?_eq_some_iff.mpr ⟨n, (before live).2, keyed⟩
  refine ⟨fun held => sound.fits (before held).2, fun {x n p d} held wire => ?_,
    fun one two => sound.unique (keyBefore one) (keyBefore two), ?_⟩
  · obtain ⟨m, live, drives⟩ := sound.driven (before held).2 wire
    refine ⟨m, ?_, drives⟩
    rw [Function.update_of_ne, live]
    rintro rfl
    exact unread x n p (before held).2 wire
  · obtain ⟨rank, ranked⟩ := sound.acyclic
    refine ⟨rank, fun x d read => ranked x d ?_⟩
    obtain ⟨key, held, operand⟩ := reads_circuit_iff.mp read
    exact reads_circuit_iff.mpr ⟨key, keyBefore held, operand⟩

end Layout

end GateNet
