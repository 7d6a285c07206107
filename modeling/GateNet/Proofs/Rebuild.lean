import GateNet.Network.Redefine
import GateNet.Proofs.Safety
import GateNet.Proofs.Settled

/-!
# Rebuilding a cone

While the cone of a gate is rebuilt, its gates are of two sorts.  The visited ones have a
replacement that carries their new word.  The others are as they were, and read what was there
before, except that some of them were given out as replacements: these are settled with their old
words and pinned.  Every step keeps what is settled, so at the end each output can be moved to the
replacement of what it read.
-/

namespace GateNet

/-! ## The order of the visits -/

theorem Layout.DriversFirst.pairwise {L : Layout} {order : List NodeId}
    (ordered : L.DriversFirst order) : order.Pairwise fun x y => ¬ L.circuit.Reads x y := by
  rw [List.pairwise_iff_getElem]
  intro i j small small' lower read
  have split : order = order.take i ++ order[i] :: order.drop (i + 1) := by
    rw [← List.drop_eq_getElem_cons small, List.take_append_drop]
  have early := ordered.earlier split read ((ordered.exact _).mp (List.getElem_mem small'))
  obtain ⟨k, below, same⟩ := List.mem_take_iff_getElem.mp early
  have index := (ordered.nodup.getElem_inj_iff).mp same
  omega

/-- The gates above a gate, each after the gates above it that it reads. -/
structure Above (L : Layout) (id : NodeId) (above : List NodeId) : Prop where
  nodup : above.Nodup
  exact : ∀ x, x ∈ above ↔ L.HasGate x ∧ L.circuit.Depends x id ∧ x ≠ id
  earlier : ∀ {before x after}, above = before ++ x :: after →
    ∀ {d}, L.circuit.Reads x d → d ∈ above → d ∈ before

theorem Layout.DriversFirst.above {L : Layout} {order : List NodeId}
    (ordered : L.DriversFirst order) (acyclic : L.circuit.Acyclic) {id : NodeId}
    {member : NodeId → Bool} (members : ∀ x, member x = true ↔ L.circuit.Depends x id) :
    Above L id (order.filter fun x => member x && x != id) where
  nodup := ordered.nodup.filter _
  exact x := by
    rw [List.mem_filter, ordered.exact, Bool.and_eq_true, members, bne_iff_ne]
  earlier {before x after} split d read listed := by
    have pairwise := ordered.pairwise.filter fun x => member x && x != id
    rw [split] at pairwise listed
    rcases List.mem_append.mp listed with early | late
    · exact early
    · rcases List.mem_cons.mp late with rfl | late
      · exact absurd .refl (acyclic.not_depends read)
      · have later := (List.pairwise_append.mp pairwise).2.1
        exact absurd read ((List.pairwise_cons.mp later).1 d late)

/-! ## Replacements -/

namespace Rebuild

theorem resolve_eq (replaced : Array (Option Signal)) (id : NodeId) (inverted : Bool) :
    resolve replaced ⟨some id, inverted⟩ = (resolve replaced (.positive id)).xor inverted := by
  unfold resolve
  simp only [Signal.positive, Option.bind_some]
  cases (replaced[id]?).join with
  | none => simp [Signal.xor]
  | some signal => simp [Signal.xor]

theorem resolve_of_none {replaced : Array (Option Signal)} {id : NodeId}
    (fresh : replaced[id]? = some none) : resolve replaced (.positive id) = .positive id := by
  simp [resolve, Signal.positive, fresh]

theorem resolve_of_some {replaced : Array (Option Signal)} {id : NodeId} {signal : Signal}
    (held : replaced[id]? = some (some signal)) : resolve replaced (.positive id) = signal := by
  simp [resolve, Signal.positive, held, Signal.xor]

theorem resolve_setIfInBounds_of_ne (replaced : Array (Option Signal)) {id x : NodeId}
    (different : x ≠ id) (signal : Option Signal) :
    resolve (replaced.setIfInBounds id signal) (.positive x) = resolve replaced (.positive x) := by
  simp [resolve, Signal.positive, Array.getElem?_setIfInBounds_ne (Ne.symm different)]

/-- The replacement of a signal is carried when that of its node is. -/
theorem carried_resolve {replaced : Array (Option Signal)} {member : NodeId → Prop}
    {g v : NodeId → Word} {s : Signal}
    (carried : ∀ d, s.node = some d → Carried member g (resolve replaced (.positive d)) (v d)) :
    Carried member g (resolve replaced s) (s.word v) := by
  obtain ⟨_ | d, inverted⟩ := s
  · exact ⟨by rintro d ⟨⟩, rfl⟩
  · rw [resolve_eq]
    obtain ⟨inside, word_eq⟩ := carried d rfl
    exact ⟨inside, by rw [Signal.word_xor, word_eq]; rfl⟩

/-- A replacement is recorded, and its node pinned. -/
def withReplacement (r : Rebuild) (id : NodeId) (signal : Signal) : Rebuild :=
  { r with
    pinned := match signal.node with
      | some node => r.pinned.add node
      | none => r.pinned
    replaced := r.replaced.setIfInBounds id (some signal) }

theorem replace_eq {r : Rebuild} {id : NodeId} (small : id < r.replaced.size) (signal : Signal) :
    r.replace id signal = .ok (r.withReplacement id signal) := by
  rw [replace, storeAt_eq small]
  rfl

/-- The state before the first visit: only the gate itself has a replacement. -/
def start (net : Network) (id : NodeId) (signal : Signal) : Rebuild where
  network := net
  replaced := (Array.replicate net.nodes.bound none).setIfInBounds id (some signal)
  pinned := .none net.nodes.bound

/-- What is settled in one state is settled in a later one, and as it was. -/
structure Keeps (r : Rebuild) (member : NodeId → Prop) (next : Rebuild) (more : NodeId → Prop) :
    Prop where
  inside : ∀ {y}, member y → more y
  layout_eq : ∀ {y}, member y → next.network.nodes.layout y = r.network.nodes.layout y

theorem Keeps.refl (r : Rebuild) (member : NodeId → Prop) : r.Keeps member r member :=
  ⟨id, fun _ => rfl⟩

theorem Keeps.trans {r next last : Rebuild} {member more most : NodeId → Prop}
    (first : r.Keeps member next more) (second : next.Keeps more last most) :
    r.Keeps member last most :=
  ⟨fun inside => second.inside (first.inside inside),
    fun inside => (second.layout_eq (first.inside inside)).trans (first.layout_eq inside)⟩

end Rebuild

/-! ## The invariant -/

section

variable (net : Network) (id : NodeId) (source old new : NodeId → Word)

/-- The words of a network, and its words once a gate has another one. -/
structure Rewording : Prop where
  before : ∀ {x}, net.nodes.layout.MayDrive x →
    net.nodes.layout.circuit.Solves (fun r v => r.word v) source old x
  after : ∀ {x}, net.nodes.layout.MayDrive x → x ≠ id →
    net.nodes.layout.circuit.Solves (fun r v => r.word v) source new x

/-- A signal that can take the place of a gate: it does not lie above the gate, and has the new
word of the gate already. -/
structure Replaceable (signal : Signal) : Prop where
  rewording : Rewording net id source old new
  gate : net.nodes.layout.HasGate id
  fit : net.Fit signal
  apart : ∀ d, signal.node = some d → ¬ net.nodes.layout.circuit.Depends d id ∨ d = id
  word : signal.word old = new id

/-- A network while the gates above a gate are visited: the ones in `done` were. -/
structure Rebuilding (above done : List NodeId) (r : Rebuild) (member : NodeId → Prop)
    (g : NodeId → Word) : Prop where
  sound : r.network.Sound
  inputs : r.network.inputs = net.inputs
  outputs : r.network.outputs = net.outputs
  settled : Settled r.network.nodes.layout source member g
  kept : ∀ {x n}, net.nodes.layout x = some n → x ∉ done → r.network.nodes.layout x = some n
  fresh : ∀ x ∈ above, x ∉ done → r.replaced[x]? = some none
  recorded : ∀ {x signal}, r.replaced[x]? = some (some signal) → x = id ∨ x ∈ done
  size : r.pinned.flags.size = r.replaced.size
  pinned : ∀ x ∈ above, x ∉ done → member x → r.pinned.contains x = true
  carried : ∀ {x}, net.nodes.layout.MayDrive x → (x ∈ above → x ∈ done) →
    Carried member g (Rebuild.resolve r.replaced (.positive x)) (new x)
  base : ∀ {x}, net.nodes.layout.MayDrive x → ¬ net.nodes.layout.circuit.Depends x id ∨ x = id →
    member x ∧ g x = old x

end

section

variable {net : Network} {id : NodeId} {source old new : NodeId → Word}

theorem Rewording.agree (rewording : Rewording net id source old new) (sound : net.Sound) {x : NodeId}
    (drives : net.nodes.layout.MayDrive x) (apart : ¬ net.nodes.layout.circuit.Depends x id) :
    new x = old x := by
  have closed : ∀ x d,
      net.nodes.layout.MayDrive x ∧ ¬ net.nodes.layout.circuit.Depends x id →
      net.nodes.layout.circuit.Reads x d →
      net.nodes.layout.MayDrive d ∧ ¬ net.nodes.layout.circuit.Depends d id :=
    fun x d inside read => ⟨sound.woven.layout.mayDrive_of_reads read, fun depends =>
      inside.2 (.head read depends)⟩
  refine Circuit.solution_unique sound.woven.layout.acyclic Request.local_word closed
    (fun _ _ => rfl) (fun _ _ _ => rfl)
    (fun x inside => rewording.after inside.1 ?_) (fun x inside => rewording.before inside.1) x
    ⟨drives, apart⟩
  rintro rfl
  exact inside.2 .refl

namespace Rebuilding

variable {above done : List NodeId} {r : Rebuild} {member more : NodeId → Prop}
  {g g' : NodeId → Word}

theorem small (rebuilding : Rebuilding net id source old new above done r member g) {x : NodeId}
    (listed : x ∈ above) (late : x ∉ done) : x < r.replaced.size := by
  obtain ⟨small, _⟩ := Array.getElem?_eq_some_iff.mp (rebuilding.fresh x listed late)
  exact small

/-- A visited gate: a signal carries its new word in a network that is otherwise the same. -/
structure Visited (source : NodeId → Word) (r : Rebuild) (member more : NodeId → Prop)
    (g g' : NodeId → Word) (x : NodeId) (signal : Signal) (word : Word) (after : Network) :
    Prop where
  sound : after.Sound
  inputs : after.inputs = r.network.inputs
  outputs : after.outputs = r.network.outputs
  kept : ∀ {y n}, r.network.nodes.layout y = some n → y ≠ x → after.nodes.layout y = some n
  settled : Settled after.nodes.layout source more g'
  grown : ∀ {y}, member y → more y ∧ g' y = g y
  carried : Carried more g' signal word
  only : ∀ {y}, more y → member y ∨ signal.node = some y

theorem undone {x y : NodeId} (late : y ∉ done ++ [x]) : y ∉ done ∧ y ≠ x := by
  rw [List.mem_append, List.mem_singleton, not_or] at late
  exact late

theorem carried_of_ne (rebuilding : Rebuilding net id source old new above done r member g)
    (grown : ∀ {y}, member y → more y ∧ g' y = g y) {x y : NodeId} (different : y ≠ x)
    (drives : net.nodes.layout.MayDrive y) (visited : y ∈ above → y ∈ done ++ [x]) :
    Carried more g' (Rebuild.resolve r.replaced (.positive y)) (new y) := by
  refine (rebuilding.carried drives fun listed => ?_).mono grown
  simpa [different] using visited listed

/-- A gate that keeps its id is recorded by the network alone. -/
theorem record_same (rebuilding : Rebuilding net id source old new above done r member g)
    {x : NodeId} (listed : x ∈ above) (late : x ∉ done) {after : Network}
    (visited : Visited source r member more g g' x (.positive x) (new x) after) :
    Rebuilding net id source old new above (done ++ [x]) { r with network := after } more g' := by
  refine ⟨visited.sound, visited.inputs.trans rebuilding.inputs,
    visited.outputs.trans rebuilding.outputs, visited.settled,
    fun held late => visited.kept (rebuilding.kept held (undone late).1) (undone late).2,
    fun y listed late => rebuilding.fresh y listed (undone late).1,
    fun held => (rebuilding.recorded held).imp_right (List.mem_append_left _), rebuilding.size,
    fun y listed late inside => ?_, fun {y} drives done => ?_, fun drives below => ?_⟩
  · rcases visited.only inside with inside | here
    · exact rebuilding.pinned y listed (undone late).1 inside
    · exact absurd (Option.some.inj here).symm (undone late).2
  · by_cases same : y = x
    · subst same
      show Carried _ _ (Rebuild.resolve r.replaced _) _
      rw [Rebuild.resolve_of_none (rebuilding.fresh y listed late)]
      exact visited.carried
    · exact rebuilding.carried_of_ne visited.grown same drives done
  · obtain ⟨inside, word⟩ := rebuilding.base drives below
    exact ⟨(visited.grown inside).1, (visited.grown inside).2.trans word⟩

/-- Any other signal is entered as the replacement of the gate, and its node is pinned. -/
theorem record_replaced (rebuilding : Rebuilding net id source old new above done r member g)
    {x : NodeId} (listed : x ∈ above) (late : x ∉ done) {signal : Signal} {after : Network}
    (visited : Visited source r member more g g' x signal (new x) after) :
    Rebuilding net id source old new above (done ++ [x])
      (Rebuild.withReplacement { r with network := after } x signal) more g' := by
  have small : x < r.replaced.size := rebuilding.small listed late
  refine ⟨visited.sound, visited.inputs.trans rebuilding.inputs,
    visited.outputs.trans rebuilding.outputs, visited.settled,
    fun held late => visited.kept (rebuilding.kept held (undone late).1) (undone late).2,
    fun y listed late => ?_, fun {y q} held => ?_, ?_, fun y listed late inside => ?_,
    fun {y} drives done => ?_, fun drives below => ?_⟩
  · show (r.replaced.setIfInBounds x (some signal))[y]? = some none
    rw [Array.getElem?_setIfInBounds_ne (undone late).2.symm]
    exact rebuilding.fresh y listed (undone late).1
  · by_cases same : y = x
    · simp [same]
    · replace held : (r.replaced.setIfInBounds x (some signal))[y]? = some (some q) := held
      rw [Array.getElem?_setIfInBounds_ne (Ne.symm same)] at held
      exact (rebuilding.recorded held).imp_right (List.mem_append_left _)
  · unfold Rebuild.withReplacement
    cases signal.node with
    | none => exact rebuilding.size.trans Array.size_setIfInBounds.symm
    | some d =>
      exact (Marks.size_add ..).trans (rebuilding.size.trans Array.size_setIfInBounds.symm)
  · -- The node of the signal is pinned, and the gate is no more to be visited.
    have bounded : y < r.pinned.flags.size := by
      rw [rebuilding.size]
      exact rebuilding.small listed (undone late).1
    unfold Rebuild.withReplacement
    rcases visited.only inside with inside | here
    · have marked := rebuilding.pinned y listed (undone late).1 inside
      cases signal.node with
      | none => exact marked
      | some d => exact (Marks.contains_add ..).mpr (.inr marked)
    · rw [here]
      exact (Marks.contains_add ..).mpr (.inl ⟨rfl, bounded⟩)
  · show Carried _ _ (Rebuild.resolve (r.replaced.setIfInBounds x (some signal)) _) _
    by_cases same : y = x
    · subst same
      rw [Rebuild.resolve_of_some (Array.getElem?_setIfInBounds_self_of_lt small)]
      exact visited.carried
    · rw [Rebuild.resolve_setIfInBounds_of_ne _ same]
      exact rebuilding.carried_of_ne visited.grown same drives done
  · obtain ⟨inside, word⟩ := rebuilding.base drives below
    exact ⟨(visited.grown inside).1, (visited.grown inside).2.trans word⟩

/-- What is known of a gate when its turn comes: its operands are carried, and what its new word
has to be. -/
structure Turn (above before : List NodeId) (r : Rebuild) (member : NodeId → Prop)
    (g new : NodeId → Word) (x : NodeId) (key : Key) : Prop where
  listed : x ∈ above
  late : x ∉ before
  keyed : r.network.nodes.layout.key? x = some key
  left : Carried member g (Rebuild.resolve r.replaced (.positive key.first)) (new key.first)
  right : Carried member g (Rebuild.resolve r.replaced (.positive key.second)) (new key.second)
  word : new x = key.gate.evalWords (new key.first) (new key.second)

theorem turn {before after : List NodeId}
    (rebuilding : Rebuilding net id source old new above before r member g) (sound : net.Sound)
    (listing : Above net.nodes.layout id above) (rewording : Rewording net id source old new)
    {x : NodeId} (split : above = before ++ x :: after) :
    ∃ key, Turn above before r member g new x key := by
  have listed : x ∈ above := by simp [split]
  have late : x ∉ before := not_mem_before listing.nodup split
  obtain ⟨gate, _, different⟩ := (listing.exact x).mp listed
  obtain ⟨key, keyed, _⟩ := sound.woven.layout.key?_of_hasGate gate
  obtain ⟨n, live, nodeKey⟩ := Layout.key?_eq_some_iff.mp keyed
  have operand : ∀ d, key.first = d ∨ key.second = d →
      Carried member g (Rebuild.resolve r.replaced (.positive d)) (new d) := by
    intro d operand
    have read := Layout.reads_circuit_iff.mpr ⟨key, keyed, operand⟩
    exact rebuilding.carried (sound.woven.layout.mayDrive_of_reads read)
      (listing.earlier split read)
  exact ⟨key, listed, late, (Layout.key?_of_node (rebuilding.kept live late)).trans nodeKey,
    operand key.first (.inl rfl), operand key.second (.inr rfl),
    (Layout.solves_gate_iff keyed).mp (rewording.after gate.mayDrive different)⟩

theorem visit_same {before : List NodeId}
    (rebuilding : Rebuilding net id source old new above before r member g) {x : NodeId} {key : Key}
    (turn : Turn above before r member g new x key)
    (first : Rebuild.resolve r.replaced (.positive key.first) = .positive key.first)
    (second : Rebuild.resolve r.replaced (.positive key.second) = .positive key.second) :
    ∃ more g', Rebuilding net id source old new above (before ++ [x]) r more g' ∧
      r.Keeps member r more := by
  have left := turn.left
  have right := turn.right
  rw [first] at left
  rw [second] at right
  obtain ⟨more, g', settled, grown, inside, value, only⟩ :=
    rebuilding.settled.adjoin turn.keyed (left.inside _ rfl) (right.inside _ rfl)
  have carried : Carried more g' (.positive x) (new x) := by
    refine ⟨fun d here => Option.some.inj here ▸ inside, ?_⟩
    rw [turn.word, ← left.word_eq, ← right.word_eq]
    exact value
  exact ⟨more, g', rebuilding.record_same turn.listed turn.late
    ⟨rebuilding.sound, rfl, rfl, fun held _ => held, settled, grown, carried,
      fun inside => (only inside).imp_right fun same => congrArg some same.symm⟩,
    fun inside => (grown inside).1, fun _ => rfl⟩

theorem reusable {before : List NodeId}
    (rebuilding : Rebuilding net id source old new above before r member g) {x : NodeId} {key : Key}
    (turn : Turn above before r member g new x key) {y : NodeId}
    (reused : (if r.pinned.contains x then none else some x) = some y) : y = x ∧ ¬ member x := by
  split at reused
  · cases reused
  · next free =>
    exact ⟨(Option.some.inj reused).symm, fun inside =>
      free (rebuilding.pinned x turn.listed turn.late inside)⟩

/-- What is settled does not depend on a gate that is not, so the gate can take the replacements of
its operands, in place unless it is pinned. -/
theorem realize {before : List NodeId}
    (rebuilding : Rebuilding net id source old new above before r member g) {x : NodeId} {key : Key}
    (turn : Turn above before r member g new x key) :
    ∃ signal next,
      r.network.realize (if r.pinned.contains x then none else some x) key.gate
          (Rebuild.resolve r.replaced (.positive key.first))
          (Rebuild.resolve r.replaced (.positive key.second)) = .ok (signal, next) ∧
        r.network.Realized (if r.pinned.contains x then none else some x)
          (.ofRequest key.gate (Rebuild.resolve r.replaced (.positive key.first))
            (Rebuild.resolve r.replaced (.positive key.second))) signal next := by
  have left := turn.left
  have right := turn.right
  refine Network.realize_spec rebuilding.sound.woven
    (fun d read => rebuilding.settled.drives (left.inside d read))
    (fun d read => rebuilding.settled.drives (right.inside d read)) key.gate fun y reused => ?_
  obtain ⟨rfl, outside⟩ := rebuilding.reusable turn reused
  refine ⟨Layout.hasGate_of_key? turn.keyed, fun d read depends => outside ?_⟩
  have inside : member d := read.elim (left.inside d) (right.inside d)
  exact rebuilding.settled.of_depends inside depends

/-- A gate over replacements is realized and settled there. -/
theorem visit_realized {before : List NodeId}
    (rebuilding : Rebuilding net id source old new above before r member g) {x : NodeId} {key : Key}
    (turn : Turn above before r member g new x key) :
    ∃ signal next more g',
      r.network.realize (if r.pinned.contains x then none else some x) key.gate
          (Rebuild.resolve r.replaced (.positive key.first))
          (Rebuild.resolve r.replaced (.positive key.second)) = .ok (signal, next) ∧
        Rebuilding net id source old new above (before ++ [x])
          (if signal = .positive x then { r with network := next }
            else Rebuild.withReplacement { r with network := next } x signal) more g' ∧
        r.Keeps member { r with network := next } more := by
  have left := turn.left
  have right := turn.right
  obtain ⟨signal, next, made, realized⟩ := rebuilding.realize turn
  obtain ⟨more, g', settled, grown, carried, only⟩ := realized.settles rebuilding.settled left
    right fun y reused => by
      obtain ⟨rfl, outside⟩ := rebuilding.reusable turn reused
      exact outside
  rw [← turn.word] at carried
  have visited : Visited source r member more g g' x signal (new x) next :=
    ⟨realized.sound rebuilding.sound, realized.inputs, realized.outputs,
      fun held different => realized.layout_of_ne held fun reused =>
        different (rebuilding.reusable turn reused).1, settled, grown, carried, only⟩
  refine ⟨signal, next, more, g', made, ?_, fun inside => (grown inside).1, fun {y} inside => ?_⟩
  · split
    · next same =>
      subst same
      exact rebuilding.record_same turn.listed turn.late visited
    · exact rebuilding.record_replaced turn.listed turn.late visited
  · -- A gate that is rewired was not settled.
    obtain ⟨n, held, _⟩ := rebuilding.settled.drives inside
    rw [held]
    refine realized.layout_of_ne held fun reused => ?_
    obtain ⟨rfl, outside⟩ := rebuilding.reusable turn reused
    exact outside inside

/-- What a visit does: nothing if the operands are their own replacements. -/
theorem visit_eq {before : List NodeId}
    (rebuilding : Rebuilding net id source old new above before r member g) {x : NodeId} {key : Key}
    (turn : Turn above before r member g new x key) :
    r.visit x =
      if Rebuild.resolve r.replaced (.positive key.first) = .positive key.first ∧
          Rebuild.resolve r.replaced (.positive key.second) = .positive key.second then .ok r
      else do
        let (signal, next) ← r.network.realize (if r.pinned.contains x then none else some x)
          key.gate (Rebuild.resolve r.replaced (.positive key.first))
          (Rebuild.resolve r.replaced (.positive key.second))
        return if signal = .positive x then { r with network := next }
          else Rebuild.withReplacement { r with network := next } x signal := by
  obtain ⟨n, live, nodeKey⟩ := Layout.key?_eq_some_iff.mp turn.keyed
  obtain ⟨m, found, rfl⟩ := Store.layout_eq_some_iff.mp live
  obtain ⟨first, second⟩ := Node.driver_of_key? nodeKey
  obtain ⟨_, function⟩ := Node.gateOperands_of_key? nodeKey
  rw [Node.core_first] at first
  rw [Node.core_second] at second
  rw [Node.core_gate] at function
  have marked : r.pinned.has x = .ok (r.pinned.contains x) :=
    Marks.has_eq (rebuilding.size ▸ rebuilding.small turn.listed turn.late)
  have recorded : ∀ next signal, Rebuild.replace { r with network := next } x signal =
      .ok (Rebuild.withReplacement { r with network := next } x signal) :=
    fun next signal => Rebuild.replace_eq (r := { r with network := next })
      (rebuilding.small turn.listed turn.late) signal
  rw [Rebuild.visit, Store.fetch_of_get? found, ok_bind, marked]
  simp only [first, second, function, recorded]
  refine if_congr Iff.rfl rfl ?_
  rw [ok_bind]
  congr 1
  funext made
  split <;> rfl

/-- A visit succeeds, settles the visited gate and keeps what is settled. -/
theorem visit {before after : List NodeId}
    (rebuilding : Rebuilding net id source old new above before r member g) (sound : net.Sound)
    (listing : Above net.nodes.layout id above) (rewording : Rewording net id source old new)
    {x : NodeId} (split : above = before ++ x :: after) :
    ∃ next more g', r.visit x = .ok next ∧
      Rebuilding net id source old new above (before ++ [x]) next more g' ∧
      r.Keeps member next more := by
  obtain ⟨key, turn⟩ := rebuilding.turn sound listing rewording split
  rw [rebuilding.visit_eq turn]
  split
  · next unchanged =>
    obtain ⟨more, g', rebuilding, keeps⟩ := rebuilding.visit_same turn unchanged.1 unchanged.2
    exact ⟨r, more, g', rfl, rebuilding, keeps⟩
  · obtain ⟨signal, next, more, g', made, rebuilding, keeps⟩ := rebuilding.visit_realized turn
    refine ⟨_, more, g', congrArg (· >>= _) made, rebuilding, keeps.inside, fun inside => ?_⟩
    rw [← keeps.layout_eq inside]
    split <;> rfl

/-- The next visits succeed, whatever their number, and keep what is settled. -/
theorem visits {before later back : List NodeId}
    (rebuilding : Rebuilding net id source old new above before r member g) (sound : net.Sound)
    (listing : Above net.nodes.layout id above) (rewording : Rewording net id source old new)
    (split : above = before ++ later ++ back) :
    ∃ next more g', later.foldlM Rebuild.visit r = .ok next ∧
      Rebuilding net id source old new above (before ++ later) next more g' ∧
      r.Keeps member next more := by
  induction later generalizing before r member g with
  | nil => exact ⟨r, member, g, rfl, by rwa [List.append_nil], .refl r member⟩
  | cons x later inductionHypothesis =>
    have here : above = before ++ x :: (later ++ back) := by simp [split]
    obtain ⟨middle, _, _, visited, rebuilding, keeps⟩ :=
      rebuilding.visit sound listing rewording here
    obtain ⟨next, more, g', ran, rebuilding, keeps'⟩ :=
      inductionHypothesis rebuilding (by simp [split])
    refine ⟨next, more, g', ?_, ?_, keeps.trans keeps'⟩
    · rw [List.foldlM_cons, visited]
      exact ran
    · rwa [List.append_cons]

end Rebuilding

/-- Before the first visit, what does not depend on the gate is settled, and so is the gate. -/
theorem rebuilding_start (sound : net.Sound) {signal : Signal}
    (replaceable : Replaceable net id source old new signal)
    {above : List NodeId} (listing : Above net.nodes.layout id above) :
    Rebuilding net id source old new above [] (.start net id signal)
      (fun x => net.nodes.layout.MayDrive x ∧ (¬ net.nodes.layout.circuit.Depends x id ∨ x = id))
      old := by
  obtain ⟨rewording, gate, fit, apart, word⟩ := replaceable
  have small : ∀ {x}, net.nodes.layout.MayDrive x → x < net.nodes.bound := by
    rintro x ⟨n, held, _⟩
    exact sound.lt_bound held
  -- So far only the gate itself has a replacement.
  have unset : ∀ {x}, net.nodes.layout.MayDrive x → x ≠ id →
      ((Array.replicate net.nodes.bound none).setIfInBounds id (some signal))[x]? = some none := by
    intro x drives different
    rw [Array.getElem?_setIfInBounds_ne different.symm, Array.getElem?_replicate,
      if_pos (small drives)]
  refine ⟨sound, rfl, rfl, ⟨And.left, fun {x d} inside read => ?_, fun inside =>
    rewording.before inside.1⟩, fun held _ => held, fun x listed _ => ?_, fun {x q} held => ?_, ?_,
    fun x listed _ inside => ?_, fun {x} drives outside => ?_,
    fun drives below => ⟨⟨drives, below⟩, rfl⟩⟩
  · refine ⟨sound.woven.layout.mayDrive_of_reads read, .inl fun depends => ?_⟩
    rcases inside.2 with apart | rfl
    · exact apart (.head read depends)
    · exact sound.woven.layout.acyclic.not_depends read depends
  · obtain ⟨above, _, different⟩ := (listing.exact x).mp listed
    exact unset above.mayDrive different
  · by_contra apart
    rw [or_iff_left List.not_mem_nil] at apart
    rw [Rebuild.start, Array.getElem?_setIfInBounds_ne (Ne.symm apart), Array.getElem?_replicate]
      at held
    split at held <;> cases held
  · rw [Rebuild.start, Marks.size_none, Array.size_setIfInBounds, Array.size_replicate]
  · obtain ⟨_, depends, different⟩ := (listing.exact x).mp listed
    exact absurd (inside.2.resolve_right different) (not_not_intro depends)
  · by_cases same : x = id
    · subst same
      rw [Rebuild.start, Rebuild.resolve_of_some
        (Array.getElem?_setIfInBounds_self_of_lt (by simpa using small drives))]
      exact ⟨fun d read => ⟨fit d read, apart d read⟩, word⟩
    · rw [Rebuild.start, Rebuild.resolve_of_none (unset drives same)]
      -- A gate above the given one is still to be visited, so this node is none.
      have below : ¬ net.nodes.layout.circuit.Depends x id := by
        intro depends
        have isGate : net.nodes.layout.HasGate x := by
          rcases Relation.ReflTransGen.cases_head depends with rfl | ⟨d, read, _⟩
          · exact gate
          · obtain ⟨key, keyed, _⟩ := Layout.reads_circuit_iff.mp read
            exact Layout.hasGate_of_key? keyed
        cases outside ((listing.exact x).mpr ⟨isGate, depends, same⟩)
      refine ⟨fun d read => ?_, (rewording.agree sound drives below).symm⟩
      obtain rfl : x = d := Option.some.inj read
      exact ⟨drives, .inl below⟩

/-! ## Moving the outputs -/

/-- A network while outputs are moved: the ones in `done` were. -/
structure Redriven (net : Network) (source : NodeId → Word) (member : NodeId → Prop)
    (g : NodeId → Word) (replaced : Array (Option Signal)) (done : List NodeId)
    (after : Network) : Prop where
  sound : after.Sound
  inputs : after.inputs = net.inputs
  outputs : after.outputs = net.outputs
  settled : Settled after.nodes.layout source member g
  moved : ∀ {o n}, net.nodes.layout o = some n → n.isOutput = true →
    ∃ m, after.nodes.layout o = some m ∧ m.isOutput = true ∧
      m.source = if o ∈ done then Rebuild.resolve replaced n.source else n.source

theorem Redriven.redrive {member : NodeId → Prop} {g : NodeId → Word}
    {replaced : Array (Option Signal)} {done : List NodeId} {after : Network}
    (redriven : Redriven net source member g replaced done after) {o : NodeId} {n : Node}
    (held : net.nodes.layout o = some n) (output : n.isOutput = true)
    (inside : ∀ d, (Rebuild.resolve replaced n.source).node = some d → member d) :
    ∃ next, Rebuild.redrive replaced after (o, n.source) = .ok next ∧
      Redriven net source member g replaced (done ++ [o]) next := by
  obtain ⟨sound, inputs, outputs, settled, moved⟩ := redriven
  unfold Rebuild.redrive
  by_cases same : Rebuild.resolve replaced n.source = n.source
  · -- An output that reads what it read is left alone, and that is right.
    refine ⟨after, if_pos same, sound, inputs, outputs, settled, fun {x k} live isOutput => ?_⟩
    obtain ⟨m, there, isOutput', source_eq⟩ := moved live isOutput
    refine ⟨m, there, isOutput', source_eq.trans ?_⟩
    by_cases here : x = o
    · subst here
      obtain rfl := Option.some.inj (held.symm.trans live)
      simp [same]
    · simp [here]
  · obtain ⟨m, there, isOutput', _⟩ := moved held output
    obtain ⟨nodes, driven, sound', layout_eq⟩ := sound.driveOutput there isOutput' fun d read =>
      settled.drives (inside d read)
    refine ⟨_, (if_neg same).trans driven, sound', inputs, outputs, settled.congr ?_,
      fun {x k} live isOutput => ?_⟩
    · -- Settled nodes may drive and the output may not, so no settled node is changed.
      intro x inside
      show nodes.layout x = _
      rw [layout_eq, Function.update_of_ne]
      rintro rfl
      obtain ⟨k, live, drives⟩ := settled.drives inside
      obtain rfl := Option.some.inj (there.symm.trans live)
      exact absurd (isOutput'.symm.trans drives) (by decide)
    · show ∃ m, nodes.layout x = some m ∧ _
      rw [layout_eq]
      by_cases here : x = o
      · subst here
        obtain rfl := Option.some.inj (held.symm.trans live)
        exact ⟨_, Function.update_self .., isOutput', by simp [Node.reading, Node.source]⟩
      · rw [Function.update_of_ne here]
        simpa [here] using moved live isOutput

/-! ## The whole cone -/

/-- What rebuilding makes: outputs read the new words, and what was below the gate is kept. -/
structure Rebuilt (net : Network) (id : NodeId) (source old new : NodeId → Word) (after : Network)
    (member : NodeId → Prop) (g : NodeId → Word) : Prop where
  sound : after.Sound
  inputs : after.inputs = net.inputs
  outputs : after.outputs = net.outputs
  settled : Settled after.nodes.layout source member g
  carried : ∀ o ∈ net.outputs, Carried member g (after.sourceOf o) ((net.sourceOf o).word new)
  base : ∀ {x}, net.nodes.layout.MayDrive x → ¬ net.nodes.layout.circuit.Depends x id ∨ x = id →
    member x ∧ g x = old x

theorem Network.Sound.isOutput_of_wire (sound : net.Sound) {y x : NodeId} (wire : net.WireTo y x)
    (notGate : ¬ net.nodes.layout.HasGate y) :
    ∃ n, net.nodes.layout y = some n ∧ n.isOutput = true := by
  obtain ⟨n, held⟩ := wire.live
  refine ⟨n, held, ?_⟩
  by_contra drives
  exact notGate (sound.hasGate_of_wire wire ⟨n, held, by simpa using drives⟩)

theorem readings_spec (sound : net.Sound) {cone : Network.Cone}
    (exact : Network.Cone.Exact net id cone) :
    net.readings cone.readers = .ok (cone.readers.toList.map fun y => (y, net.sourceOf y)) := by
  refine mapM_eq fun y listed => ?_
  obtain ⟨notGate, x, wire, _⟩ := (exact.readers y).mp (Array.mem_toList_iff.mp listed)
  obtain ⟨n, held, _⟩ := sound.isOutput_of_wire wire notGate
  obtain ⟨m, found, rfl⟩ := Store.layout_eq_some_iff.mp held
  rw [Network.sourceOf_eq held, Store.fetch_of_get? found]
  rfl

/-- The signal that an output reads is carried, by its replacement if it reads the cone. -/
theorem Rebuilding.carried_source {above : List NodeId} {r : Rebuild} {member : NodeId → Prop}
    {g : NodeId → Word} (rebuilding : Rebuilding net id source old new above above r member g)
    (sound : net.Sound) (rewording : Rewording net id source old new) {cone : Network.Cone}
    (exact : Network.Cone.Exact net id cone) {o : NodeId} {n : Node}
    (held : net.nodes.layout o = some n) (output : n.isOutput = true) :
    Carried member g (Rebuild.resolve r.replaced n.source) (n.source.word new) ∧
      (o ∉ cone.readers → Carried member g n.source (n.source.word new)) := by
  have drives : ∀ d, n.source.node = some d → net.nodes.layout.MayDrive d := fun d read =>
    sound.woven.layout.driven (p := .first) held read
  refine ⟨Rebuild.carried_resolve fun d read => rebuilding.carried (drives d read) fun done => done,
    fun apart => ?_⟩
  have below : ∀ d, n.source.node = some d → ¬ net.nodes.layout.circuit.Depends d id := by
    intro d read depends
    refine apart ((exact.readers o).mpr
      ⟨Layout.not_hasGate_of_isOutput held output, d, ⟨.first, ?_⟩, depends⟩)
    rw [Store.Woven.driverAt_eq net.nodes held]
    exact read
  refine ⟨fun d read => (rebuilding.base (drives d read) (.inl (below d read))).1,
    Signal.word_congr fun d read => ?_⟩
  rw [rewording.agree sound (drives d read) (below d read)]
  exact (rebuilding.base (drives d read) (.inl (below d read))).2

/-- The first visits succeed, whatever their number, and leave the rest to be visited. -/
theorem rebuilding_visits (sound : net.Sound) {signal : Signal}
    (replaceable : Replaceable net id source old new signal) {above front back : List NodeId}
    (listing : Above net.nodes.layout id above) (split : above = front ++ back) :
    ∃ visited member g, front.foldlM Rebuild.visit (.start net id signal) = .ok visited ∧
      Rebuilding net id source old new above front visited member g := by
  have all : above = [] ++ front ++ back := by simpa using split
  obtain ⟨visited, member, g, ran, rebuilding, _⟩ :=
    (rebuilding_start sound replaceable listing).visits sound listing replaceable.rewording all
  exact ⟨visited, member, g, ran, rebuilding⟩

/-- The gates above a gate in the order in which they are visited. -/
def Network.visitOrder (net : Network) (id : NodeId) : Except Fault (List NodeId) := do
  let cone ← net.fanoutCone id
  let order ← net.driversFirst
  let members ← cone.members.pick true order
  return members.filter (· != id)

/-- Rebuilding visits the gates above the gate, and then moves what else read the cone. -/
theorem rebuild_eq (sound : net.Sound) (gate : net.nodes.layout.HasGate id) (signal : Signal) :
    ∃ cone above, net.fanoutCone id = .ok cone ∧ Network.Cone.Exact net id cone ∧
      net.visitOrder id = .ok above ∧ Above net.nodes.layout id above ∧
      net.rebuild id signal =
        above.foldlM Rebuild.visit (.start net id signal) >>= fun rebuilt =>
          (cone.readers.toList.map fun y => (y, net.sourceOf y)).foldlM
            (Rebuild.redrive rebuilt.replaced) rebuilt.network := by
  obtain ⟨cone, coneEq, exact⟩ := Network.fanoutCone_spec sound gate
  obtain ⟨order, orderEq, ordered⟩ := Network.driversFirst_spec sound
  -- The marks and the replacements have a place for every node.
  have picked : cone.members.pick true order = .ok (order.filter cone.members.contains) := by
    have small : ∀ x ∈ order, x < cone.members.flags.size := fun x listed => by
      rw [exact.size]
      obtain ⟨n, held, _⟩ := (ordered.exact x).mp listed
      exact sound.lt_bound held
    simpa using Marks.pick_eq true small
  have listed : ((order.filter cone.members.contains).filter (· != id)) =
      order.filter fun x => cone.members.contains x && x != id := by
    rw [List.filter_filter]
    exact List.filter_congr fun x _ => Bool.and_comm ..
  have placed : id < (Array.replicate net.nodes.bound (none : Option Signal)).size := by
    obtain ⟨n, held, _⟩ := gate
    rw [Array.size_replicate]
    exact sound.lt_bound held
  refine ⟨cone, _, coneEq, exact, ?_, ordered.above sound.woven.layout.acyclic exact.members, ?_⟩
  · rw [Network.visitOrder, coneEq, ok_bind, orderEq, ok_bind, picked, ok_bind, listed]
    rfl
  · rw [Network.rebuild, coneEq, ok_bind, readings_spec sound exact, ok_bind, orderEq, ok_bind,
      picked, ok_bind, listed]
    simp only [exact.size, storeAt_eq placed, ok_bind]
    rfl

/-- Rebuilding succeeds, on top of any signal that can take the place of the gate. -/
theorem rebuild_spec (sound : net.Sound) {signal : Signal}
    (replaceable : Replaceable net id source old new signal) :
    ∃ after member g, net.rebuild id signal = .ok after ∧
      Rebuilt net id source old new after member g := by
  have rewording := replaceable.rewording
  obtain ⟨cone, above, _, exact, _, listing, rebuildEq⟩ := rebuild_eq sound replaceable.gate signal
  obtain ⟨rebuilt, member, g, visited, rebuilding⟩ :=
    rebuilding_visits sound replaceable listing (List.append_nil _).symm
  -- Outputs are not visited, so they are as they were when their turn comes.
  have terminal : ∀ {o n}, net.nodes.layout o = some n → n.isOutput = true → o ∉ above := by
    intro o n held output listed
    exact Layout.not_hasGate_of_isOutput held output ((listing.exact o).mp listed).1
  obtain ⟨after, moved, redriven⟩ := foldlM_spec
    (fun state y => Rebuild.redrive rebuilt.replaced state (y, net.sourceOf y)) cone.readers.toList
    rebuilt.network (Redriven net source member g rebuilt.replaced)
    ⟨rebuilding.sound, rebuilding.inputs, rebuilding.outputs, rebuilding.settled,
      fun {o n} held output => ⟨n, rebuilding.kept held (terminal held output), output, by simp⟩⟩
      <| by
      rintro before y after state split redriven
      have listed : y ∈ cone.readers := Array.mem_toList_iff.mp (by simp [split])
      obtain ⟨notGate, x, wire, _⟩ := (exact.readers y).mp listed
      obtain ⟨n, held, output⟩ := sound.isOutput_of_wire wire notGate
      rw [Network.sourceOf_eq held]
      exact redriven.redrive held output
        (rebuilding.carried_source sound rewording exact held output).1.inside
  refine ⟨after, member, g, ?_, redriven.sound, redriven.inputs, redriven.outputs,
    redriven.settled, fun o listed => ?_, rebuilding.base⟩
  · rw [rebuildEq, visited, ok_bind, List.foldlM_map]
    exact moved
  · obtain ⟨n, held, output⟩ := sound.mem_outputs_iff.mp listed
    obtain ⟨replaced, others⟩ := rebuilding.carried_source sound rewording exact held output
    obtain ⟨m, there, _, source_eq⟩ := redriven.moved held output
    rw [Network.sourceOf_eq there, Network.sourceOf_eq held, source_eq]
    split
    · exact replaced
    · next apart => exact others fun reader => apart (Array.mem_toList_iff.mpr reader)

end

end GateNet
