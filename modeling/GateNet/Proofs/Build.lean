import GateNet.Proofs.Weave

/-!
# What building a gate does

`realize` ends in one of four ways: the value is there already as an operand or a constant, a gate
with the key is found, the gate to reuse is rewired, or a gate is added.  `Realized` lists them,
and all that later proofs need of `realize` is read off its cases.
-/

namespace GateNet

def Node.keyed (n : Node) (key : Key) : Node :=
  { n with gate := key.gate, first := some key.first, second := some key.second }

theorem Node.key?_keyed {n : Node} (isGate : n.isGate = true) (key : Key) :
    (n.keyed key).key? = some key := by
  rw [key?_eq_some_iff]
  exact ⟨isGate, by simp [keyed, hasKey]⟩

def Node.blank (id : NodeId) : Node := { id, kind := .gate }

namespace Layout

theorem Sound.not_depends_free {L : Layout} (sound : L.Sound) {id d : NodeId} (free : L id = none)
    (drives : L.MayDrive d) : ¬ L.circuit.Depends d id := by
  intro depends
  have closed : ∀ x y, L.MayDrive x → L.circuit.Reads x y → L.MayDrive y :=
    fun x y _ read => sound.mayDrive_of_reads read
  exact not_mayDrive_of_none free (Circuit.closed_depends closed drives depends)

/-- A gate can be given a new key whose operands do not depend on it. -/
theorem Sound.keyed {L : Layout} (sound : L.Sound) {id : NodeId} {n : Node} (id_eq : n.id = id)
    (isGate : n.isGate = true) {key : Key}
    (proper : key.Proper) (first : L.MayDrive key.first) (second : L.MayDrive key.second)
    (absent : ∀ x, L.key? x ≠ some key)
    (apart : ∀ d, key.first = d ∨ key.second = d → ¬ L.circuit.Depends d id) :
    Sound (Function.update L id (some (n.keyed key))) := by
  have keyed := Node.key?_keyed isGate key
  refine sound.update ⟨id_eq, fun _ => ⟨key, keyed, proper⟩, fun input => ?_, fun output => ?_⟩ ?_
    (fun _ => ?_) (fun other held x _ => ?_) fun other held => ?_
  · have := Node.not_isGate_of_isInput input
    exact absurd (isGate.symm.trans this) (by decide)
  · have := Node.not_isGate_of_isOutput output
    exact absurd (isGate.symm.trans this) (by decide)
  · rintro (_ | _) d wire
    · obtain rfl : key.first = d := Option.some.inj wire
      exact first
    · obtain rfl : key.second = d := Option.some.inj wire
      exact second
  · show n.isOutput = false
    rw [Node.isOutput_eq, isGate]
    simp
  · obtain rfl := Option.some.inj (keyed.symm.trans held)
    exact absent x
  · obtain rfl := Option.some.inj (keyed.symm.trans held)
    exact apart

end Layout

namespace Store

theorem exists_get?_iff {nodes : Store Node} {d : NodeId} :
    (∃ m, nodes.get? d = some m) ↔ ∃ n, nodes.layout d = some n := by
  constructor
  · exact fun ⟨m, held⟩ => ⟨m.core, layout_of_get? held⟩
  · rintro ⟨n, held⟩
    exact (layout_eq_some_iff.mp held).imp fun _ => And.left

theorem live_of_mayDrive {nodes : Store Node} {d : NodeId} (drives : nodes.layout.MayDrive d) :
    ∃ m, nodes.get? d = some m :=
  exists_get?_iff.mpr (drives.imp fun _ => And.left)

/-- Nodes stay live when one node is changed. -/
theorem live_of_update {before after : Store Node} {id : NodeId} {n : Node}
    (layout_eq : after.layout = Function.update before.layout id (some n)) {d : NodeId}
    (live : ∃ m, before.get? d = some m) : ∃ m, after.get? d = some m := by
  rw [exists_get?_iff] at live ⊢
  rw [layout_eq]
  by_cases same : d = id
  · exact ⟨n, by rw [same, Function.update_self]⟩
  · rwa [Function.update_of_ne same]

end Store

namespace Network

/-! ## Assigning -/

theorem assign_spec (net : Network) {member : NodeId → Prop} (sound : net.nodes.Sound)
    (wired : net.nodes.Wired) (tabled : net.nodes.Tabled net.table member) {id : NodeId} {n : Node}
    (held : net.nodes.layout id = some n) (isGate : n.isGate = true) (outside : ¬ member id)
    {key : Key} (first : net.nodes.layout.MayDrive key.first)
    (second : net.nodes.layout.MayDrive key.second) :
    ∃ nodes table limit, net.assign id key = .ok { net with nodes, table, limit, depth? := none } ∧
      nodes.Sound ∧ nodes.Wired ∧
      nodes.layout = Function.update net.nodes.layout id (some (n.keyed key)) ∧
      nodes.Tabled table (fun x => x = id ∨ member x) ∧
      ∀ x, nodes.readers x = (net.nodes.readers x).map (Fanout.planted id key x) := by
  obtain ⟨m, found, rfl⟩ := Store.layout_eq_some_iff.mp held
  -- The function is written first, while the gate is outside the table and its key still open.
  let marked := net.nodes.modify id ({ · with gate := key.gate })
  have markedSound : marked.Sound := sound.modify id _
  have markedWired : marked.Wired := wired.modify id (fun n p => by cases p <;> rfl) fun _ => rfl
  have markedLayout := Store.layout_modify found ({ · with gate := key.gate })
  have markedReaders : marked.readers = net.nodes.readers := Store.readers_modify _ _ fun _ => rfl
  have markedTabled : marked.Tabled net.table member := by
    have apart : ∀ {x}, member x → x ≠ id := by
      rintro x inside rfl
      exact outside inside
    refine tabled.congr (fun _ => Iff.rfl) (fun x inside => ?_) fun x inside => ?_
    · rw [markedLayout, Function.update_of_ne (apart inside)]
    · rw [Store.get?_modify, if_neg (apart inside)]
  have markedFound : marked.get? id = some { m with gate := key.gate } := by
    rw [Store.get?_modify, if_pos rfl, found]
    rfl
  obtain ⟨half, plugged₁, result₁⟩ := plug_spec { net with nodes := marked } markedSound
    markedWired markedFound .first (some key.first) fun d read =>
      Store.live_of_update markedLayout (Option.some.inj read ▸ Store.live_of_mayDrive first)
  obtain ⟨k, halfFound, halfCore⟩ := Store.layout_eq_some_iff.mp
    ((congrFun result₁.layout_eq id).trans (Function.update_self ..))
  obtain ⟨whole, plugged₂, result₂⟩ := plug_spec { net with nodes := half, depth? := none }
    result₁.sound result₁.wired halfFound .second (some key.second) fun d read =>
      Store.live_of_update result₁.layout_eq (Store.live_of_update markedLayout
        (Option.some.inj read ▸ Store.live_of_mayDrive second))
  -- Only now does the gate have its key, and both drivers list it.
  have layout_eq : whole.layout = Function.update net.nodes.layout id (some (m.core.keyed key)) := by
    rw [result₂.layout_eq, result₁.layout_eq, halfCore, Function.update_idem, markedLayout,
      Function.update_idem]
    rfl
  obtain ⟨l, wholeFound, wholeCore⟩ := Store.layout_eq_some_iff.mp
    ((congrFun layout_eq id).trans (Function.update_self ..))
  have wholeGate : l.isGate = true := by
    rw [← Node.core_isGate, wholeCore]
    exact isGate
  obtain ⟨chained, table, enrolled, ⟨relinked, tabled₁⟩⟩ := enroll_spec
    { net with nodes := whole, depth? := none } result₂.sound
    (result₂.tabled (result₁.tabled markedTabled outside) outside) wholeFound wholeGate outside
  obtain ⟨nodes, table', limit, widened, ⟨relinked', tabled₂⟩⟩ := widenIfFull_spec
    { net with nodes := chained, table, depth? := none } relinked.sound tabled₁
  refine ⟨nodes, table', limit, ?_, relinked'.sound, relinked'.wired (relinked.wired result₂.wired), ?_,
    tabled₂, fun x => ?_⟩
  · rw [assign, Store.update_eq found, ok_bind, plugged₁, ok_bind, plugged₂, ok_bind, enrolled,
      ok_bind]
    exact widened
  · rw [relinked'.layout_eq, relinked.layout_eq, layout_eq]
  · rw [relinked'.readers_eq, relinked.readers_eq, readers_plug result₁.wired halfFound plugged₂,
      readers_plug markedWired markedFound plugged₁]
    show Option.map _ (Option.map _ (marked.readers x)) = _
    rw [markedReaders, Option.map_map]
    rfl

/-- The store that `assign` makes is woven when the layout that it makes is sound. -/
theorem woven_of_assign {nodes : Store Node} {L : Layout} {table : Array (Option NodeId)}
    {member : NodeId → Prop} {id : NodeId} {n : Node} (isGate : n.isGate = true)
    (others : ∀ x, x ≠ id → (member x ↔ L.HasGate x)) (sound : nodes.Sound) (wired : nodes.Wired)
    (layout_eq : nodes.layout = Function.update L id (some n)) (layout : nodes.layout.Sound)
    (tabled : nodes.Tabled table (fun x => x = id ∨ member x)) : nodes.Woven table := by
  refine ⟨sound, layout, wired, tabled.congr (fun x => ?_) (fun _ _ => rfl) fun _ _ => rfl⟩
  rw [layout_eq, Layout.hasGate_update]
  split
  · next same => simp [same, isGate]
  · next different => simp [different, others x different]

/-! ## Realizing -/

/-- The four ways in which a request with a normal form is realized. -/
inductive Realized (net : Network) : Option NodeId → Normal → Signal → Network → Prop
  /-- The value is that of an operand or a constant. -/
  | settled {reuse : Option NodeId} (s : Signal) : Realized net reuse (.settled s) s net
  /-- Some gate has the key. -/
  | found {reuse : Option NodeId} {key : Key} {id : NodeId} (inverted : Bool)
      (held : net.nodes.layout.key? id = some key) :
      Realized net reuse (.keyed key inverted) ⟨some id, inverted⟩ net
  /-- The gate to reuse has another key now. -/
  | rewired {key : Key} {id : NodeId} {n : Node} {nodes : Store Node}
      {table : Array (Option NodeId)} {limit : Nat} (held : net.nodes.layout id = some n)
      (isGate : n.isGate = true) (absent : ∀ x, net.nodes.layout.key? x ≠ some key)
      (woven : nodes.Woven table)
      (layout_eq : nodes.layout = Function.update net.nodes.layout id (some (n.keyed key))) :
      Realized net (some id) (.keyed key false) (.positive id)
        { net with nodes, table, limit, depth? := none }
  /-- There is one gate more. -/
  | added {reuse : Option NodeId} {key : Key} {id : NodeId} {nodes : Store Node}
      {table : Array (Option NodeId)} {limit : Nat} (inverted : Bool)
      (apart : reuse = none ∨ inverted = true)
      (absent : ∀ x, net.nodes.layout.key? x ≠ some key) (free : net.nodes.layout id = none)
      (woven : nodes.Woven table)
      (layout_eq : nodes.layout =
        Function.update net.nodes.layout id (some ((Node.blank id).keyed key))) :
      Realized net reuse (.keyed key inverted) ⟨some id, inverted⟩
        { net with nodes, table, limit, gates := net.gates.push id, depth? := none }

theorem rewire_spec {net : Network} (woven : net.Woven) {id : NodeId}
    (gate : net.nodes.layout.HasGate id) {key : Key} (proper : key.Proper)
    (first : net.nodes.layout.MayDrive key.first) (second : net.nodes.layout.MayDrive key.second)
    (absent : ∀ x, net.nodes.layout.key? x ≠ some key)
    (apart : ∀ d, key.first = d ∨ key.second = d → ¬ net.nodes.layout.circuit.Depends d id) :
    ∃ out after, net.withdraw id = .ok out ∧ out.assign id key = .ok after ∧
      net.Realized (some id) (.keyed key false) (.positive id) after := by
  obtain ⟨n, held, isGate⟩ := gate
  obtain ⟨unchained, table, withdrawn, ⟨relinked, tabled⟩⟩ :=
    withdraw_spec net woven.store woven.tabled ⟨n, held, isGate⟩
  obtain ⟨nodes, table', limit, assigned, sound, wired, layout_eq, tabled', _⟩ := assign_spec
    { net with nodes := unchained, table } relinked.sound (relinked.wired woven.wired) tabled
    (by rw [relinked.layout_eq, held]) isGate (fun inside => inside.2 rfl)
    (by rwa [relinked.layout_eq]) (by rwa [relinked.layout_eq])
  rw [relinked.layout_eq] at layout_eq
  have layoutSound : nodes.layout.Sound := by
    rw [layout_eq]
    exact woven.layout.keyed (woven.layout.fits held).id_eq isGate proper first second absent apart
  refine ⟨_, _, withdrawn, assigned, .rewired held isGate absent ?_ layout_eq⟩
  exact woven_of_assign (n := n.keyed key) isGate
    (fun x different => by simp [different]) sound wired layout_eq layoutSound tabled'

theorem extend_spec {net : Network} (woven : net.Woven) (reuse : Option NodeId) {key : Key}
    {inverted : Bool} (apart : reuse = none ∨ inverted = true) (proper : key.Proper)
    (first : net.nodes.layout.MayDrive key.first) (second : net.nodes.layout.MayDrive key.second)
    (absent : ∀ x, net.nodes.layout.key? x ≠ some key) :
    ∃ id out after, net.addBlankGate = .ok (id, out) ∧ out.assign id key = .ok after ∧
      net.Realized reuse (.keyed key inverted) ⟨some id, inverted⟩ after ∧
      ∀ x, x ≠ id →
        after.nodes.readers x = (net.nodes.readers x).map (Fanout.planted id key x) := by
  obtain ⟨id, blank, addedEq, added⟩ := addNode_spec woven.store .gate
  have grown : ∀ {d}, net.nodes.layout.MayDrive d → blank.layout.MayDrive d := by
    intro d drives
    rw [added.layout_eq, Layout.mayDrive_update]
    split
    · rfl
    · exact drives
  -- The blank gate is in no bucket: the table is exact for the gates that were there.
  obtain ⟨nodes, table, limit, assigned, sound, wired, layout_eq, tabled, readers_eq⟩ := assign_spec
    { net with nodes := blank, gates := net.gates.push id } added.sound
    (added.wired woven.wired (fun p => by cases p <;> rfl) rfl) (added.tabled woven.tabled)
    (n := Node.blank id) (by rw [added.layout_eq, Function.update_self]; rfl) rfl
    (Layout.not_hasGate_of_none added.layout_free) (grown first) (grown second)
  rw [added.layout_eq, Function.update_idem] at layout_eq
  have layoutSound : nodes.layout.Sound := by
    rw [layout_eq]
    refine woven.layout.keyed (n := Node.blank id) rfl rfl proper first second absent ?_
    rintro d (rfl | rfl)
    · exact woven.layout.not_depends_free added.layout_free first
    · exact woven.layout.not_depends_free added.layout_free second
  refine ⟨id, _, _, by rw [addBlankGate, addedEq, ok_bind]; rfl, assigned,
    .added inverted apart absent added.layout_free ?_ layout_eq, fun x other => ?_⟩
  · exact woven_of_assign (n := (Node.blank id).keyed key) rfl (fun _ _ => Iff.rfl) sound wired
      layout_eq layoutSound tabled
  · rw [readers_eq, Store.readers, added.get?_of_ne other]
    rfl

/-- The operands of a key are read by the request, so they may drive when its signals are fit. -/
theorem mayDrive_of_keyed {net : Network} {s t : Signal} (fitFirst : net.Fit s)
    (fitSecond : net.Fit t) {key : Key}
    (operands : s.node = some key.first ∧ t.node = some key.second ∨
      s.node = some key.second ∧ t.node = some key.first) :
    net.nodes.layout.MayDrive key.first ∧ net.nodes.layout.MayDrive key.second := by
  rcases operands with ⟨one, two⟩ | ⟨one, two⟩
  · exact ⟨fitFirst _ one, fitSecond _ two⟩
  · exact ⟨fitSecond _ two, fitFirst _ one⟩

/-- A request over fit signals is realized, in the gate to reuse if its operands do not depend on
it. -/
theorem realize_spec {net : Network} (woven : net.Woven) {s t : Signal} (fitFirst : net.Fit s)
    (fitSecond : net.Fit t) (gate : Gate) {reuse : Option NodeId}
    (reusable : ∀ id, reuse = some id → net.nodes.layout.HasGate id ∧
      ∀ d, s.node = some d ∨ t.node = some d → ¬ net.nodes.layout.circuit.Depends d id) :
    ∃ signal after, net.realize reuse gate s t = .ok (signal, after) ∧
      net.Realized reuse (.ofRequest gate s t) signal after := by
  unfold realize
  rcases Normal.ofRequest_cases gate s t with ⟨r, made, _⟩ | ⟨key, inverted, made, proper, operands⟩
  · rw [made]
    exact ⟨r, net, rfl, .settled r⟩
  · rw [made]
    have read : ∀ d, key.first = d ∨ key.second = d → s.node = some d ∨ t.node = some d := by
      rintro d (rfl | rfl) <;> rcases operands with ⟨one, two⟩ | ⟨one, two⟩ <;> simp [one, two]
    obtain ⟨first, second⟩ := mayDrive_of_keyed fitFirst fitSecond operands
    -- The answer of the table decides: a gate with the key is used as it is.
    obtain ⟨found, searched, exact⟩ := find?_spec net woven.layout woven.tabled key
    cases found with
    | some id =>
      refine ⟨⟨some id, inverted⟩, net, by simp only [searched, ok_bind, pure_eq_ok],
        .found inverted ((exact id).mp rfl)⟩
    | none =>
      have absent : ∀ x, net.nodes.layout.key? x ≠ some key := by
        intro x held
        cases (exact x).mpr held
      -- A new gate is added for an inverted value, even when there is a gate to reuse.
      by_cases fresh : reuse = none ∨ inverted = true
      · obtain ⟨id, out, after, addedEq, assigned, realized, _⟩ :=
          extend_spec woven reuse fresh proper first second absent
        have site : net.site reuse inverted = .ok (id, out) := by
          rcases fresh with rfl | rfl
          · exact addedEq
          · cases reuse <;> exact addedEq
        exact ⟨_, after, by simp only [searched, ok_bind, site, assigned, pure_eq_ok], realized⟩
      · obtain ⟨id, rfl⟩ : ∃ id, reuse = some id := by
          cases reuse with
          | none => exact absurd (.inl rfl) fresh
          | some id => exact ⟨id, rfl⟩
        obtain rfl : inverted = false := by simpa using fresh
        obtain ⟨isGate, apart⟩ := reusable id rfl
        obtain ⟨out, after, withdrawn, assigned, realized⟩ := rewire_spec woven isGate proper first
          second absent fun d operand => apart d (read d operand)
        refine ⟨_, after, ?_, realized⟩
        simp only [searched, ok_bind, site, withdrawn, pure_eq_ok, assigned]
        rfl

namespace Realized

variable {net after : Network} {reuse : Option NodeId} {normal : Normal} {signal : Signal}

theorem inputs (realized : net.Realized reuse normal signal after) : after.inputs = net.inputs := by
  cases realized <;> rfl

theorem outputs (realized : net.Realized reuse normal signal after) :
    after.outputs = net.outputs := by
  cases realized <;> rfl

theorem layout_of_ne (realized : net.Realized reuse normal signal after) {x : NodeId} {n : Node}
    (held : net.nodes.layout x = some n) (different : reuse ≠ some x) :
    after.nodes.layout x = some n := by
  cases realized with
  | settled | found => exact held
  | rewired _ _ _ _ layout_eq =>
    show Store.layout _ x = _
    rw [layout_eq, Function.update_of_ne, held]
    rintro rfl
    exact different rfl
  | added _ _ _ free _ layout_eq =>
    show Store.layout _ x = _
    rw [layout_eq, Function.update_of_ne (Layout.ne_of_free free held), held]

theorem mayDrive (realized : net.Realized reuse normal signal after) {d : NodeId}
    (drives : net.nodes.layout.MayDrive d) : after.nodes.layout.MayDrive d := by
  cases realized with
  | settled | found => exact drives
  | @rewired key id n nodes table _ held isGate _ _ layout_eq =>
    show nodes.layout.MayDrive d
    rw [layout_eq, Layout.mayDrive_update]
    split
    · show n.isOutput = false
      rw [Node.isOutput_eq, isGate]
      simp
    · exact drives
  | @added _ key id nodes table _ _ _ _ _ _ layout_eq =>
    show nodes.layout.MayDrive d
    rw [layout_eq, Layout.mayDrive_update]
    split
    · rfl
    · exact drives

theorem key? {key : Key} {inverted : Bool}
    (realized : net.Realized reuse (.keyed key inverted) signal after) :
    ∃ id, signal = ⟨some id, inverted⟩ ∧ after.nodes.layout.key? id = some key := by
  cases realized with
  | found _ held => exact ⟨_, rfl, held⟩
  | @rewired _ id n nodes table _ held isGate _ _ layout_eq =>
    refine ⟨id, rfl, ?_⟩
    show nodes.layout.key? id = some key
    rw [layout_eq, Layout.key?_update, Function.update_self]
    exact Node.key?_keyed isGate key
  | @added _ _ id nodes table _ _ _ _ _ _ layout_eq =>
    refine ⟨id, rfl, ?_⟩
    show nodes.layout.key? id = some key
    rw [layout_eq, Layout.key?_update, Function.update_self]
    exact Node.key?_keyed rfl key

theorem fit {gate : Gate} {s t : Signal}
    (realized : net.Realized reuse (.ofRequest gate s t) signal after) (fitFirst : net.Fit s)
    (fitSecond : net.Fit t) : after.Fit signal := by
  rcases Normal.ofRequest_cases gate s t with ⟨r, made, read⟩ | ⟨key, inverted, made, _⟩
  · rw [made] at realized
    cases realized
    intro d here
    rcases read d here with here | here
    · exact fitFirst d here
    · exact fitSecond d here
  · rw [made] at realized
    obtain ⟨id, rfl, keyed⟩ := realized.key?
    intro d here
    obtain rfl : id = d := Option.some.inj here
    exact (Layout.hasGate_of_key? keyed).mayDrive

end Realized

/-! ## Guarded operations -/

theorem guarded_lift {α β : Type} (net : Network) (check : Except Refusal β)
    (act : β → Except Fault (α × Network)) :
    net.guarded (liftM check) act = match check with
      | .ok found => (act found).map fun (answer, next) => .done answer next
      | .error refusal => .ok (.refused refusal net) := by
  cases check <;> rfl

theorem checkDrivers_spec (net : Network) (s t : Signal) :
    (net.checkDrivers s t = .ok () ∧ net.Fit s ∧ net.Fit t) ∨
      (∃ refusal, net.checkDrivers s t = .error refusal ∧ ¬ (net.Fit s ∧ net.Fit t)) := by
  unfold checkDrivers
  rcases net.checkDriver_spec s with ⟨passed, fit⟩ | ⟨refusal, failed, unfit⟩
  · rcases net.checkDriver_spec t with ⟨passed', fit'⟩ | ⟨refusal, failed, unfit⟩
    · exact .inl ⟨by rw [passed, passed']; rfl, fit, fit'⟩
    · exact .inr ⟨refusal, by rw [passed, failed]; rfl, fun both => unfit both.2⟩
  · exact .inr ⟨refusal, by rw [failed]; rfl, fun both => unfit both.1⟩

/-- A gate over fit signals is added, and one over other signals is refused. -/
theorem addGate_spec {net : Network} (woven : net.Woven) (gate : Gate) (s t : Signal) :
    (net.Fit s ∧ net.Fit t ∧ ∃ signal after, net.addGate gate s t = .ok (.done signal after) ∧
      net.Realized none (.ofRequest gate s t) signal after) ∨
    (¬ (net.Fit s ∧ net.Fit t) ∧ ∃ refusal, net.addGate gate s t = .ok (.refused refusal net)) := by
  rw [addGate, guarded_lift]
  rcases net.checkDrivers_spec s t with ⟨passed, fitFirst, fitSecond⟩ | ⟨refusal, failed, unfit⟩
  · obtain ⟨signal, after, made, realized⟩ :=
      realize_spec woven fitFirst fitSecond gate (show ∀ id, none = some id → _ by rintro id ⟨⟩)
    exact .inl ⟨fitFirst, fitSecond, signal, after, by rw [passed]; simp only [made]; rfl, realized⟩
  · exact .inr ⟨unfit, refusal, by rw [failed]⟩

end Network

end GateNet
