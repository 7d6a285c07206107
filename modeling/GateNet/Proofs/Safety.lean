import GateNet.Proofs.Invariant

/-!
# Operations on gates and outputs are safe

An operation is safe when it does not fault and leaves a sound network, whether it answers or
refuses.  Realizing a request keeps a network sound in each of its four cases, and with it all
operations that only build gates; driving an output and erasing a gate follow.
-/

namespace GateNet

namespace Network

/-- The operation does not fault, and its network is sound. -/
def Safe {α : Type} (result : Except Fault (Outcome α)) : Prop :=
  ∃ outcome, result = .ok outcome ∧ outcome.network.Sound

theorem safe_done {α : Type} {net : Network} (sound : net.Sound) (answer : α) :
    Safe (.ok (.done answer net)) :=
  ⟨_, rfl, sound⟩

theorem safe_refused {α : Type} {net : Network} (sound : net.Sound) (refusal : Refusal) :
    Safe (α := α) (.ok (.refused refusal net)) :=
  ⟨_, rfl, sound⟩

theorem Safe.andThen {α β : Type} {result : Except Fault (Outcome α)}
    {next : α → Network → Except Fault (Outcome β)} (safe : Safe result)
    (safeNext : ∀ answer net, net.Sound → Safe (next answer net)) :
    Safe (result >>= fun outcome => outcome.andThen next) := by
  obtain ⟨⟨answer, net⟩, made, sound⟩ := safe
  rw [made, ok_bind]
  cases answer with
  | ok answer => exact safeNext answer net sound
  | error refusal => exact safe_refused sound refusal

theorem Safe.map {α β : Type} {result : Except Fault (Outcome α)} (safe : Safe result)
    (change : α → β) : Safe (result >>= fun outcome => .ok (outcome.map change)) := by
  obtain ⟨outcome, made, sound⟩ := safe
  exact ⟨outcome.map change, by rw [made]; rfl, sound⟩

/-- A guarded action is safe when the check does not fault and the action is safe after it. -/
theorem safe_guarded {α β : Type} {net : Network} (sound : net.Sound) {check : Except Failure β}
    {act : β → Except Fault (α × Network)} (decides : ∀ fault, check ≠ .error (.faulted fault))
    (safe : ∀ found, check = .ok found →
      ∃ answer after, act found = .ok (answer, after) ∧ after.Sound) :
    Safe (net.guarded check act) := by
  cases held : check with
  | ok found =>
    obtain ⟨answer, after, acted, sound'⟩ := safe found held
    exact ⟨.done answer after, by rw [guarded, acted]; rfl, sound'⟩
  | error failure =>
    cases failure with
    | refused refusal => exact safe_refused sound refusal
    | faulted fault => exact absurd held (decides fault)

/-- A guarded action answers what the action does once the check passes. -/
theorem guarded_eq_done_iff {α β : Type} {net after : Network} {check : Except Failure β}
    {act : β → Except Fault (α × Network)} {answer : α} :
    net.guarded check act = .ok (.done answer after) ↔
      ∃ found, check = .ok found ∧ act found = .ok (answer, after) := by
  cases check with
  | ok found =>
    rw [guarded]
    cases acted : act found with
    | error fault =>
      refine ⟨nofun, ?_⟩
      rintro ⟨_, ⟨⟩, acted'⟩
      cases acted.symm.trans acted'
    | ok result =>
      obtain ⟨answer', after'⟩ := result
      constructor
      · rintro ⟨⟩
        exact ⟨found, rfl, acted⟩
      · rintro ⟨_, ⟨⟩, acted'⟩
        cases acted.symm.trans acted'
        rfl
  | error failure => cases failure <;> exact ⟨nofun, nofun⟩

@[simp] theorem lift_ok {α : Type} (answer : α) :
    (liftM (.ok answer : Except Refusal α) : Except Failure α) = .ok answer := rfl

@[simp] theorem lift_fault_ok {α : Type} (answer : α) :
    (liftM (.ok answer : Except Fault α) : Except Failure α) = .ok answer := rfl

theorem lift_ne_faulted {α : Type} (check : Except Refusal α) (fault : Fault) :
    (liftM check : Except Failure α) ≠ .error (.faulted fault) := by
  cases check <;> rintro ⟨⟩

theorem lift_eq_ok_iff {α : Type} {check : Except Refusal α} {answer : α} :
    (liftM check : Except Failure α) = .ok answer ↔ check = .ok answer := by
  cases check with
  | ok found =>
    show (Except.ok found : Except Failure α) = .ok answer ↔ _
    simp
  | error refusal =>
    show (Except.error (.refused refusal) : Except Failure α) = .ok answer ↔ _
    simp

/-! ## Realizing -/

/-- A change of nodes and table that leaves all kinds leaves a network sound. -/
theorem Sound.rewoven {net : Network} (sound : net.Sound) {nodes : Store Node}
    {table : Array (Option NodeId)} {limit : Nat} (woven : nodes.Woven table)
    (kinds : nodes.layout.kind? = net.nodes.layout.kind?) :
    ({ net with nodes, table, limit, depth? := none } : Network).Sound := by
  refine ⟨⟨woven, fun r => ?_, ?_, by rintro k ⟨⟩⟩, sound.banks, sound.ports⟩
  · rw [show ({ net with nodes, table, limit, depth? := none } : Network).registry r =
      net.registry r by cases r <;> rfl, kinds]
    exact sound.registered r
  · rw [kinds, net.terminal?_retouch nodes net.inputs net.outputs net.gates table limit none]
    exact sound.owned

/-- Realizing a request keeps a network sound. -/
theorem Realized.sound {net after : Network} {reuse : Option NodeId} {normal : Normal}
    {signal : Signal} (realized : net.Realized reuse normal signal after) (sound : net.Sound) :
    after.Sound := by
  cases realized with
  | settled | found => exact sound
  | rewired held _ _ woven layout_eq =>
    exact sound.rewoven woven
      ((congrArg Layout.kind? layout_eq).trans (Layout.kind?_update_of_kind held rfl))
  | @added _ key id nodes table limit _ _ _ free woven layout_eq =>
    have kinds : nodes.layout.kind? = Function.update net.nodes.layout.kind? id (some .gate) := by
      rw [layout_eq, Layout.kind?_update]
      rfl
    have free : net.nodes.layout.kind? id = none := by rw [Layout.kind?, free]; rfl
    refine ⟨⟨woven, fun r => ?_, ?_, by rintro k ⟨⟩⟩, sound.banks, sound.ports⟩
    · rw [kinds]
      cases r with
      | inputs => exact (sound.registered .inputs).skip free rfl
      | outputs => exact (sound.registered .outputs).skip free rfl
      | gates => exact (sound.registered .gates).push free rfl
    · show Owned _ nodes.layout.kind? _
      rw [net.terminal?_retouch nodes net.inputs net.outputs (net.gates.push id) table limit none,
        kinds]
      exact sound.owned.update_gate (.inl free) (.inr rfl)

theorem safe_addGate {net : Network} (sound : net.Sound) (gate : Gate) (s t : Signal) :
    Safe (net.addGate gate s t) := by
  rcases addGate_spec sound.woven gate s t with
    ⟨_, _, signal, after, made, realized⟩ | ⟨_, refusal, made⟩
  · exact ⟨_, made, realized.sound sound⟩
  · exact ⟨_, made, sound⟩

theorem checkDrivers_eq_ok_iff {net : Network} {s t : Signal} :
    net.checkDrivers s t = .ok () ↔ net.Fit s ∧ net.Fit t := by
  rcases net.checkDrivers_spec s t with ⟨passed, fit⟩ | ⟨refusal, failed, unfit⟩
  · exact iff_of_true passed fit
  · refine iff_of_false ?_ unfit
    rw [failed]
    exact nofun

/-- A gate is added over fit signals only, and the answer is what realizes the request. -/
theorem addGate_eq_done_iff {net after : Network} {gate : Gate} {s t signal : Signal} :
    net.addGate gate s t = .ok (.done signal after) ↔
      (net.Fit s ∧ net.Fit t) ∧ net.realize none gate s t = .ok (signal, after) := by
  rw [addGate, guarded_eq_done_iff, ← checkDrivers_eq_ok_iff, ← lift_eq_ok_iff]
  constructor
  · intro both
    obtain ⟨_, passed, realized⟩ := both
    exact ⟨passed, realized⟩
  · intro both
    exact ⟨(), both⟩

theorem safe_combine {net : Network} (sound : net.Sound) (op : Operator) (signals : List Signal) :
    Safe (net.combine op signals) := by
  induction net, signals using combine.induct with
  | case1 net =>
    rw [combine]
    exact safe_done sound _
  | case2 net s =>
    rw [combine]
    exact safe_guarded sound (lift_ne_faulted _) fun _ _ => ⟨s, net, rfl, sound⟩
  | case3 net s t rest half lower upper =>
    rw [combine]
    refine (lower sound).andThen fun a net sound => (upper net sound).andThen fun b net sound => ?_
    exact safe_addGate sound op.gate a b

/-! ## Driving and erasing -/

theorem checkDrive_eq_ok_iff {net : Network} {id : NodeId} {s : Signal} :
    net.checkDrive id s = .ok () ↔
      (∃ n, net.nodes.layout id = some n ∧ n.isOutput = true) ∧ net.Fit s := by
  unfold checkDrive node?
  cases held : net.nodes.get? id with
  | none =>
    refine iff_of_false (by rintro ⟨⟩) ?_
    rintro ⟨⟨n, live, _⟩, _⟩
    rw [Store.layout_eq_none_iff.mpr held] at live
    cases live
  | some n =>
    have live := Store.layout_of_get? held
    cases output : n.isOutput with
    | false =>
      refine iff_of_false (by simp [output]) ?_
      rintro ⟨⟨m, live', isOutput⟩, _⟩
      obtain rfl := Option.some.inj (live.symm.trans live')
      rw [Node.core_isOutput, output] at isOutput
      cases isOutput
    | true =>
      simp only [output, if_true]
      rcases net.checkDriver_spec s with ⟨passed, fit⟩ | ⟨refusal, failed, unfit⟩
      · exact iff_of_true passed ⟨⟨n.core, live, output⟩, fit⟩
      · refine iff_of_false ?_ fun both => unfit both.2
        rw [failed]
        rintro ⟨⟩

theorem Sound.driveOutput {net : Network} (sound : net.Sound) {id : NodeId} {n : Node}
    (held : net.nodes.layout id = some n) (output : n.isOutput = true) {s : Signal}
    (fit : net.Fit s) :
    ∃ nodes, net.driveOutput id s = .ok { net with nodes, depth? := none } ∧
      ({ net with nodes, depth? := none } : Network).Sound ∧
      nodes.layout = Function.update net.nodes.layout id (some (n.reading s)) := by
  obtain ⟨nodes, driven, woven, layout_eq⟩ := driveOutput_spec sound.woven held output fit
  exact ⟨nodes, driven, sound.rewoven woven
    ((congrArg Layout.kind? layout_eq).trans (Layout.kind?_update_of_kind held rfl)), layout_eq⟩

theorem safe_drive {net : Network} (sound : net.Sound) (id : NodeId) (s : Signal) :
    Safe (net.drive id s) := by
  refine safe_guarded sound (lift_ne_faulted _) fun found passed => ?_
  obtain ⟨⟨n, held, output⟩, fit⟩ := checkDrive_eq_ok_iff.mp (lift_eq_ok_iff.mp passed)
  obtain ⟨nodes, driven, sound', _⟩ := sound.driveOutput held output fit
  exact ⟨(), _, by rw [driven]; rfl, sound'⟩

/-- What erasing a gate does: it goes with the entries of its wires, and from its registry. -/
structure GateErased (net after : Network) (id : NodeId) : Prop where
  nodes : net.nodes.Dropped after.nodes [id] [⟨id, .first⟩, ⟨id, .second⟩]
  name : after.name = net.name
  ports : after.ports = net.ports
  inputs : after.inputs = net.inputs
  outputs : after.outputs = net.outputs
  gates : after.gates = net.gates.erase id
  bank : ∀ family, after.bank family = net.bank family

theorem Sound.dropGate {net : Network} (sound : net.Sound) {id : NodeId}
    (gate : net.nodes.layout.HasGate id) (unread : net.Unread id) :
    ∃ after, Network.dropGate { net with gates := net.gates.erase id } id = .ok after ∧
      after.Sound ∧ net.GateErased after id := by
  obtain ⟨nodes, table, dropped, woven, gone⟩ := dropGate_spec
    { net with gates := net.gates.erase id } sound.woven gate unread
  have layout_eq := gone.layout_update
  have held := Layout.hasGate_iff_kind?.mp gate
  have kinds : nodes.layout.kind? = Function.update net.nodes.layout.kind? id none := by
    rw [layout_eq, Layout.kind?_update]
    rfl
  refine ⟨_, dropped, ⟨⟨woven, fun r => ?_, ?_, by rintro k ⟨⟩⟩, sound.banks, sound.ports⟩,
    gone, rfl, rfl, rfl, rfl, rfl, fun family => by cases family <;> rfl⟩
  · rw [kinds]
    cases r with
    | inputs => exact (sound.registered .inputs).keep held rfl
    | outputs => exact (sound.registered .outputs).keep held rfl
    | gates => exact (sound.registered .gates).erase
  · show Owned _ nodes.layout.kind? _
    rw [net.terminal?_retouch nodes net.inputs net.outputs (net.gates.erase id) table net.limit none,
      kinds]
    exact sound.owned.update_gate (.inr held) (.inl rfl)

theorem checkEraseGate_eq_ok_iff {net : Network} (woven : net.Woven) {id : NodeId} :
    net.checkEraseGate id = .ok () ↔ net.nodes.layout.HasGate id ∧ net.Unread id := by
  unfold checkEraseGate node?
  cases held : net.nodes.get? id with
  | none =>
    refine iff_of_false (by rintro ⟨⟩) fun both => ?_
    exact Layout.not_hasGate_of_none (Store.layout_eq_none_iff.mpr held) both.1
  | some n =>
    have live := Store.layout_of_get? held
    rw [← unread_iff woven held]
    cases isGate : n.isGate with
    | false =>
      refine iff_of_false (by simp [isGate]) ?_
      rintro ⟨⟨m, live', isGate'⟩, _⟩
      obtain rfl := Option.some.inj (live.symm.trans live')
      rw [Node.core_isGate, isGate] at isGate'
      cases isGate'
    | true =>
      have gate : net.nodes.layout.HasGate id := ⟨n.core, live, isGate⟩
      cases unread : n.fanouts.isEmpty <;> simp [isGate, unread, gate]

/-- A gate is erased exactly when nothing reads it. -/
theorem Sound.eraseGate_eq_done_iff {net after : Network} (sound : net.Sound) {id : NodeId} :
    net.eraseGate id = .ok (.done () after) ↔
      (net.nodes.layout.HasGate id ∧ net.Unread id) ∧
        Network.dropGate { net with gates := net.gates.erase id } id = .ok after := by
  rw [eraseGate, guarded_eq_done_iff]
  constructor
  · rintro ⟨_, passed, acted⟩
    obtain ⟨last, dropped, acted⟩ := bind_eq_ok_iff.mp acted
    cases acted
    exact ⟨(checkEraseGate_eq_ok_iff sound.woven).mp (lift_eq_ok_iff.mp passed), dropped⟩
  · rintro ⟨unread, dropped⟩
    refine ⟨(), lift_eq_ok_iff.mpr ((checkEraseGate_eq_ok_iff sound.woven).mpr unread), ?_⟩
    rw [dropped]
    rfl

theorem safe_eraseGate {net : Network} (sound : net.Sound) (id : NodeId) :
    Safe (net.eraseGate id) := by
  refine safe_guarded sound (lift_ne_faulted _) fun found passed => ?_
  obtain ⟨gate, unread⟩ := (checkEraseGate_eq_ok_iff sound.woven).mp (lift_eq_ok_iff.mp passed)
  obtain ⟨after, dropped, sound', _⟩ := sound.dropGate gate unread
  exact ⟨(), after, by rw [dropped]; rfl, sound'⟩

end Network

end GateNet
