import GateNet.Proofs.AlikeChanges
import GateNet.Proofs.Reachable

/-!
# Commands on networks that are alike

The gate of a key is found in any table that holds all gates, so realizing a request does the same
on sound networks that are alike.  `Twins` are two such networks.  A command leaves twins and
answers the same; where it realizes several requests in turn, the networks between them are twins
as well.
-/

namespace GateNet

namespace Network

variable {sizing : Sizing} {one two : Network} {id : NodeId}

/-- Two sound networks that are alike. -/
structure Twins (sizing : Sizing) (one two : Network) : Prop where
  left : one.Sound
  right : two.Sound
  alike : one.Alike sizing two

theorem Sound.twins {net : Network} (sound : net.Sound)
    (sizes : sizing.holds net.extent net.extent) : net.Twins sizing net :=
  ⟨sound, sound, .refl sizes⟩

/-- Safe runs that leave networks that are alike leave twins. -/
theorem Safe.twins {α : Type} {first second : Except Fault (Outcome α)} (safe : Safe first)
    (safe' : Safe second) (agree : Agree (Outcome.Matches (Alike sizing)) first second) :
    Agree (Outcome.Matches (Twins sizing)) first second := by
  intro outcome outcome' made made'
  obtain ⟨_, same, sound⟩ := safe
  obtain ⟨_, same', sound'⟩ := safe'
  cases made.symm.trans same
  cases made'.symm.trans same'
  obtain ⟨answer, alike⟩ := agree _ _ made made'
  exact ⟨answer, sound, sound', alike⟩

theorem agree_alike {α : Type} {first second : Except Fault (Outcome α)}
    (agree : Agree (Outcome.Matches (Twins sizing)) first second) :
    Agree (Outcome.Matches (Alike sizing)) first second :=
  fun _ _ made made' => (agree _ _ made made').imp_right Twins.alike

/-! ## Building gates -/

/-- Whatever the chains look like, a key is found under the gate that has it. -/
theorem Alike.find? (alike : one.Alike sizing two) (woven : one.Woven) (woven' : two.Woven) :
    one.find? = two.find? := by
  funext key
  obtain ⟨found, search, exact⟩ := one.find?_spec woven.layout woven.tabled key
  obtain ⟨found', search', exact'⟩ := two.find?_spec woven'.layout woven'.tabled key
  have same : found = found' := by
    apply Option.ext
    intro id
    rw [exact, exact', alike.nodes.layout_eq]
  rw [search, search', same]

theorem Twins.realize (twins : Twins sizing one two) (reuse : Option NodeId) (gate : Gate)
    (s t : Signal) :
    Agree (Together (Alike sizing)) (one.realize reuse gate s t)
      (two.realize reuse gate s t) := by
  unfold Network.realize
  cases Normal.ofRequest gate s t with
  | settled signal => exact agree_ok ⟨rfl, twins.alike⟩
  | keyed key inverted =>
    dsimp only
    rw [twins.alike.find? twins.left.woven twins.right.woven]
    refine agree_bind_same fun found => ?_
    cases found with
    | some found => exact agree_ok ⟨rfl, twins.alike⟩
    | none =>
      refine (twins.alike.site reuse inverted).bind_together fun id first second sited => ?_
      exact (sited.assign id key).bind fun _ _ assigned => agree_ok ⟨rfl, assigned⟩

theorem Twins.addGate (twins : Twins sizing one two) (gate : Gate) (s t : Signal) :
    Agree (Outcome.Matches (Twins sizing)) (one.addGate gate s t) (two.addGate gate s t) :=
  (safe_addGate twins.left gate s t).twins (safe_addGate twins.right gate s t) <|
    agree_guarded twins.alike (by rw [twins.alike.checkDrivers]) fun _ _ =>
      twins.realize none gate s t

theorem Twins.combine (twins : Twins sizing one two) (op : Operator) (signals : List Signal) :
    Agree (Outcome.Matches (Twins sizing)) (one.combine op signals) (two.combine op signals) := by
  induction one, signals using Network.combine.induct generalizing two with
  | case1 one =>
    rw [Network.combine, Network.combine]
    exact agree_ok ⟨rfl, twins⟩
  | case2 one s =>
    rw [Network.combine, Network.combine]
    exact agree_guarded twins (by rw [twins.alike.checkDriver]) fun _ _ => agree_ok ⟨rfl, twins⟩
  | case3 one s t rest half lower =>
    rename_i upper
    rw [Network.combine, Network.combine]
    refine (lower twins).andThen fun a one _ twins => (upper one twins).andThen fun b _ _ twins => ?_
    exact twins.addGate op.gate a b

end Network

/-! ## Redefining -/

namespace Rebuild

variable {sizing : Sizing}

/-- Two networks that are alike, with the same replacements. -/
structure Alike (sizing : Sizing) (r q : Rebuild) : Prop where
  network : r.network.Alike sizing q.network
  replaced : r.replaced = q.replaced
  pinned : r.pinned = q.pinned

theorem Alike.replace {r q : Rebuild} (alike : r.Alike sizing q) (id : NodeId) (signal : Signal) :
    Agree (Rebuild.Alike sizing) (r.replace id signal) (q.replace id signal) := by
  unfold Rebuild.replace
  rw [alike.replaced, alike.pinned]
  exact agree_bind_same fun replaced => agree_ok ⟨alike.network, rfl, rfl⟩

theorem Alike.visit {r q : Rebuild} (alike : r.Alike sizing q) (sound : r.network.Sound)
    (sound' : q.network.Sound) (id : NodeId) :
    Agree (Rebuild.Alike sizing) (r.visit id) (q.visit id) := by
  have twins : r.network.Twins sizing q.network := ⟨sound, sound', alike.network⟩
  refine (alike.network.nodes.agree_fetch id).bind ?_
  rintro n _ ⟨link, rfl⟩
  dsimp only
  rw [alike.replaced, alike.pinned]
  split
  · exact agree_ok alike
  · refine agree_bind_same fun pinned => ?_
    refine (twins.realize _ _ _ _).bind_together fun signal first second realized => ?_
    have moved : Rebuild.Alike sizing ⟨first, q.replaced, q.pinned⟩ ⟨second, q.replaced, q.pinned⟩ :=
      ⟨realized, rfl, rfl⟩
    dsimp only
    split
    · exact agree_ok moved
    · exact moved.replace id signal

theorem redrive_agree {one two : Network} (alike : one.Alike sizing two)
    (replaced : Array (Option Signal)) (reading : NodeId × Signal) :
    Agree (Network.Alike sizing) (redrive replaced one reading) (redrive replaced two reading) := by
  unfold redrive
  dsimp only
  split
  · exact agree_ok alike
  · exact alike.driveOutput _ _

end Rebuild

namespace Network

variable {sizing : Sizing} {one two : Network} {id : NodeId}

theorem Alike.visitOrder (alike : one.Alike sizing two) : one.visitOrder = two.visitOrder := by
  funext id
  rw [Network.visitOrder, Network.visitOrder, alike.fanoutCone, alike.driversFirst]

/-- Both cones are rebuilt over sound networks throughout, when both can be. -/
theorem Twins.rebuild (twins : Twins sizing one two) {signal : Signal}
    {source old new source' old' new' : NodeId → Word}
    (replaceable : Replaceable one id source old new signal)
    (replaceable' : Replaceable two id source' old' new' signal) :
    Agree (Alike sizing) (one.rebuild id signal) (two.rebuild id signal) := by
  obtain ⟨left, right, alike⟩ := twins
  obtain ⟨cone, above, coneEq, _, orderEq, listing, rebuildEq⟩ :=
    rebuild_eq left replaceable.gate signal
  obtain ⟨cone', above', coneEq', _, orderEq', listing', rebuildEq'⟩ :=
    rebuild_eq right replaceable'.gate signal
  rw [← alike.fanoutCone] at coneEq'
  rw [← alike.visitOrder] at orderEq'
  cases coneEq.symm.trans coneEq'
  cases orderEq.symm.trans orderEq'
  have source : one.sourceOf = two.sourceOf := by
    funext y
    rw [sourceOf, sourceOf, alike.nodes.layout_eq]
  have start : Rebuild.Alike sizing (.start one id signal) (.start two id signal) :=
    ⟨alike, by rw [Rebuild.start, Rebuild.start, alike.bound],
      by rw [Rebuild.start, Rebuild.start, alike.bound]⟩
  rw [rebuildEq, rebuildEq', source]
  refine (agree_foldlM_of_front start ?_).bind ?_
  · intro before x after split r q ran ran' related
    obtain ⟨_, _, _, visited, rebuilding⟩ :=
      rebuilding_visits left replaceable listing split
    obtain ⟨_, _, _, visited', rebuilding'⟩ :=
      rebuilding_visits right replaceable' listing' split
    cases ran.symm.trans visited
    cases ran'.symm.trans visited'
    exact related.visit rebuilding.sound rebuilding'.sound x
  · intro rebuilt rebuilt' related
    rw [related.replaced]
    exact agree_foldlM related.network
      (fun reading _ _ alike => Rebuild.redrive_agree alike _ reading) _

theorem Twins.redefine (twins : Twins sizing one two) (id : NodeId) (gate : Gate) (s t : Signal) :
    Agree (Outcome.Matches (Alike sizing)) (one.redefine id gate s t)
      (two.redefine id gate s t) := by
  obtain ⟨left, right, alike⟩ := twins
  refine agree_guarded alike (by rw [alike.checkRedefine]) fun _ passed => ?_
  have passed' := passed
  rw [alike.checkRedefine] at passed'
  have redefinable := (checkRedefine_spec left id s t).resolve_right (by rw [passed]; rintro ⟨_, ⟨⟩⟩)
  have redefinable' :=
    (checkRedefine_spec right id s t).resolve_right (by rw [passed']; rintro ⟨_, ⟨⟩⟩)
  obtain ⟨signal, middle, made, realized⟩ := redefinable.2.realize left gate
  obtain ⟨signal', middle', made', realized'⟩ := redefinable'.2.realize right gate
  obtain ⟨same, related⟩ := Twins.realize ⟨left, right, alike⟩ (some id) gate s t _ _ made made'
  obtain rfl : signal = signal' := same
  rw [made, made', ok_bind, ok_bind]
  dsimp only
  split
  · exact agree_ok ⟨rfl, related⟩
  · next other =>
    -- Any words at the inputs will do: that the visits succeed is all that they are needed for.
    obtain ⟨_, _, replaces⟩ := redefinable.2.exists_replaces left realized other fun _ => 0
    obtain ⟨_, _, replaces'⟩ := redefinable'.2.exists_replaces right realized' other fun _ => 0
    have middles : Twins sizing middle middle' :=
      ⟨realized.sound left, realized'.sound right, related⟩
    have rebuilt := middles.rebuild (replaces.replaceable redefinable.2 left realized other)
      (replaces'.replaceable redefinable'.2 right realized' other)
    exact rebuilt.bind fun _ _ rebuilt => agree_ok ⟨rfl, rebuilt⟩

/-! ## Copying -/

theorem agree_onAnswer {R : Network → Network → Prop} {α β : Type} {question : Except Failure α}
    {next next' : α → Except Fault (Outcome β)} (related : R one two)
    (agree : ∀ answer, Agree (Outcome.Matches R) (next answer) (next' answer)) :
    Agree (Outcome.Matches R) (one.onAnswer question next) (two.onAnswer question next') := by
  unfold onAnswer
  split
  · exact agree _
  · exact agree_ok ⟨rfl, related⟩
  · exact agree_error

/-- What is entered into the copies does not depend on the network. -/
theorem Twins.enter (twins : Twins sizing one two) (copies : Copies) (id copy : NodeId) :
    Agree (Outcome.Matches (Twins sizing)) (do return .done (← copies.enter id copy) one)
      (do return .done (← copies.enter id copy) two) := by
  refine agree_bind_same fun entered => ?_
  exact agree_ok ⟨rfl, twins⟩

theorem Twins.copySide (twins : Twins sizing one two) (side : Side) (source : Port)
    (port : PortId) (bit : Nat) (copies : Copies) :
    Agree (Outcome.Matches (Twins sizing)) (side.copy source port bit copies one)
      (side.copy source port bit copies two) := by
  rw [side.copy_eq, side.copy_eq]
  split
  · exact agree_ok ⟨rfl, twins⟩
  · exact ((side.safe_add twins.left port bit).twins (side.safe_add twins.right port bit)
      (twins.alike.add side port bit)).andThen fun copy _ _ twins => twins.enter copies _ copy

theorem Twins.copyBit (twins : Twins sizing one two) (source : Port) (port : PortId)
    (copies : Copies) (bit : Nat) :
    Agree (Outcome.Matches (Twins sizing)) (copyBit source port copies bit one)
      (copyBit source port copies bit two) :=
  (twins.copySide .input source port bit copies).andThen fun copies _ _ twins =>
    twins.copySide .output source port bit copies

theorem Twins.copyPort (twins : Twins sizing one two) (copies : Copies) (port : Port) :
    Agree (Outcome.Matches (Twins sizing)) (copyPort copies port one) (copyPort copies port two) := by
  obtain ⟨same, added⟩ := twins.alike.addPort port.name port.width
  unfold Network.copyPort
  dsimp only
  rw [same]
  exact agree_fold (fun copies bit _ _ twins => Twins.copyBit twins port _ copies bit) _ copies
    ⟨twins.left.addPort port.name port.width, twins.right.addPort port.name port.width, added⟩

theorem Twins.addElement (twins : Twins sizing one two) (family : Family) (name : String) :
    Agree (Together (Twins sizing)) (one.addElement family name) (two.addElement family name) := by
  intro first second made made'
  obtain ⟨_, _, _, same, sound, _⟩ := addElement_spec twins.left family name
  obtain ⟨_, _, _, same', sound', _⟩ := addElement_spec twins.right family name
  obtain ⟨id_eq, alike⟩ := twins.alike.addElement family name _ _ made made'
  cases made.symm.trans same
  cases made'.symm.trans same'
  exact ⟨id_eq, sound, sound', alike⟩

section

variable {src src' : Network}

theorem Twins.copyElement {other : Sizing} (sources : src.Alike other src')
    (twins : Twins sizing one two) (family : Family) (copies : Copies) (element : ElementId) :
    Agree (Outcome.Matches (Twins sizing)) (copyElement src family copies element one)
      (copyElement src' family copies element two) := by
  unfold Network.copyElement
  rw [(sources.bank family).fetch]
  refine agree_bind_same fun e => ?_
  refine (twins.addElement family e.name).bind_together fun copy first second twins => ?_
  dsimp only
  rw [(twins.alike.bank family).fetch]
  refine agree_bind_same fun copied => ?_
  refine agree_bind_same fun entered => ?_
  exact agree_ok ⟨rfl, twins⟩

theorem Twins.copyTerminals {other : Sizing} (sources : src.Alike other src')
    (twins : Twins sizing one two) (copies : Copies) :
    Agree (Outcome.Matches (Twins sizing)) (copyTerminals src copies one)
      (copyTerminals src' copies two) := by
  have ports : Agree (Outcome.Matches (Twins sizing))
      (Outcome.fold Network.copyPort src.ports.toList copies one)
      (Outcome.fold Network.copyPort src.ports.toList copies two) :=
    agree_fold (fun copies port _ _ twins => twins.copyPort copies port) _ copies twins
  have withFlipFlops := ports.andThen fun copies _ _ twins =>
    agree_fold (fun copies element _ _ twins =>
      Twins.copyElement sources twins .flipFlop copies element) src.flipFlops.order.toList copies twins
  have withLatches := withFlipFlops.andThen fun copies _ _ twins =>
    agree_fold (fun copies element _ _ twins =>
      Twins.copyElement sources twins .latch copies element) src.latches.order.toList copies twins
  simpa only [Network.copyTerminals, bind_assoc, sources.ports, sources.flipFlops.order,
    sources.latches.order] using withLatches

theorem Twins.copyGate {other : Sizing} (sources : src.Alike other src')
    (twins : Twins sizing one two) (copies : Copies) (id : NodeId) :
    Agree (Outcome.Matches (Twins sizing)) (copyGate src copies id one)
      (copyGate src' copies id two) := by
  unfold Network.copyGate
  rw [sources.copiedRequest]
  refine agree_onAnswer twins fun request => ?_
  refine (twins.addGate _ _ _).andThen fun copy _ _ twins => ?_
  split
  · exact twins.enter copies id _
  · exact agree_ok ⟨rfl, twins⟩

theorem Twins.copyGates {other : Sizing} (sources : src.Alike other src')
    (twins : Twins sizing one two) (copies : Copies) :
    Agree (Outcome.Matches (Twins sizing)) (copyGates src copies one)
      (copyGates src' copies two) := by
  unfold Network.copyGates
  rw [sources.driversFirst]
  refine agree_bind_same fun order => ?_
  exact agree_fold (fun copies id _ _ twins => Twins.copyGate sources twins copies id) order copies
    twins

theorem Twins.copyReadings {other : Sizing} (sources : src.Alike other src')
    (twins : Twins sizing one two) (copies : Copies) :
    Agree (Outcome.Matches (Twins sizing)) (copyReadings src copies one)
      (copyReadings src' copies two) := by
  unfold Network.copyReadings
  rw [sources.outputs]
  refine agree_fold (fun _ id one two twins => ?_) _ () twins
  unfold copyReading
  rw [sources.copiedReading]
  exact agree_onAnswer twins fun reading => (safe_drive twins.left _ _).twins
    (safe_drive twins.right _ _) (twins.alike.drive _ _)

/-- Of what is overwritten only the table size is left. -/
theorem Twins.overwrite {other : Sizing} (sources : src.Alike other src')
    (sound : one.Sound) (sound' : two.Sound) (sizes : sizing.holds one.extent two.extent) :
    Agree (Outcome.Matches (Twins sizing)) (one.overwrite src) (two.overwrite src') := by
  have blank : (one.clear.rename src.name).Twins sizing (two.clear.rename src'.name) := by
    refine ⟨(sound_clear sound).rename _, (sound_clear sound').rename _, ?_⟩
    rw [sources.name]
    exact (Alike.clear sizes).rename _
  have copied := ((Twins.copyTerminals sources blank (Array.replicate src.nodes.bound none)).andThen
    fun copies _ _ twins => Twins.copyGates sources twins copies).andThen
    fun copies _ _ twins => Twins.copyReadings sources twins copies
  simpa only [Network.overwrite, bind_assoc, sources.bound] using copied

/-- Copies are twins, whatever the tables of their sources; their own are made alike. -/
theorem Twins.duplicate (twins : Twins sizing src src') :
    Agree (Twins sizing) src.duplicate src'.duplicate := by
  have sizes : sizing.holds (withBuckets src.buckets).extent (withBuckets src'.buckets).extent := by
    rw [extent_withBuckets, extent_withBuckets]
    exact sizing.copied twins.alike.sizes
  refine (Twins.overwrite twins.alike (sound_withBuckets src.buckets)
    (sound_withBuckets src'.buckets) sizes).lift.bind fun outcome outcome' same => ?_
  obtain ⟨answer, copied⟩ := same
  rw [answer]
  split
  · exact agree_ok copied
  · exact agree_error

end

/-! ## One command -/

theorem Twins.run (twins : Twins sizing one two) {command : Command}
    (sources : ∀ source, command = .overwrite source → source.Sound) :
    Agree (Outcome.Matches (Twins sizing)) (one.run command) (two.run command) := by
  refine (safe_run twins.left sources).twins (safe_run twins.right sources) ?_
  obtain ⟨left, right, alike⟩ := twins
  cases command with
  | rename name => exact agree_ok ⟨rfl, alike.rename name⟩
  | addPort name width =>
    obtain ⟨same, added⟩ := alike.addPort name width
    exact agree_ok ⟨congrArg (Except.ok ∘ Reply.number) same, added⟩
  | addInput port bit => exact (alike.add .input port bit).map _
  | addOutput port bit => exact (alike.add .output port bit).map _
  | addElement family name =>
    exact (alike.addElement family name).bind_together fun _ _ _ added => agree_ok ⟨rfl, added⟩
  | addGate gate s t => exact (agree_alike (Twins.addGate ⟨left, right, alike⟩ gate s t)).map _
  | combine op signals => exact (agree_alike (Twins.combine ⟨left, right, alike⟩ op signals)).map _
  | drive id signal => exact (alike.drive id signal).map _
  | redefine id gate s t => exact (Twins.redefine ⟨left, right, alike⟩ id gate s t).map _
  | eraseGate id => exact (alike.eraseGate id).map _
  | eraseElement family id => exact (alike.eraseElement family id).map _
  | prune => exact (alike.prune left right).map _
  | clear => exact agree_ok ⟨rfl, .clear alike.sizes⟩
  | overwrite source =>
    have copied := Twins.overwrite (.refl_same source) left right alike.sizes
    exact (agree_alike copied).map _
  | depth => exact alike.depth.bind_together fun _ _ _ asked => agree_ok ⟨rfl, asked⟩

end Network

end GateNet
