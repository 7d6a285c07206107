import GateNet.Proofs.Checks
import GateNet.Proofs.Closed
import GateNet.Proofs.Reachable
import GateNet.Proofs.Stepping

/-!
# What reachable networks answer

A reachable network carries out or refuses every command and answers every question, whatever the
arguments: nothing faults.  A refusal blames the request.  It never reports a defect, and pruning
and copying are never refused at all.
-/

namespace GateNet

namespace Network

variable {net : Network}

/-! ## Refusals of requests -/

theorem lift_ne_refused {α : Type} {check : Except Refusal α} {refusal : Refusal}
    (other : check ≠ .error refusal) :
    (liftM check : Except Failure α) ≠ .error (.refused refusal) := by
  cases check with
  | ok answer =>
    intro failed
    cases failed
  | error found =>
    intro failed
    have same : Failure.refused found = .refused refusal := Except.error.inj failed
    exact other (congrArg Except.error (Failure.refused.inj same))

theorem lift_fault_ne_refused {α : Type} (question : Except Fault α) (refusal : Refusal) :
    (liftM question : Except Failure α) ≠ .error (.refused refusal) := by
  intro failed
  cases question <;> cases failed

/-- The operation answers, or it refuses for a reason that lies in the request. -/
def Blameless {α : Type} (result : Except Fault (Outcome α)) : Prop :=
  ∀ outcome, result = .ok outcome → ∀ defect, outcome.answer ≠ .error (.defective defect)

theorem blameless_done {α : Type} (answer : α) (net : Network) :
    Blameless (.ok (.done answer net)) := by
  intro outcome made defect refused
  cases made
  cases refused

theorem Blameless.andThen {α β : Type} {result : Except Fault (Outcome α)}
    {next : α → Network → Except Fault (Outcome β)} (blameless : Blameless result)
    (blamelessNext : ∀ answer net, Blameless (next answer net)) :
    Blameless (result >>= fun outcome => outcome.andThen next) := by
  intro last made defect
  obtain ⟨⟨answer, middle⟩, ran, made⟩ := bind_eq_ok_iff.mp made
  cases answer with
  | ok answer => exact blamelessNext answer middle last made defect
  | error refusal =>
    cases made
    intro refused
    cases refused
    exact blameless _ ran defect rfl

theorem Blameless.map {α β : Type} {result : Except Fault (Outcome α)}
    (blameless : Blameless result) (change : α → β) :
    Blameless (result >>= fun outcome => pure (outcome.map change)) := by
  intro last made defect refused
  obtain ⟨⟨answer, middle⟩, ran, made⟩ := bind_eq_ok_iff.mp made
  cases made
  cases answer with
  | ok answer => cases refused
  | error refusal =>
    cases refused
    exact blameless _ ran defect rfl

/-- A guarded action is refused by its check alone, on the network as it was. -/
theorem guarded_eq_ok {α β : Type} {check : Except Failure β} {act : β → Except Fault (α × Network)}
    {outcome : Outcome α} (made : net.guarded check act = .ok outcome) :
    (∃ refusal, check = .error (.refused refusal) ∧ outcome = .refused refusal net) ∨
      ∃ answer after, outcome = .done answer after := by
  cases check with
  | ok found =>
    rw [guarded] at made
    cases acted : act found with
    | error fault =>
      rw [acted] at made
      cases made
    | ok result =>
      rw [acted] at made
      cases made
      exact .inr ⟨_, _, rfl⟩
  | error failure =>
    cases failure with
    | faulted fault => cases made
    | refused refusal =>
      cases made
      exact .inl ⟨refusal, rfl, rfl⟩

theorem blameless_guarded {α β : Type} {check : Except Failure β}
    {act : β → Except Fault (α × Network)}
    (blameless : ∀ defect, check ≠ .error (.refused (.defective defect))) :
    Blameless (net.guarded check act) := by
  intro outcome made defect refused
  rcases guarded_eq_ok made with ⟨refusal, held, rfl⟩ | ⟨answer, after, rfl⟩
  · cases refused
    exact blameless defect held
  · cases refused

/-! ## The checks before an operation -/

theorem checkDriver_ne_defective (s : Signal) (defect : Defect) :
    net.checkDriver s ≠ .error (.defective defect) := by
  unfold checkDriver
  intro refused
  split at refused
  · cases refused
  · split at refused
    · cases refused
    · split at refused <;> cases refused

theorem checkDrivers_ne_defective (s t : Signal) (defect : Defect) :
    net.checkDrivers s t ≠ .error (.defective defect) :=
  bind_ne_error (checkDriver_ne_defective s defect) fun _ => checkDriver_ne_defective t defect

theorem checkDrive_ne_defective (id : NodeId) (s : Signal) (defect : Defect) :
    net.checkDrive id s ≠ .error (.defective defect) := by
  unfold checkDrive
  intro refused
  split at refused
  · cases refused
  · split at refused
    · exact checkDriver_ne_defective s defect refused
    · cases refused

theorem checkBit_ne_defective (port : PortId) (bit : Nat) (defect : Defect) :
    net.checkBit port bit ≠ .error (.defective defect) := by
  unfold checkBit
  intro refused
  split at refused
  · cases refused
  · split at refused <;> cases refused

theorem check_ne_defective (side : Side) (port : PortId) (bit : Nat) (defect : Defect) :
    side.check net port bit ≠ .error (.refused (.defective defect)) := by
  rw [side.check_def]
  refine bind_ne_error (lift_ne_refused (checkBit_ne_defective port bit defect)) fun p =>
    bind_ne_error (lift_fault_ne_refused _ _) fun held refused => ?_
  split at refused <;> cases refused

theorem checkOperand_ne_defective (id : NodeId) (s : Signal) (defect : Defect) :
    net.checkOperand id s ≠ .error (.refused (.defective defect)) := by
  apply bind_ne_error (lift_ne_refused (checkDriver_ne_defective s defect))
  intro _ refused
  split at refused
  · cases refused
  · refine bind_ne_error (lift_fault_ne_refused _ _) ?_ refused
    intro depends refused
    split at refused <;> cases refused

theorem checkRedefine_ne_defective (id : NodeId) (s t : Signal) (defect : Defect) :
    net.checkRedefine id s t ≠ .error (.refused (.defective defect)) := by
  unfold checkRedefine
  intro refused
  split at refused
  · cases refused
  · split at refused
    · exact bind_ne_error (checkOperand_ne_defective id s defect)
        (fun _ => checkOperand_ne_defective id t defect) refused
    · cases refused

theorem checkEraseGate_ne_defective (id : NodeId) (defect : Defect) :
    net.checkEraseGate id ≠ .error (.defective defect) := by
  unfold checkEraseGate
  intro refused
  split at refused
  · cases refused
  · split at refused
    · cases refused
    · split at refused <;> cases refused

theorem checkEraseElement_ne_defective (family : Family) (id : ElementId) (defect : Defect) :
    net.checkEraseElement family id ≠ .error (.refused (.defective defect)) := by
  unfold checkEraseElement
  intro refused
  split at refused
  · cases refused
  · refine bind_ne_error (lift_fault_ne_refused _ _) ?_ refused
    intro output refused
    split at refused <;> cases refused

/-! ## The operations -/

theorem blameless_addGate (gate : Gate) (s t : Signal) : Blameless (net.addGate gate s t) :=
  blameless_guarded fun defect => lift_ne_refused (checkDrivers_ne_defective s t defect)

theorem blameless_combine (op : Operator) (signals : List Signal) :
    Blameless (net.combine op signals) := by
  induction net, signals using combine.induct with
  | case1 net =>
    rw [combine]
    exact blameless_done op.neutral net
  | case2 net s =>
    rw [combine]
    exact blameless_guarded fun defect => lift_ne_refused (checkDriver_ne_defective s defect)
  | case3 net s t rest half lower upper =>
    rw [combine]
    refine lower.andThen fun a net => (upper net).andThen fun b net => ?_
    exact blameless_addGate op.gate a b

/-- Every command that does not copy blames the request, on whatever network. -/
theorem blameless_run (command : Command) (noCopy : ∀ source, command ≠ .overwrite source)
    (noPrune : command ≠ .prune) : Blameless (net.run command) := by
  cases command with
  | rename name => exact blameless_done _ _
  | addPort name width => exact blameless_done _ _
  | addInput port bit =>
    exact (blameless_guarded (check_ne_defective .input port bit)).map _
  | addOutput port bit =>
    exact (blameless_guarded (check_ne_defective .output port bit)).map _
  | addElement family name =>
    intro outcome made defect refused
    obtain ⟨_, _, made⟩ := bind_eq_ok_iff.mp made
    cases made
    cases refused
  | addGate gate s t => exact (blameless_addGate gate s t).map _
  | combine op signals => exact (blameless_combine op signals).map _
  | drive id s =>
    exact (blameless_guarded fun defect =>
      lift_ne_refused (checkDrive_ne_defective id s defect)).map _
  | redefine id gate s t =>
    exact (blameless_guarded (checkRedefine_ne_defective id s t)).map _
  | eraseGate id =>
    exact (blameless_guarded fun defect =>
      lift_ne_refused (checkEraseGate_ne_defective id defect)).map _
  | eraseElement family id =>
    exact (blameless_guarded (checkEraseElement_ne_defective family id)).map _
  | prune => exact absurd rfl noPrune
  | clear => exact blameless_done _ _
  | overwrite source => exact absurd rfl (noCopy source)
  | depth =>
    intro outcome made defect refused
    obtain ⟨_, _, made⟩ := bind_eq_ok_iff.mp made
    cases made
    cases refused

/-- On a sound network pruning and copying succeed, and other commands blame the request. -/
theorem Sound.blameless_run (sound : net.Sound) {command : Command}
    (sources : ∀ source, command = .overwrite source → source.Sound) :
    Blameless (net.run command) := by
  by_cases isPrune : command = .prune
  · subst isPrune
    obtain ⟨count, after, pruned, _⟩ := prune_spec sound
    rw [run, pruned]
    exact blameless_done _ _
  by_cases isCopy : ∃ source, command = .overwrite source
  · obtain ⟨source, same⟩ := isCopy
    subst same
    obtain ⟨_, _, _, _, _, after, copied, _⟩ := overwrite_spec sound (sources source rfl)
    rw [run, copied]
    exact blameless_done _ _
  · exact Network.blameless_run command (fun source same => isCopy ⟨source, same⟩) isPrune

/-! ## Questions -/

/-- Every question about the network has an answer; an evaluation asks for one word for each
input. -/
structure Responsive (net : Network) : Prop where
  driversFirst : ∃ order, net.driversFirst = .ok order ∧ ∀ id ∈ order, net.Live id
  readersFirst : ∃ order, net.readersFirst = .ok order ∧ ∀ id ∈ order, net.Live id
  /-- A table of this many entries has one for each live node. -/
  inside : ∀ id, net.Live id → id < net.nodes.bound
  depths : ∃ depths, net.depths = .ok depths
  depth : ∃ depth after, net.depth = .ok (depth, after)
  evaluate : ∀ words, words.length = net.inputs.size → ∃ results, net.evaluate words = .ok results
  inputCount : ∀ words, words.length ≠ net.inputs.size →
    net.evaluate words = .error (.refused (.inputCount net.inputs.size words.length))
  /-- Every key has a bucket, and the search of its chain ends. -/
  found : ∀ key : Key, key.bucket net.table.size < net.table.size ∧
    ∃ found, net.find? key = .ok found
  /-- The elements in the order of a bank can be read. -/
  elements : ∀ family, ∀ id ∈ (net.bank family).order,
    ∃ element, (net.bank family).elements.fetch id = .ok element
  /-- A walk goes on from wherever it stands, and turns to its next start only when no node
  waits. -/
  walks : ∀ (w : Walk) (count : Nat), ∃ visited left, w.take net count = .ok (visited, left)
  audit : net.audit = .ok ()

theorem Sound.responsive (sound : net.Sound) : net.Responsive where
  driversFirst := sound.closed.exists_driversFirst
  readersFirst := sound.closed.exists_readersFirst
  inside _ live := sound.closed.inside live
  depths := by
    obtain ⟨h, heights⟩ := sound.exists_heights
    obtain ⟨depths, entered, _⟩ := depths_spec sound heights
    exact ⟨depths, entered⟩
  depth := by
    obtain ⟨depth, made, _⟩ := depth_spec sound
    exact ⟨depth, _, made⟩
  evaluate words length := by
    obtain ⟨v, carries⟩ := sound.exists_carries words
    exact ⟨_, evaluate_eq sound length carries⟩
  inputCount words length := by
    rw [Network.evaluate, if_neg length]
  found key := by
    obtain ⟨found, search, _⟩ := net.find?_spec sound.woven.layout sound.woven.tabled key
    exact ⟨Key.bucket_lt sound.woven.tabled.positive key, found, search⟩
  elements family id listed := by
    obtain ⟨element, held⟩ := ((sound.banks family).exact id).mp listed
    exact ⟨element, Store.fetch_of_get? held⟩
  walks w count := ⟨_, _, w.take_eq net count⟩
  audit := sound.audit

/-! ## Reachable networks -/

/-- Nothing fails on a reachable network.  Every command is carried out or refused, leaves a
reachable network, and never reports a defect; pruning, and copying from a reachable network, are
carried out; and every question has an answer. -/
theorem Reachable.never_fails (reachable : net.Reachable) :
    (∀ command, (∀ source, command = .overwrite source → source.Reachable) →
      ∃ outcome, net.run command = .ok outcome ∧ outcome.network.Reachable ∧
        ∀ defect, outcome.answer ≠ .error (.defective defect)) ∧
    (∃ count after, net.prune = .ok (.done count after)) ∧
    (∀ source, source.Reachable → ∃ after, net.overwrite source = .ok (.done () after)) ∧
    (∃ copy, net.duplicate = .ok copy) ∧
    net.Responsive := by
  have sound := reachable.sound
  refine ⟨?_, ?_, ?_, ?_, sound.responsive⟩
  · intro command sources
    obtain ⟨outcome, ran, reached⟩ := reachable.exists_run sources
    refine ⟨outcome, ran, reached, ?_⟩
    exact sound.blameless_run (fun source same => (sources source same).sound) outcome ran
  · obtain ⟨count, after, pruned, _⟩ := prune_spec sound
    exact ⟨count, after, pruned⟩
  · intro source reachable'
    obtain ⟨_, _, _, _, _, after, copied, _⟩ := overwrite_spec sound reachable'.sound
    exact ⟨after, copied⟩
  · obtain ⟨_, _, _, _, _, copy, copied, _⟩ := duplicate_spec sound
    exact ⟨copy, copied⟩

/-- A network is redefined at any id with any operands, pruned, copied over another one, and
questioned. -/
theorem never_fails_at_unknown_ids :
    ∃ net, (withBuckets 0).runAll [.addPort "p" 2, .addInput 0 0, .addInput 0 1, .addOutput 0 0,
        .addGate .and (.positive 0) (.positive 1), .drive 2 (.negative 3),
        .addElement .latch "l"] = .ok net ∧
      (∀ id gate s t, ∃ outcome, net.run (.redefine id gate s t) = .ok outcome ∧
        ∀ defect, outcome.answer ≠ .error (.defective defect)) ∧
      (∃ count after, net.prune = .ok (.done count after)) ∧
      (∃ after, (withBuckets 0).overwrite net = .ok (.done () after)) ∧ net.Responsive := by
  obtain ⟨net, ran, reached⟩ : ∃ net, (withBuckets 0).runAll [.addPort "p" 2, .addInput 0 0,
      .addInput 0 1, .addOutput 0 0, .addGate .and (.positive 0) (.positive 1),
      .drive 2 (.negative 3), .addElement .latch "l"] = .ok net ∧ net.Reachable :=
    (Reachable.withBuckets 0).runAll (by simp)
  obtain ⟨runs, pruned, _, _, responsive⟩ := reached.never_fails
  obtain ⟨_, _, copied, _, _⟩ := (Reachable.withBuckets 0).never_fails
  refine ⟨net, ran, ?_, pruned, copied net reached, responsive⟩
  intro id gate s t
  obtain ⟨outcome, redefined, _, blameless⟩ := runs (.redefine id gate s t) nofun
  exact ⟨outcome, redefined, blameless⟩

end Network

end GateNet
