import GateNet.Network.Copy
import GateNet.Network.Evaluation
import GateNet.Proofs.Alike
import GateNet.Proofs.Making
import GateNet.Proofs.Prune
import GateNet.Proofs.Search

/-!
# Questions about networks that are alike

Everything that is asked of a network, for its own sake or to check a request, has the same answer
on networks that are alike.  There is one equation for each function, in the order in which the
functions call each other.
-/

namespace GateNet

namespace Network

variable {sizing : Sizing} {one two : Network}

namespace Alike

theorem node? (alike : one.Alike sizing two) (id : NodeId) :
    (one.node? id = none ∧ two.node? id = none) ∨
      ∃ n link, one.node? id = some n ∧ two.node? id = some { n with link } :=
  alike.nodes.get? id

theorem fetch_bind {β : Type} (alike : one.Alike sizing two) {id : NodeId}
    {ask ask' : Node → Except Fault β} (blind : ∀ n link, ask n = ask' { n with link }) :
    (one.nodes.fetch id >>= ask) = two.nodes.fetch id >>= ask' :=
  alike.nodes.fetch_bind blind

theorem noMarks (alike : one.Alike sizing two) : one.noMarks = two.noMarks := by
  rw [Network.noMarks, Network.noMarks, alike.bound]

/-! ## Orders -/

theorem offerReader (alike : one.Alike sizing two) : one.offerReader = two.offerReader := by
  funext w entry
  unfold Network.offerReader
  split
  · rfl
  · rfl
  · exact alike.fetch_bind fun _ _ => rfl

theorem offerReaders (alike : one.Alike sizing two) : one.offerReaders = two.offerReaders := by
  funext w id
  unfold Network.offerReaders
  rw [alike.offerReader]
  exact alike.fetch_bind fun _ _ => rfl

theorem driversFirst (alike : one.Alike sizing two) : one.driversFirst = two.driversFirst := by
  simp only [Network.driversFirst, alike.noMarks, alike.inputs, alike.offerReaders]

theorem offerDriver (alike : one.Alike sizing two) : one.offerDriver = two.offerDriver := by
  funext w id
  exact alike.fetch_bind fun _ _ => rfl

theorem offerDrivers (alike : one.Alike sizing two) : one.offerDrivers = two.offerDrivers := by
  funext w id
  unfold Network.offerDrivers
  rw [alike.offerDriver]
  exact alike.fetch_bind fun _ _ => rfl

theorem offerUnread (alike : one.Alike sizing two) : one.offerUnread = two.offerUnread := by
  funext w id
  unfold Network.offerUnread
  rw [alike.offerDriver]
  exact alike.fetch_bind fun _ _ => rfl

theorem offerSource (alike : one.Alike sizing two) : one.offerSource = two.offerSource := by
  funext w id
  unfold Network.offerSource
  rw [alike.offerDriver]
  exact alike.fetch_bind fun _ _ => rfl

theorem readersFirst (alike : one.Alike sizing two) : one.readersFirst = two.readersFirst := by
  simp only [Network.readersFirst, alike.noMarks, alike.outputs, alike.gates, alike.offerUnread,
    alike.offerSource, alike.offerDrivers]

/-! ## Depths -/

theorem enterGateDepth (alike : one.Alike sizing two) :
    one.enterGateDepth = two.enterGateDepth := by
  funext depths id
  exact alike.fetch_bind fun _ _ => rfl

theorem enterOutputDepth (alike : one.Alike sizing two) :
    one.enterOutputDepth = two.enterOutputDepth := by
  funext depths id
  exact alike.fetch_bind fun _ _ => rfl

theorem depths (alike : one.Alike sizing two) : one.depths = two.depths := by
  simp only [Network.depths, alike.driversFirst, alike.enterGateDepth, alike.enterOutputDepth,
    alike.outputs, alike.bound]

theorem computeDepth (alike : one.Alike sizing two) : one.computeDepth = two.computeDepth := by
  simp only [Network.computeDepth, alike.depths, alike.outputs]

/-! ## Evaluation -/

theorem enterInputs (alike : one.Alike sizing two) : one.enterInputs = two.enterInputs := by
  funext words
  simp only [Network.enterInputs, alike.inputs, alike.bound]

theorem enterGate (alike : one.Alike sizing two) : one.enterGate = two.enterGate := by
  funext values id
  exact alike.fetch_bind fun _ _ => rfl

theorem readOutput (alike : one.Alike sizing two) : one.readOutput = two.readOutput := by
  funext values id
  exact alike.fetch_bind fun _ _ => rfl

theorem evaluate (alike : one.Alike sizing two) : one.evaluate = two.evaluate := by
  funext words
  simp only [Network.evaluate, Network.outputWords, Network.values, alike.enterInputs,
    alike.driversFirst, alike.enterGate, alike.readOutput, alike.inputs, alike.outputs]

/-! ## Checks -/

theorem checkDriver (alike : one.Alike sizing two) : one.checkDriver = two.checkDriver := by
  funext s
  unfold Network.checkDriver
  cases s.node with
  | none => rfl
  | some id =>
    rcases alike.node? id with ⟨held, held'⟩ | ⟨n, link, held, held'⟩
    · simp only [held, held']
    · simp only [held, held']
      rfl

theorem checkDrivers (alike : one.Alike sizing two) : one.checkDrivers = two.checkDrivers := by
  funext s t
  simp only [Network.checkDrivers, alike.checkDriver]

theorem checkDrive (alike : one.Alike sizing two) : one.checkDrive = two.checkDrive := by
  funext id s
  unfold Network.checkDrive
  rw [alike.checkDriver]
  rcases alike.node? id with ⟨held, held'⟩ | ⟨n, link, held, held'⟩
  · simp only [held, held']
  · simp only [held, held']
    rfl

theorem check (alike : one.Alike sizing two) (side : Side) : side.check one = side.check two := by
  funext port bit
  simp only [Side.check_def, Network.checkBit, alike.ports]

theorem checkEraseGate (alike : one.Alike sizing two) :
    one.checkEraseGate = two.checkEraseGate := by
  funext id
  unfold Network.checkEraseGate
  rcases alike.node? id with ⟨held, held'⟩ | ⟨n, link, held, held'⟩
  · simp only [held, held']
  · simp only [held, held']
    rfl

theorem checkEraseElement (alike : one.Alike sizing two) :
    one.checkEraseElement = two.checkEraseElement := by
  funext family id
  unfold Network.checkEraseElement
  rw [alike.element?]
  cases two.element? family id with
  | none => rfl
  | some element =>
    rcases alike.nodes.fetch element.output with ⟨failed, failed'⟩ | ⟨n, link, held, held'⟩
    · simp only [failed, failed']
    · simp only [held, held']
      rfl

/-! ## Searching along fanouts -/

theorem search (alike : one.Alike sizing two) (target : NodeId) (seen : Marks)
    (stack : List NodeId) : one.search target seen stack = two.search target seen stack := by
  -- The search goes on with one more node marked.
  induction left : seen.unmarked using Nat.strong_induction_on generalizing seen stack with
  | _ count inductionHypothesis =>
    rw [search_eq one, search_eq two]
    cases chosen : seen.firstUnmarked stack with
    | error fault => rfl
    | ok next =>
      rw [ok_bind, ok_bind]
      match next with
      | none => rfl
      | some (id, rest) =>
        have fewer := Marks.unmarked_add (Marks.unmarked_of_firstUnmarked chosen)
        dsimp only
        split
        · rfl
        · exact alike.fetch_bind fun n link => inductionHypothesis _ (by omega) _ _ rfl

theorem feeds (alike : one.Alike sizing two) : one.feeds = two.feeds := by
  funext id target
  rw [Network.feeds, Network.feeds, alike.noMarks]
  exact alike.search _ _ _

theorem sortReader (alike : one.Alike sizing two) : one.sortReader = two.sortReader := by
  funext found entry
  exact alike.fetch_bind fun _ _ => rfl

theorem growCone (alike : one.Alike sizing two) (cone : Cone) (stack : List NodeId) :
    one.growCone cone stack = two.growCone cone stack := by
  induction left : cone.members.unmarked using Nat.strong_induction_on
    generalizing cone stack with
  | _ count inductionHypothesis =>
    rw [growCone_eq one, growCone_eq two]
    cases chosen : cone.members.firstUnmarked stack with
    | error fault => rfl
    | ok next =>
      rw [ok_bind, ok_bind]
      match next with
      | none => rfl
      | some (id, rest) =>
        have fewer := Marks.unmarked_add (Marks.unmarked_of_firstUnmarked chosen)
        refine alike.fetch_bind fun n link => ?_
        rw [alike.sortReader]
        refine congrArg (Except.bind _) (funext fun sorted => ?_)
        refine inductionHypothesis _ ?_ _ _ rfl
        show (cone.members.add id).unmarked < count
        omega

theorem fanoutCone (alike : one.Alike sizing two) : one.fanoutCone = two.fanoutCone := by
  funext id
  rw [Network.fanoutCone, Network.fanoutCone, alike.noMarks]
  exact alike.growCone _ _

theorem readings (alike : one.Alike sizing two) : one.readings = two.readings := by
  funext readers
  refine congrArg (fun ask => readers.toList.mapM ask) (funext fun id => ?_)
  exact alike.fetch_bind fun _ _ => rfl

theorem checkRedefine (alike : one.Alike sizing two) : one.checkRedefine = two.checkRedefine := by
  funext id s t
  have operand : one.checkOperand id = two.checkOperand id := by
    funext signal
    simp only [checkOperand, alike.checkDriver, alike.feeds]
  unfold Network.checkRedefine
  rw [operand]
  rcases alike.node? id with ⟨held, held'⟩ | ⟨n, link, held, held'⟩
  · simp only [held, held']
  · simp only [held, held']
    rfl

/-! ## Copying -/

theorem copiedRequest (alike : one.Alike sizing two) : one.copiedRequest = two.copiedRequest := by
  funext copies id
  unfold Network.copiedRequest
  rcases alike.nodes.fetch id with ⟨failed, failed'⟩ | ⟨n, link, held, held'⟩
  · rw [failed, failed']
  · rw [held, held']
    rfl

theorem copiedReading (alike : one.Alike sizing two) : one.copiedReading = two.copiedReading := by
  funext copies id
  unfold Network.copiedReading
  rcases alike.nodes.fetch id with ⟨failed, failed'⟩ | ⟨n, link, held, held'⟩
  · rw [failed, failed']
  · rw [held, held']
    rfl

/-! ## Walks -/

theorem fromStack (alike : one.Alike sizing two) (met : Std.TreeSet NodeId)
    (starts stack : List NodeId) :
    Walk.fromStack one met starts stack = Walk.fromStack two met starts stack := by
  induction stack with
  | nil => rfl
  | cons id stack inductionHypothesis =>
    rw [Walk.fromStack, Walk.fromStack]
    rcases alike.node? id with ⟨held, held'⟩ | ⟨n, link, held, held'⟩
    · simp only [held, held']
      exact inductionHypothesis
    · simp only [held, held']
      rfl

theorem fromStarts (alike : one.Alike sizing two) (met : Std.TreeSet NodeId)
    (starts : List NodeId) :
    Walk.fromStarts one met starts = Walk.fromStarts two met starts := by
  induction starts generalizing met with
  | nil => rfl
  | cons id starts inductionHypothesis =>
    rw [Walk.fromStarts, Walk.fromStarts]
    split
    · exact inductionHypothesis met
    · rcases alike.node? id with ⟨held, held'⟩ | ⟨n, link, held, held'⟩
      · simp only [held, held']
        exact inductionHypothesis _
      · simp only [held, held']
        rfl

theorem step (alike : one.Alike sizing two) (w : Walk) : w.step one = w.step two := by
  rw [Walk.step, Walk.step, alike.fromStack, alike.fromStarts]

theorem next (alike : one.Alike sizing two) (w : Walk) : w.next one = w.next two := by
  rw [Walk.next_eq, Walk.next_eq, alike.step]

theorem steps (alike : one.Alike sizing two) (count : Nat) (w : Walk) :
    Walk.steps one count w = Walk.steps two count w := by
  induction count generalizing w with
  | zero => rfl
  | succ count inductionHypothesis =>
    rw [Walk.steps, Walk.steps, alike.step]
    simp only [inductionHypothesis]

/-- The stores may have different numbers of slots, but a walk ends before it visits that many. -/
theorem reached (alike : one.Alike sizing two) (sound : one.Sound) (sound' : two.Sound) :
    one.reached = two.reached := by
  have starts : Walk.ofOutputs one = .ofOutputs two := by
    rw [Walk.ofOutputs, Walk.ofOutputs, alike.outputs]
  have few := (Walk.Begins.ofOutputs.finished sound).few
  have few' := (Walk.Begins.ofOutputs.finished sound').few
  unfold Walk.exhaust at few few'
  rw [← starts, ← alike.steps] at few'
  unfold Network.reached
  simp only [Walk.finish_eq, Walk.exhaust, ok_bind]
  rw [← starts, ← alike.steps, alike.noMarks,
    Walk.steps_eq_steps (Nat.lt_succ_of_le few) (Nat.lt_succ_of_le few')]

theorem deadGates (alike : one.Alike sizing two) : one.deadGates = two.deadGates := by
  funext marks
  rw [Network.deadGates, Network.deadGates, alike.driversFirst]

end Alike

end Network

end GateNet
