import GateNet.Walk
import GateNet.Proofs.Wiring

/-!
# Walks never start early

A walk takes a start only once its stack is used up, and by then the stack is empty.  So to start
never faults, on any network and in any state of the walk, and each call has an answer: it visits
the first live node of the stack or, if there is none, the first live start that was not met.
-/

namespace GateNet

namespace Walk

variable {net : Network} {met : Std.TreeSet NodeId} {starts stack : List NodeId} {w : Walk}

/-! ## What a call visits -/

/-- Visits the first live node of a stack. -/
def fromStack (net : Network) (met : Std.TreeSet NodeId) (starts : List NodeId) :
    List NodeId → Option (NodeId × Walk)
  | [] => none
  | id :: stack =>
      match net.node? id with
      | none => fromStack net met starts stack
      | some node => some (id, ({ stack, met, starts } : Walk).visit node)

/-- Visits the first live start that was not met before. -/
def fromStarts (net : Network) (met : Std.TreeSet NodeId) : List NodeId → Option NodeId × Walk
  | [] => (none, { met })
  | id :: starts =>
      if met.contains id then fromStarts net met starts
      else
        match net.node? id with
        | none => fromStarts net (met.insert id) starts
        | some node => (some id, ({ met := met.insert id, starts } : Walk).visit node)

def step (w : Walk) (net : Network) : Option NodeId × Walk :=
  match fromStack net w.met w.starts w.stack with
  | some (id, w) => (some id, w)
  | none => fromStarts net w.met w.starts

/-- Takes a number of steps, or fewer if the walk ends. -/
def steps (net : Network) : Nat → Walk → List NodeId × Walk
  | 0, w => ([], w)
  | count + 1, w =>
      match w.step net with
      | (none, w) => ([], w)
      | (some id, w) =>
          let (rest, w) := steps net count w
          (id :: rest, w)

/-- Takes all remaining steps; no more than the network has slots are left. -/
def exhaust (w : Walk) (net : Network) : List NodeId × Walk :=
  steps net (net.nodes.capacity + 1) w

/-! ## Calls are steps -/

/-- A stack without live nodes is used up and leaves an empty one. -/
theorem pop_eq (net : Network) (met : Std.TreeSet NodeId) (starts stack : List NodeId) :
    pop net met starts stack = match fromStack net met starts stack with
      | some (id, w) => (some id, w)
      | none => (none, { met, starts }) := by
  induction stack with
  | nil => rfl
  | cons id stack inductionHypothesis =>
    rw [pop, fromStack]
    cases net.node? id with
    | none => exact inductionHypothesis
    | some node => rfl

theorem next_of_some {id : NodeId} {after : Walk}
    (popped : pop net w.met w.starts w.stack = (some id, after)) :
    w.next net = .ok (some id, after) := by
  rw [next]
  split
  · next popped' =>
    cases popped.symm.trans popped'
    rfl
  · next popped' => cases popped.symm.trans popped'

theorem newStart_of_empty (met : Std.TreeSet NodeId) (starts : List NodeId) :
    newStart { met, starts } = .ok (match starts.dropWhile met.contains with
      | [] => (false, { met })
      | id :: starts => (true, { stack := [id], met := met.insert id, starts })) := by
  unfold newStart
  simp only [List.isEmpty_nil, if_true]
  cases starts.dropWhile met.contains <;> rfl

/-- Once the stack is used up, the walk goes on with the next start, without a fault. -/
theorem next_of_none (popped : pop net met starts stack = (none, { met, starts })) :
    next { stack, met, starts } net = match starts.dropWhile met.contains with
      | [] => .ok (none, { met })
      | id :: starts => next { stack := [id], met := met.insert id, starts } net := by
  have started := newStart_of_empty met starts
  rw [next]
  split
  · next popped' => cases popped.symm.trans popped'
  · next popped' =>
    cases popped.symm.trans popped'
    cases left : starts.dropWhile met.contains with
    | nil =>
      rw [left] at started
      split
      · next failed => cases started.symm.trans failed
      · next ended =>
        cases started.symm.trans ended
        rfl
      · next again => cases started.symm.trans again
    | cons id rest =>
      rw [left] at started
      split
      · next failed => cases started.symm.trans failed
      · next ended => cases started.symm.trans ended
      · next again =>
        cases started.symm.trans again
        rfl

/-- To take the next start ahead of a call changes nothing of what the call answers and leaves, so
it does not matter whether a walk takes its first start when it is made. -/
theorem next_of_newStart {more : Bool} {after : Walk} (started : w.newStart = .ok (more, after)) :
    after.next net = w.next net := by
  obtain ⟨stack, met, starts⟩ := w
  have empty : stack = [] := by
    unfold newStart at started
    split at started
    · next empty => exact List.isEmpty_iff.mp empty
    · cases started
  subst empty
  rw [newStart_of_empty] at started
  have emptied : pop net met starts [] = (none, { met, starts }) := rfl
  rw [next_of_none emptied]
  cases left : starts.dropWhile met.contains with
  | nil =>
    rw [left] at started
    cases started
    have ended : pop net met [] [] = (none, { met }) := rfl
    exact next_of_none ended
  | cons id rest =>
    rw [left] at started
    cases started
    rfl

theorem fromStarts_dropWhile (net : Network) (met : Std.TreeSet NodeId) (starts : List NodeId) :
    fromStarts net met (starts.dropWhile met.contains) = fromStarts net met starts := by
  induction starts with
  | nil => rfl
  | cons id starts inductionHypothesis =>
    rw [List.dropWhile_cons]
    split
    · next known => rw [inductionHypothesis, fromStarts, if_pos known]
    · rfl

/-- With an empty stack, the first live start that was not met is visited. -/
theorem next_of_empty (net : Network) (met : Std.TreeSet NodeId) (starts : List NodeId) :
    next { met, starts } net = .ok (fromStarts net met starts) := by
  -- By induction on the number of starts: a dead one is taken off the stack again.
  induction count : starts.length using Nat.strong_induction_on generalizing met starts with
  | _ count inductionHypothesis =>
    subst count
    rw [next_of_none rfl, ← fromStarts_dropWhile]
    have shorter := (List.dropWhile_sublist (l := starts) met.contains).length_le
    cases left : starts.dropWhile met.contains with
    | nil => rfl
    | cons id rest =>
      have fresh : ¬ met.contains id = true := by
        have some : starts.dropWhile met.contains ≠ [] := by simp [left]
        have first := List.head_dropWhile_not met.contains some
        simp only [left, List.head_cons] at first
        rw [first]
        exact Bool.false_ne_true
      rw [left] at shorter
      rw [fromStarts, if_neg fresh]
      cases found : net.node? id with
      | none =>
        have popped : pop net (met.insert id) rest [id] =
            (none, { met := met.insert id, starts := rest }) := by
          rw [pop, found]
          rfl
        show next _ net = .ok (fromStarts net (met.insert id) rest)
        rw [← inductionHypothesis rest.length shorter (met.insert id) rest rfl,
          next_of_none popped, next_of_none rfl]
      | some node => exact next_of_some (by simp only [pop, found])

/-- A call is a step: no call faults. -/
theorem next_eq (w : Walk) (net : Network) : w.next net = .ok (w.step net) := by
  obtain ⟨stack, met, starts⟩ := w
  have popped := pop_eq net met starts stack
  unfold step
  cases waiting : fromStack net met starts stack with
  | some visited =>
    rw [waiting] at popped
    exact next_of_some popped
  | none =>
    rw [waiting] at popped
    show next _ net = .ok (fromStarts net met starts)
    rw [next_of_none popped, ← next_of_empty, next_of_none rfl]

theorem take_eq (net : Network) (count : Nat) (w : Walk) :
    take net count w = .ok (steps net count w) := by
  induction count generalizing w with
  | zero => rfl
  | succ count inductionHypothesis =>
    rw [take, steps, next_eq, ok_bind]
    rcases w.step net with ⟨_ | id, after⟩
    · rfl
    · simp only [inductionHypothesis, ok_bind, pure_eq_ok]

theorem finish_eq (w : Walk) (net : Network) :
    w.finish net = .ok (w.exhaust net) :=
  take_eq net _ w

end Walk

end GateNet
