import GateNet.Fault

/-!
# Marks

`Marks` is a set of ids below a bound; a question about an id from the bound on is a fault.
`Worklist` is a queue of marked ids that are handled first come, first served: each id is queued
at most once, so handling them all ends, whatever is queued on the way.
-/

namespace GateNet

/-- A set of ids below a bound. -/
structure Marks where
  flags : Array Bool
  deriving DecidableEq, Repr

namespace Marks

def none (bound : Nat) : Marks := ⟨Array.replicate bound false⟩

def has (m : Marks) (id : Nat) : Except Fault Bool := fetchAt m.flags id

/-- Whether an id is marked; ids from the bound on are not. -/
def contains (m : Marks) (id : Nat) : Bool := m.flags.getD id false

def add (m : Marks) (id : Nat) : Marks := ⟨m.flags.setIfInBounds id true⟩

def mark (m : Marks) (id : Nat) : Except Fault Marks := do
  return ⟨← storeAt m.flags id true⟩

def markAll (m : Marks) (ids : List Nat) : Except Fault Marks :=
  ids.foldlM mark m

/-- Whether all ids of a list are marked; ids after the first unmarked one are not looked at. -/
def hasAll (m : Marks) : List Nat → Except Fault Bool
  | [] => .ok true
  | id :: rest => do
      if ← m.has id then hasAll m rest else return false

/-- The ids of a list that are marked, or those that are not. -/
def pick (m : Marks) (wanted : Bool) : List Nat → Except Fault (List Nat)
  | [] => .ok []
  | id :: rest => do
      let marked ← m.has id
      let picked ← pick m wanted rest
      return if marked = wanted then id :: picked else picked

/-- The first unmarked id of a list, and what follows it. -/
def firstUnmarked (m : Marks) : List Nat → Except Fault (Option (Nat × List Nat))
  | [] => .ok .none
  | id :: rest => do
      if ← m.has id then firstUnmarked m rest else return some (id, rest)

/-- How many ids below the bound are not marked. -/
def unmarked (m : Marks) : Nat := m.flags.count false

theorem unmarked_add {m : Marks} {id : Nat} (fresh : m.flags[id]? = some false) :
    (m.add id).unmarked + 1 = m.unmarked := by
  obtain ⟨inside, unset⟩ := Array.getElem?_eq_some_iff.mp fresh
  have some_left : 0 < m.flags.count false :=
    Array.count_pos_iff.mpr (unset ▸ Array.getElem_mem inside)
  simp only [unmarked, add, Array.setIfInBounds, inside, dif_pos, Array.count_set, unset,
    beq_self_eq_true, if_true, Bool.true_beq, Bool.false_eq_true, if_false]
  omega

theorem has_eq_ok_iff {m : Marks} {id : Nat} {marked : Bool} :
    m.has id = .ok marked ↔ m.flags[id]? = some marked :=
  fetchAt_eq_ok_iff

theorem unmarked_of_firstUnmarked {m : Marks} {id : Nat} {rest : List Nat} :
    ∀ {ids : List Nat}, m.firstUnmarked ids = .ok (some (id, rest)) →
      m.flags[id]? = some false
  | [], found => by cases found
  | a :: ids, found => by
      obtain ⟨marked, asked, found⟩ := bind_eq_ok_iff.mp found
      cases marked with
      | true => exact unmarked_of_firstUnmarked found
      | false =>
          cases found
          exact has_eq_ok_iff.mp asked

end Marks

/-- Marked ids, in the order in which they are handled. -/
structure Worklist where
  marks : Marks
  queue : Array Nat := #[]
  deriving DecidableEq, Repr

namespace Worklist

def push (w : Worklist) (id : Nat) : Worklist := ⟨w.marks.add id, w.queue.push id⟩

/-- An upper bound on how long the queue can become. -/
def budget (w : Worklist) : Nat := w.marks.unmarked + w.queue.size

theorem budget_push {w : Worklist} {id : Nat} (fresh : w.marks.flags[id]? = some false) :
    (w.push id).budget = w.budget := by
  have := Marks.unmarked_add fresh
  simp only [budget, push, Array.size_push]
  omega

/-- A handler of queued ids keeps the budget if each id that it queues was unmarked. -/
def KeepsBudget (handle : Worklist → Nat → Except Fault Worklist) : Prop :=
  ∀ w id next, handle w id = .ok next → next.budget ≤ w.budget

/-- Handles every queued id from a position on, also those that are queued meanwhile. -/
def drain (handle : Worklist → Nat → Except Fault Worklist) (keeps : KeepsBudget handle)
    (w : Worklist) (position : Nat) : Except Fault Worklist :=
  if inside : position < w.queue.size then
    match handled : handle w w.queue[position] with
    | .error fault => .error fault
    | .ok next => drain handle keeps next (position + 1)
  else .ok w
termination_by w.budget - position
decreasing_by
  have := keeps _ _ _ handled
  simp only [budget] at this ⊢
  omega

/-- A fold keeps the budget if each step does. -/
theorem budget_foldlM_le {α : Type} {step : Worklist → α → Except Fault Worklist}
    (keeps : ∀ w a next, step w a = .ok next → next.budget ≤ w.budget) :
    ∀ (items : List α) (w next : Worklist), items.foldlM step w = .ok next →
      next.budget ≤ w.budget
  | [], w, next, folded => by
      cases folded
      exact Nat.le_refl _
  | a :: rest, w, next, folded => by
      rw [List.foldlM_cons] at folded
      obtain ⟨middle, stepped, folded⟩ := bind_eq_ok_iff.mp folded
      exact Nat.le_trans (budget_foldlM_le keeps rest middle next folded)
        (keeps w a middle stepped)

end Worklist

end GateNet
