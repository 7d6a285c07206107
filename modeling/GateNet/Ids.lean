import GateNet.Fault

/-!
# Small reusable ids

`Ids` hands out the smallest id that is not in use and takes ids back.  Below `next`, the ids that
are not in use form a list of half-open spans, in increasing order; spans that touch are merged, so
that ids given back in any order leave the same list.  Ids from `next` on were never handed out.
-/

namespace GateNet

/-- The ids `start, …, stop - 1`. -/
structure Span where
  start : Nat
  stop : Nat
  deriving DecidableEq, Repr

namespace Span

def contains (s : Span) (id : Nat) : Bool :=
  s.start ≤ id && id < s.stop

def length (s : Span) : Nat :=
  s.stop - s.start

/-- Adds one id that lies in no span, merged with the spans that it touches. -/
def insert (id : Nat) : List Span → List Span
  | [] => [⟨id, id + 1⟩]
  | s :: rest =>
      if id + 1 < s.start then ⟨id, id + 1⟩ :: s :: rest
      else if id + 1 = s.start then ⟨id, s.stop⟩ :: rest
      else if s.stop = id then
        match rest with
        | [] => [⟨s.start, id + 1⟩]
        | t :: beyond =>
            if t.start = id + 1 then ⟨s.start, t.stop⟩ :: beyond
            else ⟨s.start, id + 1⟩ :: t :: beyond
      else s :: insert id rest

end Span

/-- Which ids are in use. -/
structure Ids where
  /-- The ids below `next` that are not in use, in increasing order. -/
  free : List Span := []
  /-- No id from here on was handed out. -/
  next : Nat := 0
  /-- How many ids are in use. -/
  count : Nat := 0
  deriving DecidableEq, Repr

namespace Ids

def empty : Ids := {}

/-- Hands out the smallest id that is not in use. -/
def fresh (ids : Ids) : Nat × Ids :=
  match ids.free with
  | [] => (ids.next, { ids with next := ids.next + 1, count := ids.count + 1 })
  | s :: rest =>
      let free := if s.start + 1 < s.stop then ⟨s.start + 1, s.stop⟩ :: rest else rest
      (s.start, { ids with free := free, count := ids.count + 1 })

def inUse (ids : Ids) (id : Nat) : Bool :=
  id < ids.next && ids.free.all fun s => !s.contains id

/-- Takes an id back, which must be in use.  The ids are changed once everything is checked. -/
def retire (ids : Ids) (id : Nat) : Except Fault Unit × Ids :=
  if ids.inUse id then
    if 0 < ids.count then
      (.ok (), { ids with free := Span.insert id ids.free, count := ids.count - 1 })
    else (.error .underflow, ids)
  else (.error (.notInUse id), ids)

def isEmpty (ids : Ids) : Bool :=
  ids.count == 0

/-- The ids in use, in increasing order. -/
def toList (ids : Ids) : List Nat :=
  (List.range ids.next).filter ids.inUse

theorem mem_toList {ids : Ids} {id : Nat} : id ∈ ids.toList ↔ ids.inUse id = true := by
  simp only [toList, List.mem_filter, List.mem_range, and_iff_right_iff_imp]
  intro used
  simp only [inUse, Bool.and_eq_true, decide_eq_true_eq] at used
  exact used.1

end Ids

end GateNet
