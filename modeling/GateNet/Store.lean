import GateNet.Ids

/-!
# Stores of records

A `Store` keeps records under small ids that `Ids` hands out.  Removing a record only marks its
slot as dead: the payload stays, and the next record of that slot is made from the old payload and
the new record by `Reusable.renew`.
-/

namespace GateNet

/-- How a record takes over a slot that held another one.  By default nothing is kept. -/
class Reusable (α : Type) where
  renew : (old fresh : α) → α := fun _ fresh => fresh

/-- One place for a record. -/
structure Slot (α : Type) where
  payload : α
  live : Bool
  deriving DecidableEq, Repr

/-- Records under small reusable ids. -/
structure Store (α : Type) where
  slots : Array (Slot α) := #[]
  ids : Ids := {}
  deriving DecidableEq, Repr

namespace Store

variable {α : Type}

def empty : Store α := {}

/-- The live record of an id. -/
def get? (s : Store α) (id : Nat) : Option α :=
  match s.slots[id]? with
  | some slot => if slot.live then some slot.payload else none
  | none => none

def fetch (s : Store α) (id : Nat) : Except Fault α :=
  match s.get? id with
  | some record => .ok record
  | none => .error (.deadSlot id)

def contains (s : Store α) (id : Nat) : Bool :=
  (s.get? id).isSome

/-- Changes the payload of a slot. -/
def modify (s : Store α) (id : Nat) (change : α → α) : Store α :=
  { s with slots := s.slots.modify id fun slot => { slot with payload := change slot.payload } }

def update (s : Store α) (id : Nat) (change : α → α) : Except Fault (Store α) :=
  if s.contains id then .ok (s.modify id change) else .error (.deadSlot id)

/-- Adds a record under the smallest id that is not in use; the record may depend on its id.  The
id is handed out before its slot is looked at. -/
def allocate [Reusable α] (s : Store α) (make : Nat → α) : Except Fault Nat × Store α :=
  let (id, ids) := s.ids.fresh
  match s.slots[id]? with
  | some slot =>
      if slot.live then (.error (.slotTaken id), { s with ids })
      else
        let payload := Reusable.renew slot.payload (make id)
        (.ok id, { slots := s.slots.setIfInBounds id ⟨payload, true⟩, ids })
  | none =>
      if id = s.slots.size then (.ok id, { slots := s.slots.push ⟨make id, true⟩, ids })
      else (.error (.slotGap id s.slots.size), { s with ids })

def insert [Reusable α] (s : Store α) (make : Nat → α) : Except Fault (Nat × Store α) :=
  settled (s.allocate make)

/-- Gives the id of a live record back and marks its slot as dead. -/
def release (s : Store α) (id : Nat) : Except Fault Unit × Store α :=
  match s.ids.retire id with
  | (.error fault, ids) => (.error fault, { s with ids })
  | (.ok (), ids) =>
      if id < s.slots.size then
        (.ok (), { slots := s.slots.modify id fun slot => { slot with live := false }, ids })
      else (.error (.outOfRange s.slots.size id), { s with ids })

def remove (s : Store α) (id : Nat) : Except Fault (Store α) :=
  (settled (s.release id)).map Prod.snd

/-- Marks every slot as dead and gives all ids back. -/
def clear (s : Store α) : Store α :=
  { slots := s.slots.map fun slot => { slot with live := false }, ids := {} }

/-- Every live id is below this number. -/
def bound (s : Store α) : Nat :=
  s.ids.next

def size (s : Store α) : Nat :=
  s.ids.count

def isEmpty (s : Store α) : Bool :=
  s.ids.isEmpty

/-- How many slots were ever used. -/
def capacity (s : Store α) : Nat :=
  s.slots.size

/-- The live records with their ids, in increasing order of ids. -/
def toList (s : Store α) : List (Nat × α) :=
  s.slots.toList.zipIdx.filterMap fun (slot, id) =>
    if slot.live then some (id, slot.payload) else none

theorem fetch_eq_ok_iff {s : Store α} {id : Nat} {record : α} :
    s.fetch id = .ok record ↔ s.get? id = some record := by
  unfold fetch
  split <;> simp_all

theorem mem_toList {s : Store α} {id : Nat} {record : α} :
    (id, record) ∈ s.toList ↔ s.get? id = some record := by
  simp only [toList, get?, List.mem_filterMap, Prod.exists, List.mem_zipIdx_iff_getElem?,
    Array.getElem?_toList]
  constructor
  · rintro ⟨slot, index, held, kept⟩
    split at kept
    · next live =>
      simp only [Option.some.injEq, Prod.mk.injEq] at kept
      obtain ⟨rfl, rfl⟩ := kept
      simp [held, live]
    · simp at kept
  · intro found
    split at found
    · next slot held =>
      split at found
      · next live => exact ⟨slot, id, held, by simp_all⟩
      · simp at found
    · simp at found

end Store

end GateNet
