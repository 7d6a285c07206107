import GateNet.Proofs.Ledger
import GateNet.Proofs.Store

/-!
# Stores refine a partial map

`Cells` says what the changes of a `Store` mean: under each id that was ever used there is the
payload that was last put there, and a ledger says which ids are in use.  A record is renewed from
the payload that lies in its place, whether it was removed or everything was cleared.  Every list of
changes gets the same answers from both, for any records and any way of renewing them, and in the
end everything that can be asked of the store is read off the cells.
-/

namespace GateNet

variable {α : Type}

/-! ## Changes -/

namespace Store

/-- A request that may change a store. -/
inductive Change (α : Type)
  | insert (make : Nat → α)
  | remove (id : Nat)
  | update (id : Nat) (change : α → α)
  | clear

/-- The answer to a change, and the store that it leaves, at a fault as well.  Only `Change.insert`
answers an id. -/
def change [Reusable α] (s : Store α) : Change α → Except Fault (Option Nat) × Store α
  | .insert make => ((s.allocate make).1.map some, (s.allocate make).2)
  | .remove id => ((s.release id).1.map fun _ => none, (s.release id).2)
  | .update id change =>
      match s.update id change with
      | .ok after => (.ok none, after)
      | .error fault => (.error fault, s)
  | .clear => (.ok none, s.clear)

end Store

/-- What was last put under each id, and the ids in use. -/
structure Cells (α : Type) where
  payload : Nat → Option α := fun _ => none
  ledger : Ledger := {}
  /-- The largest number that `Ledger.next` ever was. -/
  peak : Nat := 0

namespace Cells

/-- The record of an id in use. -/
def record? (c : Cells α) (id : Nat) : Option α :=
  if id ∈ c.ledger.used then c.payload id else none

/-- What a new record becomes in a place: itself where nothing was put before. -/
def renewed [Reusable α] (c : Cells α) (id : Nat) (fresh : α) : α :=
  match c.payload id with
  | none => fresh
  | some old => Reusable.renew old fresh

def insert [Reusable α] (c : Cells α) (make : Nat → α) : Cells α :=
  let id := c.ledger.vacant
  { payload := Function.update c.payload id (some (c.renewed id (make id)))
    ledger := c.ledger.issue
    peak := max c.peak c.ledger.issue.next }

def remove (c : Cells α) (id : Nat) : Cells α :=
  { c with ledger := c.ledger.retire id }

def update (c : Cells α) (id : Nat) (change : α → α) : Cells α :=
  { c with payload := Function.update c.payload id ((c.payload id).map change) }

def clear (c : Cells α) : Cells α :=
  { c with ledger := {} }

/-- A change that faults leaves the cells as they are. -/
def change [Reusable α] (c : Cells α) : Store.Change α → Except Fault (Option Nat) × Cells α
  | .insert make => (.ok (some c.ledger.vacant), c.insert make)
  | .remove id =>
      if id ∈ c.ledger.used then (.ok none, c.remove id) else (.error (.notInUse id), c)
  | .update id change =>
      if id ∈ c.ledger.used then (.ok none, c.update id change) else (.error (.deadSlot id), c)
  | .clear => (.ok none, c.clear)

/-- Everything that can be asked of a store, by its cells. -/
structure Shown (c : Cells α) (s : Store α) : Prop where
  get? : ∀ id, s.get? id = c.record? id
  contains : ∀ id, s.contains id = true ↔ id ∈ c.ledger.used
  listed : ∀ id record, (id, record) ∈ s.toList ↔ c.record? id = some record
  increasing : (s.toList.map Prod.fst).Pairwise (· < ·)
  size : s.size = c.ledger.used.card
  isEmpty : s.isEmpty = true ↔ c.ledger.used = ∅
  below : ∀ id ∈ c.ledger.used, id < s.bound
  bound : s.bound = c.ledger.next
  capacity : s.capacity = c.peak
  payload : ∀ id, (s.slots[id]?).map Slot.payload = c.payload id

/-! ## A store and its cells -/

/-- The slots hold the payloads and say which of them are live; the ids are those of the ledger. -/
structure Keeps (c : Cells α) (s : Store α) : Prop where
  ids : c.ledger.Keeps s.ids
  slots : ∀ id, s.slots[id]? = (c.payload id).map fun record => ⟨record, decide (id ∈ c.ledger.used)⟩
  capacity : s.slots.size = c.peak
  within : c.ledger.next ≤ c.peak

variable {c : Cells α} {s : Store α}

theorem Keeps.get? (keeps : c.Keeps s) (id : Nat) : s.get? id = c.record? id := by
  unfold Store.get? record?
  rw [keeps.slots]
  cases c.payload id <;> simp

theorem Keeps.exists_payload (keeps : c.Keeps s) {id : Nat} (used : id ∈ c.ledger.used) :
    ∃ record, c.payload id = some record := by
  have small : id < s.slots.size := by
    have := Ids.lt_next ((keeps.ids.inUse id).mpr used)
    have := keeps.ids.next
    have := keeps.within
    have := keeps.capacity
    omega
  obtain ⟨slot, held⟩ : ∃ slot, s.slots[id]? = some slot := ⟨_, Array.getElem?_eq_getElem small⟩
  rw [keeps.slots, Option.map_eq_some_iff] at held
  exact held.imp fun _ => And.left

theorem Keeps.contains (keeps : c.Keeps s) (id : Nat) :
    s.contains id = true ↔ id ∈ c.ledger.used := by
  rw [Store.contains, keeps.get?, record?]
  split
  · next used =>
    obtain ⟨record, held⟩ := keeps.exists_payload used
    simp [held, used]
  · next unused => simp [unused]

theorem Keeps.sound (keeps : c.Keeps s) : s.Sound where
  ids := keeps.ids.sound
  contains_eq id := by rw [Bool.eq_iff_iff, keeps.contains, keeps.ids.inUse]
  within := by
    rw [keeps.ids.next, keeps.capacity]
    exact keeps.within

theorem Keeps.shown (keeps : c.Keeps s) : c.Shown s where
  get? := keeps.get?
  contains := keeps.contains
  listed id record := by rw [Store.mem_toList, keeps.get?]
  increasing := s.pairwise_map_fst_toList
  size := keeps.ids.count
  isEmpty := keeps.ids.shown.isEmpty
  below id used := Ids.lt_next ((keeps.ids.inUse id).mpr used)
  bound := keeps.ids.next
  capacity := keeps.capacity
  payload id := by
    rw [keeps.slots, Option.map_map]
    exact Option.map_id'

theorem keeps_empty : Keeps {} ({} : Store α) :=
  ⟨Ledger.keeps_empty, fun _ => rfl, rfl, Nat.le_refl _⟩

/-! ## One change -/

theorem Keeps.renewed_eq [Reusable α] (keeps : c.Keeps s) (id : Nat) (fresh : α) :
    s.renewed id fresh = c.renewed id fresh := by
  unfold Store.renewed renewed
  rw [keeps.slots]
  cases c.payload id <;> rfl

/-- A record takes the smallest place that is not in use. -/
theorem Keeps.insert [Reusable α] (keeps : c.Keeps s) (make : Nat → α) :
    ∃ more, s.allocate make = (.ok c.ledger.vacant, more) ∧ (c.insert make).Keeps more := by
  obtain ⟨slots, allocated, size⟩ := Store.exists_allocate keeps.sound make
  obtain ⟨_, _, slots_eq⟩ := Store.slots_of_insert (Store.insert_of_allocate allocated)
  have next : c.ledger.issue.next = max (c.ledger.vacant + 1) c.ledger.next := c.ledger.next_issue
  have within := keeps.within
  have capacity := keeps.capacity
  rw [keeps.ids.vacant_eq] at allocated size slots_eq
  refine ⟨_, allocated, keeps.ids.fresh, fun id => ?_, ?_, ?_⟩
  · show slots[id]? = _
    rw [slots_eq, keeps.renewed_eq, keeps.slots]
    by_cases same : id = c.ledger.vacant
    · subst same
      simp [Cells.insert, Ledger.issue]
    · simp [Cells.insert, Ledger.issue, same]
  · show slots.size = max c.peak c.ledger.issue.next
    omega
  · exact Nat.le_max_right ..

/-- The place of a removed record keeps its payload. -/
theorem Keeps.remove (keeps : c.Keeps s) {id : Nat} (used : id ∈ c.ledger.used) :
    ∃ rest, s.release id = (.ok (), rest) ∧ (c.remove id).Keeps rest := by
  obtain ⟨ids, retired, kept⟩ := keeps.ids.retire used
  obtain ⟨record, held⟩ := Store.contains_iff.mp ((keeps.contains id).mpr used)
  refine ⟨_, Store.release_eq retired (Store.lt_capacity held), kept, fun x => ?_, ?_, keeps.within⟩
  · rw [Array.getElem?_modify, keeps.slots]
    simp only [Cells.remove, Ledger.retire, Finset.mem_erase]
    by_cases same : id = x
    · subst same
      cases c.payload id <;> simp
    · simp [same, Ne.symm same]
  · exact Array.size_modify.trans keeps.capacity

theorem Keeps.remove_error (keeps : c.Keeps s) {id : Nat} (unused : id ∉ c.ledger.used) :
    s.release id = (.error (.notInUse id), s) :=
  Store.release_of_unused (keeps.ids.inUse_eq_false unused)

theorem Keeps.update (keeps : c.Keeps s) (id : Nat) (change : α → α) :
    (c.update id change).Keeps (s.modify id change) where
  ids := keeps.ids
  slots x := by
    show _ = (Function.update c.payload id ((c.payload id).map change) x).map fun record =>
      Slot.mk record (decide (x ∈ c.ledger.used))
    rw [Store.modify, Array.getElem?_modify, keeps.slots]
    by_cases same : id = x
    · subst same
      rw [if_pos rfl, Function.update_self]
      cases c.payload id <;> rfl
    · rw [if_neg same, Function.update_of_ne (Ne.symm same)]
  capacity := Array.size_modify.trans keeps.capacity
  within := keeps.within

theorem Keeps.clear (keeps : c.Keeps s) : c.clear.Keeps s.clear where
  ids := Ledger.keeps_empty
  slots id := by
    simp only [Store.clear, Array.getElem?_map, keeps.slots, Cells.clear]
    cases c.payload id <;> simp
  capacity := Array.size_map.trans keeps.capacity
  within := Nat.zero_le _

/-- One change is answered alike and kept alike. -/
theorem Keeps.change [Reusable α] (keeps : c.Keeps s) (change : Store.Change α) :
    Together (fun s c => c.Keeps s) (s.change change) (c.change change) := by
  cases change with
  | insert make =>
    obtain ⟨more, allocated, keeps⟩ := keeps.insert make
    simp only [Store.change, allocated]
    exact ⟨rfl, keeps⟩
  | remove id =>
    unfold Store.change Cells.change
    by_cases used : id ∈ c.ledger.used
    · obtain ⟨rest, removed, keeps⟩ := keeps.remove used
      simp only [removed, if_pos used]
      exact ⟨rfl, keeps⟩
    · simp only [keeps.remove_error used, if_neg used]
      exact ⟨rfl, keeps⟩
  | update id change =>
    unfold Store.change Cells.change Store.update
    by_cases used : id ∈ c.ledger.used
    · simp only [if_pos ((keeps.contains id).mpr used), if_pos used]
      exact ⟨rfl, keeps.update id change⟩
    · simp only [if_neg (mt (keeps.contains id).mp used), if_neg used]
      exact ⟨rfl, keeps⟩
  | clear => exact ⟨rfl, keeps.clear⟩

end Cells

/-- Any list of changes is answered from the cells, and what can be asked of the store afterwards,
and so after each change, is what the cells say.  In particular a record always finds a place. -/
theorem Store.refines_partial_map [Reusable α] (changes : List (Store.Change α)) :
    (replay Store.change .empty changes).1 = (replay Cells.change {} changes).1 ∧
      (replay Cells.change {} changes).2.Shown (replay Store.change .empty changes).2 := by
  obtain ⟨answers, keeps⟩ := replay_together
    (fun change _ (s : Store α) c (keeps : Cells.Keeps c s) => keeps.change change)
    Cells.keeps_empty
  exact ⟨answers, keeps.shown⟩

end GateNet
