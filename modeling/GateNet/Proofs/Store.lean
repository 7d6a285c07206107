import GateNet.Store
import GateNet.Proofs.Ids

/-!
# Stores as finite maps

Slots and ids stay in step: a slot is live exactly when its id is in use.  Seen through `get?`, a
sound store is a finite map, and each operation has one equation.
-/

namespace GateNet

namespace Store

variable {α : Type}

/-- A slot is live exactly when its id is in use. -/
structure Sound (s : Store α) : Prop where
  ids : s.ids.Sound
  contains_eq : ∀ id, s.contains id = s.ids.inUse id
  within : s.ids.next ≤ s.slots.size

theorem contains_iff {s : Store α} {id : Nat} :
    s.contains id = true ↔ ∃ record, s.get? id = some record :=
  Option.isSome_iff_exists

theorem contains_eq_false_iff {s : Store α} {id : Nat} :
    s.contains id = false ↔ s.get? id = none := by
  simp [contains]

theorem sound_empty : Sound ({} : Store α) where
  ids := Ids.sound_empty
  contains_eq id := by simp [contains, get?, Ids.inUse]
  within := Nat.le_refl _

theorem lt_bound {s : Store α} (sound : s.Sound) {id : Nat} {record : α}
    (held : s.get? id = some record) : id < s.bound := by
  apply Ids.lt_next
  rw [← sound.contains_eq, contains_iff]
  exact ⟨record, held⟩

theorem lt_capacity {s : Store α} {id : Nat} {record : α} (held : s.get? id = some record) :
    id < s.capacity := by
  unfold get? at held
  split at held
  · next found => exact (Array.getElem?_eq_some_iff.mp found).1
  · cases held

theorem fetch_of_get? {s : Store α} {id : Nat} {record : α} (held : s.get? id = some record) :
    s.fetch id = .ok record :=
  fetch_eq_ok_iff.mpr held

/-! ## Changing records -/

@[simp] theorem get?_modify (s : Store α) (id : Nat) (change : α → α) (x : Nat) :
    (s.modify id change).get? x = if x = id then (s.get? x).map change else s.get? x := by
  unfold get? modify
  simp only [Array.getElem?_modify]
  by_cases same : x = id
  · subst same
    simp only [if_true]
    cases s.slots[x]? with
    | none => rfl
    | some slot => cases live : slot.live <;> simp [live]
  · rw [if_neg (fun equal => same equal.symm), if_neg same]

theorem modify_modify (s : Store α) (id : Nat) (first second : α → α) :
    (s.modify id first).modify id second = s.modify id fun record => second (first record) := by
  unfold modify
  congr 1
  refine Array.ext (by simp) fun x _ _ => ?_
  simp only [Array.getElem_modify]
  split <;> rfl

theorem modify_id (s : Store α) (id : Nat) : s.modify id (fun record => record) = s := by
  unfold modify
  congr 1
  refine Array.ext (by simp) fun x _ _ => ?_
  simp only [Array.getElem_modify]
  split <;> rfl

@[simp] theorem contains_modify (s : Store α) (id : Nat) (change : α → α) (x : Nat) :
    (s.modify id change).contains x = s.contains x := by
  unfold contains
  rw [get?_modify]
  split <;> simp

@[simp] theorem capacity_modify (s : Store α) (id : Nat) (change : α → α) :
    (s.modify id change).capacity = s.capacity :=
  Array.size_modify ..

theorem Sound.modify {s : Store α} (sound : s.Sound) (id : Nat) (change : α → α) :
    (s.modify id change).Sound where
  ids := sound.ids
  contains_eq x := by
    rw [contains_modify]
    exact sound.contains_eq x
  within := by
    show s.ids.next ≤ (s.slots.modify _ _).size
    rw [Array.size_modify]
    exact sound.within

theorem update_eq {s : Store α} {id : Nat} {record : α} (held : s.get? id = some record)
    (change : α → α) : s.update id change = .ok (s.modify id change) := by
  rw [update, if_pos (contains_iff.mpr ⟨record, held⟩)]

theorem eq_modify_of_update {s after : Store α} {id : Nat} {change : α → α}
    (updated : s.update id change = .ok after) : after = s.modify id change := by
  unfold update at updated
  split at updated
  · exact (Except.ok.inj updated).symm
  · cases updated

/-! ## Adding and removing records -/

/-- What a new record of a slot becomes. -/
def renewed [Reusable α] (s : Store α) (id : Nat) (fresh : α) : α :=
  match s.slots[id]? with
  | some slot => Reusable.renew slot.payload fresh
  | none => fresh

theorem contains_fst_fresh {s : Store α} (sound : s.Sound) : s.contains s.ids.fresh.1 = false := by
  rw [sound.contains_eq]
  exact Ids.inUse_fst_fresh sound.ids

/-- The slot of a new record is that of the id handed out; no other slot changes. -/
theorem slots_of_insert [Reusable α] {s more : Store α} {make : Nat → α} {id : Nat}
    (inserted : s.insert make = .ok (id, more)) :
    id = s.ids.fresh.1 ∧ more.ids = s.ids.fresh.2 ∧
      ∀ x, more.slots[x]? = if x = id then some ⟨s.renewed id (make id), true⟩ else s.slots[x]? := by
  unfold insert allocate at inserted
  dsimp only at inserted
  split at inserted
  · next slot held =>
    split at inserted
    · cases inserted
    · cases inserted
      obtain ⟨inside, _⟩ := Array.getElem?_eq_some_iff.mp held
      refine ⟨rfl, rfl, fun x => ?_⟩
      simp only [renewed, held, Array.getElem?_setIfInBounds]
      by_cases same : x = s.ids.fresh.1
      · subst same
        simp [inside]
      · rw [if_neg (fun equal => same equal.symm), if_neg same]
  · next held =>
    split at inserted
    · next size =>
      cases inserted
      refine ⟨rfl, rfl, fun x => ?_⟩
      simp only [renewed, held, Array.getElem?_push, ← size]
    · cases inserted

/-- A record takes the first dead slot, or a new one behind all others. -/
theorem exists_allocate [Reusable α] {s : Store α} (sound : s.Sound) (make : Nat → α) :
    ∃ slots, s.allocate make = (.ok s.ids.fresh.1, { slots, ids := s.ids.fresh.2 }) ∧
      slots.size = max s.slots.size (s.ids.fresh.1 + 1) := by
  have unused := contains_fst_fresh sound
  have small := Nat.le_trans (Ids.fst_fresh_le sound.ids) sound.within
  unfold allocate
  cases held : s.slots[s.ids.fresh.1]? with
  | some slot =>
    obtain ⟨inside, found⟩ := Array.getElem?_eq_some_iff.mp held
    have dead : slot.live = false := by
      simpa [contains, get?, held] using unused
    refine ⟨s.slots.setIfInBounds s.ids.fresh.1
      ⟨Reusable.renew slot.payload (make s.ids.fresh.1), true⟩, by simp [held, dead], ?_⟩
    rw [Array.size_setIfInBounds]
    omega
  | none =>
    have outside := Array.getElem?_eq_none_iff.mp held
    have size : s.ids.fresh.1 = s.slots.size := by omega
    refine ⟨s.slots.push ⟨make s.ids.fresh.1, true⟩, by simp [size], ?_⟩
    rw [Array.size_push]
    omega

theorem insert_of_allocate [Reusable α] {s more : Store α} {make : Nat → α} {id : Nat}
    (allocated : s.allocate make = (.ok id, more)) : s.insert make = .ok (id, more) := by
  rw [insert, allocated]
  rfl

theorem get?_of_insert [Reusable α] {s more : Store α} {make : Nat → α} {id : Nat}
    (inserted : s.insert make = .ok (id, more)) (x : Nat) :
    more.get? x = if x = id then some (s.renewed id (make id)) else s.get? x := by
  obtain ⟨_, _, slots⟩ := slots_of_insert inserted
  simp only [get?, slots]
  by_cases same : x = id <;> simp [same]

/-- A record is added under an id that no record has, and no other record changes. -/
theorem insert_spec [Reusable α] {s : Store α} (sound : s.Sound) (make : Nat → α) :
    ∃ id more, s.insert make = .ok (id, more) ∧ more.Sound ∧ s.get? id = none ∧
      id = s.ids.fresh.1 ∧ more.ids = s.ids.fresh.2 ∧
      ∀ x, more.get? x = if x = id then some (s.renewed id (make id)) else s.get? x := by
  obtain ⟨slots, allocated, size⟩ := exists_allocate sound make
  have inserted := insert_of_allocate allocated
  have view := get?_of_insert inserted
  refine ⟨_, _, inserted, ⟨Ids.sound_fresh sound.ids, fun x => ?_, ?_⟩,
    contains_eq_false_iff.mp (contains_fst_fresh sound), rfl, rfl, view⟩
  · rw [Bool.eq_iff_iff, Ids.inUse_fresh sound.ids, ← sound.contains_eq]
    simp only [contains, view]
    by_cases same : x = s.ids.fresh.1 <;> simp [same]
  · have within := sound.within
    show s.ids.fresh.2.next ≤ slots.size
    rw [size, Ids.next_fresh_eq_max sound.ids]
    omega

/-- What is removed was in use, and no other record changes. -/
theorem of_remove {s rest : Store α} {id : Nat} (removed : s.remove id = .ok rest) :
    s.ids.retire id = (.ok (), rest.ids) ∧
      ∀ x, rest.get? x = if x = id then none else s.get? x := by
  unfold remove release at removed
  split at removed
  · cases removed
  · next ids retired =>
    split at removed
    · cases removed
      refine ⟨retired, fun x => ?_⟩
      simp only [get?, Array.getElem?_modify]
      by_cases same : x = id
      · subst same
        cases s.slots[x]? <;> simp
      · rw [if_neg (fun equal => same equal.symm), if_neg same]
    · cases removed

/-- The slot of a removed record stays, marked as dead. -/
theorem release_eq {s : Store α} {id : Nat} {ids : Ids} (retired : s.ids.retire id = (.ok (), ids))
    (small : id < s.slots.size) :
    s.release id =
      (.ok (), { slots := s.slots.modify id fun slot => { slot with live := false }, ids }) := by
  simp [release, retired, small]

/-- An id that is not in use is not taken back, and nothing changes. -/
theorem release_of_unused {s : Store α} {id : Nat} (unused : s.ids.inUse id = false) :
    s.release id = (.error (.notInUse id), s) := by
  rw [release, Ids.retire_of_unused unused]

/-- A live record can be removed, and no other record changes. -/
theorem remove_spec {s : Store α} (sound : s.Sound) {id : Nat} {record : α}
    (held : s.get? id = some record) :
    ∃ rest, s.remove id = .ok rest ∧ rest.Sound ∧
      ∀ x, rest.get? x = if x = id then none else s.get? x := by
  have used : s.ids.inUse id = true := by
    rw [← sound.contains_eq, contains_iff]
    exact ⟨record, held⟩
  obtain ⟨ids, retired, soundIds, next, inUse⟩ := Ids.retire_spec sound.ids used
  have removed := congrArg (fun step => (settled step).map Prod.snd)
    (release_eq retired (lt_capacity held))
  have view := (of_remove removed).2
  refine ⟨_, removed, ⟨soundIds, ?_, ?_⟩, view⟩
  · intro x
    rw [Bool.eq_iff_iff, inUse, ← sound.contains_eq]
    simp only [contains, view]
    by_cases same : x = id <;> simp [same]
  · show ids.next ≤ (s.slots.modify _ _).size
    rw [Array.size_modify, next]
    exact sound.within

/-! ## Clearing -/

@[simp] theorem get?_clear (s : Store α) (x : Nat) : s.clear.get? x = none := by
  simp only [get?, clear, Array.getElem?_map]
  cases s.slots[x]? <;> rfl

theorem sound_clear (s : Store α) : s.clear.Sound where
  ids := Ids.sound_empty
  contains_eq x := by
    rw [contains_eq_false_iff.mpr (get?_clear s x)]
    simp [clear, Ids.inUse]
  within := Nat.zero_le _

/-! ## Listing -/

theorem pairwise_map_fst_toList (s : Store α) : (s.toList.map Prod.fst).Pairwise (· < ·) := by
  have sorted : (s.slots.toList.zipIdx.map Prod.snd).Pairwise (· < ·) := by
    rw [List.zipIdx_map_snd]
    exact List.pairwise_lt_range'
  have kept : s.toList.map Prod.fst =
      (s.slots.toList.zipIdx.filter fun entry => entry.1.live).map Prod.snd := by
    unfold toList
    induction s.slots.toList.zipIdx with
    | nil => rfl
    | cons entry rest inductionHypothesis =>
      simp only [List.filterMap_cons, List.filter_cons]
      cases entry.1.live <;> simp [inductionHypothesis]
  rw [kept]
  exact sorted.sublist (List.filter_sublist.map _)

theorem nodup_map_fst_toList (s : Store α) : (s.toList.map Prod.fst).Nodup :=
  s.pairwise_map_fst_toList.imp Nat.ne_of_lt

theorem mem_map_fst_toList {s : Store α} {id : Nat} :
    id ∈ s.toList.map Prod.fst ↔ s.contains id = true := by
  simp only [List.mem_map, Prod.exists, exists_and_right, exists_eq_right, mem_toList,
    contains_iff]

theorem size_eq_length {s : Store α} (sound : s.Sound) {listed : List Nat} (nodup : listed.Nodup)
    (exact : ∀ id, id ∈ listed ↔ s.contains id = true) : s.size = listed.length := by
  rw [size, sound.ids.count_eq]
  apply List.Perm.length_eq
  refine (List.perm_ext_iff_of_nodup s.ids.nodup_toList nodup).mpr fun id => ?_
  rw [Ids.mem_toList, exact, sound.contains_eq]

end Store

end GateNet
