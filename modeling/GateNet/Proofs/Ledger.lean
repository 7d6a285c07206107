import GateNet.Proofs.Ids
import GateNet.Proofs.Replay
import Mathlib.Data.Finset.Lattice.Fold
import Mathlib.Data.Finset.Card
import Mathlib.Data.Fintype.EquivFin
import Mathlib.Order.Lattice.Nat

/-!
# Ids refine a finite set

A `Ledger` says what the changes of an `Ids` mean: it holds the set of the ids in use and the set of
all ids that were handed out since it was cleared, and nothing of spans.  Every list of changes gets
the same answers from both, and in the end everything that can be asked of the ids is read off the
two sets.
-/

namespace GateNet

/-! ## Changes -/

namespace Ids

/-- A request that may change which ids are in use. -/
inductive Change
  | fresh
  | retire (id : Nat)
  | clear
  deriving DecidableEq, Repr

/-- The answer to a change, and the ids that it leaves, at a fault as well.  Only `Change.fresh`
answers an id. -/
def change (ids : Ids) : Change → Except Fault (Option Nat) × Ids
  | .fresh => (.ok (some ids.fresh.1), ids.fresh.2)
  | .retire id => ((ids.retire id).1.map fun _ => none, (ids.retire id).2)
  | .clear => (.ok none, .empty)

end Ids

/-- The ids in use, and all ids that were handed out since the last clearing. -/
structure Ledger where
  used : Finset Nat := ∅
  issued : Finset Nat := ∅

namespace Ledger

/-- The smallest id that is not in use. -/
def vacant (l : Ledger) : Nat :=
  Nat.find (Infinite.exists_notMem_finset l.used)

/-- One more than the largest id that was handed out, and 0 if none was. -/
def next (l : Ledger) : Nat :=
  l.issued.sup (· + 1)

def issue (l : Ledger) : Ledger :=
  { used := insert l.vacant l.used, issued := insert l.vacant l.issued }

def retire (l : Ledger) (id : Nat) : Ledger :=
  { l with used := l.used.erase id }

/-- A change that faults leaves the sets as they are. -/
def change (l : Ledger) : Ids.Change → Except Fault (Option Nat) × Ledger
  | .fresh => (.ok (some l.vacant), l.issue)
  | .retire id =>
      if id ∈ l.used then (.ok none, l.retire id) else (.error (.notInUse id), l)
  | .clear => (.ok none, {})

theorem vacant_notMem (l : Ledger) : l.vacant ∉ l.used :=
  Nat.find_spec (Infinite.exists_notMem_finset l.used)

theorem vacant_le {l : Ledger} {id : Nat} (unused : id ∉ l.used) : l.vacant ≤ id :=
  Nat.find_min' _ unused

theorem next_issue (l : Ledger) : l.issue.next = max (l.vacant + 1) l.next := by
  simp only [next, issue, Finset.sup_insert]

/-- Everything that can be asked of the ids, by the two sets. -/
structure Shown (l : Ledger) (ids : Ids) : Prop where
  inUse : ∀ id, ids.inUse id = true ↔ id ∈ l.used
  count : ids.count = l.used.card
  isEmpty : ids.isEmpty = true ↔ l.used = ∅
  listed : ∀ id, id ∈ ids.toList ↔ id ∈ l.used
  increasing : ids.toList.Pairwise (· < ·)
  next : ids.next = l.next

end Ledger

/-! ## Ids and their ledger -/

namespace Ids

theorem pairwise_toList (ids : Ids) : ids.toList.Pairwise (· < ·) :=
  List.pairwise_lt_range.filter _

/-- The id handed out is below every other id that is not in use. -/
theorem fst_fresh_le_of_unused {ids : Ids} (sound : ids.Sound) {id : Nat}
    (unused : ids.inUse id = false) : ids.fresh.1 ≤ id := by
  rw [← Bool.not_eq_true, inUse_iff, not_and_or, not_not, Nat.not_lt] at unused
  rcases unused with beyond | covered
  · exact (fst_fresh_le sound).trans beyond
  · -- A free id lies in some span, and the first span starts below all others.
    unfold fresh
    split
    · next none => simp [none] at covered
    · next s rest held =>
      obtain ⟨_, apart, _⟩ := Span.canonical_cons.mp (held ▸ sound.canonical)
      show s.start ≤ id
      rw [held, Span.covers_cons] at covered
      rcases covered with inside | ⟨t, member, low, _⟩
      · exact inside.1
      · have := sound.canonical.1 s (held ▸ .head _)
        have := apart t member
        omega

end Ids

namespace Ledger

/-- The ids are kept well, and the ledger holds those in use and those handed out. -/
structure Keeps (l : Ledger) (ids : Ids) : Prop where
  sound : ids.Sound
  inUse : ∀ id, ids.inUse id = true ↔ id ∈ l.used
  next : ids.next = l.next

variable {l : Ledger} {ids : Ids}

theorem Keeps.inUse_eq_false (keeps : l.Keeps ids) {id : Nat} (unused : id ∉ l.used) :
    ids.inUse id = false := by
  rwa [← Bool.not_eq_true, keeps.inUse]

theorem Keeps.toFinset (keeps : l.Keeps ids) : ids.toList.toFinset = l.used := by
  ext id
  rw [List.mem_toFinset, Ids.mem_toList, keeps.inUse]

theorem Keeps.count (keeps : l.Keeps ids) : ids.count = l.used.card := by
  rw [keeps.sound.count_eq, ← keeps.toFinset, List.toFinset_card_of_nodup ids.nodup_toList]

theorem Keeps.shown (keeps : l.Keeps ids) : l.Shown ids where
  inUse := keeps.inUse
  count := keeps.count
  isEmpty := by rw [Ids.isEmpty, beq_iff_eq, keeps.count, Finset.card_eq_zero]
  listed id := by rw [Ids.mem_toList, keeps.inUse]
  increasing := ids.pairwise_toList
  next := keeps.next

theorem keeps_empty : Keeps {} {} :=
  ⟨Ids.sound_empty, by simp [Ids.inUse], rfl⟩

/-- What is handed out is the smallest id that is not in use. -/
theorem Keeps.vacant_eq (keeps : l.Keeps ids) : ids.fresh.1 = l.vacant := by
  apply Nat.le_antisymm
  · exact Ids.fst_fresh_le_of_unused keeps.sound (keeps.inUse_eq_false l.vacant_notMem)
  · apply vacant_le
    rw [← keeps.inUse, Ids.inUse_fst_fresh keeps.sound]
    exact Bool.false_ne_true

theorem Keeps.fresh (keeps : l.Keeps ids) : l.issue.Keeps ids.fresh.2 where
  sound := Ids.sound_fresh keeps.sound
  inUse id := by
    rw [Ids.inUse_fresh keeps.sound, keeps.vacant_eq, keeps.inUse, issue, Finset.mem_insert]
  next := by
    rw [Ids.next_fresh_eq_max keeps.sound, next_issue, keeps.vacant_eq, keeps.next]

theorem Keeps.retire (keeps : l.Keeps ids) {id : Nat} (used : id ∈ l.used) :
    ∃ rest, ids.retire id = (.ok (), rest) ∧ (l.retire id).Keeps rest := by
  obtain ⟨rest, retired, sound, next, inUse⟩ :=
    Ids.retire_spec keeps.sound ((keeps.inUse id).mpr used)
  refine ⟨rest, retired, sound, fun x => ?_, next.trans keeps.next⟩
  rw [inUse, keeps.inUse, Ledger.retire, Finset.mem_erase]

theorem Keeps.retire_error (keeps : l.Keeps ids) {id : Nat} (unused : id ∉ l.used) :
    ids.retire id = (.error (.notInUse id), ids) :=
  Ids.retire_of_unused (keeps.inUse_eq_false unused)

/-- One change is answered alike and kept alike. -/
theorem Keeps.change (keeps : l.Keeps ids) (change : Ids.Change) :
    Together (fun ids l => l.Keeps ids) (ids.change change) (l.change change) := by
  cases change with
  | fresh => exact ⟨congrArg (Except.ok ∘ some) keeps.vacant_eq, keeps.fresh⟩
  | retire id =>
    unfold Ids.change Ledger.change
    by_cases used : id ∈ l.used
    · obtain ⟨rest, retired, keeps⟩ := keeps.retire used
      simp only [retired, if_pos used]
      exact ⟨rfl, keeps⟩
    · simp only [keeps.retire_error used, if_neg used]
      exact ⟨rfl, keeps⟩
  | clear => exact ⟨rfl, keeps_empty⟩

end Ledger

/-- Any list of changes is answered from the set of the ids in use, and what can be asked of the ids
afterwards, and so after each change, is what the set says. -/
theorem Ids.refines_finite_set (changes : List Ids.Change) :
    (replay Ids.change .empty changes).1 = (replay Ledger.change {} changes).1 ∧
      (replay Ledger.change {} changes).2.Shown (replay Ids.change .empty changes).2 := by
  obtain ⟨answers, keeps⟩ := replay_together
    (fun change _ ids l (keeps : Ledger.Keeps l ids) => keeps.change change) Ledger.keeps_empty
  exact ⟨answers, keeps.shown⟩

/-- Ids given back in any order are handed out again from the smallest on, and an id that is not in
use is not taken back. -/
example : (replay Ids.change .empty
      [.fresh, .fresh, .fresh, .retire 1, .retire 1, .retire 0, .fresh, .fresh, .fresh]).1 =
    [.ok (some 0), .ok (some 1), .ok (some 2), .ok none, .error (.notInUse 1), .ok none,
      .ok (some 0), .ok (some 1), .ok (some 3)] := by
  rfl

/-! ## Ids with one set in use -/

namespace Ids

/-- The same ids are in use, and the same ids will be handed out. -/
structure Matches (one two : Ids) : Prop where
  inUse : ∀ id, one.inUse id = two.inUse id
  listed : one.toList = two.toList
  count : one.count = two.count
  answers : ∀ changes, (replay change one changes).1 = (replay change two changes).1

/-- Ids that are kept well, with the same ids in use; more of them may have been handed out. -/
structure SameUse (one two : Ids) : Prop where
  sound : one.Sound
  sound' : two.Sound
  inUse : ∀ id, one.inUse id = two.inUse id

namespace SameUse

variable {one two : Ids}

theorem fst_fresh (same : one.SameUse two) : one.fresh.1 = two.fresh.1 := by
  apply Nat.le_antisymm
  · refine fst_fresh_le_of_unused same.sound ?_
    rw [same.inUse, inUse_fst_fresh same.sound']
  · refine fst_fresh_le_of_unused same.sound' ?_
    rw [← same.inUse, inUse_fst_fresh same.sound]

/-- One change is answered alike, and the same ids are in use afterwards. -/
theorem change (same : one.SameUse two) (change : Change) :
    Together SameUse (one.change change) (two.change change) := by
  cases change with
  | fresh =>
    refine ⟨congrArg (Except.ok ∘ some) same.fst_fresh, sound_fresh same.sound,
      sound_fresh same.sound', fun id => ?_⟩
    show one.fresh.2.inUse id = two.fresh.2.inUse id
    rw [Bool.eq_iff_iff, inUse_fresh same.sound, inUse_fresh same.sound', same.fst_fresh,
      same.inUse]
  | retire id =>
    have inUse := same.inUse id
    unfold Ids.change
    cases used : one.inUse id with
    | true =>
      obtain ⟨rest, retired, sound, _, left⟩ := retire_spec same.sound used
      obtain ⟨rest', retired', sound', _, left'⟩ := retire_spec same.sound' (inUse.symm.trans used)
      simp only [retired, retired']
      refine ⟨rfl, sound, sound', fun x => ?_⟩
      rw [Bool.eq_iff_iff, left, left', same.inUse]
    | false =>
      simp only [retire_of_unused used, retire_of_unused (inUse.symm.trans used)]
      exact ⟨rfl, same⟩
  | clear => exact ⟨rfl, sound_empty, sound_empty, fun _ => rfl⟩

theorem toList_eq (same : one.SameUse two) : one.toList = two.toList := by
  have members : ∀ id, id ∈ one.toList ↔ id ∈ two.toList := by
    intro id
    rw [mem_toList, mem_toList, same.inUse]
  exact ((List.perm_ext_iff_of_nodup one.nodup_toList two.nodup_toList).mpr members).eq_of_pairwise
    (fun _ _ _ _ less more => absurd less (Nat.lt_asymm more)) one.pairwise_toList
    two.pairwise_toList

/-- Which ids are handed out next depends on the ids in use alone. -/
theorem matching (same : one.SameUse two) : one.Matches two where
  inUse := same.inUse
  listed := same.toList_eq
  count := by rw [same.sound.count_eq, same.sound'.count_eq, same.toList_eq]
  answers _ := (replay_together (fun change _ _ _ same => same.change change) same).1

end SameUse

end Ids

end GateNet
