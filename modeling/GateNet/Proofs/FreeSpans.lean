import GateNet.Proofs.Ledger
import Mathlib.Algebra.GroupWithZero.Nat

/-!
# Free spans are canonical

Whatever changes were made, the ids that the ledger counts as free lie in nonempty spans below
`next` that do not even touch, and the spans are as long together as there are free ids.  Canonical
spans are determined by the ids that they cover.  So two histories that leave the same ids in use
below the same bound leave the same spans, whatever the order in which ids came back, and once all
ids came back there is one span.
-/

namespace GateNet

namespace Span

/-! ## What canonical spans cover -/

variable {s t : Span} {spans rest : List Span}

theorem covers_start (canonical : Canonical (s :: rest)) : Covers (s :: rest) s.start :=
  (covers_cons s rest s.start).mpr (.inl ⟨Nat.le_refl _, (canonical_cons.mp canonical).1⟩)

/-- What the later spans cover lies behind the first one, and does not touch it. -/
theorem stop_lt_of_covers (canonical : Canonical (s :: rest)) {id : Nat}
    (covered : Covers rest id) : s.stop < id := by
  obtain ⟨t, member, low, _⟩ := covered
  exact ((canonical_cons.mp canonical).2.1 t member).trans_le low

theorem start_le_of_covers (canonical : Canonical (s :: rest)) {id : Nat}
    (covered : Covers (s :: rest) id) : s.start ≤ id := by
  rcases (covers_cons s rest id).mp covered with inside | later
  · exact inside.1
  · have nonempty := (canonical_cons.mp canonical).1
    have behind := stop_lt_of_covers canonical later
    omega

theorem covers_rest_iff (canonical : Canonical (s :: rest)) (id : Nat) :
    Covers rest id ↔ Covers (s :: rest) id ∧ s.stop < id := by
  rw [covers_cons]
  constructor
  · exact fun covered => ⟨.inr covered, stop_lt_of_covers canonical covered⟩
  · rintro ⟨inside | covered, behind⟩
    · omega
    · exact covered

/-- The first span goes on as long as that of any spans which cover the same ids. -/
theorem stop_le_of_covers {others : List Span} (canonical : Canonical (s :: rest))
    (starts : s.start = t.start)
    (same : ∀ id, Covers (s :: rest) id ↔ Covers (t :: others) id) : t.stop ≤ s.stop := by
  -- Otherwise the stop of the one span would be covered by the other one.
  by_contra! short
  have nonempty := (canonical_cons.mp canonical).1
  have covered : Covers (t :: others) s.stop :=
    (covers_cons t others s.stop).mpr (.inl ⟨by omega, short⟩)
  rcases (covers_cons s rest s.stop).mp ((same s.stop).mpr covered) with inside | later
  · omega
  · exact Nat.lt_irrefl _ (stop_lt_of_covers canonical later)

/-- Canonical spans are determined by the ids that they cover. -/
theorem eq_of_covers {others : List Span} (canonical : Canonical spans)
    (canonical' : Canonical others) (same : ∀ id, Covers spans id ↔ Covers others id) :
    spans = others := by
  induction spans generalizing others with
  | nil =>
    cases others with
    | nil => rfl
    | cons t others => exact absurd ((same _).mpr (covers_start canonical')) (covers_nil _)
  | cons s rest inductionHypothesis =>
    cases others with
    | nil => exact absurd ((same _).mp (covers_start canonical)) (covers_nil _)
    | cons t others =>
      have starts : s.start = t.start := Nat.le_antisymm
        (start_le_of_covers canonical ((same _).mpr (covers_start canonical')))
        (start_le_of_covers canonical' ((same _).mp (covers_start canonical)))
      have stops : s.stop = t.stop := Nat.le_antisymm
        (stop_le_of_covers canonical' starts.symm fun id => (same id).symm)
        (stop_le_of_covers canonical starts same)
      have heads : s = t := by
        cases s
        cases t
        simp_all
      rw [heads, inductionHypothesis (canonical_cons.mp canonical).2.2
        (canonical_cons.mp canonical').2.2 fun id => ?_]
      rw [covers_rest_iff canonical, covers_rest_iff canonical', same, stops]

/-! ## Lengths -/

/-- The ids of a span, in increasing order. -/
def ids (s : Span) : List Nat :=
  List.range' s.start s.length

theorem mem_ids {id : Nat} : id ∈ s.ids ↔ s.start ≤ id ∧ id < s.stop := by
  rw [ids, List.mem_range'_1, length]
  omega

theorem mem_flatMap_ids {id : Nat} : id ∈ spans.flatMap ids ↔ Covers spans id := by
  simp only [List.mem_flatMap, mem_ids, Covers]

theorem length_flatMap_ids (spans : List Span) :
    (spans.flatMap ids).length = (spans.map length).sum := by
  rw [List.length_flatMap]
  simp only [ids, List.length_range']

/-- Canonical spans cover no id twice. -/
theorem nodup_flatMap_ids (canonical : Canonical spans) : (spans.flatMap ids).Nodup := by
  refine List.nodup_flatMap.mpr ⟨fun s _ => List.nodup_range', canonical.2.imp ?_⟩
  intro s t apart id one two
  have below := (mem_ids.mp one).2
  have above := (mem_ids.mp two).1
  omega

end Span

namespace Ids

variable {ids others : Ids}

namespace Sound

theorem covers_iff (sound : ids.Sound) (id : Nat) :
    Span.Covers ids.free id ↔ id < ids.next ∧ ids.inUse id = false := by
  rw [← Bool.not_eq_true, inUse_iff, not_and, not_not]
  constructor
  · rintro ⟨s, member, low, high⟩
    exact ⟨high.trans_le (sound.below s member), fun _ => ⟨s, member, low, high⟩⟩
  · exact fun ⟨small, covered⟩ => covered small

/-- The free ids and those in use are all ids below `next`. -/
theorem total_length (sound : ids.Sound) :
    (ids.free.map Span.length).sum + ids.count = ids.next := by
  have free : (ids.free.flatMap Span.ids).Perm
      ((List.range ids.next).filter fun id => !ids.inUse id) := by
    refine (List.perm_ext_iff_of_nodup (Span.nodup_flatMap_ids sound.canonical)
      (List.nodup_range.filter _)).mpr fun id => ?_
    rw [Span.mem_flatMap_ids, sound.covers_iff, List.mem_filter, List.mem_range, Bool.not_eq_true']
  have parts := List.length_eq_length_filter_add (l := List.range ids.next) ids.inUse
  rw [List.length_range] at parts
  rw [← Span.length_flatMap_ids, free.length_eq, sound.count_eq, toList]
  omega

end Sound

/-- The ids that changes leave. -/
def after (changes : List Change) : Ids :=
  (replay change .empty changes).2

end Ids

/-! ## Spans and the ledger -/

namespace Ledger

variable {l l' : Ledger} {ids others : Ids}

/-- What the sets of a ledger leave free: spans that are nonempty, do not touch, hold just the ids
below `next` that are not in use, and are as long together as there are such ids. -/
structure Tidy (l : Ledger) (ids : Ids) : Prop where
  nonempty : ∀ s ∈ ids.free, s.start < s.stop
  apart : ids.free.Pairwise fun s t => s.stop < t.start
  below : ∀ s ∈ ids.free, s.stop ≤ ids.next
  next : ids.next = l.next
  count : ids.count = l.used.card
  covers : ∀ id, Span.Covers ids.free id ↔ id < l.next ∧ id ∉ l.used
  fewer : ids.count ≤ ids.next
  total : (ids.free.map Span.length).sum = ids.next - ids.count

theorem Keeps.covers (keeps : l.Keeps ids) (id : Nat) :
    Span.Covers ids.free id ↔ id < l.next ∧ id ∉ l.used := by
  rw [keeps.sound.covers_iff, keeps.next, ← Bool.not_eq_true, keeps.inUse]

theorem Keeps.tidy (keeps : l.Keeps ids) : l.Tidy ids where
  nonempty := keeps.sound.canonical.1
  apart := keeps.sound.canonical.2
  below := keeps.sound.below
  next := keeps.next
  count := keeps.count
  covers := keeps.covers
  fewer := Nat.le_of_add_left_le keeps.sound.total_length.le
  total := Nat.eq_sub_of_add_eq keeps.sound.total_length

/-- The spans are determined by the set of the ids in use and by `next`. -/
theorem Keeps.free_eq (keeps : l.Keeps ids) (keeps' : l'.Keeps others) (used : l'.used = l.used)
    (next : l'.next = l.next) : others.free = ids.free := by
  refine Span.eq_of_covers keeps'.sound.canonical keeps.sound.canonical fun id => ?_
  rw [keeps'.covers, keeps.covers, used, next]

theorem next_pos_iff : 0 < l.next ↔ l.issued.Nonempty := by
  simp [next, Finset.lt_sup_iff, Finset.Nonempty]

/-- When no id is in use, one span holds all ids that were handed out. -/
theorem Keeps.free_of_unused (keeps : l.Keeps ids) (issued : l.issued.Nonempty)
    (unused : l.used = ∅) : ids.free = [⟨0, l.next⟩] := by
  have single : Span.Canonical [⟨0, l.next⟩] :=
    Span.canonical_cons.mpr ⟨next_pos_iff.mpr issued, by simp, by simp [Span.Canonical]⟩
  refine Span.eq_of_covers keeps.sound.canonical single fun id => ?_
  rw [keeps.covers, Span.covers_cons, unused]
  simp

/-! ## Histories -/

/-- The sets of ids in use and handed out that changes leave. -/
def after (changes : List Ids.Change) : Ledger :=
  (replay Ledger.change {} changes).2

theorem keeps_after (changes : List Ids.Change) : (after changes).Keeps (Ids.after changes) :=
  (replay_together (fun change _ ids l (keeps : Ledger.Keeps l ids) => keeps.change change)
    keeps_empty).2

end Ledger

namespace Ids

/-- Whatever changes were made, the free spans are the canonical ones of the ids below `next` that
are not in use; any other changes that leave the same ids in use and the same `next` leave the same
spans; and when ids were handed out since the last clearing and all of them came back, there is one
span. -/
theorem free_canonical (changes : List Change) :
    (Ledger.after changes).Tidy (after changes) ∧
    (∀ others : List Change, (Ledger.after others).used = (Ledger.after changes).used →
      (Ledger.after others).next = (Ledger.after changes).next →
      (after others).free = (after changes).free) ∧
    ((Ledger.after changes).issued.Nonempty → (Ledger.after changes).used = ∅ →
      (after changes).free = [⟨0, (Ledger.after changes).next⟩]) := by
  have keeps := Ledger.keeps_after changes
  refine ⟨keeps.tidy, fun others used next => ?_, fun issued returned => ?_⟩
  · exact keeps.free_eq (Ledger.keeps_after others) used next
  · exact keeps.free_of_unused issued returned

/-- Three ids, two of them given back in either order, and then the third one. -/
theorem free_canonical_returned :
    (after [.fresh, .fresh, .fresh, .retire 0, .retire 2]).free =
      (after [.fresh, .fresh, .fresh, .retire 2, .retire 0]).free ∧
    (after [.fresh, .fresh, .fresh, .retire 2, .retire 0, .retire 1]).free =
      [⟨0, (Ledger.after [.fresh, .fresh, .fresh, .retire 2, .retire 0, .retire 1]).next⟩] := by
  -- The sets of the ledgers are read off the ids which they belong to.
  constructor
  · refine (free_canonical _).2.1 _ ?_ ?_
    · rw [← (Ledger.keeps_after _).toFinset, ← (Ledger.keeps_after _).toFinset]
      rfl
    · rw [← (Ledger.keeps_after _).next, ← (Ledger.keeps_after _).next]
      rfl
  · refine (free_canonical _).2.2 ?_ ?_
    · rw [← Ledger.next_pos_iff, ← (Ledger.keeps_after _).next]
      decide
    · rw [← (Ledger.keeps_after _).toFinset]
      rfl

/-- Ids given back with gaps between them leave one span for each, and the last one closes the
gaps. -/
example : ((after [.fresh, .fresh, .fresh, .retire 2, .retire 0]).free,
      (after [.fresh, .fresh, .fresh, .retire 2, .retire 0, .retire 1]).free) =
    ([⟨0, 1⟩, ⟨2, 3⟩], [⟨0, 3⟩]) := by
  rfl

end Ids

end GateNet
