import GateNet.Ids
import Mathlib.Data.List.Perm.Basic
import Mathlib.Data.List.Nodup

/-!
# Ids as a finite set

The spans of an `Ids` are kept canonical: nonempty, in increasing order, and never touching.  On
such spans `fresh` adds the smallest id that is not in use and `retire` removes one, so that
`inUse` behaves as membership in a finite set whose size is `count`.
-/

namespace GateNet

namespace Span

/-- Some span of the list holds the id. -/
def Covers (spans : List Span) (id : Nat) : Prop :=
  ∃ s ∈ spans, s.start ≤ id ∧ id < s.stop

/-- The spans are nonempty, in increasing order, and no two of them touch. -/
def Canonical (spans : List Span) : Prop :=
  (∀ s ∈ spans, s.start < s.stop) ∧ spans.Pairwise fun s t => s.stop < t.start

@[simp] theorem covers_nil (id : Nat) : ¬ Covers [] id := by
  rintro ⟨s, member, _⟩
  cases member

@[simp] theorem covers_cons (s : Span) (rest : List Span) (id : Nat) :
    Covers (s :: rest) id ↔ (s.start ≤ id ∧ id < s.stop) ∨ Covers rest id := by
  simp [Covers]

theorem canonical_cons {s : Span} {rest : List Span} :
    Canonical (s :: rest) ↔
      s.start < s.stop ∧ (∀ t ∈ rest, s.stop < t.start) ∧ Canonical rest := by
  simp only [Canonical, List.mem_cons, forall_eq_or_imp, List.pairwise_cons]
  tauto

/-- What adding an id does: it becomes a span of its own, the first or the last id of a span, or
it closes the gap between two spans. -/
inductive Inserted (id : Nat) : List Span → List Span → Prop
  | last : Inserted id [] [⟨id, id + 1⟩]
  | before {s : Span} {rest : List Span} (below : id + 1 < s.start) :
      Inserted id (s :: rest) (⟨id, id + 1⟩ :: s :: rest)
  | atStart {s : Span} {rest : List Span} (touches : id + 1 = s.start) :
      Inserted id (s :: rest) (⟨id, s.stop⟩ :: rest)
  | atStop {s : Span} {rest : List Span} (ends : s.stop = id)
      (apart : ∀ t, rest.head? = some t → t.start ≠ id + 1) :
      Inserted id (s :: rest) (⟨s.start, id + 1⟩ :: rest)
  | between {s t : Span} {beyond : List Span} (ends : s.stop = id) (starts : t.start = id + 1) :
      Inserted id (s :: t :: beyond) (⟨s.start, t.stop⟩ :: beyond)
  | later {s : Span} {rest result : List Span} (above : s.start ≤ id) (beyond : s.stop ≠ id)
      (inserted : Inserted id rest result) : Inserted id (s :: rest) (s :: result)

theorem inserted_insert (id : Nat) (spans : List Span) : Inserted id spans (insert id spans) := by
  induction spans with
  | nil => exact .last
  | cons s rest inductionHypothesis =>
    simp only [insert]
    split
    · next below => exact .before below
    · split
      · next touches => exact .atStart touches
      · split
        · next ends =>
          cases rest with
          | nil => exact .atStop ends (by simp)
          | cons t beyond =>
            dsimp only
            split
            · next starts => exact .between ends starts
            · next apart => exact .atStop ends (by simpa using apart)
        · next beyond => exact .later (by omega) beyond inductionHypothesis

namespace Inserted

variable {id : Nat} {spans result : List Span}

/-- Spans begin and end where spans did, or at the id. -/
theorem ends_of_mem (inserted : Inserted id spans result) {s : Span} (member : s ∈ result) :
    (s.start = id ∨ ∃ t ∈ spans, s.start = t.start) ∧
      (s.stop = id + 1 ∨ ∃ t ∈ spans, s.stop = t.stop) := by
  have kept : ∀ {spans : List Span}, s ∈ spans →
      (s.start = id ∨ ∃ t ∈ spans, s.start = t.start) ∧
        (s.stop = id + 1 ∨ ∃ t ∈ spans, s.stop = t.stop) :=
    fun old => ⟨.inr ⟨s, old, rfl⟩, .inr ⟨s, old, rfl⟩⟩
  induction inserted with
  | last =>
    obtain rfl := List.mem_singleton.mp member
    exact ⟨.inl rfl, .inl rfl⟩
  | before =>
    rcases List.mem_cons.mp member with rfl | old
    · exact ⟨.inl rfl, .inl rfl⟩
    · exact kept old
  | @atStart t rest =>
    rcases List.mem_cons.mp member with rfl | old
    · exact ⟨.inl rfl, .inr ⟨t, .head _, rfl⟩⟩
    · exact kept (.tail _ old)
  | @atStop t rest =>
    rcases List.mem_cons.mp member with rfl | old
    · exact ⟨.inr ⟨t, .head _, rfl⟩, .inl rfl⟩
    · exact kept (.tail _ old)
  | @between t u beyond =>
    rcases List.mem_cons.mp member with rfl | old
    · exact ⟨.inr ⟨t, .head _, rfl⟩, .inr ⟨u, .tail _ (.head _), rfl⟩⟩
    · exact kept (.tail _ (.tail _ old))
  | later _ _ _ inductionHypothesis =>
    rcases List.mem_cons.mp member with rfl | old
    · exact kept (.head _)
    · refine (inductionHypothesis old).imp (Or.imp_right ?_) (Or.imp_right ?_)
      · exact fun ⟨t, listed, same⟩ => ⟨t, .tail _ listed, same⟩
      · exact fun ⟨t, listed, same⟩ => ⟨t, .tail _ listed, same⟩

theorem stop_le (inserted : Inserted id spans result) {bound : Nat} (small : id < bound)
    (below : ∀ s ∈ spans, s.stop ≤ bound) {s : Span} (member : s ∈ result) : s.stop ≤ bound := by
  rcases (inserted.ends_of_mem member).2 with new | ⟨t, listed, same⟩
  · exact new ▸ small
  · exact same ▸ below t listed

/-- Adding an id to canonical spans covers that id besides. -/
theorem covers (inserted : Inserted id spans result) (canonical : Canonical spans) (x : Nat) :
    Covers result x ↔ x = id ∨ Covers spans x := by
  induction inserted with
  | last =>
    simp only [covers_cons, covers_nil, or_false]
    omega
  | before =>
    simp only [covers_cons]
    grind
  | atStart =>
    have nonempty := (canonical_cons.mp canonical).1
    simp only [covers_cons]
    grind
  | atStop =>
    have nonempty := (canonical_cons.mp canonical).1
    simp only [covers_cons]
    grind
  | between =>
    obtain ⟨nonempty, _, canonical⟩ := canonical_cons.mp canonical
    have nonemptyNext := (canonical_cons.mp canonical).1
    simp only [covers_cons]
    grind
  | later _ _ _ inductionHypothesis =>
    rw [covers_cons, covers_cons, inductionHypothesis (canonical_cons.mp canonical).2.2]
    tauto

/-- Adding an id that is not covered merges the spans that come to touch. -/
theorem canonical (inserted : Inserted id spans result) (canonical : Canonical spans)
    (uncovered : ¬ Covers spans id) : Canonical result := by
  induction inserted with
  | last => simp [Canonical]
  | @before s rest below =>
    obtain ⟨nonempty, apart, _⟩ := canonical_cons.mp canonical
    refine canonical_cons.mpr ⟨Nat.lt_succ_self id, fun t listed => ?_, canonical⟩
    rcases List.mem_cons.mp listed with rfl | listed
    · exact below
    · exact Nat.lt_trans below (Nat.lt_trans nonempty (apart t listed))
  | @atStart s rest touches =>
    obtain ⟨nonempty, apart, canonicalRest⟩ := canonical_cons.mp canonical
    exact canonical_cons.mpr ⟨show id < s.stop by omega, apart, canonicalRest⟩
  | @atStop s rest ends head =>
    obtain ⟨nonempty, apart, canonicalRest⟩ := canonical_cons.mp canonical
    refine canonical_cons.mpr ⟨show s.start < id + 1 by omega, fun u listed => ?_, canonicalRest⟩
    -- The span after `s` does not touch the id, and the later ones lie behind it.
    cases rest with
    | nil => cases listed
    | cons t beyond =>
      obtain ⟨nonemptyNext, apartNext, _⟩ := canonical_cons.mp canonicalRest
      have gap := apart t (.head _)
      have untouched := head t rfl
      have next : id + 1 < t.start := by omega
      rcases List.mem_cons.mp listed with rfl | listed
      · exact next
      · exact Nat.lt_trans next (Nat.lt_trans nonemptyNext (apartNext u listed))
  | @between s t beyond ends starts =>
    obtain ⟨nonempty, apart, canonicalRest⟩ := canonical_cons.mp canonical
    obtain ⟨nonemptyNext, apartNext, canonicalBeyond⟩ := canonical_cons.mp canonicalRest
    exact canonical_cons.mpr ⟨show s.start < t.stop by omega, apartNext, canonicalBeyond⟩
  | @later s rest result above beyond inserted inductionHypothesis =>
    obtain ⟨nonempty, apart, canonicalRest⟩ := canonical_cons.mp canonical
    rw [covers_cons, not_or] at uncovered
    refine canonical_cons.mpr ⟨nonempty, fun t listed => ?_,
      inductionHypothesis canonicalRest uncovered.2⟩
    -- A span begins at the id or where one of the rest did, and neither touches `s`.
    rcases (inserted.ends_of_mem listed).1 with new | ⟨u, listed, same⟩
    · omega
    · exact same ▸ apart u listed

end Inserted

end Span

namespace Ids

/-- The free spans are canonical and lie below `next`, and `count` counts the ids in use. -/
structure Sound (ids : Ids) : Prop where
  canonical : Span.Canonical ids.free
  below : ∀ s ∈ ids.free, s.stop ≤ ids.next
  count_eq : ids.count = ids.toList.length

theorem inUse_iff {ids : Ids} {id : Nat} :
    ids.inUse id = true ↔ id < ids.next ∧ ¬ Span.Covers ids.free id := by
  simp only [inUse, Span.Covers, Span.contains, Bool.and_eq_true, decide_eq_true_eq,
    List.all_eq_true, Bool.not_eq_true', Bool.and_eq_false_iff, decide_eq_false_iff_not]
  refine and_congr_right fun _ => ⟨?_, ?_⟩
  · rintro outside ⟨s, member, low, high⟩
    rcases outside s member with above | under
    · exact above low
    · exact under high
  · intro uncovered s member
    by_contra inside
    push Not at inside
    exact uncovered ⟨s, member, inside⟩

theorem nodup_toList (ids : Ids) : ids.toList.Nodup :=
  List.nodup_range.filter _

theorem lt_next {ids : Ids} {id : Nat} (used : ids.inUse id = true) : id < ids.next :=
  (inUse_iff.mp used).1

theorem sound_empty : Sound {} :=
  ⟨by simp [Span.Canonical], by simp, rfl⟩

/-- When the ids in use change by one new id, so does their number. -/
theorem length_toList_add {ids more : Ids} {id : Nat} (unused : ids.inUse id = false)
    (used : ∀ x, more.inUse x = true ↔ x = id ∨ ids.inUse x = true) :
    more.toList.length = ids.toList.length + 1 := by
  have same : more.toList.Perm (id :: ids.toList) := by
    refine (List.perm_ext_iff_of_nodup more.nodup_toList ?_).mpr ?_
    · exact List.nodup_cons.mpr ⟨by simp [mem_toList, unused], ids.nodup_toList⟩
    · intro x
      rw [mem_toList, used, List.mem_cons, mem_toList]
  rw [same.length_eq, List.length_cons]

/-! ## Handing out -/

theorem fst_fresh_le {ids : Ids} (sound : ids.Sound) : ids.fresh.1 ≤ ids.next := by
  unfold fresh
  split
  · exact Nat.le_refl _
  · next s rest held =>
    have := sound.below s (held ▸ .head _)
    have := sound.canonical.1 s (held ▸ .head _)
    show s.start ≤ ids.next
    omega

theorem next_fresh (ids : Ids) :
    ids.fresh.2.next = if ids.free = [] then ids.next + 1 else ids.next := by
  unfold fresh
  split
  · next none => simp [none]
  · next held => simp [held]

theorem next_fresh_eq_max {ids : Ids} (sound : ids.Sound) :
    ids.fresh.2.next = max (ids.fresh.1 + 1) ids.next := by
  rw [next_fresh]
  split
  · next none =>
    have last : ids.fresh.1 = ids.next := by simp [fresh, none]
    omega
  · next some =>
    obtain ⟨s, rest, held⟩ := List.exists_cons_of_ne_nil some
    have first : ids.fresh.1 = s.start := by simp [fresh, held]
    have nonempty := sound.canonical.1 s (held ▸ .head _)
    have below := sound.below s (held ▸ .head _)
    omega

theorem covers_fresh {ids : Ids} (sound : ids.Sound) (x : Nat) :
    Span.Covers ids.fresh.2.free x ↔ Span.Covers ids.free x ∧ x ≠ ids.fresh.1 := by
  unfold fresh
  split
  · next held => simp [held]
  · next s rest held =>
    obtain ⟨nonempty, apart, _⟩ := Span.canonical_cons.mp (held ▸ sound.canonical)
    -- What the other spans cover lies behind the first one, so it is not the id handed out.
    have later : Span.Covers rest x → s.stop < x := by
      rintro ⟨t, member, low, _⟩
      have := apart t member
      omega
    simp only [held, Span.covers_cons]
    split
    · simp only [Span.covers_cons]
      by_cases covered : Span.Covers rest x
      · have := later covered
        simp only [covered, or_true, true_and, true_iff]
        omega
      · simp only [covered, or_false]
        omega
    · by_cases covered : Span.Covers rest x
      · have := later covered
        simp only [covered, or_true, true_and, true_iff]
        omega
      · simp only [covered, or_false, false_iff]
        omega

theorem inUse_fst_fresh {ids : Ids} (sound : ids.Sound) : ids.inUse ids.fresh.1 = false := by
  rw [← Bool.not_eq_true, inUse_iff]
  unfold fresh
  split
  · simp
  · next s rest held =>
    have nonempty := sound.canonical.1 s (held ▸ .head _)
    simp [held, nonempty]

/-- Handing out an id adds it to the ids in use. -/
theorem inUse_fresh {ids : Ids} (sound : ids.Sound) (x : Nat) :
    ids.fresh.2.inUse x = true ↔ x = ids.fresh.1 ∨ ids.inUse x = true := by
  rw [inUse_iff, inUse_iff, covers_fresh sound, next_fresh]
  have small := fst_fresh_le sound
  split
  · next held =>
    have last : ids.fresh.1 = ids.next := by simp [fresh, held]
    simp only [held, Span.covers_nil, false_and, not_false_eq_true, and_true]
    omega
  · next held =>
    have first : Span.Covers ids.free ids.fresh.1 ∧ ids.fresh.1 < ids.next := by
      obtain ⟨s, rest, held⟩ := List.exists_cons_of_ne_nil held
      have nonempty := sound.canonical.1 s (held ▸ .head _)
      have := sound.below s (held ▸ .head _)
      simp only [fresh, held, Span.covers_cons]
      omega
    by_cases new : x = ids.fresh.1
    · simp [new, first.2]
    · simp [new]

theorem sound_fresh {ids : Ids} (sound : ids.Sound) : ids.fresh.2.Sound where
  canonical := by
    have canonical := sound.canonical
    unfold fresh
    split
    · next held => exact held ▸ canonical
    · next s rest held =>
      obtain ⟨_, apart, canonicalRest⟩ := Span.canonical_cons.mp (held ▸ canonical)
      show Span.Canonical (if _ then _ else _)
      split
      · next more => exact Span.canonical_cons.mpr ⟨more, apart, canonicalRest⟩
      · exact canonicalRest
  below := by
    have below := sound.below
    rw [next_fresh]
    unfold fresh
    split
    · next held => simp [held]
    · next s rest held =>
      rw [held] at below
      have belowHead := below s (.head _)
      simp only [held, List.cons_ne_nil, if_false]
      intro t member
      split at member
      · rcases List.mem_cons.mp member with rfl | member
        · exact belowHead
        · exact below t (.tail _ member)
      · exact below t (.tail _ member)
  count_eq := by
    have one : ids.fresh.2.count = ids.count + 1 := by
      unfold fresh
      split <;> rfl
    rw [one, sound.count_eq, length_toList_add (inUse_fst_fresh sound) (inUse_fresh sound)]

/-! ## Giving back -/

/-- An id that is not in use is not taken back, and nothing changes. -/
theorem retire_of_unused {ids : Ids} {id : Nat} (unused : ids.inUse id = false) :
    ids.retire id = (.error (.notInUse id), ids) := by
  rw [retire, unused]
  rfl

theorem count_pos {ids : Ids} (sound : ids.Sound) {id : Nat} (used : ids.inUse id = true) :
    0 < ids.count := by
  rw [sound.count_eq]
  exact List.length_pos_of_mem (mem_toList.mpr used)

/-- An id in use can be given back; it is then no longer in use. -/
theorem retire_spec {ids : Ids} (sound : ids.Sound) {id : Nat} (used : ids.inUse id = true) :
    ∃ rest, ids.retire id = (.ok (), rest) ∧ rest.Sound ∧ rest.next = ids.next ∧
      ∀ x, rest.inUse x = true ↔ x ≠ id ∧ ids.inUse x = true := by
  obtain ⟨small, uncovered⟩ := inUse_iff.mp used
  have inserted := Span.inserted_insert id ids.free
  refine ⟨{ ids with free := Span.insert id ids.free, count := ids.count - 1 },
    by rw [retire, if_pos used, if_pos (count_pos sound used)], ?_, rfl, ?_⟩
  · -- The count goes down by one because the ids in use before are those of now and one more.
    have used' : ∀ x, ids.inUse x = true ↔ x = id ∨ ({ ids with
        free := Span.insert id ids.free, count := ids.count - 1 } : Ids).inUse x = true := by
      intro x
      rw [inUse_iff, inUse_iff, inserted.covers sound.canonical]
      by_cases same : x = id
      · simp [same, small, uncovered]
      · simp [same]
    refine ⟨inserted.canonical sound.canonical uncovered,
      fun _ listed => inserted.stop_le small sound.below listed, ?_⟩
    have unused : ({ ids with free := Span.insert id ids.free, count := ids.count - 1 } :
        Ids).inUse id = false := by
      rw [← Bool.not_eq_true, inUse_iff, inserted.covers sound.canonical]
      simp
    have one := length_toList_add unused used'
    have total := sound.count_eq
    simp only
    omega
  · intro x
    rw [inUse_iff, inUse_iff, inserted.covers sound.canonical]
    by_cases same : x = id
    · simp [same]
    · simp [same]

theorem inUse_of_retire {ids rest : Ids} {id : Nat} (retired : ids.retire id = (.ok (), rest)) :
    ids.inUse id = true := by
  cases used : ids.inUse id with
  | true => rfl
  | false =>
    rw [retire_of_unused used] at retired
    cases retired

end Ids

end GateNet
