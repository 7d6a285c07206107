import GateNet.Marks
import GateNet.Proofs.Wiring

/-!
# Loops, marks and worklists

Questions about ids below the bound have answers, and marking adds one id.  A fold or a worklist
keeps an invariant that each of its steps keeps; a worklist ends when every queued id is handled.
-/

namespace GateNet

/-- A fold succeeds when each step does, and keeps what each step keeps of the items so far. -/
theorem foldlM_spec {ε α β : Type} (step : β → α → Except ε β) (items : List α) (state : β)
    (holds : List α → β → Prop) (start : holds [] state)
    (advance : ∀ before a after state, items = before ++ a :: after → holds before state →
      ∃ next, step state a = .ok next ∧ holds (before ++ [a]) next) :
    ∃ final, items.foldlM step state = .ok final ∧ holds items final := by
  suffices rest : ∀ after before state, items = before ++ after → holds before state →
      ∃ final, after.foldlM step state = .ok final ∧ holds items final from
    rest items [] state rfl start
  intro after
  induction after with
  | nil =>
    rintro before state rfl held
    exact ⟨state, rfl, by simpa using held⟩
  | cons a after inductionHypothesis =>
    intro before state split held
    obtain ⟨next, stepped, held⟩ := advance before a after state split held
    obtain ⟨final, folded, held⟩ := inductionHypothesis (before ++ [a]) next (by simp [split]) held
    exact ⟨final, by rw [List.foldlM_cons, stepped, ok_bind, folded], held⟩

/-- A fold that succeeds keeps what each step that succeeds keeps of the items so far. -/
theorem foldlM_keeps {ε α β : Type} {step : β → α → Except ε β} {items : List α} {state final : β}
    (folded : items.foldlM step state = .ok final) (holds : List α → β → Prop)
    (start : holds [] state)
    (advance : ∀ before a after state next, items = before ++ a :: after → holds before state →
      step state a = .ok next → holds (before ++ [a]) next) : holds items final := by
  suffices rest : ∀ after before state, items = before ++ after → holds before state →
      after.foldlM step state = .ok final → holds items final from
    rest items [] state rfl start folded
  intro after
  induction after with
  | nil =>
    rintro before state rfl held folded
    cases folded
    simpa using held
  | cons a after inductionHypothesis =>
    intro before state split held folded
    rw [List.foldlM_cons] at folded
    obtain ⟨next, stepped, folded⟩ := bind_eq_ok_iff.mp folded
    exact inductionHypothesis (before ++ [a]) next (by simp [split])
      (advance before a after state next split held stepped) folded

/-- A fold over outcomes is done when each step is, and keeps what each step keeps. -/
theorem Outcome.fold_spec {α β : Type} (step : β → α → Network → Except Fault (Outcome β))
    (items : List α) (state : β) (net : Network) (holds : List α → β → Network → Prop)
    (start : holds [] state net)
    (advance : ∀ before a after state net, items = before ++ a :: after → holds before state net →
      ∃ next after, step state a net = .ok (.done next after) ∧ holds (before ++ [a]) next after) :
    ∃ final after, Outcome.fold step items state net = .ok (.done final after) ∧
      holds items final after := by
  suffices rest : ∀ after before state net, items = before ++ after → holds before state net →
      ∃ final last, Outcome.fold step after state net = .ok (.done final last) ∧
        holds items final last from
    rest items [] state net rfl start
  intro after
  induction after with
  | nil =>
    rintro before state net rfl held
    exact ⟨state, net, rfl, by simpa using held⟩
  | cons a after inductionHypothesis =>
    intro before state net split held
    obtain ⟨next, middle, stepped, held⟩ := advance before a after state net split held
    obtain ⟨final, last, folded, held⟩ :=
      inductionHypothesis (before ++ [a]) next middle (by simp [split]) held
    exact ⟨final, last, by rw [fold, stepped, ok_bind]; exact folded, held⟩

theorem mapM_eq {ε α β : Type} {act : α → Except ε β} {answer : α → β} {items : List α}
    (answers : ∀ a ∈ items, act a = .ok (answer a)) :
    items.mapM act = .ok (items.map answer) := by
  induction items with
  | nil => rfl
  | cons a rest inductionHypothesis =>
    rw [List.mapM_cons, answers a (.head _), ok_bind,
      inductionHypothesis fun b listed => answers b (.tail _ listed)]
    rfl

theorem not_mem_before {α : Type} {items before after : List α} {a : α} (nodup : items.Nodup)
    (split : items = before ++ a :: after) : a ∉ before := by
  rw [split, List.nodup_middle, List.nodup_cons, List.mem_append, not_or] at nodup
  exact nodup.1.1

namespace Marks

variable {m : Marks} {id : Nat}

theorem getElem?_flags (small : id < m.flags.size) : m.flags[id]? = some (m.contains id) := by
  unfold contains
  rw [Array.getElem?_eq_getElem small, Array.getD, dif_pos small]
  rfl

theorem has_eq (small : id < m.flags.size) : m.has id = .ok (m.contains id) :=
  has_eq_ok_iff.mpr (getElem?_flags small)

@[simp] theorem contains_none (bound id : Nat) : (none bound).contains id = false := by
  simp only [none, contains, Array.getD_eq_getD_getElem?, Array.getElem?_replicate]
  split <;> rfl

@[simp] theorem size_none (bound : Nat) : (none bound).flags.size = bound :=
  Array.size_replicate

@[simp] theorem size_add (m : Marks) (id : Nat) : (m.add id).flags.size = m.flags.size :=
  Array.size_setIfInBounds ..

theorem contains_add (m : Marks) (id x : Nat) :
    (m.add id).contains x = true ↔ (x = id ∧ id < m.flags.size) ∨ m.contains x = true := by
  simp only [add, contains, Array.getD_eq_getD_getElem?, Array.getElem?_setIfInBounds]
  by_cases same : id = x
  · subst same
    by_cases small : id < m.flags.size <;> simp [small]
  · simp [same, Ne.symm same]

theorem mark_eq (small : id < m.flags.size) : m.mark id = .ok (m.add id) := by
  rw [mark, storeAt, if_pos small]
  rfl

theorem mark_eq_ok_iff {next : Marks} :
    m.mark id = .ok next ↔ id < m.flags.size ∧ next = m.add id := by
  by_cases small : id < m.flags.size
  · simp [mark_eq small, small, eq_comm]
  · simp [mark, storeAt, small, bind, Except.bind]

theorem contains_of_has {marked : Bool} (asked : m.has id = .ok marked) :
    m.contains id = marked := by
  rw [contains, Array.getD_eq_getD_getElem?, has_eq_ok_iff.mp asked, Option.getD_some]

/-- Marking ids that can be marked marks them and nothing else. -/
theorem contains_markAll {ids : List Nat} {all : Marks} (marked : m.markAll ids = .ok all) (x : Nat) :
    all.contains x = true ↔ x ∈ ids ∨ m.contains x = true := by
  refine foldlM_keeps marked (fun ids (all : Marks) =>
    ∀ x, all.contains x = true ↔ x ∈ ids ∨ m.contains x = true) (by simp) ?_ x
  intro before a after state next _ known step x
  obtain ⟨small, rfl⟩ := mark_eq_ok_iff.mp step
  rw [contains_add, known]
  simp only [small, and_true, List.mem_append, List.mem_singleton]
  tauto

theorem contains_of_hasAll {ids : List Nat} (asked : m.hasAll ids = .ok true) :
    ∀ id ∈ ids, m.contains id = true := by
  induction ids with
  | nil => simp
  | cons id rest inductionHypothesis =>
    obtain ⟨marked, first, others⟩ := bind_eq_ok_iff.mp asked
    cases marked with
    | true =>
      exact List.forall_mem_cons.mpr ⟨contains_of_has first, inductionHypothesis others⟩
    | false => cases others

theorem exists_of_hasAll {ids : List Nat} (asked : m.hasAll ids = .ok false) :
    ∃ id ∈ ids, m.contains id = false := by
  induction ids with
  | nil => cases asked
  | cons id rest inductionHypothesis =>
    obtain ⟨marked, first, others⟩ := bind_eq_ok_iff.mp asked
    cases marked with
    | true =>
      obtain ⟨x, listed, unmarked⟩ := inductionHypothesis others
      exact ⟨x, .tail _ listed, unmarked⟩
    | false => exact ⟨id, .head _, contains_of_has first⟩

theorem markAll_spec {ids : List Nat} (small : ∀ id ∈ ids, id < m.flags.size) :
    ∃ all, m.markAll ids = .ok all ∧ all.flags.size = m.flags.size ∧
      ∀ x, all.contains x = true ↔ x ∈ ids ∨ m.contains x = true := by
  refine foldlM_spec mark ids m (fun ids (all : Marks) => all.flags.size = m.flags.size ∧
    ∀ x, all.contains x = true ↔ x ∈ ids ∨ m.contains x = true) ⟨rfl, by simp⟩ ?_
  rintro before a after state split ⟨size, marked⟩
  have inside : a < state.flags.size := by
    rw [size]
    exact small a (by simp [split])
  refine ⟨state.add a, mark_eq inside, by rw [size_add, size], fun x => ?_⟩
  rw [contains_add, marked]
  simp only [inside, and_true, List.mem_append, List.mem_singleton]
  tauto

theorem hasAll_eq {ids : List Nat} (small : ∀ id ∈ ids, id < m.flags.size) :
    m.hasAll ids = .ok (ids.all m.contains) := by
  induction ids with
  | nil => rfl
  | cons id rest inductionHypothesis =>
    rw [hasAll, has_eq (small id (.head _)), ok_bind, List.all_cons]
    cases m.contains id with
    | true => exact inductionHypothesis fun x listed => small x (.tail _ listed)
    | false => rfl

theorem pick_eq {ids : List Nat} (wanted : Bool) (small : ∀ id ∈ ids, id < m.flags.size) :
    m.pick wanted ids = .ok (ids.filter fun id => m.contains id == wanted) := by
  induction ids with
  | nil => rfl
  | cons id rest inductionHypothesis =>
    rw [pick, has_eq (small id (.head _)), ok_bind,
      inductionHypothesis fun x listed => small x (.tail _ listed), ok_bind, List.filter_cons]
    simp only [beq_iff_eq]
    rfl

theorem sublist_of_pick {wanted : Bool} {ids picked : List Nat}
    (filtered : m.pick wanted ids = .ok picked) : picked.Sublist ids := by
  induction ids generalizing picked with
  | nil =>
    cases filtered
    exact List.Sublist.refl _
  | cons id rest inductionHypothesis =>
    obtain ⟨marked, _, filtered⟩ := bind_eq_ok_iff.mp filtered
    obtain ⟨others, behind, filtered⟩ := bind_eq_ok_iff.mp filtered
    cases filtered
    split
    · exact (inductionHypothesis behind).cons_cons id
    · exact (inductionHypothesis behind).cons id

/-- The first unmarked id of a list splits it after its marked beginning. -/
theorem firstUnmarked_spec {ids : List Nat} (small : ∀ id ∈ ids, id < m.flags.size) :
    (m.firstUnmarked ids = .ok Option.none ∧ ∀ id ∈ ids, m.contains id = true) ∨
      ∃ before id rest, m.firstUnmarked ids = .ok (some (id, rest)) ∧
        ids = before ++ id :: rest ∧ (∀ x ∈ before, m.contains x = true) ∧
        m.contains id = false := by
  induction ids with
  | nil => exact .inl ⟨rfl, by simp⟩
  | cons a ids inductionHypothesis =>
    have asked := has_eq (small a (.head _))
    cases marked : m.contains a with
    | false =>
      exact .inr ⟨[], a, ids, by rw [firstUnmarked, asked, ok_bind, marked]; rfl, rfl, by simp,
        marked⟩
    | true =>
      have skipped : m.firstUnmarked (a :: ids) = m.firstUnmarked ids := by
        rw [firstUnmarked, asked, ok_bind, marked]
        rfl
      rw [skipped]
      rcases inductionHypothesis fun x listed => small x (.tail _ listed) with
        ⟨found, all⟩ | ⟨before, id, rest, found, split, all, unmarked⟩
      · exact .inl ⟨found, List.forall_mem_cons.mpr ⟨marked, all⟩⟩
      · exact .inr ⟨a :: before, id, rest, found, by rw [split]; rfl,
          List.forall_mem_cons.mpr ⟨marked, all⟩, unmarked⟩

/-- When the first unmarked id of a stack is marked and other ids are pushed, whatever was marked or
on the stack still is. -/
theorem covered_add {before pushed rest : List Nat} (small : id < m.flags.size)
    (marked : ∀ x ∈ before, m.contains x = true) {x : Nat}
    (covered : m.contains x = true ∨ x ∈ before ++ id :: rest) :
    (m.add id).contains x = true ∨ x ∈ pushed ++ rest := by
  rw [contains_add]
  rcases covered with here | listed
  · exact .inl (.inr here)
  · rcases List.mem_append.mp listed with listed | listed
    · exact .inl (.inr (marked x listed))
    · rcases List.mem_cons.mp listed with rfl | listed
      · exact .inl (.inl ⟨rfl, small⟩)
      · exact .inr (List.mem_append.mpr (.inr listed))

end Marks

namespace Worklist

/-- A worklist keeps what handling each of its ids keeps, until all of them are handled. -/
theorem drain_spec {handle : Worklist → Nat → Except Fault Worklist} (keeps : KeepsBudget handle)
    (holds : Worklist → Nat → Prop)
    (advance : ∀ w position (inside : position < w.queue.size), holds w position →
      ∃ next, handle w w.queue[position] = .ok next ∧ holds next (position + 1)) :
    ∀ w position, holds w position → ∃ done last, drain handle keeps w position = .ok done ∧
      holds done last ∧ done.queue.size ≤ last := by
  intro w position
  induction w, position using drain.induct handle keeps with
  | case1 w position inside fault failed =>
    intro held
    obtain ⟨next, handled, _⟩ := advance w position inside held
    rw [handled] at failed
    cases failed
  | case2 w position inside next handled inductionHypothesis =>
    intro held
    obtain ⟨next', handled', held⟩ := advance w position inside held
    obtain rfl := Except.ok.inj (handled.symm.trans handled')
    obtain ⟨done, last, drained, held, all⟩ := inductionHypothesis held
    refine ⟨done, last, ?_, held, all⟩
    rw [drain, dif_pos inside]
    split
    · next failed =>
      rw [handled] at failed
      cases failed
    · next next' handled' =>
      obtain rfl := Except.ok.inj (handled.symm.trans handled')
      exact drained
  | case3 w position outside =>
    intro held
    exact ⟨w, position, by rw [drain, dif_neg outside], held, Nat.not_lt.mp outside⟩

/-- A worklist that can be drained keeps what handling each of its ids keeps, until all of them are
handled. -/
theorem drain_keeps {handle : Worklist → Nat → Except Fault Worklist} {keeps : KeepsBudget handle}
    {w done : Worklist} {position : Nat} (drained : drain handle keeps w position = .ok done)
    (holds : Worklist → Nat → Prop)
    (advance : ∀ w position (inside : position < w.queue.size) next, holds w position →
      handle w w.queue[position] = .ok next → holds next (position + 1))
    (start : holds w position) : ∃ last, holds done last ∧ done.queue.size ≤ last := by
  induction w, position using drain.induct handle keeps with
  | case1 w position inside fault failed =>
    rw [drain, dif_pos inside] at drained
    split at drained
    · cases drained
    · next handled => cases failed.symm.trans handled
  | case2 w position inside next handled inductionHypothesis =>
    rw [drain, dif_pos inside] at drained
    split at drained
    · cases drained
    · next next' handled' =>
      obtain rfl := Except.ok.inj (handled.symm.trans handled')
      exact inductionHypothesis drained (advance _ _ inside _ start handled)
  | case3 w position outside =>
    rw [drain, dif_neg outside] at drained
    cases drained
    exact ⟨position, start, Nat.not_lt.mp outside⟩

end Worklist

end GateNet
