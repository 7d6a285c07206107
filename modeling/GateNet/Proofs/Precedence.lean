import GateNet.Proofs.Marks

/-!
# What waits for what

Both orders of evaluation are found in the same way.  Some ids are given; an item is queued once
everything that it waits for is given or queued; and handling a queued id offers whatever waits for
it.  Whatever is offered, the queue lists different items, each after those that it waits for.  If
nothing is forgotten when an id is handled, and nothing waits in a circle, every item is queued.
-/

namespace GateNet

/-- Which ids are items, what they wait for, and what is there from the start. -/
structure Precedence where
  given : Nat → Prop
  item : Nat → Prop
  waits : Nat → Nat → Prop

namespace Precedence

variable {P : Precedence} {w middle next : Worklist} {x y : Nat} {xs : List Nat}
  {handled fewer : Nat → Prop}

/-! ## The queue -/

/-- What the queue always is: different items, each after what it waits for, and marked together
with what is given. -/
structure Lists (P : Precedence) (w : Worklist) : Prop where
  marked : ∀ x, w.marks.contains x = true ↔ P.given x ∨ x ∈ w.queue
  nodup : w.queue.toList.Nodup
  items : ∀ x ∈ w.queue, P.item x
  earlier : ∀ {before x after}, w.queue.toList = before ++ x :: after →
    ∀ {y}, P.waits x y → P.given y ∨ y ∈ before

/-- The queue is empty while only what is given is marked. -/
theorem lists_start {bound : Nat} {ids : List Nat} {marks : Marks}
    (marked : (Marks.none bound).markAll ids = .ok marks) (given : ∀ x, P.given x ↔ x ∈ ids) :
    P.Lists { marks } := by
  refine ⟨fun x => ?_, List.nodup_nil, by simp, fun split => by simp at split⟩
  rw [Marks.contains_markAll marked, given]
  simp

theorem Lists.not_mem (lists : P.Lists w) (unmarked : w.marks.flags[x]? = some false) :
    x ∉ w.queue := by
  intro queued
  have small : x < w.marks.flags.size := (Array.getElem?_eq_some_iff.mp unmarked).1
  have marked := Marks.getElem?_flags small
  rw [(lists.marked x).mpr (.inr queued), unmarked] at marked
  cases marked

/-- An unmarked item can be queued once everything that it waits for is marked. -/
theorem Lists.push (lists : P.Lists w) (item : P.item x)
    (unmarked : w.marks.flags[x]? = some false)
    (ready : ∀ y, P.waits x y → w.marks.contains y = true) : P.Lists (w.push x) := by
  have small : x < w.marks.flags.size := (Array.getElem?_eq_some_iff.mp unmarked).1
  have fresh := lists.not_mem unmarked
  refine ⟨fun z => ?_, ?_, fun z queued => ?_, fun {before z after} split y waits => ?_⟩
  · rw [Worklist.push, Marks.contains_add, lists.marked, Array.mem_push]
    simp only [small, and_true]
    tauto
  · rw [Worklist.push, Array.toList_push]
    exact lists.nodup.append (List.nodup_singleton x) (by simpa using fresh)
  · rcases Array.mem_push.mp queued with queued | rfl
    · exact lists.items z queued
    · exact item
  · rw [Worklist.push, Array.toList_push] at split
    -- The new item is last, or the entry was queued before.
    rcases List.eq_nil_or_concat after with rfl | ⟨init, last, rfl⟩
    · obtain ⟨rfl, same⟩ := List.append_inj' split rfl
      obtain rfl : x = z := by simpa using same
      exact ((lists.marked y).mp (ready y waits)).imp_right Array.mem_toList_iff.mpr
    · rw [List.concat_eq_append, ← List.cons_append, ← List.append_assoc] at split
      obtain ⟨same, _⟩ := List.append_inj' split rfl
      exact lists.earlier same waits

/-! ## Offering -/

/-- What becomes of an id that is offered: it is queued, or it is no item, or it is there already,
or it waits for something. -/
inductive Offers (P : Precedence) (w : Worklist) (x : Nat) : Worklist → Prop
  | queued (item : P.item x) (unmarked : w.marks.flags[x]? = some false)
      (ready : ∀ y, P.waits x y → w.marks.contains y = true) : Offers P w x (w.push x)
  | passed (idle : P.item x →
      w.marks.contains x = true ∨ ∃ y, P.waits x y ∧ w.marks.contains y = false) : Offers P w x w

/-- Ids are offered in turn. -/
inductive OffersAll (P : Precedence) : Worklist → List Nat → Worklist → Prop
  | nil (w : Worklist) : OffersAll P w [] w
  | cons {w middle next : Worklist} {x : Nat} {xs : List Nat} (first : P.Offers w x middle)
      (rest : OffersAll P middle xs next) : OffersAll P w (x :: xs) next

theorem offersAll_of_foldlM {α : Type} {step : Worklist → α → Except Fault Worklist}
    (offered : α → Nat) (offers : ∀ w a next, step w a = .ok next → P.Offers w (offered a) next) :
    ∀ {items : List α} {w : Worklist}, items.foldlM step w = .ok next →
      P.OffersAll w (items.map offered) next
  | [], _, folded => by
      cases folded
      exact .nil _
  | a :: rest, w, folded => by
      rw [List.foldlM_cons] at folded
      obtain ⟨middle, stepped, folded⟩ := bind_eq_ok_iff.mp folded
      exact .cons (offers w a middle stepped) (offersAll_of_foldlM offered offers folded)

namespace Offers

theorem lists (offers : P.Offers w x next) (lists : P.Lists w) : P.Lists next := by
  cases offers with
  | queued item unmarked ready => exact lists.push item unmarked ready
  | passed => exact lists

theorem isPrefix (offers : P.Offers w x next) : w.queue.toList <+: next.queue.toList := by
  cases offers with
  | queued =>
    rw [Worklist.push, Array.toList_push]
    exact List.prefix_append ..
  | passed => exact List.prefix_refl _

/-- An item that was offered is marked, unless it waits for something unmarked. -/
theorem marked_or_waits (offers : P.Offers w x next) (lists : P.Lists w) (item : P.item x) :
    next.marks.contains x = true ∨ ∃ y, P.waits x y ∧ w.marks.contains y = false := by
  cases offers with
  | queued _ unmarked ready =>
    exact .inl (((lists.push item unmarked ready).marked x).mpr (.inr Array.mem_push_self))
  | passed idle => exact idle item

end Offers

namespace OffersAll

theorem lists (offers : P.OffersAll w xs next) (lists : P.Lists w) : P.Lists next := by
  induction offers with
  | nil => exact lists
  | cons first _ inductionHypothesis => exact inductionHypothesis (first.lists lists)

theorem isPrefix (offers : P.OffersAll w xs next) : w.queue.toList <+: next.queue.toList := by
  induction offers with
  | nil => exact List.prefix_refl _
  | cons first _ inductionHypothesis => exact first.isPrefix.trans inductionHypothesis

theorem mem_queue (offers : P.OffersAll w xs next) (queued : x ∈ w.queue) : x ∈ next.queue :=
  Array.mem_toList_iff.mp (offers.isPrefix.subset (Array.mem_toList_iff.mpr queued))

theorem marked (offers : P.OffersAll w xs next) (lists : P.Lists w)
    (here : w.marks.contains x = true) : next.marks.contains x = true := by
  rw [(offers.lists lists).marked]
  exact ((lists.marked x).mp here).imp_right offers.mem_queue

/-- What was unmarked when an item was offered was unmarked at the start, too. -/
theorem marked_or_waits (offers : P.OffersAll w xs next) (lists : P.Lists w) (listed : x ∈ xs)
    (item : P.item x) :
    next.marks.contains x = true ∨ ∃ y, P.waits x y ∧ w.marks.contains y = false := by
  induction offers with
  | nil => cases listed
  | @cons w head middle tail next first rest inductionHypothesis =>
    rcases List.mem_cons.mp listed with rfl | listed
    · exact (first.marked_or_waits lists item).imp_left (rest.marked (first.lists lists))
    · refine (inductionHypothesis (first.lists lists) listed).imp_right ?_
      rintro ⟨y, waits, unmarked⟩
      refine ⟨y, waits, Bool.eq_false_iff.mpr fun here => ?_⟩
      rw [(OffersAll.cons first (.nil _)).marked lists here] at unmarked
      cases unmarked

end OffersAll

/-! ## Handling -/

/-- Handling an id offers every item that waits for it. -/
def PassesOn (P : Precedence) (w : Worklist) (y : Nat) (next : Worklist) : Prop :=
  ∃ xs, P.OffersAll w xs next ∧ ∀ x, P.item x → P.waits x y → x ∈ xs

/-- Some of the marked ids are handled, and what waits for handled ids only is queued. -/
structure Serves (P : Precedence) (w : Worklist) (handled : Nat → Prop) : Prop where
  lists : P.Lists w
  marked : ∀ y, handled y → w.marks.contains y = true
  served : ∀ x, P.item x → (∃ y, P.waits x y) → (∀ y, P.waits x y → handled y) →
    w.marks.contains x = true

theorem Lists.serves (lists : P.Lists w) : P.Serves w fun _ => False :=
  ⟨lists, nofun, fun _ _ ⟨y, waits⟩ all => (all y waits).elim⟩

theorem Serves.mono (serves : P.Serves w handled) (implies : ∀ y, fewer y → handled y) :
    P.Serves w fewer :=
  ⟨serves.lists, fun y here => serves.marked y (implies y here),
    fun x item some all => serves.served x item some fun y waits => implies y (all y waits)⟩

/-- After a marked id was passed on to what waits for it, it counts as handled. -/
theorem Serves.handle (serves : P.Serves w handled) (passes : P.PassesOn w y next)
    (here : w.marks.contains y = true) : P.Serves next fun z => handled z ∨ z = y := by
  obtain ⟨xs, offers, all⟩ := passes
  have before : ∀ z, handled z ∨ z = y → w.marks.contains z = true := by
    rintro z (earlier | rfl)
    · exact serves.marked z earlier
    · exact here
  refine ⟨offers.lists serves.lists, fun z done => offers.marked serves.lists (before z done),
    fun x item some done => ?_⟩
  by_cases waits : P.waits x y
  · -- It was offered, and all that it waits for was marked before.
    refine (offers.marked_or_waits serves.lists (all x item waits) item).resolve_right ?_
    rintro ⟨z, waits, unmarked⟩
    rw [before z (done z waits)] at unmarked
    cases unmarked
  · refine offers.marked serves.lists (serves.served x item some fun z waits' => ?_)
    refine (done z waits').resolve_right ?_
    rintro rfl
    exact waits waits'

section Run

variable {handle : Worklist → Nat → Except Fault Worklist} {keeps : Worklist.KeepsBudget handle}
  {start done : Worklist} {ids : List Nat}

/-- The given ids are handled first: the queue grows at its end, and then what waits for given ids
only is queued. -/
theorem Lists.serve_given (lists : P.Lists start) (given : ∀ x, P.given x ↔ x ∈ ids)
    (folded : ids.foldlM handle start = .ok done)
    (passes : ∀ w y next, P.given y → handle w y = .ok next → P.PassesOn w y next) :
    start.queue.toList <+: done.queue.toList ∧ P.Serves done P.given := by
  obtain ⟨grown, serves⟩ := foldlM_keeps folded (fun before w =>
      start.queue.toList <+: w.queue.toList ∧ P.Serves w (· ∈ before))
    ⟨List.prefix_refl _, lists.serves.mono fun _ listed => by simp at listed⟩ <| by
      intro before y after w next split ⟨grown, serves⟩ handled
      have here : P.given y := (given y).mpr (by simp [split])
      obtain ⟨xs, offers, covers⟩ := passes w y next here handled
      refine ⟨grown.trans offers.isPrefix, (serves.handle ⟨xs, offers, covers⟩
        ((serves.lists.marked y).mpr (.inl here))).mono fun z listed => ?_⟩
      simpa using listed
  exact ⟨grown, serves.mono fun y => (given y).mp⟩

/-- A queue that is drained still lists different items, each after what it waits for. -/
theorem Lists.drain (lists : P.Lists start)
    (drained : Worklist.drain handle keeps start 0 = .ok done)
    (offers : ∀ w y next, handle w y = .ok next → ∃ xs, P.OffersAll w xs next) : P.Lists done := by
  obtain ⟨_, lists, _⟩ := Worklist.drain_keeps drained (fun w _ => P.Lists w)
    (fun w position inside next lists handled => by
      obtain ⟨xs, offers⟩ := offers _ _ _ handled
      exact offers.lists lists) lists
  exact lists

/-- A queue that is drained grows at its end, and then everything marked is handled. -/
theorem Serves.drain (serves : P.Serves start P.given)
    (drained : Worklist.drain handle keeps start 0 = .ok done)
    (passes : ∀ w y next, P.item y → handle w y = .ok next → P.PassesOn w y next) :
    start.queue.toList <+: done.queue.toList ∧
      P.Serves done fun y => done.marks.contains y = true := by
  obtain ⟨last, ⟨grown, serves⟩, all⟩ := Worklist.drain_keeps drained
    (fun w position => start.queue.toList <+: w.queue.toList ∧
      P.Serves w fun y => P.given y ∨ y ∈ w.queue.toList.take position)
    (fun w position inside next ⟨grown, serves⟩ handled => by
      have queued := Array.getElem_mem inside
      obtain ⟨xs, offers, covers⟩ := passes _ _ _ (serves.lists.items _ queued) handled
      refine ⟨grown.trans offers.isPrefix, (serves.handle ⟨xs, offers, covers⟩
        ((serves.lists.marked _).mpr (.inr queued))).mono ?_⟩
      -- The queue grows at its end, so the ids before the position are the same ones.
      have longer : next.queue.toList.take (position + 1) =
          w.queue.toList.take (position + 1) := by
        obtain ⟨more, extended⟩ := offers.isPrefix
        rw [← extended, List.take_append_of_le_length]
        rw [Array.length_toList]
        exact inside
      intro y here
      rw [longer, List.take_succ_eq_append_getElem (by simpa using inside), List.mem_append,
        List.mem_singleton, ← or_assoc] at here
      simpa using here)
    ⟨List.prefix_refl _, serves.mono fun y here => by simpa using here⟩
  refine ⟨grown, serves.mono fun y here => ?_⟩
  rw [List.take_of_length_le (by simpa using all), Array.mem_toList_iff]
  exact (serves.lists.marked y).mp here

end Run

/-- When everything marked is handled, every item is queued: an item of least rank among the
others would wait for queued ones only. -/
theorem Serves.mem_queue (serves : P.Serves w fun y => w.marks.contains y = true)
    (rank : Nat → Nat) (apart : ∀ x, P.item x → ¬ P.given x)
    (ranked : ∀ x y, P.item x → P.waits x y → P.given y ∨ P.item y ∧ rank y < rank x)
    (idle : ∀ x, P.item x → (∀ y, ¬ P.waits x y) → x ∈ w.queue) (item : P.item x) :
    x ∈ w.queue := by
  induction x using (measure rank).wf.induction with
  | _ x inductionHypothesis =>
    by_cases some : ∃ y, P.waits x y
    · refine ((serves.lists.marked x).mp ?_).resolve_left (apart x item)
      refine serves.served x item some fun y waits => (serves.lists.marked y).mpr ?_
      exact (ranked x y item waits).imp_right fun ⟨below, lower⟩ =>
        inductionHypothesis y lower below
    · exact idle x item fun y waits => some ⟨y, waits⟩

end Precedence

end GateNet
