import GateNet.Proofs.Order

/-!
# Searches find what depends on a node

`feeds` and `fanoutCone` follow wires from drivers to readers.  Both are exact: on a sound network
the first answers whether a node depends on another one, and the second gives all gates that
depend on a node and all other readers of these gates.
-/

namespace GateNet

namespace Network

variable {net : Network}

/-- Whether a node reads another one. -/
def WireTo (net : Network) (x d : NodeId) : Prop :=
  ∃ p, net.nodes.driverAt ⟨x, p⟩ = some d

theorem Sound.reads_iff (sound : net.Sound) {x d : NodeId} :
    net.nodes.layout.circuit.Reads x d ↔ net.WireTo x d ∧ net.nodes.layout.HasGate x := by
  rw [Layout.reads_circuit_iff]
  constructor
  · rintro ⟨key, keyed, operand⟩
    obtain ⟨first, second⟩ := driverAt_of_key? keyed
    refine ⟨?_, Layout.hasGate_of_key? keyed⟩
    rcases operand with rfl | rfl
    · exact ⟨.first, first⟩
    · exact ⟨.second, second⟩
  · rintro ⟨⟨p, wire⟩, gate⟩
    obtain ⟨key, keyed, _⟩ := sound.woven.layout.key?_of_hasGate gate
    obtain ⟨first, second⟩ := driverAt_of_key? keyed
    refine ⟨key, keyed, ?_⟩
    cases p with
    | first => exact .inl (Option.some.inj (first.symm.trans wire))
    | second => exact .inr (Option.some.inj (second.symm.trans wire))

theorem wireTo_iff {x d : NodeId} {n : Node} (found : net.nodes.get? x = some n) :
    net.WireTo x d ↔ ∃ p, n.driver p = some d := by
  simp only [WireTo, Store.driverAt_eq_some_iff, found, Option.some.injEq, exists_eq_left']

theorem WireTo.live {x d : NodeId} (wire : net.WireTo x d) :
    ∃ n, net.nodes.layout x = some n := by
  obtain ⟨p, wire⟩ := wire
  obtain ⟨n, found, _⟩ := Store.driverAt_eq_some_iff.mp wire
  exact ⟨n.core, Store.layout_of_get? found⟩

theorem Sound.mayDrive_of_wire (sound : net.Sound) {x d : NodeId} (wire : net.WireTo x d) :
    net.nodes.layout.MayDrive d := by
  obtain ⟨n, held⟩ := wire.live
  obtain ⟨p, wire⟩ := wire
  rw [Store.Woven.driverAt_eq net.nodes held] at wire
  exact sound.woven.layout.driven held wire

theorem Sound.hasGate_of_wire (sound : net.Sound) {x d : NodeId} (wire : net.WireTo x d)
    (drives : net.nodes.layout.MayDrive x) : net.nodes.layout.HasGate x := by
  refine (sound.mayDrive_iff.mp drives).resolve_left fun input => ?_
  obtain ⟨n, held, isInput⟩ := sound.mem_inputs_iff.mp input
  obtain ⟨p, wire⟩ := wire
  rw [Store.Woven.driverAt_eq net.nodes held] at wire
  obtain ⟨first, second⟩ := (sound.woven.layout.fits held).input isInput
  cases p
  · rw [Node.driver, first] at wire
    cases wire
  · rw [Node.driver, second] at wire
    cases wire

/-- A node that may drive depends on what it reaches along wires. -/
theorem Sound.depends_iff_wires (sound : net.Sound) {x d : NodeId}
    (drives : net.nodes.layout.MayDrive x) :
    Relation.ReflTransGen net.WireTo x d ↔ net.nodes.layout.circuit.Depends x d := by
  constructor
  · intro wires
    -- By induction from the reader: what may drive and reads is a gate, and so is the next node.
    induction wires using Relation.ReflTransGen.head_induction_on with
    | refl => exact .refl
    | head wire _ inductionHypothesis =>
      exact .head (sound.reads_iff.mpr ⟨wire, sound.hasGate_of_wire wire drives⟩)
        (inductionHypothesis (sound.mayDrive_of_wire wire))
  · intro depends
    exact Relation.ReflTransGen.mono (fun x d read => (sound.reads_iff.mp read).1) _ _ depends

theorem mem_readers_iff (sound : net.Sound) {id : NodeId} {n : Node}
    (found : net.nodes.get? id = some n) {x : NodeId} :
    x ∈ n.fanouts.toList.map (·.reader) ↔ net.WireTo x id := by
  rw [List.mem_map]
  constructor
  · rintro ⟨⟨x, p⟩, listed, rfl⟩
    exact ⟨p, (sound.woven.wired.mem_fanouts_iff found).mp (Array.mem_toList_iff.mp listed)⟩
  · rintro ⟨p, wire⟩
    exact ⟨⟨x, p⟩, Array.mem_toList_iff.mpr ((sound.woven.wired.mem_fanouts_iff found).mpr wire), rfl⟩

/-! ## Searching for a node -/

/-- What was searched already: no marked node is the target, and the readers of marked nodes are
marked or wait on the stack. -/
structure Searched (net : Network) (target : NodeId) (seen : Marks) (stack : List NodeId) : Prop where
  size : seen.flags.size = net.nodes.bound
  live : ∀ x ∈ stack, ∃ n, net.nodes.layout x = some n
  other : ∀ x, seen.contains x = true → x ≠ target
  closed : ∀ x y, seen.contains x = true → net.WireTo y x → seen.contains y = true ∨ y ∈ stack

/-- One step of the search. -/
theorem search_eq (net : Network) (target : NodeId) (seen : Marks) (stack : List NodeId) :
    net.search target seen stack = (do
      match ← seen.firstUnmarked stack with
      | none => return false
      | some (id, rest) =>
          if id = target then return true
          else
            let node ← net.nodes.fetch id
            net.search target (seen.add id) ((node.fanouts.toList.map (·.reader)).reverse ++ rest)) := by
  rw [search]
  split
  · next chosen => rw [chosen]; rfl
  · next chosen => rw [chosen]; rfl
  · next id rest chosen =>
    rw [chosen, ok_bind]
    dsimp only
    split
    · rfl
    · cases net.nodes.fetch id <;> rfl

theorem search_done {target : NodeId} {seen : Marks} {stack : List NodeId}
    (chosen : seen.firstUnmarked stack = .ok none) : net.search target seen stack = .ok false := by
  rw [search_eq, chosen]
  rfl

theorem search_step {target id : NodeId} {seen : Marks} {stack rest : List NodeId} {n : Node}
    (chosen : seen.firstUnmarked stack = .ok (some (id, rest)))
    (found : net.nodes.get? id = some n) :
    net.search target seen stack =
      if id = target then .ok true
      else net.search target (seen.add id) ((n.fanouts.toList.map (·.reader)).reverse ++ rest) := by
  rw [search_eq, chosen]
  simp only [ok_bind, Store.fetch_of_get? found]
  rfl

/-- A visited node is marked, and its readers wait on the stack. -/
theorem Searched.visit (sound : net.Sound) {target id : NodeId} {seen : Marks}
    {before rest : List NodeId} {n : Node} (searched : net.Searched target seen (before ++ id :: rest))
    (marked : ∀ x ∈ before, seen.contains x = true) (found : net.nodes.get? id = some n)
    (other : id ≠ target) :
    net.Searched target (seen.add id) ((n.fanouts.toList.map (·.reader)).reverse ++ rest) := by
  have small : id < seen.flags.size := by
    rw [searched.size]
    exact sound.lt_bound (Store.layout_of_get? found)
  refine ⟨by rw [Marks.size_add, searched.size], fun x listed => ?_, fun x here => ?_,
    fun x y here wire => ?_⟩
  · rcases List.mem_append.mp listed with listed | listed
    · exact ((mem_readers_iff sound found).mp (List.mem_reverse.mp listed)).live
    · exact searched.live x (by simp [listed])
  · rcases (Marks.contains_add ..).mp here with ⟨rfl, _⟩ | here
    · exact other
    · exact searched.other x here
  · rcases (Marks.contains_add ..).mp here with ⟨rfl, _⟩ | here
    · exact .inr (List.mem_append.mpr (.inl (List.mem_reverse.mpr
        ((mem_readers_iff sound found).mpr wire))))
    · exact Marks.covered_add small marked (searched.closed x y here wire)

/-- The search ends, and answers whether the target is reached from the stack along wires. -/
theorem search_spec (sound : net.Sound) {target : NodeId} {seen : Marks} {stack : List NodeId}
    (searched : net.Searched target seen stack) :
    ∃ found, net.search target seen stack = .ok found ∧
      (found = true → ∃ x ∈ stack, Relation.ReflTransGen net.WireTo target x) ∧
      (found = false → ∀ x, seen.contains x = true ∨ x ∈ stack →
        ¬ Relation.ReflTransGen net.WireTo target x) := by
  -- Every visit marks one more node.
  induction size : seen.unmarked using Nat.strong_induction_on generalizing seen stack with
  | _ count inductionHypothesis =>
    have bounded : ∀ x ∈ stack, x < seen.flags.size := by
      intro x listed
      obtain ⟨n, held⟩ := searched.live x listed
      rw [searched.size]
      exact sound.lt_bound held
    rcases Marks.firstUnmarked_spec bounded with
      ⟨chosen, all⟩ | ⟨before, id, rest, chosen, rfl, marked, unmarked⟩
    · -- Everything on the stack is marked, so what is reached from below is marked too.
      refine ⟨false, search_done chosen, by rintro ⟨⟩, fun _ x here wires => ?_⟩
      have inside : seen.contains target = true := by
        induction wires with
        | refl => exact here.elim (fun here => here) (all _)
        | tail _ wire inductionHypothesis =>
          exact inductionHypothesis (searched.closed _ _ (here.elim (fun here => here) (all _)) wire)
      exact searched.other target inside rfl
    · obtain ⟨n, live⟩ := searched.live id (by simp)
      obtain ⟨m, found, _⟩ := Store.layout_eq_some_iff.mp live
      rw [search_step chosen found]
      by_cases here : id = target
      · subst here
        exact ⟨true, by rw [if_pos rfl], fun _ => ⟨id, by simp, .refl⟩, by rintro ⟨⟩⟩
      · rw [if_neg here]
        have smaller : (seen.add id).unmarked < count := by
          have := Marks.unmarked_add (Marks.unmarked_of_firstUnmarked chosen)
          omega
        obtain ⟨answer, answered, yes, no⟩ := inductionHypothesis _ smaller
          (searched.visit sound marked found here) rfl
        refine ⟨answer, answered, fun isTrue => ?_, fun isFalse x here => ?_⟩
        · -- A path found from a pushed reader is one step longer from the visited node.
          obtain ⟨x, listed, wires⟩ := yes isTrue
          rcases List.mem_append.mp listed with listed | listed
          · refine ⟨id, by simp, wires.tail ?_⟩
            exact (mem_readers_iff sound found).mp (List.mem_reverse.mp listed)
          · exact ⟨x, by simp [listed], wires⟩
        · exact no isFalse x (Marks.covered_add (bounded id (by simp)) marked here)

/-- On a sound network `feeds` decides whether a node depends on another one. -/
theorem feeds_spec (sound : net.Sound) {id target : NodeId} {n : Node}
    (held : net.nodes.layout id = some n) (drives : net.nodes.layout.MayDrive target) :
    ∃ found, net.feeds id target = .ok found ∧
      (found = true ↔ net.nodes.layout.circuit.Depends target id) := by
  have start : net.Searched target net.noMarks [id] := by
    refine ⟨Marks.size_none _, ?_, by simp [noMarks], by simp [noMarks]⟩
    rintro x listed
    obtain rfl := List.mem_singleton.mp listed
    exact ⟨n, held⟩
  obtain ⟨found, searchedEq, yes, no⟩ := search_spec sound start
  refine ⟨found, searchedEq, ?_⟩
  rw [← sound.depends_iff_wires drives]
  constructor
  · intro isTrue
    obtain ⟨x, listed, wires⟩ := yes isTrue
    rwa [List.mem_singleton.mp listed] at wires
  · intro wires
    by_contra isFalse
    exact no (by simpa using isFalse) id (.inr (.head _)) wires

/-! ## Growing a cone -/

/-- What was added to the cone of a node: its members depend on the node, gates that read members
are members or wait on the stack, and all other readers of members are noted. -/
structure Grown (net : Network) (id : NodeId) (cone : Cone) (stack : List NodeId) : Prop where
  size : cone.members.flags.size = net.nodes.bound
  start : cone.members.contains id = true ∨ id ∈ stack
  waiting : ∀ x ∈ stack, net.nodes.layout.HasGate x ∧ net.nodes.layout.circuit.Depends x id
  members : ∀ x, cone.members.contains x = true → net.nodes.layout.circuit.Depends x id
  closed : ∀ x y, cone.members.contains x = true → net.WireTo y x → net.nodes.layout.HasGate y →
    cone.members.contains y = true ∨ y ∈ stack
  noted : ∀ y ∈ cone.readers, ¬ net.nodes.layout.HasGate y ∧
    ∃ x, net.WireTo y x ∧ net.nodes.layout.circuit.Depends x id
  complete : ∀ x y, cone.members.contains x = true → net.WireTo y x → ¬ net.nodes.layout.HasGate y →
    y ∈ cone.readers

/-- Nodes are sorted into gates and others. -/
structure Sorted (net : Network) (nodes gates : List NodeId) (others : Array NodeId) : Prop where
  gates : ∀ x, x ∈ gates ↔ x ∈ nodes ∧ net.nodes.layout.HasGate x
  others : ∀ x, x ∈ others ↔ x ∈ nodes ∧ ¬ net.nodes.layout.HasGate x

namespace Sorted

variable {nodes gates : List NodeId} {others : Array NodeId} {id : NodeId}

theorem gate (sorted : net.Sorted nodes gates others) (gate : net.nodes.layout.HasGate id) :
    net.Sorted (nodes ++ [id]) (id :: gates) others where
  gates x := by
    rw [List.mem_cons, sorted.gates, List.mem_append, List.mem_singleton]
    constructor
    · rintro (rfl | ⟨listed, here⟩)
      · exact ⟨.inr rfl, gate⟩
      · exact ⟨.inl listed, here⟩
    · rintro ⟨listed | rfl, here⟩
      · exact .inr ⟨listed, here⟩
      · exact .inl rfl
  others x := by
    rw [sorted.others, List.mem_append, List.mem_singleton]
    refine and_congr_left fun notGate => ⟨.inl, fun listed => listed.resolve_right ?_⟩
    rintro rfl
    exact notGate gate

theorem other (sorted : net.Sorted nodes gates others) (notGate : ¬ net.nodes.layout.HasGate id) :
    net.Sorted (nodes ++ [id]) gates (others.push id) where
  gates x := by
    rw [sorted.gates, List.mem_append, List.mem_singleton]
    refine and_congr_left fun gate => ⟨.inl, fun listed => listed.resolve_right ?_⟩
    rintro rfl
    exact notGate gate
  others x := by
    rw [Array.mem_push, sorted.others, List.mem_append, List.mem_singleton]
    constructor
    · rintro (⟨listed, here⟩ | rfl)
      · exact ⟨.inl listed, here⟩
      · exact ⟨.inr rfl, notGate⟩
    · rintro ⟨listed | rfl, here⟩
      · exact .inl ⟨listed, here⟩
      · exact .inr rfl

end Sorted

theorem sortReaders_spec (sound : net.Sound) {id : NodeId} {n : Node}
    (found : net.nodes.get? id = some n) (rest : List NodeId) (readers : Array NodeId) :
    ∃ gates others, n.fanouts.toList.foldlM net.sortReader (rest, readers) =
        .ok (gates ++ rest, readers ++ others) ∧
      net.Sorted (n.fanouts.toList.map (·.reader)) gates others := by
  obtain ⟨final, folded, gates, others, rfl, sorted⟩ := foldlM_spec net.sortReader
    n.fanouts.toList (rest, readers)
    (fun before (state : List NodeId × Array NodeId) => ∃ gates others,
      state = (gates ++ rest, readers ++ others) ∧
      net.Sorted (before.map (·.reader)) gates others)
    ⟨[], #[], by simp, ⟨by simp, by simp⟩⟩ <| by
      rintro before e after _ split ⟨gates, others, rfl, sorted⟩
      have wire : net.WireTo e.reader id := by
        rw [← mem_readers_iff sound found, split]
        simp
      obtain ⟨k, live⟩ := wire.live
      obtain ⟨m, held, rfl⟩ := Store.layout_eq_some_iff.mp live
      rw [List.map_append, List.map_singleton]
      cases gate : m.isGate with
      | true =>
        refine ⟨(e.reader :: gates ++ rest, readers ++ others), ?_, e.reader :: gates, others, rfl,
          sorted.gate ⟨m.core, live, gate⟩⟩
        simp only [sortReader, Store.fetch_of_get? held, ok_bind, gate, if_true, pure_eq_ok]
        rfl
      | false =>
        refine ⟨(gates ++ rest, readers ++ others.push e.reader), ?_, gates, others.push e.reader,
          rfl, sorted.other (Layout.not_hasGate_of_isGate live gate)⟩
        simp only [sortReader, Store.fetch_of_get? held, ok_bind, gate, Bool.false_eq_true,
          if_false, pure_eq_ok, Array.append_push]
  exact ⟨gates, others, folded, sorted⟩

/-- One step of the growth of a cone. -/
theorem growCone_eq (net : Network) (cone : Cone) (stack : List NodeId) :
    net.growCone cone stack = (do
      match ← cone.members.firstUnmarked stack with
      | none => return cone
      | some (id, rest) =>
          let node ← net.nodes.fetch id
          let (stack, readers) ← node.fanouts.toList.foldlM net.sortReader (rest, cone.readers)
          net.growCone { members := cone.members.add id, readers } stack) := by
  rw [growCone]
  split
  · next chosen => rw [chosen]; rfl
  · next chosen => rw [chosen]; rfl
  · next id rest chosen =>
    rw [chosen, ok_bind]
    dsimp only
    cases net.nodes.fetch id with
    | error fault => rfl
    | ok node =>
      rw [ok_bind]
      dsimp only
      cases node.fanouts.toList.foldlM net.sortReader (rest, cone.readers) <;> rfl

theorem growCone_done {cone : Cone} {stack : List NodeId}
    (chosen : cone.members.firstUnmarked stack = .ok none) : net.growCone cone stack = .ok cone := by
  rw [growCone_eq, chosen]
  rfl

theorem growCone_step {id : NodeId} {cone : Cone} {stack rest next : List NodeId}
    {readers : Array NodeId} {n : Node}
    (chosen : cone.members.firstUnmarked stack = .ok (some (id, rest)))
    (found : net.nodes.get? id = some n)
    (sorted : n.fanouts.toList.foldlM net.sortReader (rest, cone.readers) = .ok (next, readers)) :
    net.growCone cone stack = net.growCone { members := cone.members.add id, readers } next := by
  rw [growCone_eq, chosen]
  simp only [ok_bind, Store.fetch_of_get? found, sorted]

/-- The cone of a node holds what depends on it, and notes who else reads the cone. -/
structure Cone.Exact (net : Network) (id : NodeId) (cone : Cone) : Prop where
  size : cone.members.flags.size = net.nodes.bound
  members : ∀ x, cone.members.contains x = true ↔ net.nodes.layout.circuit.Depends x id
  readers : ∀ y, y ∈ cone.readers ↔ ¬ net.nodes.layout.HasGate y ∧
    ∃ x, net.WireTo y x ∧ net.nodes.layout.circuit.Depends x id

theorem Grown.exact (sound : net.Sound) {id : NodeId} {cone : Cone} {stack : List NodeId}
    (grown : net.Grown id cone stack) (all : ∀ x ∈ stack, cone.members.contains x = true) :
    Cone.Exact net id cone := by
  have members : ∀ x, net.nodes.layout.circuit.Depends x id → cone.members.contains x = true := by
    intro x depends
    induction depends using Relation.ReflTransGen.head_induction_on with
    | refl => exact grown.start.elim (fun here => here) (all _)
    | head read _ inside =>
      obtain ⟨wire, gate⟩ := sound.reads_iff.mp read
      exact (grown.closed _ _ inside wire gate).elim (fun here => here) (all _)
  refine ⟨grown.size, fun x => ⟨grown.members x, members x⟩, fun y => ⟨grown.noted y, ?_⟩⟩
  rintro ⟨notGate, x, wire, depends⟩
  exact grown.complete x y (members x depends) wire notGate

theorem Grown.visit (sound : net.Sound) {id x : NodeId} {cone : Cone} {before rest : List NodeId}
    (grown : net.Grown id cone (before ++ x :: rest))
    (marked : ∀ y ∈ before, cone.members.contains y = true) {n : Node}
    (found : net.nodes.get? x = some n) {gates : List NodeId} {others : Array NodeId}
    (sorted : net.Sorted (n.fanouts.toList.map (·.reader)) gates others) :
    net.Grown id { members := cone.members.add x, readers := cone.readers ++ others }
      (gates ++ rest) := by
  have depends := (grown.waiting x (by simp)).2
  have small : x < cone.members.flags.size := by
    rw [grown.size]
    exact sound.lt_bound (Store.layout_of_get? found)
  have kept : ∀ {y}, cone.members.contains y = true ∨ y ∈ before ++ x :: rest →
      (cone.members.add x).contains y = true ∨ y ∈ gates ++ rest :=
    Marks.covered_add small marked
  have wires : ∀ {y}, y ∈ n.fanouts.toList.map (·.reader) ↔ net.WireTo y x :=
    mem_readers_iff sound found
  refine ⟨by rw [Marks.size_add, grown.size], kept grown.start, fun y listed => ?_,
    fun y here => ?_, fun y z here wire gate => ?_, fun y listed => ?_,
    fun y z here wire notGate => ?_⟩
  · rcases List.mem_append.mp listed with listed | listed
    · obtain ⟨listed, gate⟩ := (sorted.gates y).mp listed
      exact ⟨gate, .head (sound.reads_iff.mpr ⟨wires.mp listed, gate⟩) depends⟩
    · exact grown.waiting y (by simp [listed])
  · rcases (Marks.contains_add ..).mp here with ⟨rfl, _⟩ | here
    · exact depends
    · exact grown.members y here
  · rcases (Marks.contains_add ..).mp here with ⟨rfl, _⟩ | here
    · exact .inr (List.mem_append.mpr (.inl ((sorted.gates z).mpr ⟨wires.mpr wire, gate⟩)))
    · exact kept (grown.closed y z here wire gate)
  · rcases Array.mem_append.mp listed with listed | listed
    · exact grown.noted y listed
    · obtain ⟨listed, notGate⟩ := (sorted.others y).mp listed
      exact ⟨notGate, x, wires.mp listed, depends⟩
  · refine Array.mem_append.mpr ?_
    rcases (Marks.contains_add ..).mp here with ⟨rfl, _⟩ | here
    · exact .inr ((sorted.others z).mpr ⟨wires.mpr wire, notGate⟩)
    · exact .inl (grown.complete y z here wire notGate)

theorem growCone_spec (sound : net.Sound) {id : NodeId} {cone : Cone} {stack : List NodeId}
    (grown : net.Grown id cone stack) :
    ∃ final, net.growCone cone stack = .ok final ∧ Cone.Exact net id final := by
  -- Every visit marks one more member.
  induction size : cone.members.unmarked using Nat.strong_induction_on generalizing cone stack with
  | _ count inductionHypothesis =>
    have bounded : ∀ x ∈ stack, x < cone.members.flags.size := by
      intro x listed
      obtain ⟨n, held, _⟩ := (grown.waiting x listed).1
      rw [grown.size]
      exact sound.lt_bound held
    rcases Marks.firstUnmarked_spec bounded with
      ⟨chosen, all⟩ | ⟨before, x, rest, chosen, rfl, marked, unmarked⟩
    · exact ⟨cone, growCone_done chosen, grown.exact sound all⟩
    · obtain ⟨n, live, _⟩ := (grown.waiting x (by simp)).1
      obtain ⟨m, found, rfl⟩ := Store.layout_eq_some_iff.mp live
      obtain ⟨gates, others, sortedEq, sorted⟩ := sortReaders_spec sound found rest cone.readers
      have smaller : (cone.members.add x).unmarked < count := by
        have := Marks.unmarked_add (Marks.unmarked_of_firstUnmarked chosen)
        omega
      rw [growCone_step chosen found sortedEq]
      exact inductionHypothesis _ smaller (grown.visit sound marked found sorted) rfl

/-- On a sound network the cone of a gate is exact. -/
theorem fanoutCone_spec (sound : net.Sound) {id : NodeId} (gate : net.nodes.layout.HasGate id) :
    ∃ cone, net.fanoutCone id = .ok cone ∧ Cone.Exact net id cone := by
  refine growCone_spec sound ⟨Marks.size_none _, .inr (.head _), fun x listed => ?_,
    by simp [noMarks], by simp [noMarks], by simp, by simp [noMarks]⟩
  rw [List.mem_singleton.mp listed]
  exact ⟨gate, .refl⟩

end Network

end GateNet
