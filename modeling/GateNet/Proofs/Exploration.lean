import GateNet.Proofs.Paths

/-!
# The order of a walk

A recursive exploration visits a node, then whatever is new under its first operand, then whatever
is still new under its second one.  A walk visits the same nodes, but a driver that it meets again
keeps its place on the stack.  So when the first operand of a node depends on the second, the second
one waits where the exploration would visit it.  Where that does not happen, the orders are one.
-/

namespace GateNet

/-- What a node reads, the first operand before the second. -/
def Node.reads (n : Node) : List NodeId :=
  n.first.toList ++ n.second.toList

theorem Node.mem_reads_iff {n : Node} {d : NodeId} :
    d ∈ n.reads ↔ ∃ p, n.driver p = some d := by
  constructor
  · intro listed
    rcases List.mem_append.mp listed with listed | listed
    · exact ⟨.first, Option.mem_toList.mp listed⟩
    · exact ⟨.second, Option.mem_toList.mp listed⟩
  · rintro ⟨p, read⟩
    cases p with
    | first => exact List.mem_append.mpr (.inl (Option.mem_toList.mpr read))
    | second => exact List.mem_append.mpr (.inr (Option.mem_toList.mpr read))

namespace Network

variable {net : Network} {seen roots more order later : List NodeId} {id x d : NodeId} {n : Node}

theorem wireTo_iff_mem_reads (held : net.node? id = some n) : net.WireTo id d ↔ d ∈ n.reads := by
  rw [Node.mem_reads_iff, wireTo_iff held]

/-! ## Recursive exploration -/

/-- The order in which a recursive exploration visits what is under some roots, apart from the nodes
that were seen before: root by root, each node before what it reads. -/
inductive Explores (net : Network) : List NodeId → List NodeId → List NodeId → Prop
  | nil {seen : List NodeId} : Explores net seen [] []
  | known {seen rest order : List NodeId} {id : NodeId} (known : id ∈ seen)
      (others : Explores net seen rest order) : Explores net seen (id :: rest) order
  | visit {seen rest below later : List NodeId} {id : NodeId} {n : Node} (fresh : id ∉ seen)
      (held : net.node? id = some n) (under : Explores net (seen ++ [id]) n.reads below)
      (others : Explores net (seen ++ [id] ++ below) rest later) :
      Explores net seen (id :: rest) (id :: (below ++ later))

namespace Explores

/-- There is at most one such order. -/
theorem unique (explores : net.Explores seen roots order) {other : List NodeId}
    (explores' : net.Explores seen roots other) : other = order := by
  induction explores generalizing other with
  | nil =>
    cases explores'
    rfl
  | known known _ inductionHypothesis =>
    cases explores' with
    | known _ others => exact inductionHypothesis others
    | visit fresh _ _ _ => exact absurd known fresh
  | visit fresh held _ _ inductionHypothesis inductionHypothesis' =>
    cases explores' with
    | known known _ => exact absurd known fresh
    | visit _ held' under others =>
      obtain rfl := Option.some.inj (held.symm.trans held')
      obtain rfl := inductionHypothesis under
      rw [inductionHypothesis' others]

theorem append (first : net.Explores seen roots order)
    (second : net.Explores (seen ++ order) more later) :
    net.Explores seen (roots ++ more) (order ++ later) := by
  induction first with
  | nil => simpa using second
  | known known _ inductionHypothesis => exact .known known (inductionHypothesis second)
  | visit fresh held under _ _ inductionHypothesis =>
    rw [List.cons_append, List.cons_append, List.append_assoc]
    exact .visit fresh held under (inductionHypothesis (by simpa using second))

theorem split {total : List NodeId} (explores : net.Explores seen (roots ++ more) total) :
    ∃ order later, total = order ++ later ∧ net.Explores seen roots order ∧
      net.Explores (seen ++ order) more later := by
  induction roots generalizing seen total with
  | nil => exact ⟨[], total, rfl, .nil, by simpa using explores⟩
  | cons root roots inductionHypothesis =>
    cases explores with
    | known known others =>
      obtain ⟨order, later, same, first, second⟩ := inductionHypothesis others
      exact ⟨order, later, same, .known known first, second⟩
    | @visit _ _ below _ _ _ fresh held under others =>
      obtain ⟨order, later, rfl, first, second⟩ := inductionHypothesis others
      exact ⟨root :: (below ++ order), later, by simp, .visit fresh held under first,
        by simpa using second⟩

/-- A node is visited first; what it reads comes before the other roots. -/
theorem step (fresh : id ∉ seen) (held : net.node? id = some n)
    (explores : net.Explores (seen ++ [id]) (n.reads ++ more) order) :
    net.Explores seen (id :: more) (id :: order) := by
  obtain ⟨below, later, rfl, under, others⟩ := explores.split
  exact .visit fresh held under others

theorem step_of_reads {below : List NodeId} (fresh : id ∉ seen)
    (reads : (net.node? id).map Node.reads = some below)
    (explores : net.Explores (seen ++ [id]) (below ++ more) order) :
    net.Explores seen (id :: more) (id :: order) := by
  obtain ⟨n, held, rfl⟩ := Option.map_eq_some_iff.mp reads
  exact .step fresh held explores

/-! ### What is visited -/

theorem nodup (explores : net.Explores seen roots order) (nodup : seen.Nodup) :
    (seen ++ order).Nodup := by
  induction explores with
  | nil => simpa using nodup
  | known _ _ inductionHypothesis => exact inductionHypothesis nodup
  | @visit seen _ _ _ id _ fresh _ _ _ inductionHypothesis inductionHypothesis' =>
    have more : (seen ++ [id]).Nodup :=
      nodup.append (List.nodup_singleton id) (by simpa using fresh)
    simpa using inductionHypothesis' (inductionHypothesis more)

theorem covers (explores : net.Explores seen roots order) {root : NodeId} (listed : root ∈ roots) :
    root ∈ seen ++ order := by
  induction explores with
  | nil => cases listed
  | known known _ inductionHypothesis =>
    rcases List.mem_cons.mp listed with rfl | listed
    · exact List.mem_append.mpr (.inl known)
    · exact inductionHypothesis listed
  | visit _ _ _ _ _ inductionHypothesis =>
    rcases List.mem_cons.mp listed with rfl | listed
    · simp
    · simpa using inductionHypothesis listed

theorem closed (explores : net.Explores seen roots order) (listed : x ∈ order)
    (wire : net.WireTo x d) : d ∈ seen ++ order := by
  induction explores with
  | nil => cases listed
  | known _ _ inductionHypothesis => exact inductionHypothesis listed
  | @visit seen _ below later id _ _ held under _ inductionHypothesis inductionHypothesis' =>
    have inside : d ∈ seen ++ [id] ++ below → d ∈ seen ++ id :: (below ++ later) := by
      intro inside
      simp only [List.mem_append, List.mem_cons] at inside ⊢
      tauto
    rcases List.mem_cons.mp listed with rfl | listed
    · exact inside (under.covers ((wireTo_iff_mem_reads held).mp wire))
    · rcases List.mem_append.mp listed with listed | listed
      · exact inside (inductionHypothesis listed)
      · simpa using inductionHypothesis' listed

theorem reached (explores : net.Explores seen roots order) (listed : x ∈ order) :
    ∃ root ∈ roots, Relation.ReflTransGen net.WireTo root x := by
  induction explores with
  | nil => cases listed
  | known _ _ inductionHypothesis =>
    obtain ⟨root, among, wires⟩ := inductionHypothesis listed
    exact ⟨root, .tail _ among, wires⟩
  | visit _ held _ _ inductionHypothesis inductionHypothesis' =>
    rcases List.mem_cons.mp listed with rfl | listed
    · exact ⟨x, .head _, .refl⟩
    · rcases List.mem_append.mp listed with listed | listed
      · obtain ⟨d, read, wires⟩ := inductionHypothesis listed
        exact ⟨_, .head _, .head ((wireTo_iff_mem_reads held).mpr read) wires⟩
      · obtain ⟨root, among, wires⟩ := inductionHypothesis' listed
        exact ⟨root, .tail _ among, wires⟩

/-- An exploration from scratch visits exactly what the roots depend on. -/
theorem mem_iff (explores : net.Explores [] roots order) (x : NodeId) :
    x ∈ order ↔ ∃ root ∈ roots, Relation.ReflTransGen net.WireTo root x := by
  refine ⟨explores.reached, ?_⟩
  rintro ⟨root, among, wires⟩
  induction wires with
  | refl => exact explores.covers among
  | tail _ wire inductionHypothesis => exact explores.closed inductionHypothesis wire

end Explores

/-! ### Exploration ends -/

theorem exists_explores_of_each
    (each : ∀ root ∈ roots, ∀ seen, ∃ order, net.Explores seen [root] order)
    (seen : List NodeId) : ∃ order, net.Explores seen roots order := by
  induction roots generalizing seen with
  | nil => exact ⟨[], .nil⟩
  | cons root roots inductionHypothesis =>
    obtain ⟨order, first⟩ := each root (.head _) seen
    obtain ⟨later, second⟩ :=
      inductionHypothesis (fun other listed => each other (.tail _ listed)) (seen ++ order)
    exact ⟨order ++ later, first.append second⟩

theorem exists_explores_of_reads (held : net.node? id = some n)
    (each : ∀ d ∈ n.reads, ∀ seen, ∃ order, net.Explores seen [d] order) (seen : List NodeId) :
    ∃ order, net.Explores seen [id] order := by
  by_cases known : id ∈ seen
  · exact ⟨[], .known known .nil⟩
  · obtain ⟨below, under⟩ := exists_explores_of_each each (seen ++ [id])
    exact ⟨_, .visit known held under .nil⟩

/-- What may drive is explored by induction on its height. -/
theorem Sound.exists_explores_of_mayDrive (sound : net.Sound) {root : NodeId}
    (drives : net.nodes.layout.MayDrive root) (seen : List NodeId) :
    ∃ order, net.Explores seen [root] order := by
  obtain ⟨h, heights⟩ := sound.exists_heights
  induction height : h root using Nat.strong_induction_on generalizing root seen with
  | _ count inductionHypothesis =>
    subst height
    have ⟨m, live, _⟩ := drives
    obtain ⟨n, held, _⟩ := Store.layout_eq_some_iff.mp live
    refine exists_explores_of_reads held (fun d read seen => ?_) seen
    have wire := (wireTo_iff_mem_reads held).mpr read
    have lower := heights.lt_of_wire sound (sound.hasGate_of_wire wire drives) wire
    exact inductionHypothesis _ lower (sound.mayDrive_of_wire wire) seen rfl

/-- Live nodes are explored in some order. -/
theorem Sound.exists_explores (sound : net.Sound)
    (live : ∀ root ∈ roots, ∃ n, net.nodes.layout root = some n) (seen : List NodeId) :
    ∃ order, net.Explores seen roots order := by
  refine exists_explores_of_each (fun root listed seen => ?_) seen
  obtain ⟨m, live⟩ := live root listed
  obtain ⟨n, held, _⟩ := Store.layout_eq_some_iff.mp live
  refine exists_explores_of_reads held (fun d read seen => ?_) seen
  exact sound.exists_explores_of_mayDrive
    (sound.mayDrive_of_wire ((wireTo_iff_mem_reads held).mpr read)) seen

end Network

end GateNet
