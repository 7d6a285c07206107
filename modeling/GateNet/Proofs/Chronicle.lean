import GateNet.Proofs.Checks
import GateNet.Proofs.Effects
import GateNet.Proofs.Reachable

/-!
# Registries in the order of creation

A chronicle lists the live nodes of a network, oldest first.  It is kept along the commands: what a
command creates is appended in the order of creation, what it erases is left out, and clearing a
network starts the list anew.  Ids are handed out again, so the order in a chronicle is not that of
the ids.

Every registry of a reachable network is its chronicle without the nodes of other sorts.
-/

namespace GateNet

/-- A part of a list without repetition that keeps the order is known by its members. -/
theorem eq_filter_of_sublist {α : Type} {part items : List α} (sublist : part.Sublist items)
    (nodup : items.Nodup) {keep : α → Bool} (exact : ∀ a ∈ items, keep a = true ↔ a ∈ part) :
    part = items.filter keep := by
  induction sublist with
  | slnil => rfl
  | @cons part items a sublist inductionHypothesis =>
    obtain ⟨late, nodup⟩ := List.nodup_cons.mp nodup
    have dropped : ¬ keep a = true := fun kept =>
      late (sublist.subset ((exact a (.head _)).mp kept))
    rw [List.filter_cons_of_neg dropped]
    exact inductionHypothesis nodup fun b listed => exact b (.tail _ listed)
  | @cons_cons part items a sublist inductionHypothesis =>
    obtain ⟨late, nodup⟩ := List.nodup_cons.mp nodup
    rw [List.filter_cons_of_pos ((exact a (.head _)).mpr (.head _))]
    congr 1
    apply inductionHypothesis nodup
    intro b listed
    have other : b ≠ a := fun same => late (same ▸ listed)
    rw [exact b (.tail _ listed), List.mem_cons, or_iff_right other]

/-- What a command may do to the nodes. -/
inductive Effect
  | build
  | erase
  | restart
  deriving DecidableEq, Repr

def Command.effect : Command → Effect
  | .eraseGate _ | .eraseElement _ _ | .prune => .erase
  | .clear | .overwrite _ => .restart
  | _ => .build

namespace Network

/-- The list of live nodes, oldest first, before and after a command. -/
def Records (net : Network) (log : List NodeId) (effect : Effect) (after : Network)
    (next : List NodeId) : Prop :=
  match effect with
  | .build => ∃ made, net.Built made after ∧ next = log ++ made
  | .erase => net.Erased after ∧ next = log.filter after.nodes.contains
  | .restart => net.clear.Built next after

/-- The live nodes, oldest first, as the commands that made the network created them. -/
inductive Chronicle : Network → List NodeId → Prop
  | withBuckets (buckets : Nat) : Chronicle (withBuckets buckets) []
  | run {net : Network} {log next : List NodeId} {command : Command} {outcome : Outcome Reply}
      (chronicle : Chronicle net log)
      (sources : ∀ source, command = .overwrite source → source.Reachable)
      (ran : net.run command = .ok outcome)
      (recorded : net.Records log command.effect outcome.network next) :
      Chronicle outcome.network next
  | duplicate {source copy : Network} {made : List NodeId} (reachable : source.Reachable)
      (ran : source.duplicate = .ok copy)
      (built : (Network.withBuckets source.buckets).clear.Built made copy) : Chronicle copy made

variable {net after : Network} {log made next : List NodeId}

theorem Chronicle.reachable (chronicle : net.Chronicle log) : net.Reachable := by
  induction chronicle with
  | withBuckets buckets => exact .withBuckets buckets
  | run _ sources ran _ reachable => exact reachable.run sources ran
  | duplicate reachable ran _ => exact reachable.duplicate ran

/-! ## Every command is recorded -/

section

variable {R : Network → Network → Prop} {command : Command}

theorem leads_of_build [BuildClosed R] (builds : command.effect = .build) :
    Leads R net (net.run command) := by
  cases command with
  | rename name => exact leads_ok (related_rename name)
  | addPort name width => exact leads_ok (related_withPorts _)
  | addInput port bit => exact (leads_add .input port bit).map _
  | addOutput port bit => exact (leads_add .output port bit).map _
  | addElement family name =>
    intro outcome ran
    obtain ⟨⟨element, after⟩, added, ran⟩ := bind_eq_ok_iff.mp ran
    cases ran
    exact related_addElement added
  | addGate gate s t => exact (leads_addGate gate s t).map _
  | combine op signals => exact (leads_combine op signals).map _
  | drive id signal => exact (leads_drive signal).map _
  | redefine id gate s t => exact (leads_redefine gate s t).map _
  | depth =>
    intro outcome ran
    obtain ⟨⟨depth, after⟩, asked, ran⟩ := bind_eq_ok_iff.mp ran
    cases ran
    exact related_depth asked
  | eraseGate | eraseElement | prune | clear | overwrite => cases builds

theorem leads_of_erase [EraseClosed R] (erases : command.effect = .erase) :
    Leads R net (net.run command) := by
  cases command with
  | eraseGate id => exact leads_eraseGate.map _
  | eraseElement family id => exact (leads_eraseElement family id).map _
  | prune => exact leads_prune.map _
  | _ => cases erases

/-- What makes a network anew is built on the cleared one. -/
theorem leads_of_restart [BuildClosed R] (restarts : command.effect = .restart) :
    Leads R net.clear (net.run command) := by
  cases command with
  | clear => exact leads_ok (Std.Refl.refl _)
  | overwrite source => exact (leads_overwrite source).map _
  | _ => cases restarts

theorem related_duplicate [BuildClosed R] {source copy : Network}
    (ran : source.duplicate = .ok copy) : R (withBuckets source.buckets).clear copy := by
  unfold duplicate at ran
  obtain ⟨outcome, overwritten, copied⟩ := bind_eq_ok_iff.mp ran
  have related : R (withBuckets source.buckets).clear outcome.network :=
    leads_overwrite _ outcome (lift_fault_eq_ok_iff.mp overwritten)
  split at copied
  · cases copied
    exact related
  · cases copied

end

theorem exists_records {command : Command} {outcome : Outcome Reply}
    (ran : net.run command = .ok outcome) (log : List NodeId) :
    ∃ next, net.Records log command.effect outcome.network next := by
  cases effect : command.effect with
  | build =>
    obtain ⟨made, built⟩ := leads_of_build (R := Grows) effect outcome ran
    exact ⟨log ++ made, made, built, rfl⟩
  | erase => exact ⟨_, leads_of_erase effect outcome ran, rfl⟩
  | restart => exact leads_of_restart (R := Grows) effect outcome ran

theorem Reachable.exists_chronicle (reachable : net.Reachable) : ∃ log, net.Chronicle log := by
  induction reachable with
  | withBuckets buckets => exact ⟨[], .withBuckets buckets⟩
  | run _ sources ran chronicled _ =>
    obtain ⟨log, chronicle⟩ := chronicled
    obtain ⟨next, recorded⟩ := exists_records ran log
    exact ⟨next, chronicle.run sources ran recorded⟩
  | duplicate reachable ran _ =>
    obtain ⟨made, built⟩ := related_duplicate (R := Grows) ran
    exact ⟨made, .duplicate reachable ran built⟩

/-! ## What a chronicle says -/

/-- A list holds the live nodes, each once, and the registries are parts of it in its order. -/
structure Ordered (net : Network) (log : List NodeId) : Prop where
  nodup : log.Nodup
  live : ∀ id, id ∈ log ↔ net.nodes.contains id = true
  registry : ∀ r, (net.registry r).toList = log.filter (net.admits r)

theorem contains_iff_kind? {nodes : Store Node} {id : NodeId} :
    nodes.contains id = true ↔ ∃ kind, nodes.layout.kind? id = some kind := by
  rw [Store.contains_iff]
  constructor
  · intro live
    obtain ⟨n, held⟩ := live
    exact ⟨n.kind, Layout.kind?_of_get? held⟩
  · intro live
    obtain ⟨kind, held⟩ := live
    obtain ⟨n, found, _⟩ := Layout.exists_get?_of_kind? held
    exact ⟨n, found⟩

theorem admits_iff {r : Registry} {id : NodeId} :
    net.admits r id = true ↔
      ∃ kind, net.nodes.layout.kind? id = some kind ∧ r.admits kind = true := by
  unfold admits
  cases net.nodes.layout.kind? id <;> simp

/-- A network without live nodes and registered ids has the empty list. -/
theorem ordered_nil (none : ∀ id, net.nodes.get? id = none) (registry : ∀ r, net.registry r = #[]) :
    net.Ordered [] where
  nodup := List.nodup_nil
  live id := by simp [Store.contains, none]
  registry r := by simp [registry]

theorem ordered_withBuckets (buckets : Nat) : (withBuckets buckets).Ordered [] :=
  ordered_nil (fun _ => rfl) fun r => by cases r <;> rfl

theorem ordered_clear (net : Network) : net.clear.Ordered [] :=
  ordered_nil (fun id => Store.get?_clear net.nodes id) fun r => by cases r <;> rfl

/-- Created nodes come last. -/
theorem Ordered.build (ordered : net.Ordered log) (sound : net.nodes.Sound)
    (built : net.Built made after) : after.Ordered (log ++ made) := by
  have extended := built.extended sound
  have apart : ∀ id ∈ log, id ∉ made := by
    intro id listed new
    obtain ⟨kind, held⟩ := contains_iff_kind?.mp ((ordered.live id).mp listed)
    rw [extended.fresh id new] at held
    cases held
  refine ⟨?_, fun id => ?_, fun r => ?_⟩
  · exact ordered.nodup.append extended.nodup fun id listed new => apart id listed new
  · rw [List.mem_append, ordered.live, contains_iff_kind?, contains_iff_kind?]
    by_cases new : id ∈ made
    · exact iff_of_true (.inr new) (extended.live id new)
    · rw [extended.kept id new, or_iff_left new]
  · have older : log.filter (after.admits r) = log.filter (net.admits r) := by
      apply List.filter_congr
      intro id listed
      rw [admits, admits, extended.kept id (apart id listed)]
    rw [extended.registry, ordered.registry, List.filter_append, older]

/-- Erased nodes are left out. -/
theorem Ordered.erase (ordered : net.Ordered log) (sound : net.nodes.Sound)
    (soundAfter : after.Sound) (erased : net.Erased after) :
    after.Ordered (log.filter after.nodes.contains) := by
  have shrunk := erased.shrunk sound
  refine ⟨ordered.nodup.filter _, fun id => ?_, fun r => ?_⟩
  · rw [List.mem_filter, and_iff_right_iff_imp, ordered.live]
    intro live
    obtain ⟨kind, held⟩ := contains_iff_kind?.mp live
    exact contains_iff_kind?.mpr ⟨kind, shrunk.kept id kind held⟩
  · -- Both lists are parts of the log in its order, and they have the same members.
    have shorter := shrunk.registry r
    rw [ordered.registry] at shorter
    rw [List.filter_filter]
    apply eq_filter_of_sublist (shorter.trans List.filter_sublist) ordered.nodup
    intro id _
    rw [Bool.and_eq_true, Array.mem_toList_iff, (soundAfter.registered r).2, admits_iff,
      contains_iff_kind?]
    constructor
    · exact And.left
    · intro registered
      exact ⟨registered, registered.imp fun _ => And.left⟩

theorem Chronicle.ordered (chronicle : net.Chronicle log) : net.Ordered log := by
  induction chronicle with
  | withBuckets buckets => exact ordered_withBuckets buckets
  | @run net log next command outcome chronicle sources ran recorded ordered =>
    have sound := chronicle.reachable.sound
    have soundAfter := (chronicle.reachable.run sources ran).sound
    revert recorded
    cases command.effect with
    | build =>
      intro recorded
      obtain ⟨made, built, same⟩ := recorded
      subst same
      exact ordered.build sound.woven.store built
    | erase =>
      intro recorded
      obtain ⟨erased, same⟩ := recorded
      subst same
      exact ordered.erase sound.woven.store soundAfter erased
    | restart =>
      intro built
      exact (ordered_clear net).build (Store.sound_clear net.nodes) built
  | @duplicate source copy made reachable ran built =>
    exact (ordered_clear _).build (Store.sound_clear _) built

/-! ## Reachable networks -/

/-- Registries, banks and owners agree with the live nodes and elements. -/
structure Registered (net : Network) : Prop where
  /-- A registry lists the live nodes of its sort, each once. -/
  registries : ∀ r, (net.registry r).toList.Nodup ∧
    ∀ id, id ∈ net.registry r ↔ ∃ n, net.node? id = some n ∧ r.admits n.kind = true
  /-- The order of a bank lists its live elements, each once. -/
  banks : ∀ family, (net.bank family).order.toList.Nodup ∧
    ∀ id, id ∈ (net.bank family).order ↔ ∃ element, net.element? family id = some element
  /-- A port's bit or a pin of a live element names a node exactly if that is a live terminal of
  this very bit or pin. -/
  terminals : ∀ kind, kind.isGate = false →
    ∀ id, net.terminal? kind = some id ↔ ∃ n, net.node? id = some n ∧ n.kind = kind

theorem exists_node_iff {id : NodeId} (holds : Kind → Prop) :
    (∃ kind, net.nodes.layout.kind? id = some kind ∧ holds kind) ↔
      ∃ n, net.node? id = some n ∧ holds n.kind := by
  constructor
  · intro live
    obtain ⟨kind, held, holds⟩ := live
    obtain ⟨n, found, same⟩ := Layout.exists_get?_of_kind? held
    subst same
    exact ⟨n, found, holds⟩
  · intro live
    obtain ⟨n, held, holds⟩ := live
    exact ⟨n.kind, Layout.kind?_of_get? held, holds⟩

theorem Sound.registered_exactly (sound : net.Sound) : net.Registered where
  registries r := by
    obtain ⟨nodup, exact⟩ := sound.registered r
    exact ⟨nodup, fun id => (exact id).trans (exists_node_iff fun kind => r.admits kind = true)⟩
  banks family := ⟨(sound.banks family).nodup, (sound.banks family).exact⟩
  terminals kind terminal id := by
    rw [sound.owned.named kind terminal not_false id, ← exists_node_iff (· = kind)]
    simp

/-- A reachable network has a chronicle.  It lists the live nodes, each once and oldest first, and
each registry is the part of it that belongs there; banks and owners are exact as well. -/
theorem Reachable.registered_in_order (reachable : net.Reachable) :
    (∃ log, net.Chronicle log) ∧ (∀ log, net.Chronicle log → net.Ordered log) ∧
      net.Registered :=
  ⟨reachable.exists_chronicle, fun _ chronicle => chronicle.ordered,
    reachable.sound.registered_exactly⟩

/-- The younger of two inputs has the id of an erased one, and is listed last all the same. -/
theorem registered_in_order_recycled :
    ∃ net, (withBuckets 0).runAll [.addElement .flipFlop "q", .addPort "p" 2, .addInput 0 0,
        .eraseElement .flipFlop 0, .addInput 0 1] = .ok net ∧ net.inputs = #[5, 0] ∧
      (∃ log, net.Chronicle log ∧ net.Ordered log) ∧ net.Registered := by
  refine exists_runAll (·.inputs) #[5, 0] (by simp) (by decide +kernel) ?_
  intro net reached inputs
  obtain ⟨chronicled, ordered, registered⟩ := reached.registered_in_order
  obtain ⟨log, chronicle⟩ := chronicled
  exact ⟨inputs, ⟨log, chronicle, ordered log chronicle⟩, registered⟩

end Network

end GateNet
