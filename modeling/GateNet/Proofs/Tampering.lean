import GateNet.Proofs.Chronicle
import GateNet.Proofs.Verdict

/-!
# Networks that were tampered with

Behind the back of the commands, any record of a network may be changed: nodes with their wires and
links, registries, banks, ports and the heads of the chains; slots may be freed, and inner steps
carried out on their own.  Commands may follow, as far as they do not fault.  Through all of this
the slots of the nodes agree with the ids in use, which is all that the audit relies on.
-/

namespace GateNet

namespace Network

variable {net after : Network}

/-- Commands, and changes behind their back, make the network from an empty one. -/
inductive Tampered : Network → Prop
  | withBuckets (buckets : Nat) : Tampered (withBuckets buckets)
  | run {net : Network} {command : Command} {outcome : Outcome Reply} (tampered : Tampered net)
      (sources : ∀ source, command = .overwrite source → Tampered source)
      (ran : net.run command = .ok outcome) : Tampered outcome.network
  | duplicate {source copy : Network} (tampered : Tampered source)
      (made : source.duplicate = .ok copy) : Tampered copy
  | patch {net after : Network} {patch : Patch} {signal : Option Signal} (tampered : Tampered net)
      (patched : net.patch patch = .ok (signal, after)) : Tampered after
  /-- Any fields of a node are assigned. -/
  | node {net : Network} (tampered : Tampered net) (id : NodeId) (change : Node → Node) :
      Tampered { net with nodes := net.nodes.modify id change }
  /-- Elements are changed or their slots freed, and their order assigned. -/
  | bank {net : Network} (tampered : Tampered net) (family : Family) (bank : Bank) :
      Tampered (net.withBank family bank)
  | ports {net : Network} (tampered : Tampered net) (ports : Array Port) :
      Tampered { net with ports }
  /-- The heads of the chains are assigned. -/
  | heads {net : Network} (tampered : Tampered net) (table : Array (Option NodeId))
      (same : table.size = net.table.size) : Tampered { net with table }

theorem Reachable.tampered (reachable : net.Reachable) : net.Tampered := by
  induction reachable with
  | withBuckets buckets => exact .withBuckets buckets
  | run _ _ ran tampered sources => exact tampered.run sources ran
  | duplicate _ made tampered => exact tampered.duplicate made

/-! ## What all of these keep -/

theorem formed_withBuckets (buckets : Nat) : (Network.withBuckets buckets).Formed where
  nodes := Store.sound_empty
  table := (sound_withBuckets buckets).woven.tabled.positive

namespace Formed

theorem clear (formed : net.Formed) : net.clear.Formed where
  nodes := Store.sound_clear net.nodes
  table := by
    rw [Network.clear, Array.size_replicate]
    exact formed.table

theorem modify (formed : net.Formed) (id : NodeId) (change : Node → Node) :
    ({ net with nodes := net.nodes.modify id change } : Network).Formed where
  nodes := formed.nodes.modify id change
  table := formed.table

theorem records (formed : net.Formed) {log next : List NodeId} {effect : Effect}
    (recorded : net.Records log effect after next) : after.Formed := by
  cases effect with
  | build =>
    obtain ⟨made, built, _⟩ := recorded
    exact built.formed formed
  | erase => exact recorded.1.formed formed
  | restart => exact Built.formed recorded formed.clear

theorem patchNode (formed : net.Formed) {id : NodeId} {change : Node → Node}
    (patched : net.patchNode id change = .ok after) : after.Formed := by
  obtain ⟨nodes, updated, patched⟩ := bind_eq_ok_iff.mp patched
  cases patched
  rw [Store.eq_modify_of_update updated]
  exact formed.modify id change

theorem updatePort (formed : net.Formed) {port : PortId} {change : Port → Except Fault Port}
    (patched : net.updatePort port change = .ok after) : after.Formed := by
  obtain ⟨p, _, patched⟩ := bind_eq_ok_iff.mp patched
  obtain ⟨q, _, patched⟩ := bind_eq_ok_iff.mp patched
  obtain ⟨ports, _, patched⟩ := bind_eq_ok_iff.mp patched
  cases patched
  exact (touched_withPorts _).formed formed

theorem patch (formed : net.Formed) {patch : Patch} {signal : Option Signal}
    (patched : net.patch patch = .ok (signal, after)) : after.Formed := by
  cases patch with
  | realize id gate s t =>
    obtain ⟨⟨signal, after⟩, realized, patched⟩ := bind_eq_ok_iff.mp patched
    cases patched
    obtain ⟨made, built⟩ := grows_realize realized
    exact built.formed formed
  | plug id operand driver =>
    obtain ⟨after, plugged, patched⟩ := bind_eq_ok_iff.mp patched
    cases patched
    exact (touched_plug plugged).formed formed
  | withdraw id =>
    obtain ⟨after, withdrawn, patched⟩ := bind_eq_ok_iff.mp patched
    cases patched
    exact (touched_withdraw withdrawn).formed formed
  | driver _ _ _ | gate _ _ | fanouts _ _ | id _ _ | kind _ _ =>
    obtain ⟨after, changed, patched⟩ := bind_eq_ok_iff.mp patched
    cases patched
    exact formed.patchNode changed
  | remove id =>
    obtain ⟨nodes, removed, patched⟩ := bind_eq_ok_iff.mp patched
    cases patched
    exact formed.remove removed
  | registry r ids =>
    cases patched
    exact formed.withRegistry r ids
  | order family ids =>
    cases patched
    exact (Touched.withBank net family _).formed formed
  | input _ _ _ | output _ _ _ =>
    obtain ⟨after, changed, patched⟩ := bind_eq_ok_iff.mp patched
    cases patched
    exact formed.updatePort changed
  | pin family element pin node =>
    obtain ⟨elements, _, patched⟩ := bind_eq_ok_iff.mp patched
    cases patched
    exact (Touched.withBank net family _).formed formed

end Formed

theorem Tampered.formed (tampered : net.Tampered) : net.Formed := by
  induction tampered with
  | withBuckets buckets => exact formed_withBuckets buckets
  | run _ _ ran formed =>
    obtain ⟨_, recorded⟩ := exists_records ran []
    exact formed.records recorded
  | duplicate _ made =>
    obtain ⟨_, built⟩ := related_duplicate (R := Grows) made
    exact built.formed (formed_withBuckets _).clear
  | patch _ patched formed => exact formed.patch patched
  | node _ id change formed => exact formed.modify id change
  | bank _ family bank formed => exact (Touched.withBank _ family bank).formed formed
  | ports _ ports formed => exact (touched_withPorts ports).formed formed
  | heads _ table same formed => exact ⟨formed.nodes, same ▸ formed.table⟩

/-! ## The audit of tampered networks -/

/-- Whatever was done to the network, the audit passes or refuses, unless it comes to a dead
element in the order of a bank; and every key belongs to a bucket of the table. -/
theorem Tampered.audit_faults_only_at_strays (tampered : net.Tampered) :
    (∀ fault, net.audit = .error (.faulted fault) ↔
      ∃ family id, net.StraysAt family id ∧ fault = .deadSlot id) ∧
    ((∀ family, ∀ id ∈ (net.bank family).order, ∃ e, net.element? family id = some e) →
      net.audit = .ok () ∨ ∃ refusal, net.audit = .error (.refused refusal)) ∧
    ∀ key : Key, key.bucket net.table.size < net.table.size := by
  have formed := tampered.formed
  refine ⟨fun _ => formed.audit_eq_faulted_iff, fun live => ?_, Key.bucket_lt formed.table⟩
  cases audited : net.audit with
  | ok => exact .inl rfl
  | error failure =>
    cases failure with
    | refused refusal => exact .inr ⟨refusal, rfl⟩
    | faulted fault =>
      obtain ⟨family, id, strays, _⟩ := formed.audit_eq_faulted_iff.mp audited
      obtain ⟨before, behind, split, _⟩ := strays.first
      have listed : id ∈ (net.bank family).order := by simp [← Array.mem_toList_iff, split]
      obtain ⟨e, held⟩ := live family id listed
      rw [strays.dead] at held
      cases held

/-- A network with another order of the elements of a family. -/
def reorder (net : Network) (family : Family) (ids : Array ElementId) : Network :=
  net.withBank family { net.bank family with order := ids }

theorem Reachable.tampered_reorder (reachable : net.Reachable) (family : Family)
    (ids : Array ElementId) : (net.reorder family ids).Tampered :=
  reachable.tampered.bank family { net.bank family with order := ids }

/-- Two latches are fine, but their order names one that never was, and the audit comes to it. -/
theorem audit_strays_at_missing_latch :
    ∃ net, (withBuckets 0).runAll [.addElement .latch "l", .addElement .latch "m"] = .ok net ∧
      (net.reorder .latch #[0, 7]).Tampered ∧ (net.reorder .latch #[0, 7]).StraysAt .latch 7 := by
  refine exists_runAll (fun net => (net.flipFlops.order, (net.reorder .latch #[0, 7]).audit))
    (#[], .error (.faulted (.deadSlot 7))) (by simp) (by decide +kernel) ?_
  intro net reached evaluated
  obtain ⟨noFlipFlops, faulted⟩ := Prod.mk.inj evaluated
  have tampered := reached.tampered_reorder .latch #[0, 7]
  obtain ⟨faults, _⟩ := tampered.audit_faults_only_at_strays
  obtain ⟨family, id, strays, same⟩ := (faults _).mp faulted
  refine ⟨tampered, ?_⟩
  obtain rfl : 7 = id := Fault.deadSlot.inj same
  cases family with
  | latch => exact strays
  | flipFlop =>
    obtain ⟨before, behind, split, _⟩ := strays.first
    change net.flipFlops.order.toList = _ at split
    simp [noFlipFlops] at split

/-- A flip-flop is renumbered in the order of its bank only, and the audit has no answer. -/
theorem audit_faults_at_missing_flipFlop :
    ∃ net, (withBuckets 0).runAll [.addElement .flipFlop "q"] = .ok net ∧
      (net.reorder .flipFlop #[1]).Tampered ∧
      (net.reorder .flipFlop #[1]).audit = .error (.faulted (.deadSlot 1)) := by
  refine exists_runAll (fun net => (net.reorder .flipFlop #[1]).audit)
    (.error (.faulted (.deadSlot 1))) (by simp) (by decide +kernel) ?_
  intro net reached faulted
  exact ⟨reached.tampered_reorder .flipFlop #[1], faulted⟩

end Network

end GateNet
