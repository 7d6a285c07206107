import GateNet.Patch
import GateNet.Proofs.Growth
import GateNet.Proofs.Marks

/-!
# What each operation does to a network

From whatever state an operation starts, if it does not fault then it has built or erased.  An
operation that builds is made of a few steps, and one that erases of a few others, so any relation
between networks that these steps keep holds along every operation.  There is one lemma for each
function of the operations, in the order in which the functions call each other; what the operations
create and remove is the first use of them.
-/

namespace GateNet

namespace Store

/-- Records were changed one after another, but not the kinds of nodes. -/
inductive Modified (before : Store Node) : Store Node → Prop
  | refl : Modified before before
  | modify {mid : Store Node} (modified : Modified before mid) (id : NodeId) {change : Node → Node}
      (same : ∀ n, (change n).kind = n.kind) : Modified before (mid.modify id change)

namespace Modified

variable {before mid after : Store Node}

theorem update (modified : before.Modified mid) {id : NodeId} {change : Node → Node}
    (updated : mid.update id change = .ok after) (same : ∀ n, (change n).kind = n.kind) :
    before.Modified after := by
  rw [eq_modify_of_update updated]
  exact modified.modify id same

theorem rewritten (modified : before.Modified after) : before.Rewritten after := by
  induction modified with
  | refl => exact .refl _
  | modify _ id same rewritten => exact rewritten.trans (.modify _ id same)

theorem bound_eq (modified : before.Modified after) : after.bound = before.bound := by
  induction modified with
  | refl => rfl
  | modify _ _ _ bound_eq => exact bound_eq

end Modified

end Store

namespace Network

/-! ## Operations along a relation -/

section

variable {R : Network → Network → Prop} {net : Network} {α β : Type}

/-- Whatever the operation leaves stands in the relation to what it started from. -/
def Leads (R : Network → Network → Prop) (net : Network) (result : Except Fault (Outcome α)) :
    Prop :=
  ∀ outcome, result = .ok outcome → R net outcome.network

theorem leads_ok {answer : Except Refusal α} {after : Network} (related : R net after) :
    Leads R net (.ok ⟨answer, after⟩) := by
  intro outcome made
  cases made
  exact related

theorem leads_error (fault : Fault) : Leads R net (.error fault : Except Fault (Outcome α)) := by
  intro outcome made
  cases made

theorem Leads.map {result : Except Fault (Outcome α)} (leads : Leads R net result)
    (change : α → β) : Leads R net (result >>= fun outcome => pure (outcome.map change)) := by
  intro last made
  obtain ⟨outcome, ran, made⟩ := bind_eq_ok_iff.mp made
  cases made
  exact leads outcome ran

theorem leads_guarded [Std.Refl R] {check : Except Failure β} {act : β → Except Fault (α × Network)}
    (acts : ∀ found answer after, act found = .ok (answer, after) → R net after) :
    Leads R net (net.guarded check act) := by
  unfold guarded
  split
  · intro outcome made
    cases acted : act _ with
    | error fault =>
      rw [acted] at made
      cases made
    | ok result =>
      rw [acted] at made
      cases made
      exact acts _ _ _ acted
  · exact leads_ok (Std.Refl.refl net)
  · exact leads_error _

theorem Leads.andThen [IsTrans Network R] {result : Except Fault (Outcome α)}
    {next : α → Network → Except Fault (Outcome β)} (leads : Leads R net result)
    (leadsNext : ∀ answer mid, Leads R mid (next answer mid)) :
    Leads R net (result >>= fun outcome => outcome.andThen next) := by
  intro last made
  obtain ⟨⟨answer, mid⟩, ran, made⟩ := bind_eq_ok_iff.mp made
  have related := leads _ ran
  cases answer with
  | ok answer => exact IsTrans.trans _ _ _ related (leadsNext answer mid last made)
  | error refusal =>
    cases made
    exact related

theorem leads_fold [Std.Refl R] [IsTrans Network R]
    {step : β → α → Network → Except Fault (Outcome β)}
    (steps : ∀ state item net, Leads R net (step state item net)) (items : List α) (state : β)
    (net : Network) : Leads R net (Outcome.fold step items state net) := by
  induction items generalizing state net with
  | nil => exact leads_ok (Std.Refl.refl net)
  | cons item rest inductionHypothesis =>
    exact (steps state item net).andThen fun state mid => inductionHypothesis state mid

theorem related_foldlM [Std.Refl R] [IsTrans Network R]
    {step : Network → α → Except Fault Network} {items : List α} {after : Network}
    (folded : items.foldlM step net = .ok after)
    (steps : ∀ net item after, step net item = .ok after → R net after) : R net after :=
  foldlM_keeps folded (fun _ mid => R net mid) (Std.Refl.refl net)
    fun _ item _ _ _ _ related stepped => IsTrans.trans _ _ _ related (steps _ item _ stepped)

end

/-- The steps that building is made of keep the relation. -/
class BuildClosed (R : Network → Network → Prop) : Prop extends Std.Refl R, IsTrans Network R where
  realize {net after : Network} {reuse : Option NodeId} {gate : Gate} {s t signal : Signal} :
    net.realize reuse gate s t = .ok (signal, after) → R net after
  driveOutput {net after : Network} {id : NodeId} {signal : Signal} :
    net.driveOutput id signal = .ok after → R net after
  addTerminal {net after : Network} {kind : Kind} {id : NodeId} : kind.isGate = false →
    net.addTerminal kind = .ok (id, after) → R net after
  relabel (net : Network) (name : String) (ports : Array Port) (depth? : Option Nat) :
    R net { net with name, ports, depth? }
  withBank (net : Network) (family : Family) (bank : Bank) : R net (net.withBank family bank)

/-- The steps that erasing is made of keep the relation. -/
class EraseClosed (R : Network → Network → Prop) : Prop extends Std.Refl R, IsTrans Network R where
  dropTerminal {net after : Network} {id : NodeId} :
    net.dropTerminal id = .ok after → R net after
  dropGate {net after : Network} {id : NodeId} : net.dropGate id = .ok after → R net after
  unlist (net : Network) {gates : Array NodeId} :
    gates.toList.Sublist net.gates.toList → R net { net with gates }
  withBank (net : Network) (family : Family) (bank : Bank) : R net (net.withBank family bank)

instance : Std.Refl Touched := ⟨.refl⟩

instance : IsTrans Network Touched := ⟨fun _ _ _ first second => first.trans second⟩

/-- Nodes were created, in some order. -/
def Grows (net after : Network) : Prop := ∃ made, net.Built made after

instance : Std.Refl Grows := ⟨fun _ => ⟨[], .start⟩⟩

instance : IsTrans Network Grows where
  trans _ _ _ first second := by
    obtain ⟨made, first⟩ := first
    obtain ⟨more, second⟩ := second
    exact ⟨made ++ more, first.trans second⟩

instance : Std.Refl Erased := ⟨fun _ => .start⟩

instance : IsTrans Network Erased := ⟨fun _ _ _ first second => first.trans second⟩

variable {net mid after : Network} {id : NodeId}

theorem Touched.grows (touched : net.Touched after) : net.Grows after := ⟨[], .touch .start touched⟩

theorem Grows.touch (grows : net.Grows mid) (touched : mid.Touched after) : net.Grows after := by
  obtain ⟨made, built⟩ := grows
  exact ⟨made, built.touch touched⟩

theorem Touched.erased (touched : net.Touched after) : net.Erased after := .touch .start touched

/-! ## Wires -/

theorem modified_withoutFanout {nodes mid after : Store Node} {driver : NodeId} {entry : Fanout}
    (modified : nodes.Modified mid) (dropped : withoutFanout mid driver entry = .ok after) :
    nodes.Modified after := by
  obtain ⟨n, _, dropped⟩ := bind_eq_ok_iff.mp dropped
  split at dropped
  · cases dropped
    exact modified.modify driver fun _ => rfl
  · cases dropped

/-- Plugging changes records of nodes, and nothing else but the remembered depth. -/
theorem exists_modified_of_plug {operand : Operand} {driver : Option NodeId}
    (plugged : net.plug id operand driver = .ok after) :
    ∃ nodes, after = { net with nodes, depth? := none } ∧ net.nodes.Modified nodes := by
  obtain ⟨n, fetched, _⟩ := bind_eq_ok_iff.mp plugged
  rw [plug_eq (Store.fetch_eq_ok_iff.mp fetched)] at plugged
  obtain ⟨unplugged, first, plugged⟩ := bind_eq_ok_iff.mp plugged
  obtain ⟨nodes, last, plugged⟩ := bind_eq_ok_iff.mp plugged
  cases plugged
  have dropped : net.nodes.Modified unplugged := by
    split at first
    · exact modified_withoutFanout .refl first
    · cases first
      exact .refl
  have assigned : net.nodes.Modified (unplugged.modify id (·.withDriver operand driver)) :=
    dropped.modify id fun n => by cases operand <;> rfl
  refine ⟨nodes, rfl, ?_⟩
  split at last
  · exact assigned.update last fun _ => rfl
  · cases last
    exact assigned

theorem touched_plug {operand : Operand} {driver : Option NodeId}
    (plugged : net.plug id operand driver = .ok after) : net.Touched after := by
  obtain ⟨nodes, same, modified⟩ := exists_modified_of_plug plugged
  subst same
  exact .retouch net net.ports net.name net.limit none modified.rewritten fun positive => positive

/-- A change of records that keeps kinds creates nothing. -/
theorem touched_update {change : Node → Node} {nodes : Store Node}
    (updated : net.nodes.update id change = .ok nodes) (same : ∀ n, (change n).kind = n.kind) :
    net.Touched { net with nodes } :=
  .retouch net net.ports net.name net.limit net.depth? (.update updated same) fun positive => positive

theorem touched_driveOutput {signal : Signal} (driven : net.driveOutput id signal = .ok after) :
    net.Touched after := by
  obtain ⟨nodes, updated, plugged⟩ := bind_eq_ok_iff.mp driven
  exact (touched_update updated fun _ => rfl).trans (touched_plug plugged)

/-! ## The table -/

theorem touched_withTable {nodes : Store Node} {table : Array (Option NodeId)} {bucket : Nat}
    {head : Option NodeId} (stored : storeAt net.table bucket head = .ok table)
    (rewritten : net.nodes.Rewritten nodes) : net.Touched { net with nodes, table } :=
  .retouch net net.ports net.name net.limit net.depth? rewritten fun positive => by
    rwa [size_of_storeAt stored]

theorem touched_enroll (enrolled : net.enroll id = .ok after) : net.Touched after := by
  obtain ⟨n, _, enrolled⟩ := bind_eq_ok_iff.mp enrolled
  obtain ⟨behind, _, enrolled⟩ := bind_eq_ok_iff.mp enrolled
  obtain ⟨table, stored, enrolled⟩ := bind_eq_ok_iff.mp enrolled
  cases enrolled
  exact touched_withTable stored (.modify _ id fun _ => rfl)

theorem touched_withdraw (withdrawn : net.withdraw id = .ok after) : net.Touched after := by
  obtain ⟨n, _, withdrawn⟩ := bind_eq_ok_iff.mp withdrawn
  have unlinked : net.nodes.Rewritten (net.nodes.modify id ({ · with link := none })) :=
    .modify _ id fun _ => rfl
  obtain ⟨head, _, withdrawn⟩ := bind_eq_ok_iff.mp withdrawn
  split at withdrawn
  · obtain ⟨table, stored, withdrawn⟩ := bind_eq_ok_iff.mp withdrawn
    cases withdrawn
    exact touched_withTable stored unlinked
  · obtain ⟨found, _, withdrawn⟩ := bind_eq_ok_iff.mp withdrawn
    split at withdrawn
    · cases withdrawn
      exact .retouch net net.ports net.name net.limit net.depth?
        (unlinked.trans (.modify _ _ fun _ => rfl)) fun positive => positive
    · cases withdrawn

theorem touched_enrollChain {steps : Nat} {head : Option NodeId}
    (enrolled : enrollChain steps head net = .ok after) : net.Touched after := by
  induction steps generalizing head net with
  | zero =>
    cases head with
    | none =>
      cases enrolled
      exact .refl _
    | some id => cases enrolled
  | succ steps inductionHypothesis =>
    cases head with
    | none =>
      cases enrolled
      exact .refl _
    | some id =>
      unfold enrollChain at enrolled
      split at enrolled
      · cases enrolled
      · split at enrolled
        · cases enrolled
        · next mid linked => exact (touched_enroll linked).trans (inductionHypothesis enrolled)

theorem touched_widen {size : Nat} (positive : 0 < net.table.size → 0 < size)
    (widened : net.widen size = .ok after) : net.Touched after := by
  have emptied : net.Touched
      { net with table := Array.replicate size none, limit := limitFor size } :=
    .retouch net net.ports net.name (limitFor size) net.depth? (.refl _) fun before => by
      simpa using positive before
  exact emptied.trans (related_foldlM widened fun _ _ _ enrolled => touched_enrollChain enrolled)

theorem touched_widenIfFull (widened : net.widenIfFull = .ok after) : net.Touched after := by
  unfold widenIfFull at widened
  split at widened
  · exact touched_widen (by omega) widened
  · cases widened
    exact .refl net

/-! ## Gates -/

theorem touched_assign {key : Key} (assigned : net.assign id key = .ok after) :
    net.Touched after := by
  obtain ⟨nodes, updated, assigned⟩ := bind_eq_ok_iff.mp assigned
  obtain ⟨first, pluggedFirst, assigned⟩ := bind_eq_ok_iff.mp assigned
  obtain ⟨second, pluggedSecond, assigned⟩ := bind_eq_ok_iff.mp assigned
  obtain ⟨linked, enrolled, widened⟩ := bind_eq_ok_iff.mp assigned
  calc
    net.Touched { net with nodes } := touched_update updated fun _ => rfl
    Touched _ first := touched_plug pluggedFirst
    Touched _ second := touched_plug pluggedSecond
    Touched _ linked := touched_enroll enrolled
    Touched _ after := touched_widenIfFull widened

theorem grows_site {reuse : Option NodeId} {inverted : Bool}
    (sited : net.site reuse inverted = .ok (id, after)) : net.Grows after := by
  unfold site at sited
  split at sited
  · obtain ⟨mid, withdrawn, sited⟩ := bind_eq_ok_iff.mp sited
    cases sited
    exact (touched_withdraw withdrawn).grows
  · exact ⟨[] ++ [id], .create .start (.gate sited)⟩

/-- Realizing a request leaves the network, or assigns a key to a gate. -/
theorem realize_cases {reuse : Option NodeId} {gate : Gate} {s t signal : Signal}
    (realized : net.realize reuse gate s t = .ok (signal, after)) :
    after = net ∨ ∃ inverted id mid key, net.site reuse inverted = .ok (id, mid) ∧
      mid.assign id key = .ok after := by
  unfold realize at realized
  split at realized
  · cases realized
    exact .inl rfl
  · obtain ⟨found, _, realized⟩ := bind_eq_ok_iff.mp realized
    split at realized
    · cases realized
      exact .inl rfl
    · obtain ⟨⟨id, mid⟩, sited, realized⟩ := bind_eq_ok_iff.mp realized
      obtain ⟨last, assigned, realized⟩ := bind_eq_ok_iff.mp realized
      cases realized
      exact .inr ⟨_, id, mid, _, sited, assigned⟩

theorem grows_realize {reuse : Option NodeId} {gate : Gate} {s t signal : Signal}
    (realized : net.realize reuse gate s t = .ok (signal, after)) : net.Grows after := by
  cases realize_cases realized with
  | inl same =>
    subst same
    exact Std.Refl.refl _
  | inr steps =>
    obtain ⟨inverted, id, mid, key, sited, assigned⟩ := steps
    exact (grows_site sited).touch (touched_assign assigned)

theorem grows_addTerminal {kind : Kind} (notGate : kind.isGate = false)
    (added : net.addTerminal kind = .ok (id, after)) : net.Grows after :=
  ⟨[] ++ [id], .create .start (.terminal notGate added)⟩

theorem touched_withPorts (ports : Array Port) : net.Touched { net with ports } :=
  .retouch net ports net.name net.limit net.depth? (.refl _) fun positive => positive

instance : BuildClosed Grows where
  realize := grows_realize
  driveOutput driven := (touched_driveOutput driven).grows
  addTerminal := grows_addTerminal
  relabel net name ports depth? :=
    (Touched.retouch net ports name net.limit depth? (.refl _) fun positive => positive).grows
  withBank net family bank := (Touched.withBank net family bank).grows

/-! ## Erasing -/

theorem toList_erase_sublist (ids : Array NodeId) (id : NodeId) :
    (ids.erase id).toList.Sublist ids.toList := by
  rw [Registry.toList_erase]
  exact List.erase_sublist

theorem erased_dropTerminal (dropped : net.dropTerminal id = .ok after) : net.Erased after := by
  obtain ⟨mid, plugged, dropped⟩ := bind_eq_ok_iff.mp dropped
  obtain ⟨n, _, dropped⟩ := bind_eq_ok_iff.mp dropped
  obtain ⟨nodes, removed, dropped⟩ := bind_eq_ok_iff.mp dropped
  cases dropped
  have unplugged := (touched_plug plugged).erased
  revert removed
  split
  · exact fun removed => (unplugged.unlist (r := .inputs) (toList_erase_sublist _ _)).remove removed
  · exact fun removed => (unplugged.unlist (r := .outputs) (toList_erase_sublist _ _)).remove removed

theorem erased_dropGate (dropped : net.dropGate id = .ok after) : net.Erased after := by
  obtain ⟨unlinked, first, second, nodes, withdrawn, pluggedFirst, pluggedSecond, removed, rfl⟩ :=
    exists_steps_of_dropGate dropped
  have touched : net.Touched second :=
    ((touched_withdraw withdrawn).trans (touched_plug pluggedFirst)).trans
      (touched_plug pluggedSecond)
  exact touched.erased.remove removed

instance : EraseClosed Erased where
  dropTerminal := erased_dropTerminal
  dropGate := erased_dropGate
  unlist _ _ shorter := .unlist (r := .gates) .start shorter
  withBank net family bank := (Touched.withBank net family bank).erased

/-! ## Operations that build -/

section

variable {R : Network → Network → Prop} [BuildClosed R]

theorem leads_addGate (gate : Gate) (s t : Signal) : Leads R net (net.addGate gate s t) :=
  leads_guarded fun _ _ _ realized => BuildClosed.realize realized

theorem leads_combine (op : Operator) (signals : List Signal) :
    Leads R net (net.combine op signals) := by
  induction net, signals using combine.induct with
  | case1 net =>
    rw [combine]
    exact leads_ok (Std.Refl.refl net)
  | case2 net s =>
    rw [combine]
    refine leads_guarded fun _ _ _ kept => ?_
    cases kept
    exact Std.Refl.refl net
  | case3 net s t rest half lower upper =>
    rw [combine]
    refine lower.andThen fun a net => (upper net).andThen fun b net => ?_
    exact leads_addGate op.gate a b

theorem leads_drive (signal : Signal) : Leads R net (net.drive id signal) := by
  refine leads_guarded fun _ _ _ acted => ?_
  obtain ⟨last, driven, acted⟩ := bind_eq_ok_iff.mp acted
  cases acted
  exact BuildClosed.driveOutput driven

theorem related_visit {r next : Rebuild} (visited : r.visit id = .ok next) :
    R r.network next.network := by
  obtain ⟨n, _, visited⟩ := bind_eq_ok_iff.mp visited
  dsimp only at visited
  split at visited
  · cases visited
    exact Std.Refl.refl _
  · obtain ⟨pinned, _, visited⟩ := bind_eq_ok_iff.mp visited
    obtain ⟨⟨signal, mid⟩, realized, visited⟩ := bind_eq_ok_iff.mp visited
    have related : R r.network mid := BuildClosed.realize realized
    split at visited
    · cases visited
      exact related
    · obtain ⟨replaced, _, visited⟩ := bind_eq_ok_iff.mp visited
      cases visited
      exact related

theorem related_redrive {replaced : Array (Option Signal)} {reading : NodeId × Signal}
    (redriven : Rebuild.redrive replaced net reading = .ok after) : R net after := by
  unfold Rebuild.redrive at redriven
  dsimp only at redriven
  split at redriven
  · cases redriven
    exact Std.Refl.refl net
  · exact BuildClosed.driveOutput redriven

theorem related_rebuild {signal : Signal} (rebuilt : net.rebuild id signal = .ok after) :
    R net after := by
  obtain ⟨cone, _, rebuilt⟩ := bind_eq_ok_iff.mp rebuilt
  obtain ⟨readings, _, rebuilt⟩ := bind_eq_ok_iff.mp rebuilt
  obtain ⟨order, _, rebuilt⟩ := bind_eq_ok_iff.mp rebuilt
  obtain ⟨members, _, rebuilt⟩ := bind_eq_ok_iff.mp rebuilt
  obtain ⟨replaced, _, rebuilt⟩ := bind_eq_ok_iff.mp rebuilt
  obtain ⟨last, visited, redriven⟩ := bind_eq_ok_iff.mp rebuilt
  have related : R net last.network :=
    foldlM_keeps visited (fun _ r => R net r.network) (Std.Refl.refl net)
      fun _ _ _ _ _ _ related visited => IsTrans.trans _ _ _ related (related_visit visited)
  exact IsTrans.trans _ _ _ related
    (related_foldlM redriven fun _ _ _ redriven => related_redrive redriven)

theorem leads_redefine (gate : Gate) (s t : Signal) :
    Leads R net (net.redefine id gate s t) := by
  refine leads_guarded fun _ _ _ acted => ?_
  obtain ⟨⟨signal, mid⟩, realized, acted⟩ := bind_eq_ok_iff.mp acted
  have related : R net mid := BuildClosed.realize realized
  dsimp only at acted
  split at acted
  · cases acted
    exact related
  · obtain ⟨last, rebuilt, acted⟩ := bind_eq_ok_iff.mp acted
    cases acted
    exact IsTrans.trans _ _ _ related (related_rebuild rebuilt)

theorem related_rename (name : String) : R net (net.rename name) :=
  BuildClosed.relabel net name net.ports net.depth?

theorem related_withPorts (ports : Array Port) : R net { net with ports } :=
  BuildClosed.relabel net net.name ports net.depth?

theorem related_depth {depth : Nat} (asked : net.depth = .ok (depth, after)) : R net after := by
  unfold Network.depth at asked
  split at asked
  · cases asked
    exact Std.Refl.refl net
  · obtain ⟨computed, _, asked⟩ := bind_eq_ok_iff.mp asked
    cases asked
    exact BuildClosed.relabel net net.name net.ports _

theorem related_updatePort {port : PortId} {change : Port → Except Fault Port}
    (updated : net.updatePort port change = .ok after) : R net after := by
  obtain ⟨p, _, updated⟩ := bind_eq_ok_iff.mp updated
  obtain ⟨changed, _, updated⟩ := bind_eq_ok_iff.mp updated
  obtain ⟨ports, _, updated⟩ := bind_eq_ok_iff.mp updated
  cases updated
  exact related_withPorts ports

theorem leads_add (side : Side) (port : PortId) (bit : Nat) :
    Leads R net (side.add net port bit) := by
  rw [side.add_eq]
  refine leads_guarded fun _ _ _ acted => ?_
  obtain ⟨⟨id, mid⟩, added, acted⟩ := bind_eq_ok_iff.mp acted
  obtain ⟨after, updated, acted⟩ := bind_eq_ok_iff.mp acted
  cases acted
  exact IsTrans.trans _ _ _ (BuildClosed.addTerminal (side.isGate_kind port bit) added)
    (related_updatePort updated)

theorem related_addPin {family : Family} {element : ElementId} {pin : Pin}
    (added : addPin family element net pin = .ok after) : R net after := by
  obtain ⟨⟨id, mid⟩, terminal, added⟩ := bind_eq_ok_iff.mp added
  obtain ⟨elements, _, added⟩ := bind_eq_ok_iff.mp added
  cases added
  exact IsTrans.trans _ _ _ (BuildClosed.addTerminal rfl terminal)
    (BuildClosed.withBank mid family _)

theorem related_addElement {family : Family} {name : String} {element : ElementId}
    (added : net.addElement family name = .ok (element, after)) : R net after := by
  rw [addElement_eq] at added
  obtain ⟨⟨_, elements⟩, _, added⟩ := bind_eq_ok_iff.mp added
  obtain ⟨mid, pins, added⟩ := bind_eq_ok_iff.mp added
  cases added
  have reserved : R net (net.withBank family { net.bank family with elements }) :=
    BuildClosed.withBank net family _
  have terminals : R _ mid := related_foldlM pins fun _ _ _ pinned => related_addPin pinned
  exact IsTrans.trans _ _ _ (IsTrans.trans _ _ _ reserved terminals)
    (BuildClosed.withBank mid family _)

/-! Copying is done by adding and driving alone. -/

theorem leads_onAnswer {α β : Type}
    {question : Except Failure α} {next : α → Except Fault (Outcome β)}
    (leads : ∀ answer, Leads R net (next answer)) : Leads R net (net.onAnswer question next) := by
  unfold onAnswer
  split
  · exact leads _
  · exact leads_ok (Std.Refl.refl net)
  · exact leads_error _

theorem leads_enter (copies : Copies) (id copy : NodeId) :
    Leads R net (do return .done (← copies.enter id copy) net) := by
  intro outcome made
  obtain ⟨entered, _, made⟩ := bind_eq_ok_iff.mp made
  cases made
  exact Std.Refl.refl net

theorem leads_copy (side : Side) (source : Port) (port : PortId) (bit : Nat) (copies : Copies) :
    Leads R net (side.copy source port bit copies net) := by
  rw [side.copy_eq]
  split
  · exact leads_ok (Std.Refl.refl net)
  · exact (leads_add side port bit).andThen fun copy net => leads_enter copies _ copy

theorem leads_copyBit (source : Port) (port : PortId) (bit : Nat) (copies : Copies) :
    Leads R net (copyBit source port copies bit net) :=
  (leads_copy .input source port bit copies).andThen fun copies _ =>
    leads_copy .output source port bit copies

theorem leads_copyPort (copies : Copies) (port : Port) :
    Leads R net (copyPort copies port net) := by
  intro outcome made
  have bits : R (net.addPort port.name port.width).2 outcome.network :=
    leads_fold (fun copies bit net => leads_copyBit port _ bit copies) _ copies _ outcome made
  exact IsTrans.trans _ _ _ (related_withPorts _) bits

theorem leads_copyElement (source : Network) (family : Family) (copies : Copies)
    (element : ElementId) : Leads R net (copyElement source family copies element net) := by
  intro outcome made
  obtain ⟨e, _, made⟩ := bind_eq_ok_iff.mp made
  obtain ⟨⟨copy, mid⟩, added, made⟩ := bind_eq_ok_iff.mp made
  obtain ⟨copied, _, made⟩ := bind_eq_ok_iff.mp made
  obtain ⟨entered, _, made⟩ := bind_eq_ok_iff.mp made
  cases made
  exact related_addElement added

theorem leads_copyTerminals (source : Network) (copies : Copies) :
    Leads R net (copyTerminals source copies net) := by
  have ports : Leads R net (Outcome.fold copyPort source.ports.toList copies net) :=
    leads_fold (fun copies port net => leads_copyPort copies port) _ copies net
  have withFlipFlops := ports.andThen fun copies net =>
    leads_fold (fun copies element net => leads_copyElement source .flipFlop copies element)
      source.flipFlops.order.toList copies net
  have withLatches := withFlipFlops.andThen fun copies net =>
    leads_fold (fun copies element net => leads_copyElement source .latch copies element)
      source.latches.order.toList copies net
  simpa only [copyTerminals, bind_assoc] using withLatches

theorem leads_copyGate (source : Network) (copies : Copies) :
    Leads R net (copyGate source copies id net) := by
  refine leads_onAnswer fun request => (leads_addGate _ _ _).andThen fun copy net => ?_
  split
  · exact leads_enter copies id _
  · exact leads_ok (Std.Refl.refl net)

theorem leads_copyGates (source : Network) (copies : Copies) :
    Leads R net (copyGates source copies net) := by
  intro outcome made
  obtain ⟨order, _, made⟩ := bind_eq_ok_iff.mp made
  exact leads_fold (fun copies id net => leads_copyGate source copies) order copies net outcome made

theorem leads_copyReading (source : Network) (copies : Copies) (state : Unit) :
    Leads R net (copyReading source copies state id net) :=
  leads_onAnswer fun reading => leads_drive reading.2

theorem leads_copyReadings (source : Network) (copies : Copies) :
    Leads R net (copyReadings source copies net) :=
  leads_fold (fun state _ _ => leads_copyReading source copies state) _ () net

/-- What a copy leaves is built on the cleared network. -/
theorem leads_overwrite (source : Network) : Leads R net.clear (net.overwrite source) := by
  intro outcome made
  have blank : R net.clear (net.clear.rename source.name) := related_rename _
  have terminals : Leads R (net.clear.rename source.name) _ :=
    leads_copyTerminals source (Array.replicate source.nodes.bound none)
  have copied := (terminals.andThen fun copies _ => leads_copyGates source copies).andThen
    fun copies _ => leads_copyReadings source copies
  refine IsTrans.trans _ _ _ blank (copied outcome ?_)
  simpa only [overwrite, bind_assoc] using made

end

/-! ## Operations that erase -/

section

variable {R : Network → Network → Prop} [EraseClosed R]

theorem related_dropElement {family : Family} {element : ElementId} {e : Element}
    (dropped : net.dropElement family element e = .ok after) : R net after := by
  obtain ⟨mid, terminals, dropped⟩ := bind_eq_ok_iff.mp dropped
  obtain ⟨elements, _, dropped⟩ := bind_eq_ok_iff.mp dropped
  cases dropped
  have related : R net mid :=
    related_foldlM terminals fun _ _ _ dropped => EraseClosed.dropTerminal dropped
  exact IsTrans.trans _ _ _ related (EraseClosed.withBank mid family _)

theorem leads_eraseElement (family : Family) (element : ElementId) :
    Leads R net (net.eraseElement family element) := by
  refine leads_guarded fun _ _ _ acted => ?_
  obtain ⟨last, dropped, acted⟩ := bind_eq_ok_iff.mp acted
  cases acted
  exact related_dropElement dropped

theorem leads_eraseGate : Leads R net (net.eraseGate id) := by
  refine leads_guarded fun _ _ _ acted => ?_
  obtain ⟨last, dropped, acted⟩ := bind_eq_ok_iff.mp acted
  cases acted
  exact IsTrans.trans _ _ _ (EraseClosed.unlist net (toList_erase_sublist _ id))
    (EraseClosed.dropGate dropped)

theorem leads_dropUnread (state : Unit) : Leads R net (dropUnread state id net) := by
  intro outcome made
  obtain ⟨n, _, made⟩ := bind_eq_ok_iff.mp made
  split at made
  · obtain ⟨last, dropped, made⟩ := bind_eq_ok_iff.mp made
    cases made
    exact EraseClosed.dropGate dropped
  · cases made
    exact Std.Refl.refl net

theorem leads_prune : Leads R net net.prune := by
  intro outcome made
  obtain ⟨marks, _, made⟩ := bind_eq_ok_iff.mp made
  obtain ⟨dead, _, made⟩ := bind_eq_ok_iff.mp made
  refine Leads.andThen (leads_fold (fun _ _ _ => leads_dropUnread _) dead () net)
    (fun _ mid last made => ?_) outcome made
  obtain ⟨gates, kept, made⟩ := bind_eq_ok_iff.mp made
  cases made
  exact EraseClosed.unlist mid (Marks.sublist_of_pick kept)

end

end Network

end GateNet
