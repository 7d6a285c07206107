import GateNet.Proofs.AlikeAnswers
import GateNet.Proofs.Table

/-!
# Changes of networks that are alike

A change that looks up no key does the same on networks that are alike, and leaves them alike.  For
changes of the table this is so because the table does not show; tables that are widened stay in
their relation.  There is one lemma for each function, and none asks for a sound network.
-/

namespace GateNet

namespace Network

variable {sizing : Sizing} {net one two after : Network} {id : NodeId}

/-! ## The table -/

theorem Alike.trans_same {three : Network} (first : one.Alike .same two)
    (second : two.Alike .same three) :
    one.Alike .same three :=
  (first.trans second).sized (Eq.trans first.sizes second.sizes)

/-- What follows changes that do not show is alike when what went before is. -/
theorem Alike.through {first second : Network} (alike : one.Alike sizing two)
    (left : one.Alike .same first) (right : two.Alike .same second) :
    first.Alike sizing second := by
  have extent : one.extent = first.extent := left.sizes
  have extent' : two.extent = second.extent := right.sizes
  refine ((left.symm.trans alike).trans right).sized ?_
  rw [← extent, ← extent']
  exact alike.sizes

/-- Another head of a chain, and other links, do not show. -/
theorem alike_withTable {nodes : Store Node} {table : Array (Option NodeId)} {bucket : Nat}
    {head : Option NodeId} (stored : storeAt net.table bucket head = .ok table)
    (same : net.nodes.Alike Node.unlinked nodes) :
    net.Alike .same { net with nodes, table } := by
  exact { Alike.refl_same net with
    nodes := same
    sizes := by rw [extent, ← size_of_storeAt stored]; rfl }

theorem alike_enroll (enrolled : net.enroll id = .ok after) : net.Alike .same after := by
  obtain ⟨n, _, enrolled⟩ := bind_eq_ok_iff.mp enrolled
  obtain ⟨behind, _, enrolled⟩ := bind_eq_ok_iff.mp enrolled
  obtain ⟨table, stored, enrolled⟩ := bind_eq_ok_iff.mp enrolled
  cases enrolled
  exact alike_withTable stored (.relink _ _ _)

theorem alike_withdraw (withdrawn : net.withdraw id = .ok after) : net.Alike .same after := by
  obtain ⟨n, _, withdrawn⟩ := bind_eq_ok_iff.mp withdrawn
  obtain ⟨head, _, withdrawn⟩ := bind_eq_ok_iff.mp withdrawn
  split at withdrawn
  · obtain ⟨table, stored, withdrawn⟩ := bind_eq_ok_iff.mp withdrawn
    cases withdrawn
    exact alike_withTable stored (.relink _ _ _)
  · obtain ⟨found, _, withdrawn⟩ := bind_eq_ok_iff.mp withdrawn
    split at withdrawn
    · cases withdrawn
      exact { Alike.refl_same net with
        nodes := (Store.Alike.relink _ _ _).trans (.relink _ _ _) }
    · cases withdrawn

theorem alike_enrollChain {steps : Nat} {head : Option NodeId}
    (enrolled : enrollChain steps head net = .ok after) : net.Alike .same after := by
  induction steps generalizing head net with
  | zero =>
    cases head with
    | none =>
      cases enrolled
      exact .refl_same _
    | some id => cases enrolled
  | succ steps inductionHypothesis =>
    cases head with
    | none =>
      cases enrolled
      exact .refl_same _
    | some id =>
      unfold enrollChain at enrolled
      split at enrolled
      · cases enrolled
      · split at enrolled
        · cases enrolled
        · next mid linked =>
          exact (alike_enroll linked).trans_same (inductionHypothesis enrolled)

/-- A table that is widened has the new size, and the limit that belongs to it. -/
theorem alike_widen {size : Nat} (widened : net.widen size = .ok after) :
    net.Alike .any after ∧ after.extent = .ofSize size := by
  have emptied : net.Alike .any
      { net with table := Array.replicate size none, limit := limitFor size } :=
    { (Alike.refl_same net).any with sizes := trivial }
  have enrolled : ({ net with table := Array.replicate size none, limit := limitFor size } :
      Network).Alike .same after :=
    foldlM_keeps widened (fun _ mid => Network.Alike .same _ mid) (.refl_same _)
      fun _ _ _ _ _ _ alike enrolled => alike.trans_same (alike_enrollChain enrolled)
  have same : Extent.mk (Array.replicate size (none : Option NodeId)).size (limitFor size) =
      after.extent := enrolled.sizes
  exact ⟨emptied.trans enrolled, by rw [← same, Array.size_replicate]; rfl⟩

theorem alike_widenIfFull (widened : net.widenIfFull = .ok after) :
    net.Alike .any after ∧ after.extent = net.extent.after net.gates.size := by
  unfold widenIfFull at widened
  unfold Extent.after
  split at widened
  · next full =>
    rw [if_pos (show net.extent.limit ≤ net.gates.size from full)]
    exact alike_widen widened
  · next room =>
    cases widened
    rw [if_neg (show ¬ net.extent.limit ≤ net.gates.size from room)]
    exact ⟨.refl trivial, rfl⟩

namespace Alike

theorem enroll (alike : one.Alike sizing two) (id : NodeId) :
    Agree (Alike sizing) (one.enroll id) (two.enroll id) :=
  fun _ _ enrolled enrolled' => alike.through (alike_enroll enrolled) (alike_enroll enrolled')

theorem withdraw (alike : one.Alike sizing two) (id : NodeId) :
    Agree (Alike sizing) (one.withdraw id) (two.withdraw id) :=
  fun _ _ withdrawn withdrawn' =>
    alike.through (alike_withdraw withdrawn) (alike_withdraw withdrawn')

/-- Both tables grow by one rule, so they stay in their relation. -/
theorem widenIfFull (alike : one.Alike sizing two) :
    Agree (Alike sizing) one.widenIfFull two.widenIfFull := by
  intro first second widened widened'
  obtain ⟨left, extent⟩ := alike_widenIfFull widened
  obtain ⟨right, extent'⟩ := alike_widenIfFull widened'
  refine ((left.symm.trans alike).trans right).sized ?_
  rw [extent, extent', alike.gates]
  exact sizing.grown _ alike.sizes

/-! ## Wires -/

theorem withoutFanout {nodes nodes' : Store Node} (alike : nodes.Alike Node.unlinked nodes')
    (driver : NodeId) (entry : Fanout) :
    Agree (Store.Alike Node.unlinked) (withoutFanout nodes driver entry)
      (withoutFanout nodes' driver entry) := by
  refine (alike.agree_fetch driver).bind ?_
  rintro n _ ⟨link, rfl⟩
  dsimp only
  cases Fanout.remove? n.fanouts entry with
  | none => exact agree_error
  | some rest => exact agree_ok (alike.modify _ (Node.unlinked_change fun _ _ => rfl))

theorem withFanout {nodes nodes' : Store Node} (alike : nodes.Alike Node.unlinked nodes')
    (driver : NodeId) (entry : Fanout) :
    Agree (Store.Alike Node.unlinked) (withFanout nodes driver entry)
      (withFanout nodes' driver entry) :=
  alike.update _ (Node.unlinked_change fun _ _ => rfl)

theorem plug (alike : one.Alike sizing two) (reader : NodeId) (operand : Operand)
    (driver : Option NodeId) :
    Agree (Alike sizing) (one.plug reader operand driver) (two.plug reader operand driver) := by
  rcases alike.nodes.fetch reader with ⟨failed, _⟩ | ⟨n, link, held, held'⟩
  · rw [Network.plug, failed]
    exact agree_error
  rw [plug_eq (Store.fetch_eq_ok_iff.mp held), plug_eq (Store.fetch_eq_ok_iff.mp held')]
  have same : ({ n with link } : Node).driver operand = n.driver operand := by
    cases operand <;> rfl
  rw [same]
  refine Agree.bind (R := Store.Alike Node.unlinked) ?_ fun nodes nodes' unplugged => ?_
  · cases n.driver operand with
    | none => exact agree_ok alike.nodes
    | some old => exact withoutFanout alike.nodes old _
  have assigned : (nodes.modify reader (·.withDriver operand driver)).Alike Node.unlinked
      (nodes'.modify reader (·.withDriver operand driver)) :=
    unplugged.modify _ (Node.unlinked_change fun n link => by cases operand <;> rfl)
  cases driver with
  | none => exact agree_ok { alike with nodes := assigned, depth? := rfl }
  | some new =>
    exact (withFanout assigned new _).bind fun _ _ listed =>
      agree_ok { alike with nodes := listed, depth? := rfl }

theorem driveOutput (alike : one.Alike sizing two) (id : NodeId) (signal : Signal) :
    Agree (Alike sizing) (one.driveOutput id signal) (two.driveOutput id signal) :=
  (alike.nodes.update _ (Node.unlinked_change fun _ _ => rfl)).bind fun _ _ nodes =>
    (alike.withNodes nodes).plug id .first signal.node

theorem drive (alike : one.Alike sizing two) (id : NodeId) (signal : Signal) :
    Agree (Outcome.Matches (Alike sizing)) (one.drive id signal) (two.drive id signal) :=
  agree_guarded alike (by rw [alike.checkDrive]) fun _ _ =>
    (alike.driveOutput id signal).bind fun _ _ driven => agree_ok ⟨rfl, driven⟩

/-! ## Nodes and gates -/

theorem addNode (alike : one.Alike sizing two) (kind : Kind) :
    Agree (Together (Alike sizing)) (one.addNode kind) (two.addNode kind) := by
  refine (alike.nodes.insert Node.recycle_eq _).bind_together fun id nodes nodes' added => ?_
  exact agree_ok ⟨rfl, alike.withNodes added⟩

theorem addBlankGate (alike : one.Alike sizing two) :
    Agree (Together (Alike sizing)) one.addBlankGate two.addBlankGate := by
  refine (alike.addNode .gate).bind_together fun id first second added => ?_
  exact agree_ok ⟨rfl, { added with gates := congrArg (·.push id) added.gates }⟩

theorem assign (alike : one.Alike sizing two) (id : NodeId) (key : Key) :
    Agree (Alike sizing) (one.assign id key) (two.assign id key) := by
  refine (alike.nodes.update _ (Node.unlinked_change fun _ _ => rfl)).bind fun _ _ nodes => ?_
  refine ((alike.withNodes nodes).plug id .first (some key.first)).bind fun _ _ first => ?_
  refine (first.plug id .second (some key.second)).bind fun _ _ second => ?_
  refine (second.enroll id).bind fun _ _ enrolled => ?_
  exact enrolled.widenIfFull

theorem site (alike : one.Alike sizing two) (reuse : Option NodeId) (inverted : Bool) :
    Agree (Together (Alike sizing)) (one.site reuse inverted) (two.site reuse inverted) := by
  unfold Network.site
  split
  · next id => exact (alike.withdraw id).bind fun _ _ withdrawn => agree_ok ⟨rfl, withdrawn⟩
  · exact alike.addBlankGate

theorem dropGate (alike : one.Alike sizing two) (id : NodeId) :
    Agree (Alike sizing) (one.dropGate id) (two.dropGate id) := by
  intro _ _ dropped dropped'
  obtain ⟨_, _, _, nodes, withdrawn, first, second, removed, rfl⟩ :=
    exists_steps_of_dropGate dropped
  obtain ⟨_, _, _, nodes', withdrawn', first', second', removed', rfl⟩ :=
    exists_steps_of_dropGate dropped'
  have unlinked := alike.withdraw id _ _ withdrawn withdrawn'
  have half := unlinked.plug id .first none _ _ first first'
  have bare := half.plug id .second none _ _ second second'
  exact bare.withNodes (bare.nodes.remove id _ _ removed removed')

theorem eraseGate (alike : one.Alike sizing two) (id : NodeId) :
    Agree (Outcome.Matches (Alike sizing)) (one.eraseGate id) (two.eraseGate id) := by
  refine agree_guarded alike (by rw [alike.checkEraseGate]) fun _ _ => ?_
  have unlisted : ({ one with gates := one.gates.erase id } : Network).Alike sizing
      { two with gates := two.gates.erase id } :=
    { alike with gates := congrArg (·.erase id) alike.gates }
  exact (unlisted.dropGate id).bind fun _ _ dropped => agree_ok ⟨rfl, dropped⟩

/-! ## Ports and state elements -/

theorem addPort (alike : one.Alike sizing two) (name : String) (width : Nat) :
    Together (Alike sizing) (one.addPort name width) (two.addPort name width) :=
  ⟨congrArg Array.size alike.ports,
    { alike with ports := by rw [Network.addPort, Network.addPort, alike.ports] }⟩

theorem register (alike : one.Alike sizing two) (id : NodeId) (kind : Kind) :
    (one.register id kind).Alike sizing (two.register id kind) := by
  unfold Network.register
  split
  · exact { alike with inputs := congrArg (·.push id) alike.inputs }
  · exact { alike with outputs := congrArg (·.push id) alike.outputs }

theorem addTerminal (alike : one.Alike sizing two) (kind : Kind) :
    Agree (Together (Alike sizing)) (one.addTerminal kind) (two.addTerminal kind) := by
  refine (alike.addNode kind).bind_together fun id _ _ added => ?_
  exact agree_ok ⟨rfl, added.register id kind⟩

theorem updatePort (alike : one.Alike sizing two) (port : PortId)
    (change : Port → Except Fault Port) :
    Agree (Alike sizing) (one.updatePort port change) (two.updatePort port change) := by
  unfold Network.updatePort
  rw [alike.ports]
  refine agree_bind_same fun p => ?_
  refine agree_bind_same fun changed => ?_
  refine agree_bind_same fun ports => ?_
  exact agree_ok { alike with ports := rfl }

theorem add (alike : one.Alike sizing two) (side : Side) (port : PortId) (bit : Nat) :
    Agree (Outcome.Matches (Alike sizing)) (side.add one port bit) (side.add two port bit) := by
  rw [side.add_eq, side.add_eq]
  refine agree_guarded alike (by rw [alike.check]) fun _ _ => ?_
  refine (alike.addTerminal (side.kind port bit)).bind_together fun id first second added => ?_
  exact (added.updatePort port _).bind fun _ _ named => agree_ok ⟨rfl, named⟩

theorem addPinNodes {family : Family} {element : ElementId} (alike : one.Alike sizing two)
    (pins : List Pin) :
    Agree (Together (Alike sizing)) (addPinNodes family element pins one)
      (addPinNodes family element pins two) := by
  induction pins generalizing one two with
  | nil => exact agree_ok ⟨rfl, alike⟩
  | cons pin rest inductionHypothesis =>
    refine (alike.addNode (.state family element pin)).bind_together fun id _ _ added => ?_
    refine (inductionHypothesis added).bind_together fun made _ _ added => ?_
    exact agree_ok ⟨rfl, added⟩

theorem registerPins (alike : one.Alike sizing two) (family : Family) (element : ElementId)
    (pins : List (Pin × NodeId)) :
    (one.registerPins family element pins).Alike sizing (two.registerPins family element pins) := by
  induction pins generalizing one two with
  | nil => exact alike
  | cons pin rest inductionHypothesis => exact inductionHypothesis (alike.register _ _)

theorem addElement (alike : one.Alike sizing two) (family : Family) (name : String) :
    Agree (Together (Alike sizing)) (one.addElement family name) (two.addElement family name) := by
  have bank := alike.bank family
  refine (bank.elements.insert (fun _ _ => rfl) _).bind_together
    fun id elements elements' added => ?_
  have banks : Bank.Alike { one.bank family with elements }
      { two.bank family with elements := elements' } := ⟨added, bank.order⟩
  have reserved := alike.withBank family banks
  refine (reserved.addPinNodes Pin.all).bind_together fun pins _ _ made => ?_
  have registered := made.registerPins family id pins
  have bank := registered.bank family
  have changed := bank.elements.update id fun e e' same =>
    congrArg (fun e : Element => e.withTerminals pins) same
  refine changed.bind fun _ _ elements => ?_
  exact agree_ok ⟨rfl, registered.withBank family ⟨elements, congrArg (·.push id) bank.order⟩⟩

theorem dropTerminal (alike : one.Alike sizing two) (id : NodeId) :
    Agree (Alike sizing) (one.dropTerminal id) (two.dropTerminal id) := by
  refine (alike.plug id .first none).bind fun first second unplugged => ?_
  refine (unplugged.nodes.agree_fetch id).bind ?_
  rintro n _ ⟨link, rfl⟩
  show Agree _ (do
      let first := if n.isInput then { first with inputs := first.inputs.erase id }
        else { first with outputs := first.outputs.erase id }
      return { first with nodes := ← first.nodes.remove id })
    (do
      let second := if n.isInput then { second with inputs := second.inputs.erase id }
        else { second with outputs := second.outputs.erase id }
      return { second with nodes := ← second.nodes.remove id })
  cases n.isInput with
  | true =>
    exact (unplugged.nodes.remove id).bind fun _ _ nodes => agree_ok { unplugged with
      nodes, inputs := congrArg (·.erase id) unplugged.inputs }
  | false =>
    exact (unplugged.nodes.remove id).bind fun _ _ nodes => agree_ok { unplugged with
      nodes, outputs := congrArg (·.erase id) unplugged.outputs }

theorem dropElement (alike : one.Alike sizing two) (family : Family) (id : ElementId)
    (element : Element) :
    Agree (Alike sizing) (one.dropElement family id element)
      (two.dropElement family id element) := by
  refine (agree_foldlM alike (fun id _ _ alike => alike.dropTerminal id) element.terminals).bind
    fun _ _ dropped => ?_
  have bank := dropped.bank family
  refine (bank.elements.remove id).bind fun _ _ elements => ?_
  exact agree_ok (dropped.withBank family ⟨elements, congrArg (·.filter (· != id)) bank.order⟩)

theorem eraseElement (alike : one.Alike sizing two) (family : Family) (id : ElementId) :
    Agree (Outcome.Matches (Alike sizing)) (one.eraseElement family id)
      (two.eraseElement family id) :=
  agree_guarded alike (by rw [alike.checkEraseElement]) fun element _ =>
    (alike.dropElement family id element).bind fun _ _ dropped => agree_ok ⟨rfl, dropped⟩

/-! ## Pruning and depth -/

theorem dropUnread (alike : one.Alike sizing two) (id : NodeId) :
    Agree (Outcome.Matches (Alike sizing)) (dropUnread () id one) (dropUnread () id two) := by
  refine (alike.nodes.agree_fetch id).bind ?_
  rintro n _ ⟨link, rfl⟩
  dsimp only
  split
  · exact (alike.dropGate id).bind fun _ _ dropped => agree_ok ⟨rfl, dropped⟩
  · exact agree_ok ⟨rfl, alike⟩

/-- Only what a walk over the outputs reaches is asked of the slots, and on sound networks it ends
before it could count them. -/
theorem prune (alike : one.Alike sizing two) (sound : one.Sound) (sound' : two.Sound) :
    Agree (Outcome.Matches (Alike sizing)) one.prune two.prune := by
  unfold Network.prune
  rw [alike.reached sound sound', alike.deadGates]
  refine agree_bind_same fun marks => ?_
  refine agree_bind_same fun dead => ?_
  refine (agree_fold (fun _ id _ _ alike => alike.dropUnread id) dead () alike).andThen ?_
  intro _ first second dropped
  rw [dropped.gates]
  refine agree_bind_same fun gates => ?_
  exact agree_ok ⟨rfl, { dropped with gates := rfl }⟩

theorem depth (alike : one.Alike sizing two) :
    Agree (Together (Alike sizing)) one.depth two.depth := by
  unfold Network.depth
  rw [alike.depth?, alike.computeDepth]
  split
  · exact agree_ok ⟨rfl, alike⟩
  · refine agree_bind_same fun computed => ?_
    exact agree_ok ⟨rfl, { alike with depth? := rfl }⟩

end Alike

end Network

end GateNet
