import GateNet.Proofs.Chronicle
import GateNet.Proofs.TableSize

/-!
# The load of the table

A table has fewer gates than its limit allows, the limit belongs to its size, and it never shrinks.
The limit is kept beside the table.  Most steps of an operation leave both as they were and add no
gate.  The one that does add a gate adds a single one and then looks at the limit; when the table is
doubled the limit is set anew, and twice as many buckets have room for one gate more than the limit
of the smaller table.
-/

namespace GateNet

theorem Ids.next_le_next_fresh (ids : Ids) : ids.next ≤ ids.fresh.2.next := by
  rw [next_fresh]
  split <;> omega

theorem Ids.next_of_retire {ids rest : Ids} {id : Nat} (retired : ids.retire id = (.ok (), rest)) :
    rest.next = ids.next := by
  unfold retire at retired
  split at retired
  · split at retired
    · cases retired
      rfl
    · cases retired
  · cases retired

theorem Store.bound_of_remove {α : Type} {s rest : Store α} {id : Nat}
    (removed : s.remove id = .ok rest) : rest.bound = s.bound :=
  Ids.next_of_retire (of_remove removed).1

theorem Store.bound_of_update {α : Type} {s after : Store α} {id : Nat} {change : α → α}
    (updated : s.update id change = .ok after) : after.bound = s.bound := by
  rw [eq_modify_of_update updated]
  rfl

namespace Network

/-- The limit belongs to the size of the table, and there are fewer gates. -/
structure Roomy (net : Network) : Prop where
  limit : net.limit = limitFor net.buckets
  room : net.gates.size < net.limit

/-- The table does not shrink and does not overflow, and slots are only added. -/
structure Widens (net after : Network) : Prop where
  buckets : net.buckets ≤ after.buckets
  bound : net.nodes.bound ≤ after.nodes.bound
  room : net.Roomy → after.Roomy

instance : Std.Refl Widens := ⟨fun _ => ⟨Nat.le_refl _, Nat.le_refl _, id⟩⟩

instance : IsTrans Network Widens where
  trans _ _ _ first second :=
    ⟨Nat.le_trans first.buckets second.buckets, Nat.le_trans first.bound second.bound,
      second.room ∘ first.room⟩

/-- The table has the size and the limit that it had, and no gate more. -/
structure Steady (net after : Network) : Prop where
  extent : after.extent = net.extent
  bound : net.nodes.bound ≤ after.nodes.bound
  gates : after.gates.size ≤ net.gates.size

namespace Steady

variable {net mid after : Network}

theorem trans (first : net.Steady mid) (second : mid.Steady after) : net.Steady after :=
  ⟨second.extent.trans first.extent, Nat.le_trans first.bound second.bound,
    Nat.le_trans second.gates first.gates⟩

theorem buckets (steady : net.Steady after) : after.buckets = net.buckets :=
  congrArg Extent.size steady.extent

theorem limit (steady : net.Steady after) : after.limit = net.limit :=
  congrArg Extent.limit steady.extent

theorem widens (steady : net.Steady after) : net.Widens after where
  buckets := Nat.le_of_eq steady.buckets.symm
  bound := steady.bound
  room roomy := by
    refine ⟨?_, ?_⟩
    · rw [steady.limit, steady.buckets, roomy.limit]
    · rw [steady.limit]
      exact Nat.lt_of_le_of_lt steady.gates roomy.room

end Steady

instance : IsTrans Network Steady := ⟨fun _ _ _ first second => first.trans second⟩

variable {net after : Network} {id : NodeId}

theorem Alike.steady (alike : net.Alike .same after) : net.Steady after where
  extent := Eq.symm alike.sizes
  bound := Nat.le_of_eq alike.bound
  gates := Nat.le_of_eq (congrArg Array.size alike.gates.symm)

/-! ## Steps that leave the table -/

theorem steady_withNodes {nodes : Store Node} (bound : net.nodes.bound ≤ nodes.bound) :
    net.Steady { net with nodes } :=
  ⟨rfl, bound, Nat.le_refl _⟩

theorem steady_plug {operand : Operand} {driver : Option NodeId}
    (plugged : net.plug id operand driver = .ok after) : net.Steady after := by
  obtain ⟨nodes, same, modified⟩ := exists_modified_of_plug plugged
  subst same
  exact ⟨rfl, Nat.le_of_eq modified.bound_eq.symm, Nat.le_refl _⟩

theorem steady_update {change : Node → Node} {nodes : Store Node}
    (updated : net.nodes.update id change = .ok nodes) : net.Steady { net with nodes } :=
  steady_withNodes (Nat.le_of_eq (Store.bound_of_update updated).symm)

theorem steady_addNode {kind : Kind} (added : net.addNode kind = .ok (id, after)) :
    net.Steady after := by
  obtain ⟨⟨id, nodes⟩, inserted, added⟩ := bind_eq_ok_iff.mp added
  cases added
  obtain ⟨_, ids, _⟩ := Store.slots_of_insert inserted
  refine steady_withNodes ?_
  rw [Store.bound, Store.bound, ids]
  exact Ids.next_le_next_fresh _

theorem steady_driveOutput {signal : Signal} (driven : net.driveOutput id signal = .ok after) :
    net.Steady after := by
  obtain ⟨nodes, updated, plugged⟩ := bind_eq_ok_iff.mp driven
  exact (steady_update updated).trans (steady_plug plugged)

theorem steady_addTerminal {kind : Kind} (added : net.addTerminal kind = .ok (id, after)) :
    net.Steady after := by
  obtain ⟨⟨id, mid⟩, made, added⟩ := bind_eq_ok_iff.mp added
  cases added
  refine (steady_addNode made).trans ?_
  unfold register
  split <;> exact ⟨rfl, Nat.le_refl _, Nat.le_refl _⟩

theorem steady_withBank (net : Network) (family : Family) (bank : Bank) :
    net.Steady (net.withBank family bank) := by
  cases family <;> exact ⟨rfl, Nat.le_refl _, Nat.le_refl _⟩

theorem steady_remove {nodes : Store Node} (removed : net.nodes.remove id = .ok nodes) :
    net.Steady { net with nodes } :=
  steady_withNodes (Nat.le_of_eq (Store.bound_of_remove removed).symm)

theorem steady_dropTerminal (dropped : net.dropTerminal id = .ok after) : net.Steady after := by
  obtain ⟨mid, plugged, dropped⟩ := bind_eq_ok_iff.mp dropped
  obtain ⟨n, _, dropped⟩ := bind_eq_ok_iff.mp dropped
  obtain ⟨nodes, removed, dropped⟩ := bind_eq_ok_iff.mp dropped
  cases dropped
  refine (steady_plug plugged).trans ?_
  revert removed
  split <;> exact fun removed =>
    ⟨rfl, Nat.le_of_eq (Store.bound_of_remove removed).symm, Nat.le_refl _⟩

theorem steady_dropGate (dropped : net.dropGate id = .ok after) : net.Steady after := by
  obtain ⟨unlinked, first, second, nodes, withdrawn, pluggedFirst, pluggedSecond, removed, rfl⟩ :=
    exists_steps_of_dropGate dropped
  calc
    net.Steady unlinked := (alike_withdraw withdrawn).steady
    Steady _ first := steady_plug pluggedFirst
    Steady _ second := steady_plug pluggedSecond
    Steady _ { second with nodes } := steady_remove removed

/-! ## Adding a gate -/

/-- A gate is assigned before the limit is looked at. -/
theorem assign_load {key : Key} (assigned : net.assign id key = .ok after) :
    ∃ mid, net.Steady mid ∧ mid.Alike .any after ∧
      after.extent = mid.extent.after mid.gates.size := by
  obtain ⟨nodes, updated, assigned⟩ := bind_eq_ok_iff.mp assigned
  obtain ⟨first, pluggedFirst, assigned⟩ := bind_eq_ok_iff.mp assigned
  obtain ⟨second, pluggedSecond, assigned⟩ := bind_eq_ok_iff.mp assigned
  obtain ⟨linked, enrolled, widened⟩ := bind_eq_ok_iff.mp assigned
  have steady : net.Steady linked := calc
    net.Steady { net with nodes } := steady_update updated
    Steady _ first := steady_plug pluggedFirst
    Steady _ second := steady_plug pluggedSecond
    Steady _ linked := (alike_enroll enrolled).steady
  exact ⟨linked, steady, alike_widenIfFull widened⟩

theorem site_load {reuse : Option NodeId} {inverted : Bool}
    (sited : net.site reuse inverted = .ok (id, after)) :
    after.extent = net.extent ∧ net.nodes.bound ≤ after.nodes.bound ∧
      after.gates.size ≤ net.gates.size + 1 := by
  unfold site at sited
  split at sited
  · obtain ⟨mid, withdrawn, sited⟩ := bind_eq_ok_iff.mp sited
    cases sited
    have steady := (alike_withdraw withdrawn).steady
    exact ⟨steady.extent, steady.bound, Nat.le_succ_of_le steady.gates⟩
  · obtain ⟨⟨id, mid⟩, added, sited⟩ := bind_eq_ok_iff.mp sited
    cases sited
    have steady := steady_addNode added
    exact ⟨steady.extent, steady.bound, by simpa using steady.gates⟩

/-- A table that was looked at has its limit again, and one gate over the limit of the smaller table
is still below that of the doubled one. -/
theorem room_after {e : Extent} {before gates : Nat} (limit : e.limit = limitFor e.size)
    (room : before < e.limit) (one : gates ≤ before + 1) :
    (e.after gates).limit = limitFor (e.after gates).size ∧ gates < (e.after gates).limit := by
  unfold Extent.after
  split
  · refine ⟨rfl, ?_⟩
    show gates < limitFor (2 * e.size)
    rw [limit] at room
    unfold limitFor at room ⊢
    omega
  · exact ⟨limit, by omega⟩

theorem le_size_after (e : Extent) (gates : Nat) : e.size ≤ (e.after gates).size := by
  unfold Extent.after
  split
  · exact Nat.le_mul_of_pos_left e.size Nat.two_pos
  · exact Nat.le_refl _

theorem widens_realize {reuse : Option NodeId} {gate : Gate} {s t signal : Signal}
    (realized : net.realize reuse gate s t = .ok (signal, after)) : net.Widens after := by
  cases realize_cases realized with
  | inl same =>
    subst same
    exact Std.Refl.refl _
  | inr steps =>
    obtain ⟨inverted, id, mid, key, sited, assigned⟩ := steps
    obtain ⟨extent, bound, one⟩ := site_load sited
    obtain ⟨linked, steady, alike, looked⟩ := assign_load assigned
    have gates : linked.gates.size ≤ net.gates.size + 1 := Nat.le_trans steady.gates one
    rw [steady.extent, extent] at looked
    refine ⟨?_, ?_, fun roomy => ?_⟩
    · show net.extent.size ≤ after.extent.size
      rw [looked]
      exact le_size_after _ _
    · rw [← alike.bound]
      exact Nat.le_trans bound steady.bound
    · obtain ⟨limit, room⟩ := room_after (e := net.extent) roomy.limit roomy.room gates
      rw [← looked] at limit room
      exact ⟨limit, by rw [← alike.gates]; exact room⟩

instance : BuildClosed Widens where
  realize := widens_realize
  driveOutput driven := (steady_driveOutput driven).widens
  addTerminal _ added := (steady_addTerminal added).widens
  relabel _ _ _ _ := Steady.widens ⟨rfl, Nat.le_refl _, Nat.le_refl _⟩
  withBank net family bank := (steady_withBank net family bank).widens

instance : EraseClosed Widens where
  dropTerminal dropped := (steady_dropTerminal dropped).widens
  dropGate dropped := (steady_dropGate dropped).widens
  unlist _ _ shorter := Steady.widens ⟨rfl, Nat.le_refl _, shorter.length_le⟩
  withBank net family bank := (steady_withBank net family bank).widens

/-! ## Commands -/

theorem roomy_of_empty (empty : net.gates = #[]) (limit : net.limit = limitFor net.buckets)
    (positive : 0 < net.buckets) : net.Roomy := by
  refine ⟨limit, ?_⟩
  rw [limit, empty, limitFor]
  show 0 < 9 * net.buckets / 5
  omega

theorem buckets_clear (net : Network) : net.clear.buckets = net.buckets := Array.size_replicate

/-- Clearing leaves the limit beside the table, which is as large as it was. -/
theorem Roomy.clear (roomy : net.Roomy) : net.clear.Roomy := by
  have limit := roomy.limit
  have room := roomy.room
  refine roomy_of_empty rfl ?_ ?_
  · rw [buckets_clear]
    exact limit
  · rw [limit, limitFor] at room
    rw [buckets_clear]
    omega

/-- A command may make the table larger, but never smaller, and it leaves room in it. -/
theorem load_run {command : Command} {outcome : Outcome Reply}
    (ran : net.run command = .ok outcome) :
    net.buckets ≤ outcome.network.buckets ∧ (net.Roomy → outcome.network.Roomy) := by
  cases effect : command.effect with
  | build =>
    have widens := leads_of_build (R := Widens) effect outcome ran
    exact ⟨widens.buckets, widens.room⟩
  | erase =>
    have widens := leads_of_erase (R := Widens) effect outcome ran
    exact ⟨widens.buckets, widens.room⟩
  | restart =>
    have widens := leads_of_restart (R := Widens) effect outcome ran
    exact ⟨buckets_clear net ▸ widens.buckets, fun roomy => widens.room roomy.clear⟩

theorem buckets_runAll {commands : List Command} (ran : net.runAll commands = .ok after) :
    net.buckets ≤ after.buckets := by
  refine foldlM_keeps ran (fun _ mid => net.buckets ≤ mid.buckets) (Nat.le_refl _) ?_
  intro _ command _ mid next _ le stepped
  obtain ⟨outcome, ran, stepped⟩ := bind_eq_ok_iff.mp stepped
  cases stepped
  exact Nat.le_trans le (load_run ran).1

/-- The size of the table is a power of two, the limit beside it is 1.8 gates for each bucket, and
there are fewer gates. -/
structure Loaded (net : Network) : Prop where
  power : net.buckets.isPowerOfTwo
  least : 1024 ≤ net.buckets
  limit : net.limit = 9 * net.buckets / 5
  room : net.gates.size < net.limit

theorem roomy_withBuckets (buckets : Nat) : (withBuckets buckets).Roomy := by
  obtain ⟨_, least, limit⟩ := (Reachable.withBuckets buckets).sizes .powers
  exact roomy_of_empty rfl limit (Nat.lt_of_lt_of_le (by decide) least)

theorem Reachable.roomy (reachable : net.Reachable) : net.Roomy := by
  induction reachable with
  | withBuckets buckets => exact roomy_withBuckets buckets
  | run _ _ ran roomy _ => exact (load_run ran).2 roomy
  | @duplicate source copy _ made _ =>
    exact (related_duplicate (R := Widens) made).room (roomy_withBuckets source.buckets).clear

theorem Reachable.loaded (reachable : net.Reachable) : net.Loaded := by
  obtain ⟨power, least, _⟩ := reachable.sizes .powers
  exact ⟨power, least, reachable.roomy.limit, reachable.roomy.room⟩

/-- In a reachable network the stored limit is that of the table, and the gates are strictly below
it, whatever was added, redefined, erased, cleared or copied; and over any further commands the
table never shrinks. -/
theorem Reachable.load_bounded (reachable : net.Reachable) :
    net.Loaded ∧ ∀ commands : List Command,
      (∀ command ∈ commands, ∀ source, command = .overwrite source → source.Reachable) →
      ∃ after, net.runAll commands = .ok after ∧ after.Loaded ∧ net.buckets ≤ after.buckets := by
  refine ⟨reachable.loaded, fun commands sources => ?_⟩
  obtain ⟨after, ran, reached⟩ := reachable.runAll sources
  exact ⟨after, ran, reached.loaded, buckets_runAll ran⟩

/-- A large table stays when a network with a small one is copied into it, and when it is
cleared. -/
theorem load_bounded_copied :
    (withBuckets 3000).Loaded ∧ ∃ after,
      (withBuckets 3000).runAll [.addPort "p" 1, .addInput 0 0, .overwrite (withBuckets 0), .clear]
        = .ok after ∧ after.Loaded ∧ 4096 ≤ after.buckets := by
  obtain ⟨loaded, runs⟩ := (Reachable.withBuckets 3000).load_bounded
  obtain ⟨after, ran, loadedAfter, larger⟩ := runs
    [.addPort "p" 1, .addInput 0 0, .overwrite (withBuckets 0), .clear] (by
      simp only [List.mem_cons, List.not_mem_nil, or_false, forall_eq_or_imp, forall_eq,
        reduceCtorEq, false_implies, implies_true, true_and, and_true, Command.overwrite.injEq]
      rintro _ rfl
      exact .withBuckets 0)
  have size : (withBuckets 3000).buckets = 4096 := by decide +kernel
  exact ⟨loaded, after, ran, loadedAfter, size ▸ larger⟩

end Network

end GateNet
