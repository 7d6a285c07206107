import GateNet.Command
import GateNet.Proofs.Redefine
import GateNet.Proofs.Prune
import GateNet.Proofs.Copy

/-!
# Reachable networks

A network is reachable when commands make it from an empty one, in any order, with any arguments,
and whether they answer or refuse; the source of a copy is itself reachable.  One command keeps a
network sound and does not fault, so every reachable network is sound and takes every command.
-/

namespace GateNet

namespace Network

/-! ## One command -/

/-- A command is safe on a sound network when the networks that it copies are sound. -/
theorem safe_run {net : Network} (sound : net.Sound) {command : Command}
    (sources : ∀ source, command = .overwrite source → source.Sound) : Safe (net.run command) := by
  cases command with
  | rename name => exact safe_done (sound.rename name) _
  | addPort name width => exact safe_done (sound.addPort name width) _
  | addInput port bit => exact (Side.input.safe_add sound port bit).map _
  | addOutput port bit => exact (Side.output.safe_add sound port bit).map _
  | addElement family name =>
    obtain ⟨id, _, after, made, sound', _⟩ := addElement_spec sound family name
    exact ⟨.done (.number id) after, by rw [run, made]; rfl, sound'⟩
  | addGate gate s t => exact (safe_addGate sound gate s t).map _
  | combine op signals => exact (safe_combine sound op signals).map _
  | drive id signal => exact (safe_drive sound id signal).map _
  | redefine id gate s t => exact (safe_redefine sound id gate s t).map _
  | eraseGate id => exact (safe_eraseGate sound id).map _
  | eraseElement family id => exact (safe_eraseElement sound family id).map _
  | prune => exact (safe_prune sound).map _
  | clear => exact safe_done (sound_clear sound) _
  | overwrite source => exact (safe_overwrite sound (sources source rfl)).map _
  | depth =>
    obtain ⟨depth, made, isDepth⟩ := depth_spec sound
    exact ⟨.done (.number depth) _, by rw [run, made]; rfl, sound.remember isDepth⟩

theorem duplicate_spec {src : Network} (sound : src.Sound) :
    ∃ base first order copies second after, src.duplicate = .ok after ∧
      src.Copied base first order copies second after := by
  obtain ⟨base, first, order, copies, second, after, made, copied⟩ :=
    overwrite_spec (sound_withBuckets src.buckets) sound
  exact ⟨base, first, order, copies, second, after, by rw [duplicate, made]; rfl, copied⟩

/-! ## All commands -/

/-- Commands make the network from an empty one. -/
inductive Reachable : Network → Prop
  | withBuckets (buckets : Nat) : Reachable (withBuckets buckets)
  | run {net : Network} {command : Command} {outcome : Outcome Reply} (reachable : Reachable net)
      (sources : ∀ source, command = .overwrite source → Reachable source)
      (ran : net.run command = .ok outcome) : Reachable outcome.network
  | duplicate {source copy : Network} (reachable : Reachable source)
      (made : source.duplicate = .ok copy) : Reachable copy

theorem Reachable.sound {net : Network} (reachable : net.Reachable) : net.Sound := by
  induction reachable with
  | withBuckets buckets => exact sound_withBuckets buckets
  | run _ _ ran sound sources =>
    obtain ⟨outcome, made, sound'⟩ := safe_run sound sources
    obtain rfl := Except.ok.inj (ran.symm.trans made)
    exact sound'
  | duplicate _ made sound =>
    obtain ⟨_, _, _, _, _, after, made', copied⟩ := duplicate_spec sound
    obtain rfl := Except.ok.inj (made.symm.trans made')
    exact copied.readings.sound

/-- Every command on a reachable network is carried out or refused, and leaves a reachable one. -/
theorem Reachable.exists_run {net : Network} (reachable : net.Reachable) {command : Command}
    (sources : ∀ source, command = .overwrite source → source.Reachable) :
    ∃ outcome, net.run command = .ok outcome ∧ outcome.network.Reachable := by
  obtain ⟨outcome, made, _⟩ :=
    safe_run reachable.sound fun source same => (sources source same).sound
  exact ⟨outcome, made, reachable.run sources made⟩

/-- Carries out commands in turn, whatever they answer. -/
def runAll (net : Network) (commands : List Command) : Except Fault Network :=
  commands.foldlM (fun net command => return (← net.run command).network) net

/-- No order of commands faults, and what they leave is reachable. -/
theorem Reachable.runAll {net : Network} (reachable : net.Reachable) {commands : List Command}
    (sources : ∀ command ∈ commands, ∀ source, command = .overwrite source → source.Reachable) :
    ∃ after, net.runAll commands = .ok after ∧ after.Reachable := by
  induction commands generalizing net with
  | nil => exact ⟨net, rfl, reachable⟩
  | cons command rest inductionHypothesis =>
    obtain ⟨outcome, ran, reached⟩ := reachable.exists_run (sources command (.head _))
    obtain ⟨after, ranAll, reached⟩ :=
      inductionHypothesis reached fun later listed => sources later (.tail _ listed)
    refine ⟨after, ?_, reached⟩
    rw [Network.runAll, List.foldlM_cons, ran]
    exact ranAll

/-- What commands make of an empty network may be evaluated first, and used for what follows. -/
theorem exists_runAll {α : Type} {commands : List Command} {holds : Network → Prop}
    (view : Network → α) (seen : α)
    (sources : ∀ command ∈ commands, ∀ source, command = .overwrite source → source.Reachable)
    (evaluated : ((withBuckets 0).runAll commands).toOption.map view = some seen)
    (proved : ∀ net, net.Reachable → view net = seen → holds net) :
    ∃ net, (withBuckets 0).runAll commands = .ok net ∧ holds net := by
  obtain ⟨net, ran, reached⟩ := (Reachable.withBuckets 0).runAll sources
  rw [ran] at evaluated
  exact ⟨net, ran, proved net reached (Option.some.inj evaluated)⟩

end Network

end GateNet
