import GateNet.Proofs.Audit
import GateNet.Proofs.TableSize

/-!
# Sessions

In a session several networks are made, changed, copied and asked.  After each action everything that
can be asked of every network is written down, together with the answer to the action.  Two sessions
that start with twins write down the same, so neither the table of a network nor what lies in its
dead slots is ever observed.
-/

namespace GateNet

/-! ## What can be asked -/

/-- The answers to all questions about a network.  How gates are linked is not among them, and
neither is the number of buckets. -/
structure View where
  name : String
  ports : Array Port
  /-- The live nodes, without their links. -/
  node? : NodeId → Option Node
  bound : Nat
  size : Nat
  element? : Family → ElementId → Option Element
  order : Family → Array ElementId
  registry : Registry → Array NodeId
  driversFirst : Except Fault (List NodeId)
  readersFirst : Except Fault (List NodeId)
  depths : Except Fault (Array Nat)
  evaluate : List Word → Except Failure (List Word)
  audit : Except Failure Unit
  walk : Walk
  /-- What any walk, also one that began on another network, visits next on this one. -/
  next : Walk → Except Fault (Option NodeId × Walk)

namespace Network

def view (net : Network) : View where
  name := net.name
  ports := net.ports
  node? id := (net.node? id).map Node.unlinked
  bound := net.nodes.bound
  size := net.nodes.size
  element? := net.element?
  order family := (net.bank family).order
  registry := net.registry
  driversFirst := net.driversFirst
  readersFirst := net.readersFirst
  depths := net.depths
  evaluate := net.evaluate
  audit := net.audit
  walk := .ofOutputs net
  next w := w.next net

theorem Twins.view_eq {sizing : Sizing} {one two : Network} (twins : Twins sizing one two) :
    one.view = two.view := by
  obtain ⟨left, right, alike⟩ := twins
  have node? : (fun id => (one.node? id).map Node.unlinked) =
      fun id => (two.node? id).map Node.unlinked := funext alike.nodes.looks
  have size : one.nodes.size = two.nodes.size := congrArg Ids.count alike.nodes.ids
  have element? : one.element? = two.element? :=
    funext fun family => funext fun id => alike.element? family id
  have order : (fun family => (one.bank family).order) = fun family => (two.bank family).order :=
    funext fun family => (alike.bank family).order
  have registry : one.registry = two.registry := funext alike.registry
  have next : (fun w : Walk => w.next one) = fun w => w.next two := funext alike.next
  simp only [Network.view, alike.name, alike.ports, node?, alike.bound, size, element?, order,
    registry, alike.driversFirst, alike.readersFirst, alike.depths, alike.evaluate, left.audit,
    right.audit, Walk.ofOutputs, alike.outputs, next]

end Network

/-! ## Sessions -/

/-- Networks, by their numbers. -/
abbrev Session := List Network

/-- What is done in a session. -/
inductive Action
  /-- Makes a network with at least the given number of buckets. -/
  | create (buckets : Nat)
  | run (target : Nat) (command : Command)
  /-- Replaces a network by a copy of another one of the session. -/
  | copy (target source : Nat)
  | duplicate (source : Nat)

namespace Session

/-- Takes over what a command made of a network; a fault leaves no new network behind. -/
def settle (session : Session) (target : Nat) :
    Except Fault (Outcome Reply) → Option (Except Failure Reply) × Session
  | .ok outcome => (some (outcome.answer.mapError .refused), session.set target outcome.network)
  | .error fault => (some (.error (.faulted fault)), session)

/-- The answer to an action, and the networks afterwards.  A new network is answered by its number,
and an action on a network that was never made is not answered. -/
def act (session : Session) : Action → Option (Except Failure Reply) × Session
  | .create buckets =>
      (some (.ok (.number session.length)), session ++ [.withBuckets buckets])
  | .run target command =>
      match session[target]? with
      | some net => session.settle target (net.run command)
      | none => (none, session)
  | .copy target source =>
      match session[target]?, session[source]? with
      | some net, some src => session.settle target (net.run (.overwrite src))
      | _, _ => (none, session)
  | .duplicate source =>
      match session[source]? with
      | some src =>
          match src.duplicate with
          | .ok copy => (some (.ok (.number session.length)), session ++ [copy])
          | .error failure => (some (.error failure), session)
      | none => (none, session)

/-- What is written down after an action: the answer, and what is observed of each network. -/
def exchange {α : Type} (observe : Network → α) (session : Session) (action : Action) :
    (Option (Except Failure Reply) × List α) × Session :=
  let (answer, next) := session.act action
  ((answer, next.map observe), next)

/-- What is observed at the start, and what is written down after each action. -/
def transcript {α : Type} (observe : Network → α) (session : Session) (actions : List Action) :
    List α × List (Option (Except Failure Reply) × List α) :=
  (session.map observe, (replay (exchange observe) session actions).1)

end Session

/-! ## Sessions of twins -/

section

variable {α β : Type} {R : α → β → Prop} {xs : List α} {ys : List β}

theorem forall₂_getElem? (related : List.Forall₂ R xs ys) (i : Nat) :
    (xs[i]? = none ∧ ys[i]? = none) ∨ ∃ x y, xs[i]? = some x ∧ ys[i]? = some y ∧ R x y := by
  induction related generalizing i with
  | nil => exact .inl ⟨rfl, rfl⟩
  | cons first rest inductionHypothesis =>
    cases i with
    | zero => exact .inr ⟨_, _, rfl, rfl, first⟩
    | succ i => exact inductionHypothesis i

theorem forall₂_set (related : List.Forall₂ R xs ys) (i : Nat) {x : α} {y : β} (new : R x y) :
    List.Forall₂ R (xs.set i x) (ys.set i y) := by
  induction related generalizing i with
  | nil => exact .nil
  | cons first rest inductionHypothesis =>
    cases i with
    | zero => exact .cons new rest
    | succ i => exact .cons first (inductionHypothesis i)

theorem forall₂_push (related : List.Forall₂ R xs ys) {x : α} {y : β} (new : R x y) :
    List.Forall₂ R (xs ++ [x]) (ys ++ [y]) :=
  List.rel_append related (.cons new .nil)

theorem map_eq_of_forall₂ {γ : Type} {f : α → γ} {g : β → γ} (related : List.Forall₂ R xs ys)
    (same : ∀ x y, R x y → f x = g y) : xs.map f = ys.map g := by
  induction related with
  | nil => rfl
  | cons first _ inductionHypothesis =>
    rw [List.map_cons, List.map_cons, same _ _ first, inductionHypothesis]

end

namespace Session

open Network

variable {sizing : Sizing} {one two : Session}

theorem settle_together (related : List.Forall₂ (Twins sizing) one two) (target : Nat)
    {result result' : Except Fault (Outcome Reply)} (safe : Safe result) (safe' : Safe result')
    (agree : Agree (Outcome.Matches (Twins sizing)) result result') :
    Together (List.Forall₂ (Twins sizing)) (one.settle target result)
      (two.settle target result') := by
  obtain ⟨outcome, made, _⟩ := safe
  obtain ⟨outcome', made', _⟩ := safe'
  obtain ⟨answer, twins⟩ := agree _ _ made made'
  rw [made, made']
  refine ⟨?_, forall₂_set related target twins⟩
  show some (outcome.answer.mapError Failure.refused) = some (outcome'.answer.mapError .refused)
  rw [answer]

/-- One action is answered alike and leaves twins. -/
theorem act_together (related : List.Forall₂ (Twins sizing) one two) {action : Action}
    (sources : ∀ target source, action = .run target (.overwrite source) → source.Sound) :
    Together (List.Forall₂ (Twins sizing)) (one.act action) (two.act action) := by
  have length := related.length_eq
  cases action with
  | create buckets =>
    have twins : (withBuckets buckets).Twins sizing (withBuckets buckets) :=
      ⟨sound_withBuckets buckets, sound_withBuckets buckets,
        alike_withBuckets (sizing.created buckets)⟩
    exact ⟨by rw [act, act, length], forall₂_push related twins⟩
  | run target command =>
    unfold act
    rcases forall₂_getElem? related target with ⟨absent, absent'⟩ | ⟨net, net', held, held', twins⟩
    · simp only [absent, absent']
      exact ⟨rfl, related⟩
    · simp only [held, held']
      have sound : ∀ source, command = .overwrite source → source.Sound :=
        fun source same => sources target source (by rw [same])
      exact settle_together related target (safe_run twins.left sound) (safe_run twins.right sound)
        (twins.run sound)
  | copy target source =>
    unfold act
    rcases forall₂_getElem? related target with ⟨absent, absent'⟩ | ⟨net, net', held, held', twins⟩
    · simp only [absent, absent']
      exact ⟨rfl, related⟩
    · rcases forall₂_getElem? related source with
        ⟨absent, absent'⟩ | ⟨src, src', heldSrc, heldSrc', twinSrc⟩
      · simp only [held, held', absent, absent']
        exact ⟨rfl, related⟩
      · simp only [held, held', heldSrc, heldSrc']
        refine settle_together related target
          (safe_run twins.left fun _ same => Command.overwrite.inj same ▸ twinSrc.left)
          (safe_run twins.right fun _ same => Command.overwrite.inj same ▸ twinSrc.right) ?_
        exact (Twins.overwrite twinSrc.alike twins.left twins.right twins.alike.sizes).map _
  | duplicate source =>
    unfold act
    rcases forall₂_getElem? related source with ⟨absent, absent'⟩ | ⟨src, src', held, held', twins⟩
    · simp only [absent, absent']
      exact ⟨rfl, related⟩
    · obtain ⟨_, _, _, _, _, copy, made, _⟩ := duplicate_spec twins.left
      obtain ⟨_, _, _, _, _, copy', made', _⟩ := duplicate_spec twins.right
      simp only [held, held', made, made', length]
      exact ⟨rfl, forall₂_push related (twins.duplicate _ _ made made')⟩

/-- Sessions that start with twins write down the same of everything that twins have in common. -/
theorem transcript_eq {α : Type} {observe : Network → α}
    (common : ∀ net net', Twins sizing net net' → observe net = observe net')
    (related : List.Forall₂ (Twins sizing) one two) {actions : List Action}
    (sources : ∀ target source, .run target (.overwrite source) ∈ actions → source.Reachable) :
    one.transcript observe actions = two.transcript observe actions := by
  have exchanged : ∀ action ∈ actions, ∀ one two, List.Forall₂ (Twins sizing) one two →
      Together (List.Forall₂ (Twins sizing)) (exchange observe one action)
        (exchange observe two action) := by
    intro action listed one two related
    obtain ⟨answer, related⟩ := act_together related fun target source same =>
      (sources target source (same ▸ listed)).sound
    exact ⟨congrArg₂ Prod.mk answer (map_eq_of_forall₂ related common), related⟩
  unfold transcript
  rw [(replay_together exchanged related).1, map_eq_of_forall₂ related common]

end Session

/-! ## What is never observed -/

namespace Network

/-- The number of buckets is not observed: whatever a session does with a network and with copies of
it, everything that can be asked is the same for any two numbers of buckets at the start. -/
theorem buckets_unobservable (m n : Nat) (actions : List Action)
    (sources : ∀ target source, .run target (.overwrite source) ∈ actions → source.Reachable) :
    Session.transcript view [withBuckets m] actions =
      Session.transcript view [withBuckets n] actions := by
  have twins : (withBuckets m).Twins .any (withBuckets n) :=
    ⟨sound_withBuckets m, sound_withBuckets n, alike_withBuckets trivial⟩
  exact Session.transcript_eq (fun _ _ twins => twins.view_eq) (.cons twins .nil) sources

/-- One gate is asked for twice, and the network is copied over and copied: the answers are those of
a network with eight times as many buckets. -/
theorem buckets_unobservable_shared :
    ∃ actions, (∀ target source, .run target (.overwrite source) ∈ actions → source.Reachable) ∧
      (Session.transcript view [withBuckets 0] actions).2.map Prod.fst =
        [some (.ok (.number 0)), some (.ok (.number 0)), some (.ok (.number 1)),
          some (.ok (.signal (.positive 2))), some (.ok (.signal (.negative 2))),
          some (.ok .unit), some (.ok (.number 1)), none] ∧
      (withBuckets 5000).buckets = 8 * (withBuckets 0).buckets ∧
      Session.transcript view [withBuckets 0] actions =
        Session.transcript view [withBuckets 5000] actions := by
  have sources : ∀ target source, Action.run target (.overwrite source) ∈
      [.run 0 (.addPort "p" 2), .run 0 (.addInput 0 0), .run 0 (.addInput 0 1),
        .run 0 (.addGate .and (.positive 0) (.positive 1)),
        .run 0 (.addGate Gate.and.complement (.positive 1) (.positive 0)),
        .run 0 (.overwrite (withBuckets 3)), .duplicate 0, .copy 1 2] → source.Reachable := by
    intro target source listed
    obtain ⟨_, rfl⟩ : target = 0 ∧ source = withBuckets 3 := by simpa using listed
    exact .withBuckets 3
  exact ⟨_, sources, by decide +kernel, by decide +kernel, buckets_unobservable 0 5000 _ sources⟩

/-- A cleared network cannot be told from a new one with as many buckets, and the number of its
buckets stays the same as well. -/
theorem clear_like_new {net : Network} (reachable : net.Reachable) (actions : List Action)
    (sources : ∀ target source, .run target (.overwrite source) ∈ actions → source.Reachable) :
    Session.transcript (fun net => (net.view, net.buckets)) [net.clear] actions =
      Session.transcript (fun net => (net.view, net.buckets)) [withBuckets net.buckets] actions := by
  have twins : net.clear.Twins .same (withBuckets net.buckets) :=
    ⟨sound_clear reachable.sound, sound_withBuckets net.buckets,
      alike_cleared net reachable.extent_new.symm⟩
  refine Session.transcript_eq (fun net net' twins => ?_) (.cons twins .nil) sources
  have size : net.buckets = net'.buckets := congrArg Extent.size twins.alike.sizes
  rw [twins.view_eq, size]

/-- A network with a gate and an element is cleared; the records in its eight slots are not seen
again when it is used anew. -/
theorem clear_like_new_after_use :
    ∃ net, (withBuckets 0).runAll [.addPort "p" 2, .addInput 0 0, .addInput 0 1,
        .addElement .latch "l", .addGate .and (.positive 0) (.positive 1),
        .drive 3 (.negative 7), .depth] = .ok net ∧ net.clear.nodes.capacity = 8 ∧
      Session.transcript (fun net => (net.view, net.buckets)) [net.clear]
          [.run 0 (.addElement .flipFlop "q"), .run 0 (.addPort "p" 1), .run 0 (.addInput 0 0),
            .run 0 (.addGate .xor (.positive 0) (.negative 5)), .run 0 .depth, .create 0, .copy 0 1] =
        Session.transcript (fun net => (net.view, net.buckets)) [withBuckets net.buckets]
          [.run 0 (.addElement .flipFlop "q"), .run 0 (.addPort "p" 1), .run 0 (.addInput 0 0),
            .run 0 (.addGate .xor (.positive 0) (.negative 5)), .run 0 .depth, .create 0,
            .copy 0 1] := by
  refine exists_runAll (fun net => net.clear.nodes.capacity) 8 (by simp) (by decide +kernel) ?_
  intro net reached capacity
  exact ⟨capacity, clear_like_new reached _ (by simp)⟩

end Network

end GateNet
