import GateNet.Proofs.Evaluation
import GateNet.Proofs.Search

/-!
# Settled parts of a layout

While a network is rebuilt, part of it has its final words already.  A settled part is closed
under reading and its words solve the equations, so they are the words of every evaluation of the
whole layout.  Realizing a request over a settled part settles the signal that carries it.
-/

namespace GateNet

/-- A set of nodes that is closed under reading, with words that solve its equations. -/
structure Settled (L : Layout) (source : NodeId → Word) (member : NodeId → Prop)
    (g : NodeId → Word) : Prop where
  drives : ∀ {x}, member x → L.MayDrive x
  closed : ∀ {x d}, member x → L.circuit.Reads x d → member d
  solves : ∀ {x}, member x → L.circuit.Solves (fun r v => r.word v) source g x

/-- A signal that reads a settled part has a word there. -/
structure Carried (member : NodeId → Prop) (g : NodeId → Word) (s : Signal) (word : Word) : Prop where
  inside : ∀ d, s.node = some d → member d
  word_eq : s.word g = word

theorem Carried.mono {member more : NodeId → Prop} {g g' : NodeId → Word} {s : Signal} {word : Word}
    (carried : Carried member g s word) (grown : ∀ {x}, member x → more x ∧ g' x = g x) :
    Carried more g' s word where
  inside d read := (grown (carried.inside d read)).1
  word_eq := by
    rw [← carried.word_eq]
    exact Signal.word_congr fun d read => (grown (carried.inside d read)).2

namespace Layout

theorem solves_gate_iff {α : Type} {L : Layout} {meaning : Request → (NodeId → α) → α}
    {source v : NodeId → α} {id : NodeId} {key : Key} (keyed : L.key? id = some key) :
    L.circuit.Solves meaning source v id ↔ v id = meaning key.request v := by
  rw [Circuit.Solves, circuit_of_key? keyed]

theorem circuit_congr {L M : Layout} {id : NodeId} (same : M id = L id) :
    M.circuit id = L.circuit id := by
  rw [circuit, circuit, key?, key?, same]

theorem reads_congr {L M : Layout} {id d : NodeId} (same : M id = L id) :
    M.circuit.Reads id d ↔ L.circuit.Reads id d := by
  rw [Circuit.Reads, Circuit.Reads, circuit_congr same]

theorem solves_congr {α : Type} {L M : Layout} {meaning : Request → (NodeId → α) → α}
    {source v : NodeId → α} {id : NodeId} (same : M id = L id) :
    M.circuit.Solves meaning source v id ↔ L.circuit.Solves meaning source v id := by
  rw [Circuit.Solves, Circuit.Solves, circuit_congr same]

end Layout

namespace Settled

variable {L M : Layout} {source : NodeId → Word} {member : NodeId → Prop} {g : NodeId → Word}

theorem congr (settled : Settled L source member g) (same : ∀ {x}, member x → M x = L x) :
    Settled M source member g where
  drives inside := by
    obtain ⟨n, held, drives⟩ := settled.drives inside
    exact ⟨n, (same inside).trans held, drives⟩
  closed inside read := settled.closed inside ((Layout.reads_congr (same inside)).mp read)
  solves inside := (Layout.solves_congr (same inside)).mpr (settled.solves inside)

theorem of_depends (settled : Settled L source member g) {x d : NodeId} (inside : member x)
    (depends : L.circuit.Depends x d) : member d :=
  Circuit.closed_depends (fun _ _ => settled.closed) inside depends

/-- Every solution on all nodes that may drive has the words of a settled part. -/
theorem eq_of_solves (settled : Settled L source member g) (acyclic : L.circuit.Acyclic)
    {v : NodeId → Word}
    (solves : ∀ x, L.MayDrive x → L.circuit.Solves (fun r v => r.word v) source v x) {x : NodeId}
    (inside : member x) : v x = g x :=
  Circuit.solution_unique acyclic Request.local_word (fun _ _ => settled.closed) (fun _ _ => rfl)
    (fun _ _ _ => rfl) (fun x inside => solves x (settled.drives inside))
    (fun _ inside => settled.solves inside) x inside

/-- A gate over settled operands can be settled, unless it is settled already. -/
theorem adjoin (settled : Settled L source member g) {x : NodeId} {key : Key}
    (keyed : L.key? x = some key) (first : member key.first) (second : member key.second) :
    ∃ more g', Settled L source more g' ∧ (∀ {y}, member y → more y ∧ g' y = g y) ∧
      more x ∧ g' x = key.request.word g ∧ ∀ {y}, more y → member y ∨ y = x := by
  -- A gate that is settled already has the word, because it solves the same equation.
  by_cases inside : member x
  · exact ⟨member, g, settled, fun inside => ⟨inside, rfl⟩, inside,
      (Layout.solves_gate_iff keyed).mp (settled.solves inside), .inl⟩
  · have kept : ∀ {y}, member y → Function.update g x (key.request.word g) y = g y := by
      intro y inside'
      rw [Function.update_of_ne]
      rintro rfl
      exact inside inside'
    have operand : ∀ {d}, key.first = d ∨ key.second = d → member d := by
      rintro d (rfl | rfl)
      · exact first
      · exact second
    refine ⟨fun y => member y ∨ y = x, Function.update g x (key.request.word g),
      ⟨fun {y} here => ?_, fun {y d} here read => ?_, fun {y} here => ?_⟩,
      fun inside => ⟨.inl inside, kept inside⟩, .inr rfl, Function.update_self .., id⟩
    · rcases here with here | rfl
      · exact settled.drives here
      · exact (Layout.hasGate_of_key? keyed).mayDrive
    · rcases here with here | rfl
      · exact .inl (settled.closed here read)
      · obtain ⟨other, keyed', read⟩ := Layout.reads_circuit_iff.mp read
        obtain rfl := Option.some.inj (keyed.symm.trans keyed')
        exact .inl (operand read)
    · rcases here with here | rfl
      · -- The old equations read old members only, whose words stay.
        have equation := settled.solves here
        unfold Circuit.Solves at equation ⊢
        rw [kept here, equation]
        cases drives : L.circuit y with
        | none => rfl
        | some r =>
          exact Request.local_word r _ _ fun d read =>
            (kept (settled.closed here ⟨r, drives, read⟩)).symm
      · rw [Layout.solves_gate_iff keyed, Function.update_self]
        exact Request.local_word key.request _ _ fun d read =>
          (kept (operand (Key.reads_request.mp read))).symm

end Settled

namespace Network

/-- A realized request over settled operands is settled, and has the word that it denotes. -/
theorem Realized.settles {net after : Network} {reuse : Option NodeId} {gate : Gate}
    {s t signal : Signal} (realized : net.Realized reuse (.ofRequest gate s t) signal after)
    {source : NodeId → Word} {member : NodeId → Prop} {g : NodeId → Word} {a b : Word}
    (settled : Settled net.nodes.layout source member g) (first : Carried member g s a)
    (second : Carried member g t b) (outside : ∀ id, reuse = some id → ¬ member id) :
    ∃ more g', Settled after.nodes.layout source more g' ∧
      (∀ {y}, member y → more y ∧ g' y = g y) ∧ Carried more g' signal (gate.evalWords a b) ∧
      ∀ {y}, more y → member y ∨ signal.node = some y := by
  -- Only the gate to reuse is changed, and that is not settled.
  have settled' : Settled after.nodes.layout source member g := by
    refine settled.congr fun {x} inside => ?_
    obtain ⟨n, held, _⟩ := settled.drives inside
    rw [held]
    exact realized.layout_of_ne held fun same => outside x same inside
  -- What the normal form denotes on the settled words is what the request denotes.
  have denotes := Normal.word_ofRequest gate s t g
  rw [first.word_eq, second.word_eq] at denotes
  rcases Normal.ofRequest_cases gate s t with ⟨r, made, read⟩ | ⟨key, inverted, made, _, operands⟩
  · rw [made] at realized denotes
    cases realized
    refine ⟨member, g, settled', fun inside => ⟨inside, rfl⟩, ⟨fun d here => ?_, denotes⟩, .inl⟩
    rcases read d here with here | here
    · exact first.inside d here
    · exact second.inside d here
  · rw [made] at realized denotes
    obtain ⟨x, rfl, keyed⟩ := realized.key?
    have inside : member key.first ∧ member key.second := by
      rcases operands with ⟨one, two⟩ | ⟨one, two⟩
      · exact ⟨first.inside _ one, second.inside _ two⟩
      · exact ⟨second.inside _ two, first.inside _ one⟩
    obtain ⟨more, g', settled'', grown, here, value, only⟩ :=
      settled'.adjoin keyed inside.1 inside.2
    refine ⟨more, g', settled'', grown, ⟨fun d same => Option.some.inj same ▸ here, ?_⟩,
      fun inside => (only inside).imp_right fun same => congrArg some same.symm⟩
    rw [← denotes]
    show Signal.polarize inverted (g' x) = Signal.polarize inverted (key.request.word g)
    rw [value]

end Network

end GateNet
