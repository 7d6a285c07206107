import GateNet.Proofs.Meaning

/-!
# Parts of a network

A network is part of another one when its nodes are all there, with what they read, and the inputs
and outputs are the same.  A sound part is closed under reading, so words of the whole are words of
the part: signals of the part have the same words in both, and both evaluate alike.  Building gates
makes a network part of the next one, and dropping gates leaves a part of the one before.
-/

namespace GateNet

namespace Network

variable {part middle whole : Network} {words : List Word} {v : NodeId → Word}

/-- The nodes of a network are nodes of another one, which may have more gates. -/
structure PartOf (part whole : Network) : Prop where
  kept : ∀ {id n}, part.nodes.layout id = some n → whole.nodes.layout id = some n
  inputs : part.inputs = whole.inputs
  outputs : part.outputs = whole.outputs

namespace PartOf

theorem refl (net : Network) : net.PartOf net :=
  ⟨id, rfl, rfl⟩

theorem trans (first : part.PartOf middle) (second : middle.PartOf whole) : part.PartOf whole :=
  ⟨fun held => second.kept (first.kept held), first.inputs.trans second.inputs,
    first.outputs.trans second.outputs⟩

theorem mayDrive (inside : part.PartOf whole) {d : NodeId} (drives : part.nodes.layout.MayDrive d) :
    whole.nodes.layout.MayDrive d := by
  obtain ⟨n, held, notOutput⟩ := drives
  exact ⟨n, inside.kept held, notOutput⟩

theorem fit (inside : part.PartOf whole) {s : Signal} (fit : part.Fit s) : whole.Fit s :=
  fun d read => inside.mayDrive (fit d read)

/-- What solves the equations of the whole solves those of the part. -/
theorem solves (inside : part.PartOf whole) {α : Type} {meaning : Request → (NodeId → α) → α}
    {source w : NodeId → α}
    (solves : ∀ id, whole.nodes.layout.MayDrive id →
      whole.nodes.layout.circuit.Solves meaning source w id) {id : NodeId}
    (drives : part.nodes.layout.MayDrive id) :
    part.nodes.layout.circuit.Solves meaning source w id := by
  obtain ⟨n, held, notOutput⟩ := drives
  exact (Layout.solves_congr ((inside.kept held).trans held.symm)).mp
    (solves id (inside.mayDrive ⟨n, held, notOutput⟩))

/-- Words of the whole are words of the part. -/
theorem carries (inside : part.PartOf whole) (carries : whole.Carries words v) :
    part.Carries words v := by
  have same : whole.inputWord words = part.inputWord words := by
    funext x
    rw [inputWord, inputWord, inside.inputs]
  rw [Carries, same] at carries
  exact fun id => inside.solves carries

theorem sourceOf (inside : part.PartOf whole) {o : NodeId} {n : Node}
    (held : part.nodes.layout o = some n) : whole.sourceOf o = part.sourceOf o := by
  rw [sourceOf_eq held, sourceOf_eq (inside.kept held)]

/-- The part and the whole evaluate alike. -/
theorem evaluate (inside : part.PartOf whole) (soundPart : part.Sound) (soundWhole : whole.Sound)
    (words : List Word) : whole.evaluate words = part.evaluate words := by
  by_cases length : words.length = part.inputs.size
  · obtain ⟨v, carries⟩ := soundWhole.exists_carries words
    rw [evaluate_eq soundWhole (by rw [← inside.inputs, length]) carries,
      evaluate_eq soundPart length (inside.carries carries), inside.outputs]
    refine congrArg Except.ok (List.map_congr_left fun o listed => ?_)
    rw [← inside.outputs] at listed
    obtain ⟨n, held, _⟩ := soundPart.mem_outputs_iff.mp (Array.mem_toList_iff.mp listed)
    rw [inside.sourceOf held]
  · rw [Network.evaluate, Network.evaluate, ← inside.inputs, if_neg length, if_neg length]

/-- A signal of the part has one word in both. -/
theorem exists_evaluates (inside : part.PartOf whole) (soundPart : part.Sound)
    (soundWhole : whole.Sound) (length : words.length = part.inputs.size) {s : Signal}
    (fit : part.Fit s) : ∃ word, part.Evaluates words s word ∧ whole.Evaluates words s word := by
  obtain ⟨v, carries⟩ := soundWhole.exists_carries words
  exact ⟨s.word v, soundPart.evaluates length (inside.carries carries) fit,
    soundWhole.evaluates (by rw [← inside.inputs, length]) carries (inside.fit fit)⟩

end PartOf

theorem Realized.partOf {net after : Network} {n : Normal} {r : Signal}
    (realized : net.Realized none n r after) : net.PartOf after :=
  ⟨fun held => realized.layout_of_ne held nofun, realized.inputs.symm, realized.outputs.symm⟩

end Network

end GateNet
