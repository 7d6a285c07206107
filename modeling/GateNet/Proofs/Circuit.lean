import GateNet.Gate
import GateNet.Signal
import Mathlib.Logic.Function.Basic
import Mathlib.Logic.Relation
import Mathlib.Order.WellFounded

/-!
# Circuits of requests

A circuit gives some ids a request: a gate applied to two signals.  It forgets how a network
stores its gates and is what evaluation means.  On an acyclic circuit every equation system
between the values of the ids has exactly one solution, which covers words, depths and expression
trees alike, and `Yields` evaluates a signal recursively.
-/

namespace GateNet

/-- A gate applied to two signals. -/
structure Request where
  gate : Gate
  left : Signal
  right : Signal
  deriving DecidableEq, Repr

namespace Signal

/-- The value of a signal when the nodes have the given values. -/
def eval (v : NodeId → Bool) (s : Signal) : Bool :=
  (match s.node with | none => false | some id => v id) ^^ s.inverted

/-- A word, complemented when the flag is set. -/
def polarize (inverted : Bool) (word : Word) : Word :=
  if inverted then ~~~word else word

/-- The word on a signal when the nodes carry the given words. -/
def word (v : NodeId → Word) (s : Signal) : Word :=
  polarize s.inverted (match s.node with | none => 0 | some id => v id)

theorem getLsbD_polarize (inverted : Bool) (word : Word) {k : Nat} (small : k < 64) :
    (polarize inverted word).getLsbD k = (word.getLsbD k ^^ inverted) := by
  cases inverted <;> simp [polarize, small]

theorem getLsbD_word (v : NodeId → Word) (s : Signal) {k : Nat} (small : k < 64) :
    (s.word v).getLsbD k = s.eval fun id => (v id).getLsbD k := by
  rw [word, getLsbD_polarize _ _ small, eval]
  cases s.node with
  | none => simp
  | some id => rfl

theorem word_congr {v w : NodeId → Word} {s : Signal} (same : ∀ d, s.node = some d → v d = w d) :
    s.word v = s.word w := by
  obtain ⟨node, inverted⟩ := s
  cases node with
  | none => rfl
  | some id => simp [word, same id rfl]

@[simp] theorem eval_invert (v : NodeId → Bool) (s : Signal) : s.invert.eval v = !s.eval v := by
  simp [eval, invert]

@[simp] theorem word_xor (v : NodeId → Word) (s : Signal) (flag : Bool) :
    (s.xor flag).word v = polarize flag (s.word v) := by
  obtain ⟨node, inverted⟩ := s
  cases flag <;> cases inverted <;> simp [word, xor, polarize]

@[simp] theorem node_positive (id : NodeId) : (positive id).node = some id := rfl

end Signal

namespace Request

/-- The Boolean function of node values that a request denotes. -/
def eval (v : NodeId → Bool) (r : Request) : Bool :=
  r.gate.eval (r.left.eval v) (r.right.eval v)

/-- The word that a request denotes when the nodes carry the given words. -/
def word (v : NodeId → Word) (r : Request) : Word :=
  r.gate.evalWords (r.left.word v) (r.right.word v)

def Reads (r : Request) (d : NodeId) : Prop :=
  r.left.node = some d ∨ r.right.node = some d

theorem getLsbD_word (v : NodeId → Word) (r : Request) {k : Nat} (small : k < 64) :
    (r.word v).getLsbD k = r.eval fun id => (v id).getLsbD k := by
  rw [word, Gate.getLsbD_evalWords _ _ _ _ small, Signal.getLsbD_word v _ small,
    Signal.getLsbD_word v _ small, eval]

/-- What a request denotes depends only on the nodes that it reads. -/
def Local {α : Type} (meaning : Request → (NodeId → α) → α) : Prop :=
  ∀ r v w, (∀ d, r.Reads d → v d = w d) → meaning r v = meaning r w

theorem local_word : Local fun r v => r.word v := by
  intro r v w same
  simp only [word]
  rw [Signal.word_congr fun d read => same d (.inl read),
    Signal.word_congr fun d read => same d (.inr read)]

end Request

/-- Which ids are gates, and the request of each. -/
abbrev Circuit := NodeId → Option Request

namespace Circuit

def Reads (C : Circuit) (id d : NodeId) : Prop :=
  ∃ r, C id = some r ∧ r.Reads d

/-- Whether a node is another one, or a gate above it. -/
def Depends (C : Circuit) : NodeId → NodeId → Prop :=
  Relation.ReflTransGen C.Reads

/-- Every gate ranks above the nodes that it reads. -/
def Ranked (C : Circuit) (rank : NodeId → Nat) : Prop :=
  ∀ id d, C.Reads id d → rank d < rank id

/-- The gates can be ranked. -/
def Acyclic (C : Circuit) : Prop :=
  ∃ rank, C.Ranked rank

/-- The values of all ids follow from those of the gates' operands and those of the sources. -/
def Solves {α : Type} (C : Circuit) (meaning : Request → (NodeId → α) → α) (source : NodeId → α)
    (v : NodeId → α) (id : NodeId) : Prop :=
  v id = match C id with
    | some r => meaning r v
    | none => source id

section Solutions

variable {α : Type} {C : Circuit} {meaning : Request → (NodeId → α) → α} {source : NodeId → α}

/-- An acyclic circuit has values for all ids at once. -/
theorem exists_solution (acyclic : C.Acyclic) (reads : Request.Local meaning) :
    ∃ v, ∀ id, C.Solves meaning source v id := by
  obtain ⟨rank, ranked⟩ := acyclic
  classical
  -- The recursion descends in rank; values at higher ranks are never asked for.
  let value : NodeId → α := (measure rank).wf.fix fun id below =>
    match C id with
    | some r => meaning r fun d => if lower : rank d < rank id then below d lower else source d
    | none => source id
  refine ⟨value, fun id => ?_⟩
  have unfolded := (measure rank).wf.fix_eq (C := fun _ => α) (fun id below =>
    match C id with
    | some r => meaning r fun d => if lower : rank d < rank id then below d lower else source d
    | none => source id) id
  unfold Solves
  cases held : C id with
  | none => exact unfolded.trans (by simp only [held])
  | some r =>
    refine unfolded.trans ?_
    simp only [held]
    apply reads
    intro d read
    rw [dif_pos (ranked id d ⟨r, held, read⟩)]

/-- Two systems that agree on a set of ids which is closed under reading have the same values
there. -/
theorem solution_unique {D : Circuit} (acyclic : C.Acyclic) (reads : Request.Local meaning)
    {member : NodeId → Prop} (closed : ∀ id d, member id → C.Reads id d → member d)
    (agree : ∀ id, member id → D id = C id) {other : NodeId → α}
    (sources : ∀ id, member id → C id = none → other id = source id) {v w : NodeId → α}
    (left : ∀ id, member id → C.Solves meaning source v id)
    (right : ∀ id, member id → D.Solves meaning other w id) :
    ∀ id, member id → v id = w id := by
  obtain ⟨rank, ranked⟩ := acyclic
  intro id
  -- By induction on the rank: equal operands give equal values.
  induction id using (measure rank).wf.induction with
  | _ id inductionHypothesis =>
    intro inside
    have equation := left id inside
    have equation' := right id inside
    unfold Solves at equation equation'
    rw [agree id inside] at equation'
    cases held : C id with
    | none =>
      rw [held] at equation equation'
      exact equation.trans ((sources id inside held).symm.trans equation'.symm)
    | some r =>
      rw [held] at equation equation'
      refine equation.trans (.trans (reads r v w fun d read => ?_) equation'.symm)
      exact inductionHypothesis d (ranked id d ⟨r, held, read⟩) (closed id d inside ⟨r, held, read⟩)

end Solutions

/-! ## Giving one gate another request -/

/-- A gate can be given operands that do not depend on it without closing a cycle. -/
theorem Acyclic.update {C : Circuit} (acyclic : C.Acyclic) {id : NodeId} {r : Request}
    (apart : ∀ d, r.Reads d → ¬ C.Depends d id) : Acyclic (Function.update C id (some r)) := by
  obtain ⟨rank, ranked⟩ := acyclic
  classical
  -- What depends on the gate is lifted above the new operands.
  let lift := 1 + max (r.left.node.elim 0 rank) (r.right.node.elim 0 rank)
  have below : ∀ d, r.Reads d → rank d < lift := by
    rintro d (read | read)
    · have : rank d ≤ r.left.node.elim 0 rank := by simp [read]
      omega
    · have : rank d ≤ r.right.node.elim 0 rank := by simp [read]
      omega
  refine ⟨fun x => if C.Depends x id then rank x + lift else rank x, ?_⟩
  rintro x d ⟨q, held, read⟩
  -- The new operands do not depend on the gate, so they are not lifted, and the gate is.
  by_cases same : x = id
  · subst same
    obtain rfl : r = q := by simpa using held
    have low := below d read
    simp only [if_neg (apart d read), if_pos (show C.Depends x x from .refl)]
    omega
  · rw [Function.update_of_ne same] at held
    have low := ranked x d ⟨q, held, read⟩
    -- What reads a lifted node depends on the gate as well, and so it is lifted too.
    by_cases depends : C.Depends d id
    · have : C.Depends x id := .head ⟨q, held, read⟩ depends
      simp only [if_pos depends, if_pos this]
      omega
    · simp only [if_neg depends]
      split <;> omega

theorem Acyclic.not_depends {C : Circuit} (acyclic : C.Acyclic) {id d : NodeId}
    (read : C.Reads id d) : ¬ C.Depends d id := by
  obtain ⟨rank, ranked⟩ := acyclic
  intro depends
  have low := ranked id d read
  have high : rank id ≤ rank d := by
    clear read low
    induction depends using Relation.ReflTransGen.head_induction_on with
    | refl => exact Nat.le_refl _
    | head step _ inductionHypothesis =>
      exact inductionHypothesis.trans (ranked _ _ step).le
  omega

theorem closed_depends {C : Circuit} {member : NodeId → Prop}
    (closed : ∀ id d, member id → C.Reads id d → member d) {id d : NodeId} (inside : member id)
    (depends : C.Depends id d) : member d := by
  induction depends with
  | refl => exact inside
  | tail _ step inductionHypothesis => exact closed _ _ inductionHypothesis step

/-! ## Recursive evaluation -/

/-- The recursive evaluation of a signal: inputs carry the given words, and a gate is evaluated
after its operands. -/
inductive Yields (C : Circuit) (input : NodeId → Option Word) : Signal → Word → Prop
  | constant (inverted : Bool) : Yields C input ⟨none, inverted⟩ (Signal.polarize inverted 0)
  | input {id : NodeId} {word : Word} (inverted : Bool) (held : input id = some word) :
      Yields C input ⟨some id, inverted⟩ (Signal.polarize inverted word)
  | gate {id : NodeId} {r : Request} {a b : Word} (inverted : Bool) (inner : input id = none)
      (held : C id = some r) (left : Yields C input r.left a) (right : Yields C input r.right b) :
      Yields C input ⟨some id, inverted⟩ (Signal.polarize inverted (r.gate.evalWords a b))

/-- A signal evaluates to at most one word. -/
theorem Yields.functional {C : Circuit} {input : NodeId → Option Word} {s : Signal} {a b : Word}
    (first : C.Yields input s a) (second : C.Yields input s b) : a = b := by
  induction first generalizing b with
  | constant => cases second; rfl
  | input inverted held =>
    cases second with
    | input _ held' => rw [Option.some.inj (held.symm.trans held')]
    | gate _ inner => rw [held] at inner; cases inner
  | gate inverted inner held _ _ leftHypothesis rightHypothesis =>
    cases second with
    | input _ held' => rw [held'] at inner; cases inner
    | gate _ _ held' left right =>
      obtain rfl := Option.some.inj (held.symm.trans held')
      rw [leftHypothesis left, rightHypothesis right]

/-- Recursive evaluation reaches the solution of the word equations, on every set of ids that is
closed under reading and has a word for each source. -/
theorem yields_word {C : Circuit} (acyclic : C.Acyclic) {input : NodeId → Option Word}
    {member : NodeId → Prop} (closed : ∀ id d, member id → C.Reads id d → member d)
    (fed : ∀ id, member id → C id = none → (input id).isSome)
    (inner : ∀ id, member id → (C id).isSome → input id = none) {v : NodeId → Word}
    (solves : ∀ id, member id →
      C.Solves (fun r v => r.word v) (fun id => (input id).getD 0) v id)
    {s : Signal} (inside : ∀ d, s.node = some d → member d) :
    C.Yields input s (s.word v) := by
  obtain ⟨rank, ranked⟩ := acyclic
  have node : ∀ id, member id → ∀ inverted,
      C.Yields input ⟨some id, inverted⟩ (Signal.polarize inverted (v id)) := by
    intro id
    -- By induction on the rank: the operands of a gate are evaluated before it.
    induction id using (measure rank).wf.induction with
    | _ id inductionHypothesis =>
      intro inside inverted
      have equation := solves id inside
      unfold Solves at equation
      cases held : C id with
      | none =>
        -- A source has a word, which the equation names.
        obtain ⟨word, given⟩ := Option.isSome_iff_exists.mp (fed id inside held)
        simp only [held, given, Option.getD_some] at equation
        rw [equation]
        exact .input inverted given
      | some r =>
        simp only [held] at equation
        have operand : ∀ s : Signal, (∀ d, s.node = some d → r.Reads d) →
            C.Yields input s (s.word v) := by
          rintro ⟨_ | d, flag⟩ read
          · exact .constant flag
          · have read := read d rfl
            exact inductionHypothesis d (ranked id d ⟨r, held, read⟩)
              (closed id d inside ⟨r, held, read⟩) flag
        rw [equation]
        exact .gate inverted (inner id inside (by simp [held])) held
          (operand r.left fun _ => .inl) (operand r.right fun _ => .inr)
  obtain ⟨_ | id, inverted⟩ := s
  · exact .constant inverted
  · exact node id (inside id rfl) inverted

end Circuit

end GateNet
