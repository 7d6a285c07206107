import GateNet.Proofs.Search

/-!
# What may be redefined

Redefining asks conditions in turn: the node is a gate, and each operand is a node that may drive
and that does not depend on the gate.  The check passes when all of them hold, and otherwise it
refuses with the first that fails.
-/

namespace GateNet

/-! ## Conditions in turn -/

/-- What must hold, and the answer where it does not. -/
structure Condition where
  holds : Prop
  refusal : Refusal

/-- A question asks conditions in turn: it ends at the first that fails. -/
inductive Asks : List Condition → Except Failure Unit → Prop
  | passed : Asks [] (.ok ())
  | failed {condition : Condition} {rest : List Condition} (fails : ¬ condition.holds) :
      Asks (condition :: rest) (.error (.refused condition.refusal))
  | met {condition : Condition} {rest : List Condition} {question : Except Failure Unit}
      (holds : condition.holds) (later : Asks rest question) : Asks (condition :: rest) question

namespace Asks

variable {conditions more : List Condition} {question next : Except Failure Unit}

theorem append (asks : Asks conditions question) (later : Asks more next) :
    Asks (conditions ++ more) (question >>= fun _ => next) := by
  induction asks with
  | passed => exact later
  | failed fails => exact .failed fails
  | met holds _ inductionHypothesis => exact .met holds inductionHypothesis

theorem eq_ok_iff (asks : Asks conditions question) :
    question = .ok () ↔ ∀ condition ∈ conditions, condition.holds := by
  induction asks with
  | passed => simp
  | failed fails => simp [fails]
  | met holds _ inductionHypothesis => simp [holds, inductionHypothesis]

/-- The answer is the refusal of the only condition that fails after others that hold. -/
theorem eq_error_iff (asks : Asks conditions question) {refusal : Refusal} :
    question = .error (.refused refusal) ↔
      ∃ before condition after, conditions = before ++ condition :: after ∧
        (∀ earlier ∈ before, earlier.holds) ∧ ¬ condition.holds ∧ condition.refusal = refusal := by
  induction asks with
  | passed => simp
  | @failed first rest fails =>
    constructor
    · intro refused
      cases refused
      exact ⟨[], first, rest, rfl, by simp, fails, rfl⟩
    · rintro ⟨before, condition, after, split, met, _, rfl⟩
      -- The first condition fails, so none stands before the one that is named.
      cases before with
      | nil => rw [(List.cons.inj split).1]
      | cons earlier before =>
        rw [(List.cons.inj split).1] at fails
        exact absurd (met earlier (.head _)) fails
  | @met first rest question holds later inductionHypothesis =>
    rw [inductionHypothesis]
    constructor
    · rintro ⟨before, condition, after, rfl, met, failed⟩
      exact ⟨first :: before, condition, after, rfl, by simpa [holds] using met, failed⟩
    · rintro ⟨before, condition, after, split, met, fails, same⟩
      cases before with
      | nil =>
        rw [(List.cons.inj split).1] at holds
        exact absurd holds fails
      | cons earlier before =>
        exact ⟨before, condition, after, (List.cons.inj split).2,
          fun x listed => met x (.tail _ listed), fails, same⟩

theorem ok_or_refused (asks : Asks conditions question) :
    question = .ok () ∨ ∃ refusal, question = .error (.refused refusal) := by
  induction asks with
  | passed => exact .inl rfl
  | failed => exact .inr ⟨_, rfl⟩
  | met _ _ inductionHypothesis => exact inductionHypothesis

end Asks

namespace Network

variable {net : Network} {id d x : NodeId} {s t : Signal} {n : Node}

/-! ## Along fanouts -/

/-- Whether a node lists another one as a reader. -/
def ReadBy (net : Network) (d x : NodeId) : Prop :=
  ∃ n, net.node? d = some n ∧ ∃ entry ∈ n.fanouts, entry.reader = x

theorem Sound.readBy_iff (sound : net.Sound) : net.ReadBy d x ↔ net.WireTo x d := by
  constructor
  · rintro ⟨n, found, entry, listed, rfl⟩
    exact (mem_readers_iff sound found).mp
      (List.mem_map.mpr ⟨entry, Array.mem_toList_iff.mpr listed, rfl⟩)
  · intro wire
    obtain ⟨m, live, _⟩ := sound.mayDrive_of_wire wire
    obtain ⟨n, found, _⟩ := Store.layout_eq_some_iff.mp live
    obtain ⟨entry, listed, same⟩ := List.mem_map.mp ((mem_readers_iff sound found).mpr wire)
    exact ⟨n, found, entry, Array.mem_toList_iff.mp listed, same⟩

theorem Sound.readBy_eq (sound : net.Sound) : net.ReadBy = Function.swap net.WireTo := by
  funext d x
  exact propext sound.readBy_iff

/-- What may drive is reached along fanouts exactly when it depends on where they start. -/
theorem Sound.reached_iff (sound : net.Sound) (drives : net.nodes.layout.MayDrive d) :
    Relation.ReflTransGen net.ReadBy id d ↔ net.nodes.layout.circuit.Depends d id := by
  rw [sound.readBy_eq, Relation.reflTransGen_swap, sound.depends_iff_wires drives]

/-! ## The conditions -/

/-- The conditions on an operand of a gate; a constant meets them all. -/
def operandConditions (net : Network) (id : NodeId) (s : Signal) : List Condition :=
  match s.node with
  | none => []
  | some d =>
      [⟨∃ n, net.node? d = some n, .noNode d⟩,
        ⟨∃ n, net.node? d = some n ∧ n.isOutput = false, .unfitDriver d⟩,
        ⟨¬ Relation.ReflTransGen net.ReadBy id d, .unfitDriver d⟩]

/-- The conditions on a gate and on its operands, the first one first. -/
def redefineConditions (net : Network) (id : NodeId) (s t : Signal) : List Condition :=
  [⟨∃ n, net.node? id = some n, .noNode id⟩,
    ⟨∃ n, net.node? id = some n ∧ n.isGate = true, .notGate id⟩] ++
    (net.operandConditions id s ++ net.operandConditions id t)

theorem Sound.asks_checkOperand (sound : net.Sound) (found : net.node? id = some n) (s : Signal) :
    Asks (net.operandConditions id s) (net.checkOperand id s) := by
  cases read : s.node with
  | none =>
    simp only [operandConditions, checkOperand, checkDriver, read]
    exact .passed
  | some d =>
    simp only [operandConditions, checkOperand, checkDriver, read]
    cases target : net.node? d with
    | none => exact .failed (by simp)
    | some m =>
      refine .met ⟨m, rfl⟩ ?_
      cases output : m.isOutput with
      | true =>
        simp only [output, if_true]
        exact .failed (by simp [output])
      | false =>
        refine .met ⟨m, rfl, output⟩ ?_
        -- The search is exact for nodes that may drive, and it runs for these only.
        have drives : net.nodes.layout.MayDrive d := ⟨m.core, Store.layout_of_get? target, output⟩
        obtain ⟨answer, searched, exact⟩ := feeds_spec sound (Store.layout_of_get? found) drives
        rw [← sound.reached_iff drives] at exact
        simp only [output, searched]
        cases answer with
        | true => exact .failed (not_not_intro (exact.mp rfl))
        | false => exact .met (fun reached => Bool.false_ne_true (exact.mpr reached)) .passed

theorem Sound.asks_checkRedefine (sound : net.Sound) (id : NodeId) (s t : Signal) :
    Asks (net.redefineConditions id s t) (net.checkRedefine id s t) := by
  rw [redefineConditions, checkRedefine]
  cases found : net.node? id with
  | none => exact .failed (by simp)
  | some n =>
    refine .met ⟨n, rfl⟩ ?_
    cases isGate : n.isGate with
    | false =>
      simp only [isGate, Bool.false_eq_true, if_false]
      exact .failed (by simp [isGate])
    | true =>
      simp only [isGate, if_true]
      exact .met ⟨n, rfl, isGate⟩
        ((sound.asks_checkOperand found s).append (sound.asks_checkOperand found t))

/-! ## Legal changes -/

/-- What a gate may be made to read: another node that may drive and is not reached from it. -/
structure LegalOperand (net : Network) (id d : NodeId) : Prop where
  drives : ∃ n, net.node? d = some n ∧ n.isOutput = false
  other : d ≠ id
  apart : ¬ Relation.TransGen net.ReadBy id d

/-- What may be redefined: a gate, over constants and legal operands. -/
structure LegalChange (net : Network) (id : NodeId) (s t : Signal) : Prop where
  gate : ∃ n, net.node? id = some n ∧ n.isGate = true
  first : ∀ d, s.node = some d → net.LegalOperand id d
  second : ∀ d, t.node = some d → net.LegalOperand id d

theorem holds_operandConditions_iff :
    (∀ condition ∈ net.operandConditions id s, condition.holds) ↔
      ∀ d, s.node = some d → net.LegalOperand id d := by
  cases read : s.node with
  | none => simp [operandConditions, read]
  | some d =>
    simp only [operandConditions, read, List.forall_mem_cons, Option.some.injEq, forall_eq',
      Relation.reflTransGen_iff_eq_or_transGen, not_or]
    constructor
    · rintro ⟨_, drives, ⟨other, apart⟩, _⟩
      exact ⟨drives, other, apart⟩
    · rintro ⟨drives, other, apart⟩
      exact ⟨drives.imp fun _ => And.left, drives, ⟨other, apart⟩, by simp⟩

theorem holds_redefineConditions_iff :
    (∀ condition ∈ net.redefineConditions id s t, condition.holds) ↔ net.LegalChange id s t := by
  simp only [redefineConditions, List.cons_append, List.nil_append, List.forall_mem_cons,
    List.forall_mem_append, holds_operandConditions_iff]
  constructor
  · rintro ⟨_, gate, first, second⟩
    exact ⟨gate, first, second⟩
  · rintro ⟨gate, first, second⟩
    exact ⟨gate.imp fun _ => And.left, gate, first, second⟩

end Network

end GateNet
