import GateNet.Proofs.Normal
import Mathlib.Data.Set.Subsingleton

/-!
# Normal forms and what a request depends on

A request depends on the nodes that its normal form reads, and on no others.  So normal forms are
complete: requests have one normal form exactly when they denote one function, and a request is
settled exactly when its function depends on at most one node.
-/

namespace GateNet

/-- The normal form of a request as a whole. -/
def Request.normal (r : Request) : Normal :=
  Normal.ofRequest r.gate r.left r.right

namespace Normal

/-- A normal form reads the node of its signal, or both operands of its key. -/
def Reads : Normal → NodeId → Prop
  | .settled s, x => s.node = some x
  | .keyed key _, x => x = key.first ∨ x = key.second

theorem sensitive_iff_reads {n : Normal} (proper : n.Proper) (x : NodeId) :
    Sensitive (fun v => n.eval v) x ↔ n.Reads x := by
  cases n with
  | settled s => exact sensitive_signal s x
  | keyed key inverted => exact sensitive_key proper inverted x

theorem eval_congr {n : Normal} {v w : NodeId → Bool} (same : ∀ x, n.Reads x → v x = w x) :
    n.eval v = n.eval w := by
  cases n with
  | settled s =>
    obtain ⟨_ | id, inverted⟩ := s
    · rfl
    · simp [eval, Signal.eval, same id rfl]
  | keyed key inverted =>
    simp only [eval, Key.eval_request, same key.first (.inl rfl), same key.second (.inr rfl)]

/-- A settled normal form reads one node at most, and a proper key two. -/
theorem subsingleton_reads_iff {n : Normal} (proper : n.Proper) :
    {x | n.Reads x}.Subsingleton ↔ ∃ s, n = .settled s := by
  cases n with
  | settled s =>
    refine iff_of_true (fun x here y there => ?_) ⟨s, rfl⟩
    exact Option.some.inj (Eq.trans (Eq.symm here) there)
  | keyed key inverted =>
    refine iff_of_false (fun single => ?_) (by rintro ⟨s, ⟨⟩⟩)
    have same : key.first = key.second := single (.inl rfl) (.inr rfl)
    exact Nat.ne_of_lt proper.ordered same

end Normal

namespace Request

variable (p q : Request)

theorem proper_normal : p.normal.Proper :=
  Normal.proper_ofRequest ..

@[simp] theorem eval_normal (v : NodeId → Bool) : p.normal.eval v = p.eval v :=
  Normal.eval_ofRequest ..

theorem normal_eq_iff : p.normal = q.normal ↔ ∀ v, p.eval v = q.eval v := by
  constructor
  · intro same v
    rw [← eval_normal, same, eval_normal]
  · exact fun same => Normal.ofRequest_eq_of_eval same

theorem sensitive_iff_reads_normal (x : NodeId) :
    Normal.Sensitive (fun v => p.eval v) x ↔ p.normal.Reads x := by
  rw [← Normal.sensitive_iff_reads p.proper_normal]
  simp only [eval_normal]

/-- The nodes that a request is sensitive to are all that it depends on. -/
theorem eval_congr_of_sensitive {v w : NodeId → Bool}
    (same : ∀ x, Normal.Sensitive (fun v => p.eval v) x → v x = w x) : p.eval v = p.eval w := by
  rw [← eval_normal, ← eval_normal]
  exact Normal.eval_congr fun x read => same x ((p.sensitive_iff_reads_normal x).mpr read)

theorem exists_settled_iff : (∃ s, p.normal = .settled s) ↔
    {x | Normal.Sensitive (fun v => p.eval v) x}.Subsingleton := by
  simp only [sensitive_iff_reads_normal]
  exact (Normal.subsingleton_reads_iff p.proper_normal).symm

theorem proper_of_keyed {key : Key} {inverted : Bool} (made : p.normal = .keyed key inverted) :
    key.Proper := by
  have proper := p.proper_normal
  rwa [made] at proper

/-- Normal forms are complete.  Requests, over any nodes and constants, have one normal form exactly
when they denote one function of the node values.  The form is a signal exactly when the function is
sensitive to at most one node, and the nodes to which it is sensitive fix its value; the signal
denotes the function.  Otherwise the form is a proper key, two different nodes in order under a gate
that is `false` on two `false` inputs and depends on both, and with its polarity it denotes the
function. -/
theorem normal_complete :
    (∀ q : Request, p.normal = q.normal ↔ ∀ v, p.eval v = q.eval v) ∧
    ((∃ s, p.normal = .settled s) ↔ {x | Normal.Sensitive (fun v => p.eval v) x}.Subsingleton) ∧
    (∀ v w : NodeId → Bool, (∀ x, Normal.Sensitive (fun v => p.eval v) x → v x = w x) →
      p.eval v = p.eval w) ∧
    (∀ s, p.normal = .settled s → ∀ v, s.eval v = p.eval v) ∧
    ∀ key inverted, p.normal = .keyed key inverted → key.Proper ∧
      ∀ v, (key.gate.eval (v key.first) (v key.second) ^^ inverted) = p.eval v := by
  refine ⟨p.normal_eq_iff, p.exists_settled_iff, fun v w => p.eval_congr_of_sensitive,
    fun s made v => ?_, fun key inverted made => ⟨p.proper_of_keyed made, fun v => ?_⟩⟩
  · rw [← eval_normal, made, Normal.eval]
  · rw [← eval_normal, made, Normal.eval, Key.eval_request]

/-- An or-gate over two inverted nodes is an and-gate over the nodes in order, inverted. -/
example : normal ⟨.or, .negative 7, .negative 4⟩ = .keyed ⟨.and, 4, 7⟩ true ∧
    normal ⟨.or, .negative 7, .positive 7⟩ = .settled .one := by
  decide

end Request

end GateNet
