import GateNet.Normal
import GateNet.Proofs.Circuit

/-!
# Normal forms denote requests

The normal form of a request denotes the same Boolean function of the node values, and no two
normal forms denote the same function: which nodes the function is sensitive to tells its
operands, and its values tell the gate and the polarity.
-/

namespace GateNet

/-- The keys of normal forms: two different operands in order, and a gate that depends on both and
is `false` on `(false, false)`. -/
structure Key.Proper (key : Key) : Prop where
  ordered : key.first < key.second
  grounded : key.gate.at00 = false
  needsFirst : key.gate.dependsOnFirst = true
  needsSecond : key.gate.dependsOnSecond = true

/-- The request that a gate with a key carries out. -/
def Key.request (key : Key) : Request :=
  ⟨key.gate, .positive key.first, .positive key.second⟩

theorem Key.reads_request {key : Key} {d : NodeId} :
    key.request.Reads d ↔ key.first = d ∨ key.second = d := by
  simp [request, Request.Reads]

theorem Key.eval_request (key : Key) (v : NodeId → Bool) :
    key.request.eval v = key.gate.eval (v key.first) (v key.second) := by
  simp [request, Request.eval, Signal.eval, Signal.positive]

@[simp] theorem Unary.eval_signal (u : Unary) (id : NodeId) (v : NodeId → Bool) :
    (u.signal id).eval v = u.eval (v id) := by
  cases u <;>
    simp [signal, eval, Signal.eval, Signal.zero, Signal.one, Signal.constant, Signal.positive,
      Signal.negative]

theorem Unary.node_signal {u : Unary} {id d : NodeId} (read : (u.signal id).node = some d) :
    d = id := by
  cases u <;> simp_all [signal, Signal.zero, Signal.one, Signal.constant, Signal.positive,
    Signal.negative]

namespace Normal

def eval (v : NodeId → Bool) : Normal → Bool
  | .settled s => s.eval v
  | .keyed key inverted => key.request.eval v ^^ inverted

/-- The word that a normal form denotes when the nodes carry the given words. -/
def word (v : NodeId → Word) : Normal → Word
  | .settled s => s.word v
  | .keyed key inverted => Signal.polarize inverted (key.request.word v)

def invert : Normal → Normal
  | .settled s => .settled s.invert
  | .keyed key inverted => .keyed key (!inverted)

/-- A keyed normal form has a proper key. -/
def Proper : Normal → Prop
  | .settled _ => True
  | .keyed key _ => key.Proper

@[simp] theorem eval_invert (v : NodeId → Bool) (n : Normal) : n.invert.eval v = !n.eval v := by
  cases n <;> simp [invert, eval]

theorem proper_invert {n : Normal} (proper : n.Proper) : n.invert.Proper := by
  cases n <;> exact proper

/-! ## Soundness -/

/-- The table with the inverters absorbed, on the bare node values, does what the gate does on the
signals. -/
theorem eval_absorb (gate : Gate) (a b : Option NodeId) (i j : Bool) (x y : Bool) :
    (absorb gate ⟨a, i⟩ ⟨b, j⟩).eval x y = gate.eval (x ^^ i) (y ^^ j) := by
  cases i <;> cases j <;> simp [absorb, Gate.eval_invertFirst, Gate.eval_invertSecond]

theorem eval_order (gate : Gate) (a b : NodeId) (v : NodeId → Bool) :
    (order gate a b).eval v = gate.eval (v a) (v b) := by
  unfold order
  split
  all_goals
    cases inverted : gate.at00 <;>
      simp [eval, Key.eval_request, Gate.eval_swap, Gate.eval_complement]

/-- The normal form of a request denotes the function that the request denotes. -/
theorem eval_ofRequest (gate : Gate) (s t : Signal) (v : NodeId → Bool) :
    (ofRequest gate s t).eval v = gate.eval (s.eval v) (t.eval v) := by
  obtain ⟨a, i⟩ := s
  obtain ⟨b, j⟩ := t
  have absorbed := eval_absorb gate a b i j
  simp only [ofRequest]
  -- From here on only the table counts, whatever polarities it absorbed.
  generalize absorb gate ⟨a, i⟩ ⟨b, j⟩ = table at absorbed
  cases a with
  | none =>
    cases b with
    | none =>
      have := absorbed false false
      simpa [eval, Signal.eval, Signal.constant, Gate.eval] using this
    | some y =>
      rw [eval, Unary.eval_signal, Gate.eval_fixFirst, absorbed]
      rfl
  | some x =>
    cases b with
    | none =>
      rw [eval, Unary.eval_signal, Gate.eval_fixSecond, absorbed]
      rfl
    | some y =>
      simp only
      split
      · next same =>
        subst same
        rw [eval, Unary.eval_signal, Gate.eval_diagonal, absorbed]
        rfl
      · split
        · next irrelevant =>
          -- The second operand never matters, so it may be taken to be `false`.
          have : table.eval (v x) (v y) = table.eval (v x) false := by
            simp only [Gate.dependsOnSecond] at irrelevant
            cases v x <;> cases v y <;> simp_all [Gate.eval]
          rw [eval, Unary.eval_signal, Gate.eval_fixSecond, ← this, absorbed]
          rfl
        · split
          · next irrelevant =>
            have : table.eval (v x) (v y) = table.eval false (v y) := by
              simp only [Gate.dependsOnFirst] at irrelevant
              cases v x <;> cases v y <;> simp_all [Gate.eval]
            rw [eval, Unary.eval_signal, Gate.eval_fixFirst, ← this, absorbed]
            rfl
          · rw [eval_order, absorbed]
            rfl

theorem word_ofRequest (gate : Gate) (s t : Signal) (v : NodeId → Word) :
    (ofRequest gate s t).word v = gate.evalWords (s.word v) (t.word v) := by
  apply BitVec.eq_of_getLsbD_eq
  intro k small
  rw [Gate.getLsbD_evalWords _ _ _ _ small, Signal.getLsbD_word v s small,
    Signal.getLsbD_word v t small, ← eval_ofRequest]
  cases ofRequest gate s t with
  | settled r => exact Signal.getLsbD_word v r small
  | keyed key inverted =>
    rw [word, Signal.getLsbD_polarize _ _ small, Request.getLsbD_word v _ small, eval]

theorem grounded_complement (gate : Gate) (needsFirst : gate.dependsOnFirst = true)
    (needsSecond : gate.dependsOnSecond = true) :
    let grounded := if gate.at00 then gate.complement else gate
    grounded.at00 = false ∧ grounded.dependsOnFirst = true ∧ grounded.dependsOnSecond = true := by
  obtain ⟨p, q, r, s⟩ := gate
  revert p q r s
  decide

theorem keyed_of_order {gate : Gate} {a b : NodeId} (different : a ≠ b)
    (needsFirst : gate.dependsOnFirst = true) (needsSecond : gate.dependsOnSecond = true) :
    ∃ key inverted, order gate a b = .keyed key inverted ∧ key.Proper ∧
      ((key.first = a ∧ key.second = b) ∨ (key.first = b ∧ key.second = a)) := by
  obtain ⟨grounded, first, second⟩ := grounded_complement gate needsFirst needsSecond
  unfold order
  split
  · next swapped =>
    exact ⟨_, _, rfl, ⟨swapped, grounded, second, first⟩, .inr ⟨rfl, rfl⟩⟩
  · next straight =>
    have ordered : a < b := Nat.lt_of_le_of_ne (Nat.not_lt.mp straight) different
    exact ⟨_, _, rfl, ⟨ordered, grounded, first, second⟩, .inl ⟨rfl, rfl⟩⟩

/-- A normal form is a signal over the operands of the request, or a proper key of both. -/
theorem ofRequest_cases (gate : Gate) (s t : Signal) :
    (∃ r, ofRequest gate s t = .settled r ∧
      ∀ d, r.node = some d → s.node = some d ∨ t.node = some d) ∨
    (∃ key inverted, ofRequest gate s t = .keyed key inverted ∧ key.Proper ∧
      ((s.node = some key.first ∧ t.node = some key.second) ∨
        (s.node = some key.second ∧ t.node = some key.first))) := by
  obtain ⟨a, i⟩ := s
  obtain ⟨b, j⟩ := t
  simp only [ofRequest]
  generalize absorb gate ⟨a, i⟩ ⟨b, j⟩ = table
  cases a with
  | none =>
    cases b with
    | none => exact .inl ⟨_, rfl, fun d read => by cases read⟩
    | some y => exact .inl ⟨_, rfl, fun d read => .inr (Unary.node_signal read ▸ rfl)⟩
  | some x =>
    cases b with
    | none => exact .inl ⟨_, rfl, fun d read => .inl (Unary.node_signal read ▸ rfl)⟩
    | some y =>
      simp only
      split
      · exact .inl ⟨_, rfl, fun d read => .inl (Unary.node_signal read ▸ rfl)⟩
      · next different =>
        split
        · exact .inl ⟨_, rfl, fun d read => .inl (Unary.node_signal read ▸ rfl)⟩
        · next needsSecond =>
          split
          · exact .inl ⟨_, rfl, fun d read => .inr (Unary.node_signal read ▸ rfl)⟩
          · next needsFirst =>
            obtain ⟨key, inverted, made, proper, operands⟩ :=
              keyed_of_order different (by simpa using needsFirst) (by simpa using needsSecond)
            refine .inr ⟨key, inverted, made, proper, ?_⟩
            rcases operands with ⟨rfl, rfl⟩ | ⟨rfl, rfl⟩
            · exact .inl ⟨rfl, rfl⟩
            · exact .inr ⟨rfl, rfl⟩

theorem proper_ofRequest (gate : Gate) (s t : Signal) : (ofRequest gate s t).Proper := by
  rcases ofRequest_cases gate s t with ⟨r, made, _⟩ | ⟨key, inverted, made, proper, _⟩
  · rw [made]
    trivial
  · rw [made]
    exact proper

/-! ## Uniqueness -/

/-- Some values of the other nodes let the function change with the node. -/
def Sensitive (f : (NodeId → Bool) → Bool) (x : NodeId) : Prop :=
  ∃ v, f (Function.update v x false) ≠ f (Function.update v x true)

theorem sensitive_signal (s : Signal) (x : NodeId) :
    Sensitive (fun v => s.eval v) x ↔ s.node = some x := by
  obtain ⟨node, inverted⟩ := s
  cases node with
  | none => simp [Sensitive, Signal.eval]
  | some id =>
    by_cases same : id = x
    · simp [Sensitive, Signal.eval, same]
    · simp [Sensitive, Signal.eval, same]

theorem sensitive_key {key : Key} (proper : key.Proper) (inverted : Bool) (x : NodeId) :
    Sensitive (fun v => key.request.eval v ^^ inverted) x ↔ x = key.first ∨ x = key.second := by
  obtain ⟨gate, first, second⟩ := key
  obtain ⟨ordered, _, needsFirst, needsSecond⟩ := proper
  simp only at ordered needsFirst needsSecond
  have apart : first ≠ second := Nat.ne_of_lt ordered
  simp only [Sensitive, Key.eval_request, ne_eq, Bool.xor_left_inj]
  constructor
  · rintro ⟨v, changes⟩
    by_contra outside
    push Not at outside
    simp [Function.update_of_ne (Ne.symm outside.1), Function.update_of_ne (Ne.symm outside.2)]
      at changes
  · rintro (rfl | rfl)
    · simp only [Gate.dependsOnFirst, Bool.or_eq_true, bne_iff_ne] at needsFirst
      rcases needsFirst with low | high
      · exact ⟨fun _ => false, by simpa [Function.update_of_ne apart.symm, Gate.eval] using low⟩
      · exact ⟨fun _ => true, by simpa [Function.update_of_ne apart.symm, Gate.eval] using high⟩
    · simp only [Gate.dependsOnSecond, Bool.or_eq_true, bne_iff_ne] at needsSecond
      rcases needsSecond with low | high
      · exact ⟨fun _ => false, by simpa [Function.update_of_ne apart, Gate.eval] using low⟩
      · exact ⟨fun _ => true, by simpa [Function.update_of_ne apart, Gate.eval] using high⟩

theorem signal_eq_of_eval {s t : Signal} (same : ∀ v, s.eval v = t.eval v) : s = t := by
  have nodes : s.node = t.node := by
    apply Option.ext
    intro x
    rw [← sensitive_signal, ← sensitive_signal]
    simp only [same]
  obtain ⟨a, i⟩ := s
  obtain ⟨b, j⟩ := t
  obtain rfl : a = b := nodes
  have polarity := same fun _ => false
  cases a <;> simpa [Signal.eval] using polarity

/-- Proper keys that denote one function, each with a polarity, are one key with one polarity. -/
theorem key_eq_of_eval {key other : Key} (proper : key.Proper) (proper' : other.Proper)
    {i j : Bool} (same : ∀ v, (key.request.eval v ^^ i) = (other.request.eval v ^^ j)) :
    key = other ∧ i = j := by
  -- The operands of a key are the nodes that the function is sensitive to.
  have operands : ∀ x, (x = key.first ∨ x = key.second) ↔ (x = other.first ∨ x = other.second) := by
    intro x
    rw [← sensitive_key proper i, ← sensitive_key proper' j]
    simp only [same]
  obtain ⟨g, a, b⟩ := key
  obtain ⟨g', a', b'⟩ := other
  have ordered := proper.ordered
  have ordered' := proper'.ordered
  simp only at operands ordered ordered'
  obtain ⟨rfl, rfl⟩ : a = a' ∧ b = b' := by
    have ha := (operands a).mp (.inl rfl)
    have hb := (operands b).mp (.inr rfl)
    have ha' := (operands a').mpr (.inl rfl)
    grind
  -- The operands are different nodes, so the values of the function give the whole table.
  have values : ∀ x y, (g.eval x y ^^ i) = (g'.eval x y ^^ j) := by
    intro x y
    have := same fun id => if id = a then x else y
    simpa [Key.eval_request, Nat.ne_of_gt ordered] using this
  -- Both tables start with `false`, so the polarity shows at `(false, false)`.
  have polarity : i = j := by
    have grounded := proper.grounded
    have grounded' := proper'.grounded
    simpa [Gate.eval, show g.at00 = false from grounded, show g'.at00 = false from grounded']
      using values false false
  subst polarity
  have tables : ∀ x y, g.eval x y = g'.eval x y := by simpa using values
  have := tables false false
  have := tables true false
  have := tables false true
  have := tables true true
  obtain ⟨p, q, r, s⟩ := g
  obtain ⟨p', q', r', s'⟩ := g'
  simp_all [Gate.eval]

/-- A function that a signal denotes is denoted by no proper key. -/
theorem signal_ne_key {s : Signal} {key : Key} (proper : key.Proper) {i : Bool}
    (same : ∀ v, s.eval v = (key.request.eval v ^^ i)) : False := by
  have operands : ∀ x, s.node = some x ↔ x = key.first ∨ x = key.second := by
    intro x
    rw [← sensitive_signal, ← sensitive_key proper i]
    simp only [same]
  have first := (operands key.first).mpr (.inl rfl)
  have second := (operands key.second).mpr (.inr rfl)
  rw [first, Option.some.injEq] at second
  exact Nat.ne_of_lt proper.ordered second

theorem eq_of_eval {m n : Normal} (proper : m.Proper) (proper' : n.Proper)
    (same : ∀ v, m.eval v = n.eval v) : m = n := by
  cases m with
  | settled s =>
    cases n with
    | settled t => rw [signal_eq_of_eval same]
    | keyed key j => exact (signal_ne_key proper' same).elim
  | keyed key i =>
    cases n with
    | settled t => exact (signal_ne_key proper fun v => (same v).symm).elim
    | keyed other j =>
      obtain ⟨rfl, rfl⟩ := key_eq_of_eval proper proper' same
      rfl

/-- Requests that denote one function have one normal form. -/
theorem ofRequest_eq_of_eval {p q : Request} (same : ∀ v, q.eval v = p.eval v) :
    ofRequest q.gate q.left q.right = ofRequest p.gate p.left p.right := by
  apply eq_of_eval (proper_ofRequest ..) (proper_ofRequest ..)
  intro v
  rw [eval_ofRequest, eval_ofRequest]
  exact same v

theorem ofRequest_eq_invert_of_eval {p q : Request} (opposite : ∀ v, q.eval v = !p.eval v) :
    ofRequest q.gate q.left q.right = (ofRequest p.gate p.left p.right).invert := by
  apply eq_of_eval (proper_ofRequest ..) (proper_invert (proper_ofRequest ..))
  intro v
  rw [eval_invert, eval_ofRequest, eval_ofRequest]
  exact opposite v

end Normal

end GateNet
