/-!
# Gates of two inputs

A `Gate` is the truth table of a Boolean function of two inputs, a `Unary` that of a function of
one.  Fixing one input of a gate, or feeding it the same value twice, leaves a `Unary`.

The table is also written as a number below 16: the value at `(first, second)` is bit
`first + 2 * second`.
-/

namespace GateNet

/-- Sixty-four independent patterns of one Boolean. -/
abbrev Word := BitVec 64

/-- A Boolean function of one variable. -/
inductive Unary
  | zero
  | one
  | identity
  | complement
  deriving DecidableEq, Repr

namespace Unary

/-- The function with the given values at `false` and at `true`. -/
def ofValues : (low high : Bool) → Unary
  | false, false => .zero
  | true, true => .one
  | false, true => .identity
  | true, false => .complement

def eval : Unary → Bool → Bool
  | .zero, _ => false
  | .one, _ => true
  | .identity, v => v
  | .complement, v => !v

theorem eval_ofValues (low high v : Bool) :
    (ofValues low high).eval v = if v then high else low := by
  cases low <;> cases high <;> cases v <;> rfl

end Unary

/-- A Boolean function of two variables, by its values at `(first, second)`. -/
structure Gate where
  at00 : Bool
  at10 : Bool
  at01 : Bool
  at11 : Bool
  deriving DecidableEq, Repr

namespace Gate

/-- The gate whose table is given by the four lowest bits of a number. -/
def ofBits (n : Nat) : Gate :=
  ⟨n.testBit 0, n.testBit 1, n.testBit 2, n.testBit 3⟩

/-- The table as a number below 16. -/
def bits (g : Gate) : Nat :=
  g.at00.toNat + 2 * g.at10.toNat + 4 * g.at01.toNat + 8 * g.at11.toNat

def zero : Gate := ⟨false, false, false, false⟩

def one : Gate := ⟨true, true, true, true⟩

def and : Gate := ⟨false, false, false, true⟩

def or : Gate := ⟨false, true, true, true⟩

def xor : Gate := ⟨false, true, true, false⟩

/-- The first input and not the second. -/
def onlyFirst : Gate := ⟨false, true, false, false⟩

/-- The second input and not the first. -/
def onlySecond : Gate := ⟨false, false, true, false⟩

def eval (g : Gate) : (first second : Bool) → Bool
  | false, false => g.at00
  | true, false => g.at10
  | false, true => g.at01
  | true, true => g.at11

/-- The function applied to each pattern of two words. -/
def evalWords (g : Gate) (a b : Word) : Word :=
  (if g.at00 then ~~~a &&& ~~~b else 0) ||| (if g.at10 then a &&& ~~~b else 0) |||
    (if g.at01 then ~~~a &&& b else 0) ||| (if g.at11 then a &&& b else 0)

/-! ## Inverters and exchange -/

/-- An inverter behind the gate. -/
def complement (g : Gate) : Gate :=
  ⟨!g.at00, !g.at10, !g.at01, !g.at11⟩

/-- An inverter in front of the first input. -/
def invertFirst (g : Gate) : Gate :=
  ⟨g.at10, g.at00, g.at11, g.at01⟩

/-- An inverter in front of the second input. -/
def invertSecond (g : Gate) : Gate :=
  ⟨g.at01, g.at11, g.at00, g.at10⟩

def swap (g : Gate) : Gate :=
  ⟨g.at00, g.at01, g.at10, g.at11⟩

/-! ## Restrictions -/

/-- What remains of the second input once the first is fixed. -/
def fixFirst (g : Gate) (first : Bool) : Unary :=
  .ofValues (g.eval first false) (g.eval first true)

/-- What remains of the first input once the second is fixed. -/
def fixSecond (g : Gate) (second : Bool) : Unary :=
  .ofValues (g.eval false second) (g.eval true second)

/-- What remains when both inputs carry the same value. -/
def diagonal (g : Gate) : Unary :=
  .ofValues g.at00 g.at11

/-- Whether the first input ever matters. -/
def dependsOnFirst (g : Gate) : Bool :=
  g.at00 != g.at10 || g.at01 != g.at11

/-- Whether the second input ever matters. -/
def dependsOnSecond (g : Gate) : Bool :=
  g.at00 != g.at01 || g.at10 != g.at11

/-- Gates are ordered by their numbers. -/
instance : Ord Gate := ⟨fun f g => compare f.bits g.bits⟩

def text (g : Gate) : String :=
  "0x" ++ String.ofList (Nat.toDigits 16 g.bits)

/-! ## Laws -/

theorem ofBits_bits (g : Gate) : ofBits g.bits = g := by
  obtain ⟨a, b, c, d⟩ := g
  revert a b c d
  decide

theorem eval_complement (g : Gate) (a b : Bool) : g.complement.eval a b = !g.eval a b := by
  cases a <;> cases b <;> rfl

theorem eval_invertFirst (g : Gate) (a b : Bool) : g.invertFirst.eval a b = g.eval (!a) b := by
  cases a <;> cases b <;> rfl

theorem eval_invertSecond (g : Gate) (a b : Bool) : g.invertSecond.eval a b = g.eval a (!b) := by
  cases a <;> cases b <;> rfl

theorem eval_swap (g : Gate) (a b : Bool) : g.swap.eval a b = g.eval b a := by
  cases a <;> cases b <;> rfl

theorem eval_fixFirst (g : Gate) (a b : Bool) : (g.fixFirst a).eval b = g.eval a b := by
  cases b <;> simp [fixFirst, Unary.eval_ofValues]

theorem eval_fixSecond (g : Gate) (a b : Bool) : (g.fixSecond b).eval a = g.eval a b := by
  cases a <;> simp [fixSecond, Unary.eval_ofValues]

theorem eval_diagonal (g : Gate) (a : Bool) : g.diagonal.eval a = g.eval a a := by
  cases a <;> simp [diagonal, Unary.eval_ofValues, eval]

theorem getLsbD_evalWords (g : Gate) (a b : Word) (k : Nat) (small : k < 64) :
    (g.evalWords a b).getLsbD k = g.eval (a.getLsbD k) (b.getLsbD k) := by
  simp only [BitVec.getLsbD_eq_getElem small]
  obtain ⟨p, q, r, s⟩ := g
  cases p <;> cases q <;> cases r <;> cases s <;>
    cases ha : a[k] <;> cases hb : b[k] <;> simp [evalWords, eval, ha, hb]

end Gate

end GateNet
