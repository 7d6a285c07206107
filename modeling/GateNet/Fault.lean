/-!
# Faults

A fault is a use of the library that has no answer: an id that names nothing, a value that selects
nothing, a structure whose own bookkeeping contradicts itself.  The ids and the stores of records
say what a step leaves when it faults; from networks on, an operation that faults has no result.

Reading or writing an array at a position outside it is the most common fault, so `fetchAt` and
`storeAt` stand here.

A refusal (`GateNet.Refusal`) is different: it is an answer of a network to a legal question.
-/

namespace GateNet

/-- Why an operation could not be carried out at all. -/
inductive Fault
  /-- An id is given back that is not in use. -/
  | notInUse (id : Nat)
  /-- A slot is read that holds no live record. -/
  | deadSlot (id : Nat)
  /-- A fresh id names a slot that is still live. -/
  | slotTaken (id : Nat)
  /-- A fresh id lies beyond the first slot never used. -/
  | slotGap (id capacity : Nat)
  /-- A number would become negative. -/
  | underflow
  /-- A position lies outside an array. -/
  | outOfRange (size index : Nat)
  /-- A number selects no operand. -/
  | noSuchOperand (value : Nat)
  /-- A driver does not list a reader that names it. -/
  | missingFanout (driver reader operand : Nat)
  /-- A gate is removed while something reads it. -/
  | gateRead (id : Nat)
  /-- A gate is not in the chain of its bucket. -/
  | notChained (id : Nat)
  /-- A bucket's chain runs through more links than there are slots. -/
  | endlessChain
  /-- A walk turns to its next start while nodes still wait. -/
  | earlyStart
  deriving DecidableEq, Repr

def Fault.message : Fault → String
  | .notInUse id => s!"releasing id={id} which is not allocated"
  | .deadSlot id => s!"arena slot {id} is not live"
  | .slotTaken id => s!"slot {id} is handed out twice"
  | .slotGap id capacity => s!"slot {id} is handed out after {capacity} slots"
  | .underflow => "attempt to subtract with overflow"
  | .outOfRange size index =>
      s!"index out of bounds: the len is {size} but the index is {index}"
  | .noSuchOperand value => s!"could not create FaninId from value={value}"
  | .missingFanout driver reader operand =>
      s!"reader {reader}.{operand} is missing from the fanouts of {driver}"
  | .gateRead id => s!"gate {id} is removed while it is read"
  | .notChained id => s!"logic node {id} is missing from the hash table"
  | .endlessChain => "a hash table chain does not end"
  | .earlyStart => "a walk starts again while nodes wait"

/-- The entry at a position, or the fault that there is none. -/
def fetchAt {α : Type} (entries : Array α) (index : Nat) : Except Fault α :=
  match entries[index]? with
  | some entry => .ok entry
  | none => .error (.outOfRange entries.size index)

/-- Replaces the entry at a position, or faults when there is none. -/
def storeAt {α : Type} (entries : Array α) (index : Nat) (entry : α) :
    Except Fault (Array α) :=
  if index < entries.size then .ok (entries.setIfInBounds index entry)
  else .error (.outOfRange entries.size index)

/-- What a step answers and leaves, when nothing is to be said of the state at a fault. -/
def settled {σ α : Type} (step : Except Fault α × σ) : Except Fault (α × σ) :=
  step.1.map fun answer => (answer, step.2)

/-- Two steps succeed when the first does and the second succeeds on its answer. -/
theorem bind_eq_ok_iff {ε α β : Type} {first : Except ε α} {next : α → Except ε β} {answer : β} :
    (first >>= next) = .ok answer ↔ ∃ middle, first = .ok middle ∧ next middle = .ok answer := by
  cases first with
  | error fault => simp [bind, Except.bind]
  | ok middle => simp [bind, Except.bind]

theorem fetchAt_eq_ok_iff {α : Type} {entries : Array α} {index : Nat} {entry : α} :
    fetchAt entries index = .ok entry ↔ entries[index]? = some entry := by
  unfold fetchAt
  split <;> simp_all

end GateNet
