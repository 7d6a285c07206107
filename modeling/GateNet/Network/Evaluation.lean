import GateNet.Network.Order

/-!
# Evaluation

A network is evaluated on sixty-four patterns at once: one word for each node of input kind, in
the order of the registry, gives one word for each node of output kind.
-/

namespace GateNet

namespace Network

/-- Enters the words of the inputs. -/
def enterInputs (net : Network) (words : List Word) : Except Fault (Array Word) :=
  (net.inputs.toList.zip words).foldlM (fun values (id, word) => storeAt values id word)
    (Array.replicate net.nodes.bound 0)

/-- Enters the word of a gate, once those of its drivers are entered. -/
def enterGate (net : Network) (values : Array Word) (id : NodeId) :
    Except Fault (Array Word) := do
  let node ← net.nodes.fetch id
  match node.gateOperands with
  | none => return values
  | some (a, b) => storeAt values id (node.gate.evalWords (← fetchAt values a) (← fetchAt values b))

/-- The word that an output reads. -/
def readOutput (net : Network) (values : Array Word) (id : NodeId) : Except Fault Word := do
  let node ← net.nodes.fetch id
  let word ←
    match node.first with
    | none => pure 0
    | some driver => fetchAt values driver
  return if node.inverted then ~~~word else word

/-- The words of all nodes, by their ids. -/
def values (net : Network) (words : List Word) : Except Fault (Array Word) := do
  let inputs ← net.enterInputs words
  let order ← net.driversFirst
  order.foldlM net.enterGate inputs

/-- The words of the outputs, from those of the inputs. -/
def outputWords (net : Network) (words : List Word) : Except Fault (List Word) := do
  let values ← net.values words
  net.outputs.toList.mapM (net.readOutput values)

/-- One word for each output, from one word for each input. -/
def evaluate (net : Network) (words : List Word) : Except Failure (List Word) :=
  if words.length = net.inputs.size then liftM (net.outputWords words)
  else .error (.refused (.inputCount net.inputs.size words.length))

end Network

end GateNet
