import GateNet.Network.Basic

/-!
# Wires

Each wire is recorded twice: the reader names its driver at an operand, and the driver lists the
reader among its fanouts.  `plug` is the one operation on networks that changes wires; it keeps
the two records in step and forgets the remembered depth.
-/

namespace GateNet

namespace Network

/-- Removes the entry of a reader from the fanouts of a driver, which must list it. -/
def withoutFanout (nodes : Store Node) (driver : NodeId) (entry : Fanout) :
    Except Fault (Store Node) := do
  let node ← nodes.fetch driver
  match Fanout.remove? node.fanouts entry with
  | some rest => .ok (nodes.modify driver ({ · with fanouts := rest }))
  | none => .error (.missingFanout driver entry.reader entry.operand.index)

def withFanout (nodes : Store Node) (driver : NodeId) (entry : Fanout) :
    Except Fault (Store Node) :=
  nodes.update driver fun node => { node with fanouts := node.fanouts.push entry }

/-- Gives an operand of a node another driver, or none. -/
def plug (net : Network) (reader : NodeId) (operand : Operand) (driver : Option NodeId) :
    Except Fault Network := do
  let entry : Fanout := ⟨reader, operand⟩
  let node ← net.nodes.fetch reader
  let unplugged ←
    match node.driver operand with
    | some old => withoutFanout net.nodes old entry
    | none => .ok net.nodes
  let assigned := unplugged.modify reader (·.withDriver operand driver)
  let nodes ←
    match driver with
    | some new => withFanout assigned new entry
    | none => .ok assigned
  return { net with nodes, depth? := none }

/-- Lets an output read a signal. -/
def driveOutput (net : Network) (id : NodeId) (signal : Signal) : Except Fault Network := do
  let nodes ← net.nodes.update id ({ · with inverted := signal.inverted })
  plug { net with nodes } id .first signal.node

/-- A constant, an input or a gate may drive other nodes; an output may not. -/
def checkDriver (net : Network) (signal : Signal) : Except Refusal Unit :=
  match signal.node with
  | none => .ok ()
  | some id =>
      match net.node? id with
      | none => .error (.noNode id)
      | some node => if node.isOutput then .error (.unfitDriver id) else .ok ()

/-- Checks that an output may read a signal. -/
def checkDrive (net : Network) (id : NodeId) (signal : Signal) : Except Refusal Unit :=
  match net.node? id with
  | none => .error (.noNode id)
  | some node => if node.isOutput then net.checkDriver signal else .error (.notOutput id)

/-- Lets an output read a signal, if the output and the signal are fit for it. -/
def drive (net : Network) (id : NodeId) (signal : Signal) : Except Fault (Outcome Unit) :=
  net.guarded (liftM (net.checkDrive id signal)) fun _ =>
    return ((), ← net.driveOutput id signal)

end Network

end GateNet
