import GateNet.Network.Copy
import GateNet.Network.Redefine
import GateNet.Network.Prune

/-!
# Commands

A `Command` is one request that may change a network; `Network.run` carries it out.  These are all
the ways in which a network changes, so a network that commands make from an empty one keeps every
invariant that each command keeps.  Asking for the depth is among them because the network
remembers the answer.
-/

namespace GateNet

/-- A request that may change a network. -/
inductive Command
  | rename (name : String)
  | addPort (name : String) (width : Nat)
  | addInput (port : PortId) (bit : Nat)
  | addOutput (port : PortId) (bit : Nat)
  | addElement (family : Family) (name : String)
  | addGate (gate : Gate) (s t : Signal)
  | combine (op : Network.Operator) (signals : List Signal)
  | drive (id : NodeId) (signal : Signal)
  | redefine (id : NodeId) (gate : Gate) (s t : Signal)
  | eraseGate (id : NodeId)
  | eraseElement (family : Family) (id : ElementId)
  | prune
  | clear
  | overwrite (source : Network)
  | depth

/-- What a command answers. -/
inductive Reply
  | unit
  | number (value : Nat)
  | signal (value : Signal)
  deriving DecidableEq, Repr

namespace Network

def run (net : Network) : Command → Except Fault (Outcome Reply)
  | .rename name => .ok (.done .unit (net.rename name))
  | .addPort name width =>
      let (id, net) := net.addPort name width
      .ok (.done (.number id) net)
  | .addInput port bit => return (← net.addInput port bit).map .number
  | .addOutput port bit => return (← net.addOutput port bit).map .number
  | .addElement family name => do
      let (id, net) ← net.addElement family name
      return .done (.number id) net
  | .addGate gate s t => return (← net.addGate gate s t).map .signal
  | .combine op signals => return (← net.combine op signals).map .signal
  | .drive id signal => return (← net.drive id signal).map fun _ => .unit
  | .redefine id gate s t => return (← net.redefine id gate s t).map .signal
  | .eraseGate id => return (← net.eraseGate id).map fun _ => .unit
  | .eraseElement family id => return (← net.eraseElement family id).map fun _ => .unit
  | .prune => return (← net.prune).map .number
  | .clear => .ok (.done .unit net.clear)
  | .overwrite source => return (← net.overwrite source).map fun _ => .unit
  | .depth => do
      let (depth, net) ← net.depth
      return .done (.number depth) net

end Network

end GateNet
