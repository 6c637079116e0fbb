import VectorStore.Node.Monitor

/-!
# The monitor and the node

The monitor and the state of the node that it sends its events to, with or without the simulator.
-/

namespace VectorStore

/-- The monitor with the state of the node. -/
structure MonitoredNode where
  monitor : MonitorIndexes.State
  node : NodeState

namespace MonitoredNode

/-- Before the first tick. -/
def init : MonitoredNode := ⟨.init, .init⟩

/-- A tick of the monitor, or an event of another sender. -/
inductive Action where
  | tick (simulator : Bool) (tick : MonitorIndexes.Tick)
  | event (event : Event)

def step (s : MonitoredNode) : Action → MonitoredNode
  | .tick simulator tick =>
    let (monitor, events) := s.monitor.tickWith simulator tick
    ⟨monitor, Machine.run NodeState.step s.node events⟩
  | .event event => { s with node := s.node.step event }

end MonitoredNode

end VectorStore
