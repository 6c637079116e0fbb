import VectorStore.Node.Monitor
import VectorStore.Node.NodeState

/-!
# The connection to the database

The actor of the database connects when its timer fires without a session, and tells the state of the
node so.  The monitor of the indexes asks for the schema version through the session.  The events of
both reach the state of the node in the order in which they are sent, next to those of the full scans.
-/

namespace VectorStore

namespace Connection

/-- Where the monitor is with a tick. -/
inductive Phase where
  | idle
  /-- The schema version has changed. -/
  | changed
  /-- `get_indexes` runs. -/
  | listing
  /-- The indexes are deleted and added. -/
  | updating
deriving DecidableEq

structure State where
  node : NodeState
  session : Bool
  /-- A connection is being attempted. -/
  connecting : Bool
  schemaVersion : SchemaVersion
  phase : Phase
  /-- The last tick found a session and learned the schema version, and no connection has been
  attempted since. -/
  connected : Bool

/-- A step of the actor of the database, of the monitor or of a full scan. -/
inductive Action where
  /-- The timer fires without a session: `create_session` begins. -/
  | connect
  /-- The attempt ends, and the statements are prepared. -/
  | connected (ok : Bool)
  /-- A CDC error or a change of the configuration cancels the session. -/
  | cancel
  /-- A tick of the monitor, with what `latest_schema_version` answers. -/
  | tick (version : Option Uuid)
  | discover
  /-- `get_indexes` returns. -/
  | list (discovered : Option (Finset DiscoveredIndex))
  /-- The indexes were deleted and added. -/
  | update (hasFailures : Bool)
  | scanStarted (metadata : DiscoveredIndex)
  | scanFinished (metadata : DiscoveredIndex)
deriving DecidableEq

namespace State

def init : State := ⟨.init, false, false, .new, .idle, false⟩

variable (s : State)

/-- An event is sent to the state of the node. -/
def sendEvent (event : Event) : State := { s with node := s.node.step event }

/-- The tick of the monitor up to `has_changed`. -/
def tick (version : Option Uuid) : State :=
  let (schemaVersion, changed) := s.schemaVersion.hasChanged version
  { s with
    schemaVersion
    phase := if changed.isSome then .changed else .idle
    connected := version.isSome || s.connected }

/-- The tick after `get_indexes`. -/
def list (discovered : Option (Finset DiscoveredIndex)) : State :=
  match discovered with
  | none => { s with schemaVersion := s.schemaVersion.reset, phase := .idle }
  | some indexes => { s.sendEvent (.indexesDiscovered indexes) with phase := .updating }

end State

/-- The state after a step. -/
def step (s : State) : Action → State
  | .connect => { s.sendEvent .connectingToDb with connecting := true, connected := false }
  | .connected ok =>
    if ok then { s.sendEvent .connectedToDb with connecting := false, session := true }
    else { s with connecting := false }
  | .cancel => { s with session := false }
  | .tick version => s.tick version
  | .discover => { s.sendEvent .discoveringIndexes with phase := .listing }
  | .list discovered => s.list discovered
  | .update hasFailures =>
    { s with
      schemaVersion := if hasFailures then s.schemaVersion.reset else s.schemaVersion
      phase := .idle }
  | .scanStarted metadata => s.sendEvent (.fullScanStarted metadata)
  | .scanFinished metadata => s.sendEvent (.fullScanFinished metadata)

/-- When a step can be taken.  The schema version can only be learned through a session, and it is not
nil. -/
def Enabled (s : State) : Action → Prop
  | .connect => s.session = false ∧ s.connecting = false
  | .connected _ => s.connecting
  | .cancel => s.connecting = false
  | .tick version => s.phase = .idle ∧ (version.isSome → s.session) ∧ version ≠ some 0
  | .discover => s.phase = .changed
  | .list _ => s.phase = .listing
  | .update _ => s.phase = .updating
  | .scanStarted _ | .scanFinished _ => True

instance (s : State) (a : Action) : Decidable (Enabled s a) := by
  cases a <;> unfold Enabled <;> infer_instance

end Connection

end VectorStore
