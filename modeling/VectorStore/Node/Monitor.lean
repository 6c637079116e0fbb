import VectorStore.Foundation.FiniteMap
import VectorStore.Foundation.Run
import VectorStore.Node.NodeState

/-!
# The monitor of the indexes

At every tick `monitor_indexes` asks for the version of the schema.  When it has changed, the indexes
are discovered, those that are no longer there are deleted from the engine, and the new ones are
added.  A failure makes the monitor forget the version.

With the alter index simulator the monitor ignores the versions of the indexes: an index is deleted
when another one is discovered under its key, and never because it has vanished.  What `node_state` is
told is computed before anything is deleted or added.
-/

namespace VectorStore

/-! ## The indexes of the engine -/

/-- The entries of the engine by their keys, each with the metadata it was made from. -/
structure Indexes where
  vsEntries : AList fun _ : IndexKey => DiscoveredIndex
  ftsEntries : AList fun _ : IndexKey => DiscoveredIndex
  patternEntries : AList fun _ : IndexKey => DiscoveredIndex

namespace Indexes

def new : Indexes := ⟨∅, ∅, ∅⟩

variable (s : Indexes)

/-- The entries of a kind. -/
def entries : IndexKind → AList fun _ : IndexKey => DiscoveredIndex
  | .vs => s.vsEntries
  | .fts => s.ftsEntries
  | .pattern => s.patternEntries

def containsKey (key : IndexKey) : Bool :=
  (s.vsEntries.lookup key).isSome || (s.ftsEntries.lookup key).isSome ||
    (s.patternEntries.lookup key).isSome

/-- `insert_vs`, `insert_fts` and `insert_pattern`. -/
def insert (key : IndexKey) (metadata : DiscoveredIndex) : Indexes :=
  match metadata.kind with
  | .vs => { s with vsEntries := s.vsEntries.insert key metadata }
  | .fts => { s with ftsEntries := s.ftsEntries.insert key metadata }
  | .pattern => { s with patternEntries := s.patternEntries.insert key metadata }

/-- `remove`: the first entry of the key. -/
def remove (key : IndexKey) : Indexes :=
  if (s.vsEntries.lookup key).isSome then { s with vsEntries := s.vsEntries.erase key }
  else if (s.ftsEntries.lookup key).isSome then { s with ftsEntries := s.ftsEntries.erase key }
  else { s with patternEntries := s.patternEntries.erase key }

/-- `add_index` of the engine, which fails or not.  An index whose key is there is not added, and
that is no failure. -/
def addIndex (metadata : DiscoveredIndex) (fails : Bool) : Indexes × Bool :=
  if s.containsKey metadata.key then (s, true)
  else if fails then (s, false)
  else (s.insert metadata.key metadata, true)

/-- The engine holds an index under a key. -/
def Holds (key : IndexKey) (metadata : DiscoveredIndex) : Prop :=
  ∃ kind, (s.entries kind).lookup key = some metadata

end Indexes

/-! ## The monitor -/

/-- The version of the schema that was seen last; nil when there is none. -/
structure SchemaVersion where
  version : Uuid

namespace SchemaVersion

def new : SchemaVersion := ⟨0⟩

/-- `has_changed`, for what `latest_schema_version` answers. -/
def hasChanged (self : SchemaVersion) : Option Uuid → SchemaVersion × Option Uuid
  | none => (self, none)
  | some version => if self.version = version then (self, none) else (⟨version⟩, some version)

def reset (_ : SchemaVersion) : SchemaVersion := ⟨0⟩

end SchemaVersion

namespace MonitorIndexes

/-- `del_indexes`: the engine once it has taken the `DelIndex` messages.  They stand before every later
`AddIndex` in its queue. -/
def delIndexes (engine : Indexes) (idxs : List DiscoveredIndex) : Indexes :=
  idxs.foldl (fun engine idx => engine.remove idx.key) engine

/-- `add_indexes`: the engine, the indexes that were added and whether there were failures. -/
def addIndexes (fails : DiscoveredIndex → Bool) (engine : Indexes) :
    List DiscoveredIndex → Indexes × List DiscoveredIndex × Bool
  | [] => (engine, [], false)
  | idx :: idxs =>
    let (engine, ok) := engine.addIndex idx (fails idx)
    let (engine, added, hasFailures) := addIndexes fails engine idxs
    (engine, if ok then idx :: added else added, !ok || hasFailures)

/-- `filter_disabled_index_kinds`. -/
def filterDisabledIndexKinds (indexes : List DiscoveredIndex) (fulltextIndexes : Bool) :
    List DiscoveredIndex :=
  if fulltextIndexes then indexes else indexes.filter fun idx => idx.kind ≠ .fts

def shouldDelete (newIndexes : List DiscoveredIndex) (idx : DiscoveredIndex) : Bool :=
  idx ∉ newIndexes

def shouldAdd (indexes : List DiscoveredIndex) (idx : DiscoveredIndex) : Bool := idx ∉ indexes

/-- `should_delete_simulator`: the key is discovered with other metadata. -/
def shouldDeleteSimulator (newIndexes : List DiscoveredIndex) (idx : DiscoveredIndex) : Bool :=
  (newIndexes.map DiscoveredIndex.discardVersion).any fun newIdx =>
    idx.discardVersion.key = newIdx.key ∧ idx.discardVersion ≠ newIdx

/-- `should_add_simulator`: the metadata is new. -/
def shouldAddSimulator (indexes : List DiscoveredIndex) (idx : DiscoveredIndex) : Bool :=
  (indexes.map DiscoveredIndex.discardVersion).all fun currIdx => currIdx ≠ idx.discardVersion

/-- `discovered_indexes_simulator`: what the node is told. -/
def discoveredIndexesSimulator (indexes newIndexes : List DiscoveredIndex) :
    Finset DiscoveredIndex :=
  ((indexes.filter fun idx => !shouldDeleteSimulator newIndexes idx) ++
    newIndexes.filter (shouldAddSimulator indexes)).toFinset

/-- The monitor and the engine.  The sets of indexes are lists in the order in which they are gone
through. -/
structure State where
  schemaVersion : SchemaVersion
  indexes : List DiscoveredIndex
  engine : Indexes

/-- What a tick meets. -/
structure Tick where
  /-- What `latest_schema_version` answers. -/
  version : Option Uuid
  /-- What `get_indexes` finds, unless it fails. -/
  discovered : Option (List DiscoveredIndex)
  fulltextIndexes : Bool
  /-- The indexes that the engine fails to add. -/
  fails : DiscoveredIndex → Bool

/-- The indexes that are discovered, without those of a disabled kind. -/
def Tick.newIndexes (tick : Tick) : Option (List DiscoveredIndex) :=
  tick.discovered.map fun indexes => filterDisabledIndexKinds indexes tick.fulltextIndexes

namespace State

def init : State := ⟨.new, [], .new⟩

/-- The engine and the set of the monitor after the indexes were deleted and added, with or without
the simulator. -/
def updateWith (simulator : Bool) (s : State) (newIndexes : List DiscoveredIndex)
    (fails : DiscoveredIndex → Bool) : State × Bool :=
  let forDelete := if simulator then shouldDeleteSimulator newIndexes else shouldDelete newIndexes
  let forAdd := if simulator then shouldAddSimulator else shouldAdd
  let engine := delIndexes s.engine (s.indexes.filter forDelete)
  let indexes := s.indexes.filter fun idx => !forDelete idx
  let (engine, added, hasFailures) := addIndexes fails engine (newIndexes.filter (forAdd indexes))
  (⟨if hasFailures then s.schemaVersion.reset else s.schemaVersion, indexes ++ added, engine⟩,
    hasFailures)

/-- A tick, with or without the simulator, and the events that it sends to `node_state`. -/
def tickWith (simulator : Bool) (s : State) (tick : Tick) : State × List Event :=
  let (schemaVersion, changed) := s.schemaVersion.hasChanged tick.version
  match changed with
  | none => ({ s with schemaVersion }, [])
  | some _ =>
    match tick.newIndexes with
    | none => ({ s with schemaVersion := schemaVersion.reset }, [.discoveringIndexes])
    | some newIndexes =>
      let discovered :=
        if simulator then discoveredIndexesSimulator s.indexes newIndexes else newIndexes.toFinset
      (({ s with schemaVersion }.updateWith simulator newIndexes tick.fails).1,
        [.discoveringIndexes, .indexesDiscovered discovered])

/-- Deleting and adding without the simulator. -/
def update (s : State) (newIndexes : List DiscoveredIndex) (fails : DiscoveredIndex → Bool) :
    State × Bool := s.updateWith false newIndexes fails

/-- A tick without the simulator. -/
def tick (s : State) (tick : Tick) : State := (s.tickWith false tick).1

/-- The tick runs the discovery. -/
def Discovers (s : State) (tick : Tick) : Prop :=
  (s.schemaVersion.hasChanged tick.version).2.isSome

/-- The tick runs the discovery, and it or the addition of an index fails. -/
def Fails (s : State) (tick : Tick) : Prop :=
  s.Discovers tick ∧ ∀ newIndexes ∈ tick.newIndexes, (s.update newIndexes tick.fails).2

end State

end MonitorIndexes

end VectorStore
