import VectorStore.Foundation.FiniteMap
import VectorStore.Value
import VectorStore.Table.Ids

/-!
# The graph store of a DiskANN index

A node of the graph is absent, live or dead.  A dead node keeps its neighbours until the graph around
it has been repaired.  The providers of the partitions share one store, and hold the vectors of
unfinished inserts and the neighbours of their start point themselves.
-/

namespace VectorStore

namespace Diskann

/-- `START_ID`: no row has this identifier. -/
def startId : PrimaryId := ⟨BitVec.ofNat 64 PrimaryId.reserved⟩

/-- `AdjacencyList::extend_from_slice` of the graph library: elements that are in the list are
skipped. -/
class AdjacencyList where
  extendFromSlice : List PrimaryId → List PrimaryId → List PrimaryId
  extend_nil : ∀ list, extendFromSlice list [] = list
  extend_cons : ∀ list id ids, extendFromSlice list (id :: ids) =
    extendFromSlice (if id ∈ list then list else list ++ [id]) ids

/-! ## Nodes -/

/-- A node that is not absent, with its neighbours. -/
inductive Node where
  | live (neighbors : List PrimaryId)
  | dead (neighbors : List PrimaryId)
deriving DecidableEq

namespace Node

def new : Node := live []

def isLive : Node → Bool
  | live _ => true
  | dead _ => false

def neighbors : Node → List PrimaryId
  | live neighbors | dead neighbors => neighbors

/-- The node with a function applied to its neighbours: what is done with `neighbors_mut`. -/
def modifyNeighbors (f : List PrimaryId → List PrimaryId) : Node → Node
  | live neighbors => live (f neighbors)
  | dead neighbors => dead (f neighbors)

def markDeleted (node : Node) : Node := dead node.neighbors

@[simp] theorem neighbors_modifyNeighbors (f : List PrimaryId → List PrimaryId) (node : Node) :
    (node.modifyNeighbors f).neighbors = f node.neighbors := by
  cases node <;> rfl

end Node

/-! ## The store -/

/-- The node is not in the state that the transition requires. -/
inductive StoreError where
  | conflict
deriving DecidableEq

/-- The graph of an index in memory. -/
structure InmemGraphStore where
  nodes : AList fun _ : PartitionId × PrimaryId => Node
  maxDegree : ℕ

namespace InmemGraphStore

variable (store : InmemGraphStore) (partitionId : PartitionId) (id : PrimaryId)

/-- The node of an identifier, unless it is absent. -/
def node : Option Node := store.nodes.lookup (partitionId, id)

def isLive : Bool := (store.node partitionId id).any Node.isLive

/-- Makes an absent or dead node live, without neighbours. -/
def create : Except StoreError InmemGraphStore :=
  match store.node partitionId id with
  | some node =>
    if !node.isLive then .ok { store with nodes := store.nodes.insert (partitionId, id) .new }
    else .error .conflict
  | none => .ok { store with nodes := store.nodes.insert (partitionId, id) .new }

/-- Marks a live node dead; its neighbours stay. -/
def markDead : Except StoreError InmemGraphStore :=
  match store.node partitionId id with
  | some node =>
    if node.isLive then
      .ok { store with nodes := store.nodes.insert (partitionId, id) node.markDeleted }
    else .error .conflict
  | none => .error .conflict

/-- The neighbours of a node that is not absent. -/
def get : Option (List PrimaryId) := (store.node partitionId id).map Node.neighbors

/-- Empties the neighbours of a live node; a dead one is reaped. -/
def clear : InmemGraphStore :=
  match store.node partitionId id with
  | some node =>
    if !node.isLive then { store with nodes := store.nodes.erase (partitionId, id) }
    else { store with
      nodes := store.nodes.insert (partitionId, id) (node.modifyNeighbors fun _ => []) }
  | none => store

/-- Makes the node absent. -/
def abandon : InmemGraphStore := { store with nodes := store.nodes.erase (partitionId, id) }

variable [AdjacencyList]

/-- Replaces the neighbours of a node that is not absent. -/
def set (edges : List PrimaryId) : InmemGraphStore :=
  { store with nodes := FiniteMap.modify store.nodes (partitionId, id) fun node =>
      node.modifyNeighbors fun _ =>
        (AdjacencyList.extendFromSlice [] edges).take store.maxDegree }

/-- Adds neighbours to a node that is not absent. -/
def append (edges : List PrimaryId) : InmemGraphStore :=
  { store with nodes := FiniteMap.modify store.nodes (partitionId, id) fun node =>
      node.modifyNeighbors fun neighbors =>
        (AdjacencyList.extendFromSlice neighbors edges).take store.maxDegree }

end InmemGraphStore

/-! ## The provider of a partition -/

/-- A provider, without the graph and the source of vectors that it shares. -/
structure ScyllaProvider where
  partitionId : PartitionId
  /-- The vectors of unfinished inserts. -/
  inflight : AList fun _ : PrimaryId => Vector
  start : Vector
  startNeighbors : List PrimaryId
  maxDegree : ℕ
  dim : ℕ

namespace ScyllaProvider

/-- `ScyllaProvider::new`. -/
def new (startPoint : Vector) (dim maxDegree : ℕ) (partitionId : PartitionId) :
    Except String ScyllaProvider :=
  if startPoint.components.length ≠ dim then
    let len := startPoint.components.length
    .error s!"start point has dimension {len} but the index expects {dim}"
  else .ok ⟨partitionId, ∅, startPoint, [], maxDegree, dim⟩

variable (provider : ScyllaProvider) (graph : InmemGraphStore)

def isLive (id : PrimaryId) : Bool := graph.isLive provider.partitionId id

/-! ### Inserts and deletions -/

/-- The first part of `set_element`: the checks and the creation of the node. -/
def setElementCreate (id : PrimaryId) (element : Vector) : Except String InmemGraphStore :=
  let len := element.components.length
  if len ≠ provider.dim then
    let dim := provider.dim
    .error s!"wrong dimension: got {len}, expected {dim}"
  else if id = startId then
    let id := id.word.toNat
    .error s!"id {id} is reserved for the start point"
  else
    match graph.create provider.partitionId id with
    | .error .conflict => .error "id already exists"
    | .ok graph => .ok graph

/-- The second part of `set_element`: the vector is in flight until the guard goes. -/
def setElementInflight (id : PrimaryId) (element : Vector) : ScyllaProvider :=
  { provider with inflight := provider.inflight.insert id element }

/-- What `complete` does, and the first part of `drop`. -/
def removeInflight (id : PrimaryId) : ScyllaProvider :=
  { provider with inflight := provider.inflight.erase id }

/-- `delete`. -/
def delete (id : PrimaryId) : Except String InmemGraphStore :=
  match graph.markDead provider.partitionId id with
  | .error .conflict => .error "id already deleted"
  | .ok graph => .ok graph

/-! ### Neighbours -/

/-- `get_neighbors`. -/
def getNeighbors (id : PrimaryId) : List PrimaryId :=
  if id = startId then provider.startNeighbors
  else (graph.get provider.partitionId id).getD []

variable [AdjacencyList]

/-- `set_neighbors`: no neighbours means to clear the node. -/
def setNeighbors (id : PrimaryId) (neighbors : List PrimaryId) :
    ScyllaProvider × InmemGraphStore :=
  if id = startId then
    let startNeighbors := (AdjacencyList.extendFromSlice [] neighbors).take provider.maxDegree
    ({ provider with startNeighbors }, graph)
  else if neighbors = [] then (provider, graph.clear provider.partitionId id)
  else (provider, graph.set provider.partitionId id neighbors)

/-- `append_vector`. -/
def appendVector (id : PrimaryId) (neighbors : List PrimaryId) :
    ScyllaProvider × InmemGraphStore :=
  if id = startId then
    let startNeighbors :=
      (AdjacencyList.extendFromSlice provider.startNeighbors neighbors).take provider.maxDegree
    ({ provider with startNeighbors }, graph)
  else (provider, graph.append provider.partitionId id neighbors)

end ScyllaProvider

/-! ## The graph and its providers -/

/-- How far an unfinished insert has come. -/
inductive InsertPhase where
  /-- The node was created, the vector is not in flight yet. -/
  | created (element : Vector)
  /-- `set_element` has returned and the caller holds the guard. -/
  | guarded
  /-- The guard is being dropped: the vector is gone, the node is not. -/
  | dropping
deriving DecidableEq

def InsertPhase.isCreated : InsertPhase → Bool
  | created _ => true
  | guarded | dropping => false

/-- The store with the providers that share it and the unfinished inserts. -/
structure GraphSystem where
  store : InmemGraphStore
  providers : PartitionId → ScyllaProvider
  inserts : PartitionId × PrimaryId → Option InsertPhase

namespace GraphSystem

/-- An empty store with a provider for every partition. -/
def init (dim maxDegree : ℕ) (start : PartitionId → Vector) : GraphSystem where
  store := ⟨∅, maxDegree⟩
  providers partitionId := ⟨partitionId, ∅, start partitionId, [], maxDegree, dim⟩
  inserts _ := none

/-- What is done under one lock. -/
inductive Action where
  | setElementCreate (partitionId : PartitionId) (id : PrimaryId) (element : Vector)
  | setElementInflight (partitionId : PartitionId) (id : PrimaryId)
  | complete (partitionId : PartitionId) (id : PrimaryId)
  | dropInflight (partitionId : PartitionId) (id : PrimaryId)
  | dropAbandon (partitionId : PartitionId) (id : PrimaryId)
  | delete (partitionId : PartitionId) (id : PrimaryId)
  | setNeighbors (partitionId : PartitionId) (id : PrimaryId) (neighbors : List PrimaryId)
  | appendVector (partitionId : PartitionId) (id : PrimaryId) (neighbors : List PrimaryId)
deriving DecidableEq

/-- An action can happen.  An identifier is not inserted again before its insert is finished. -/
def Enabled (s : GraphSystem) : Action → Prop
  | .setElementCreate partitionId id _ => s.inserts (partitionId, id) = none
  | .setElementInflight partitionId id =>
    (s.inserts (partitionId, id)).any InsertPhase.isCreated
  | .complete partitionId id | .dropInflight partitionId id =>
    s.inserts (partitionId, id) = some .guarded
  | .dropAbandon partitionId id => s.inserts (partitionId, id) = some .dropping
  | .delete _ _ | .setNeighbors _ _ _ | .appendVector _ _ _ => True

instance (s : GraphSystem) : (action : Action) → Decidable (s.Enabled action)
  | .setElementCreate partitionId id _ =>
    inferInstanceAs (Decidable (s.inserts (partitionId, id) = none))
  | .setElementInflight partitionId id =>
    inferInstanceAs (Decidable ((s.inserts (partitionId, id)).any InsertPhase.isCreated))
  | .complete partitionId id | .dropInflight partitionId id =>
    inferInstanceAs (Decidable (s.inserts (partitionId, id) = some .guarded))
  | .dropAbandon partitionId id =>
    inferInstanceAs (Decidable (s.inserts (partitionId, id) = some .dropping))
  | .delete _ _ | .setNeighbors _ _ _ | .appendVector _ _ _ => instDecidableTrue

/-- The system with another provider for a partition. -/
def setProvider (s : GraphSystem) (partitionId : PartitionId) (provider : ScyllaProvider) :
    GraphSystem :=
  { s with providers := Function.update s.providers partitionId provider }

/-- The system with an insert at another phase, or finished. -/
def setInsert (s : GraphSystem) (partitionId : PartitionId) (id : PrimaryId)
    (phase : Option InsertPhase) : GraphSystem :=
  { s with inserts := Function.update s.inserts (partitionId, id) phase }

variable [AdjacencyList]

/-- The system after an action. -/
def step (s : GraphSystem) : Action → GraphSystem
  | .setElementCreate partitionId id element =>
    match (s.providers partitionId).setElementCreate s.store id element with
    | .ok store => { s with store }.setInsert partitionId id (some (.created element))
    | .error _ => s
  | .setElementInflight partitionId id =>
    match s.inserts (partitionId, id) with
    | some (.created element) =>
      (s.setProvider partitionId ((s.providers partitionId).setElementInflight id element)).setInsert
        partitionId id (some .guarded)
    | _ => s
  | .complete partitionId id =>
    (s.setProvider partitionId ((s.providers partitionId).removeInflight id)).setInsert
      partitionId id none
  | .dropInflight partitionId id =>
    (s.setProvider partitionId ((s.providers partitionId).removeInflight id)).setInsert
      partitionId id (some .dropping)
  | .dropAbandon partitionId id =>
    { s with store := s.store.abandon partitionId id }.setInsert partitionId id none
  | .delete partitionId id =>
    match (s.providers partitionId).delete s.store id with
    | .ok store => { s with store }
    | .error _ => s
  | .setNeighbors partitionId id neighbors =>
    let (provider, store) := (s.providers partitionId).setNeighbors s.store id neighbors
    { s with store }.setProvider partitionId provider
  | .appendVector partitionId id neighbors =>
    let (provider, store) := (s.providers partitionId).appendVector s.store id neighbors
    { s with store }.setProvider partitionId provider

end GraphSystem

end Diskann

end VectorStore
