import VectorStore.Foundation.FiniteMap
import VectorStore.Foundation.MaxBy
import VectorStore.Node.NodeState
import VectorStore.Read.TokenRing
import VectorStore.Search.Routing

/-!
# The best index for a query

The engine keeps the entries of its indexes by their keys, and the keys of the vector indexes by
their routing groups: the indexes over the same column of the same table.  A query goes to the
serving index of the group with the best score, and to the newest one of these.
-/

namespace VectorStore

namespace NeedsFiltering

/-- `NeedsFiltering::cmp`: less filtering is better. -/
def cmp : NeedsFiltering → NeedsFiltering → Ordering
  | no, no => .eq
  | no, yes _ => .gt
  | yes _, no => .lt
  | yes a, yes b => compare b a

end NeedsFiltering

/-- The timestamps of versions, from the library for identifiers: zero for a version without one. -/
class VersionTicks where
  gregorianTicks : Uuid → UInt64

/-- What the indexes that a query can be routed to have in common. -/
structure RoutingGroupKey where
  keyspace : String
  table : String
  columns : NonemptyBox ColumnName
deriving DecidableEq

/-- `RoutingGroupKey::from`. -/
def RoutingGroupKey.ofMetadata (metadata : DiscoveredIndex) : RoutingGroupKey :=
  ⟨metadata.keyspaceName, metadata.tableName, metadata.targetColumns⟩

/-- The entry of an index without the data of its kind. -/
structure IndexEntry where
  /-- The channel of the actor of the index. -/
  index : ℕ
  status : IndexStatus
  progress : Progress

/-- The entry of a vector index with the data that the routing reads. -/
structure RoutedEntry extends VsIndexEntry, IndexEntry where
  routingGroup : RoutingGroupKey
  version : Uuid

/-- `VsIndexEntry::new`. -/
def RoutedEntry.new (index : ℕ) (metadata : DiscoveredIndex)
    (tableColumns : AList fun _ : ColumnName => NativeType) (progress : Progress) :
    Except String RoutedEntry :=
  match metadata.options with
  | .vs _ => .ok {
      VsIndexEntry.new metadata.toIndexMetadata tableColumns with
      index
      status := .initializing
      progress
      routingGroup := .ofMetadata metadata
      version := metadata.version }
  | .fts _ | .pattern => .error "add_index_vs must be called with a vector-search index"

/-- Where a query goes. -/
inductive BestIndexState where
  | notFound
  | notServing (progress : Progress)
  | noGlobalIndex
  | serving (key : IndexKey) (index : ℕ) (primaryKeyColumns : NonemptyBox ColumnName)
      (filteringColumns : List ColumnName) (tableColumns : AList fun _ : ColumnName => NativeType)
      (needsFiltering : NeedsFiltering)

/-- `Indexes`: the entries of all indexes, with the keys of the vector indexes by their groups. -/
structure RoutedIndexes where
  vsEntries : AList fun _ : IndexKey => RoutedEntry
  vsRouting : AList fun _ : RoutingGroupKey => List IndexKey
  ftsEntries : AList fun _ : IndexKey => IndexEntry
  patternEntries : AList fun _ : IndexKey => IndexEntry

namespace RoutedIndexes

def new : RoutedIndexes := ⟨∅, ∅, ∅, ∅⟩

variable (s : RoutedIndexes)

def containsKey (key : IndexKey) : Bool :=
  (s.vsEntries.lookup key).isSome || (s.ftsEntries.lookup key).isSome ||
    (s.patternEntries.lookup key).isSome

/-- `insert_vs`. -/
def insertVs (key : IndexKey) (entry : RoutedEntry) : RoutedIndexes :=
  { s with
    vsEntries := s.vsEntries.insert key entry
    vsRouting := s.vsRouting.insert entry.routingGroup
      ((s.vsRouting.lookup entry.routingGroup).getD [] ++ [key]) }

/-- `insert_fts`. -/
def insertFts (key : IndexKey) (entry : IndexEntry) : RoutedIndexes :=
  { s with ftsEntries := s.ftsEntries.insert key entry }

/-- `insert_pattern`. -/
def insertPattern (key : IndexKey) (entry : IndexEntry) : RoutedIndexes :=
  { s with patternEntries := s.patternEntries.insert key entry }

/-- `remove`: the entry of a key and whether there was one.  A group without keys goes too. -/
def remove (key : IndexKey) : RoutedIndexes × Bool :=
  match s.vsEntries.lookup key with
  | some entry =>
    let vsRouting := match s.vsRouting.lookup entry.routingGroup with
      | some keys =>
        let keys := keys.filter (· ≠ key)
        if keys = [] then s.vsRouting.erase entry.routingGroup
        else s.vsRouting.insert entry.routingGroup keys
      | none => s.vsRouting
    ({ s with vsEntries := s.vsEntries.erase key, vsRouting }, true)
  | none =>
    if (s.ftsEntries.lookup key).isSome then ({ s with ftsEntries := s.ftsEntries.erase key }, true)
    else ({ s with patternEntries := s.patternEntries.erase key },
      (s.patternEntries.lookup key).isSome)

/-- `update_indexes` of the engine, for one key. -/
def update (key : IndexKey) (progress : Progress) (status : IndexStatus) : RoutedIndexes :=
  if (s.vsEntries.lookup key).isSome then
    { s with vsEntries := FiniteMap.modify s.vsEntries key ({ · with progress, status }) }
  else if (s.ftsEntries.lookup key).isSome then
    { s with ftsEntries := FiniteMap.modify s.ftsEntries key ({ · with progress, status }) }
  else { s with patternEntries := FiniteMap.modify s.patternEntries key ({ · with progress, status }) }

/-- An index that can serve a query, with its score and its entry. -/
structure Scored where
  key : IndexKey
  score : NeedsFiltering
  entry : RoutedEntry

variable [VersionTicks]

/-- The comparison of two indexes that can serve a query. -/
def Scored.cmp (a b : Scored) : Ordering :=
  (a.score.cmp b.score).then (compare (VersionTicks.gregorianTicks a.entry.version)
    (VersionTicks.gregorianTicks b.entry.version))

omit [VersionTicks] in
/-- The candidates that are serving and have a score. -/
def scored (equalityColumns rangeColumns : List ColumnName) (candidates : List IndexKey) :
    List Scored :=
  ((candidates.filterMap fun key => (s.vsEntries.lookup key).map (key, ·)).filter
    fun candidate => candidate.2.status = .serving).filterMap fun candidate =>
      (candidate.2.scoreIndex equalityColumns rangeColumns).map (⟨candidate.1, ·, candidate.2⟩)

omit [VersionTicks] in
/-- The keys that a query for an index can be routed to. -/
def candidates (key : IndexKey) (requestedEntry : RoutedEntry) (routing : Bool) :
    Except String (List IndexKey) :=
  if routing then
    match s.vsRouting.lookup requestedEntry.routingGroup with
    | some keys => .ok keys
    | none => .error "routing_map must contain group for every index in indexes"
  else .ok [key]

/-- The best of the candidates, or why there is none. -/
def route (requestedEntry : RoutedEntry) (equalityColumns rangeColumns : List ColumnName)
    (candidates : List IndexKey) : Except String BestIndexState :=
  match maxBy Scored.cmp (s.scored equalityColumns rangeColumns candidates) with
  | some routed =>
    match s.vsEntries.lookup routed.key with
    | some routedEntry =>
      .ok (.serving routed.key routedEntry.index routedEntry.primaryKeyColumns
        routedEntry.filteringColumns routedEntry.tableColumns routed.score)
    | none => .error "routed key must exist"
  | none =>
    if (candidates.filterMap s.vsEntries.lookup).any fun entry => entry.status = .serving then
      .ok .noGlobalIndex
    else .ok (.notServing requestedEntry.progress)

/-- `best_index`.  An error stands for a failed `expect`. -/
def bestIndex (key : IndexKey) (equalityColumns rangeColumns : List ColumnName) (routing : Bool) :
    Except String BestIndexState :=
  match s.vsEntries.lookup key with
  | none => .ok .notFound
  | some requestedEntry => do
    let candidates ← s.candidates key requestedEntry routing
    s.route requestedEntry equalityColumns rangeColumns candidates

end RoutedIndexes

end VectorStore
