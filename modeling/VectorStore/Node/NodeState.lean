import VectorStore.Foundation.Run
import VectorStore.Node.DiscoveredIndex

/-!
# The state of the node

The actor `node_state` receives the events of the connection to the database, of the discovery of
indexes and of the full scans, and answers what the status of the node and of an index is.
-/

namespace VectorStore

inductive NodeStatus where
  | initializing
  | connectingToDb
  | discoveringIndexes
  | indexingEmbeddings
  | serving
deriving DecidableEq

inductive IndexStatus where
  | initializing
  | fullScanning
  | serving
deriving DecidableEq

/-- The events that are sent to the actor. -/
inductive Event where
  | connectingToDb
  | connectedToDb
  | discoveringIndexes
  | indexesDiscovered (indexes : Finset DiscoveredIndex)
  | fullScanStarted (metadata : DiscoveredIndex)
  | fullScanFinished (metadata : DiscoveredIndex)
deriving DecidableEq

/-- The variables of the actor. -/
structure NodeState where
  status : NodeStatus
  /-- The indexes of the first discovery that are still to be built. -/
  initialIdxs : Option (Finset DiscoveredIndex)
  /-- The statuses of the indexes that were discovered last. -/
  idxs : IndexKey → Option IndexStatus

namespace NodeState

/-- A new actor. -/
def init : NodeState := ⟨.initializing, none, fun _ => none⟩

/-- `update_indexes`: indexes that are no longer there go, new ones are initializing. -/
def updateIndexes (idxs : IndexKey → Option IndexStatus) (keys : Finset IndexKey) :
    IndexKey → Option IndexStatus := fun key =>
  if key ∈ keys then some ((idxs key).getD .initializing) else none

/-- The statuses with that of an index replaced, when there is one. -/
def setIndexStatus (idxs : IndexKey → Option IndexStatus) (key : IndexKey) (status : IndexStatus) :
    IndexKey → Option IndexStatus :=
  Function.update idxs key ((idxs key).map fun _ => status)

variable (s : NodeState)

/-- The indexes are about to be discovered. -/
def discovering : NodeState :=
  match s.status with
  | .initializing | .connectingToDb =>
    match s.initialIdxs with
    | some initialIdxs =>
      { s with status := if initialIdxs = ∅ then .serving else .indexingEmbeddings }
    | none => { s with status := .discoveringIndexes }
  | .discoveringIndexes | .indexingEmbeddings | .serving => s

/-- The indexes have been discovered. -/
def discovered (indexes : Finset DiscoveredIndex) : NodeState :=
  let idxs := updateIndexes s.idxs (indexes.image DiscoveredIndex.key)
  let initialIdxs := (s.initialIdxs.getD indexes).filter fun idx =>
    (idxs idx.key).isSome ∧ idx ∈ indexes
  { status := if initialIdxs = ∅ then .serving else .indexingEmbeddings
    initialIdxs := some initialIdxs
    idxs }

/-- A full scan has finished.  The indexes that are still to be built follow the metadata, the
statuses follow the key. -/
def scanned (metadata : DiscoveredIndex) : NodeState :=
  let idxs := setIndexStatus s.idxs metadata.key .serving
  match s.initialIdxs with
  | none => { s with idxs }
  | some initialIdxs =>
    let initialIdxs := initialIdxs.erase metadata
    { status := if initialIdxs = ∅ then .serving else s.status
      initialIdxs := some initialIdxs
      idxs }

/-- The state after an event. -/
def step (s : NodeState) : Event → NodeState
  | .connectingToDb => { s with status := .connectingToDb }
  | .connectedToDb => s
  | .discoveringIndexes => s.discovering
  | .indexesDiscovered indexes => s.discovered indexes
  | .fullScanStarted metadata =>
    { s with idxs := setIndexStatus s.idxs metadata.key .fullScanning }
  | .fullScanFinished metadata => s.scanned metadata

/-- What `GetIndexStatus` answers. -/
def getIndexStatus (keyspace index : String) : Option IndexStatus := s.idxs (.new keyspace index)

variable {s} {idxs : IndexKey → Option IndexStatus} {key : IndexKey} {keys : Finset IndexKey}
  {status : IndexStatus}

theorem updateIndexes_eq_some :
    updateIndexes idxs keys key = some status ↔
      key ∈ keys ∧ (idxs key).getD .initializing = status := by
  unfold updateIndexes
  by_cases hkey : key ∈ keys
  · rw [if_pos hkey, Option.some_inj, and_iff_right hkey]
  · rw [if_neg hkey, iff_false_left (by rintro ⟨⟩)]
    exact fun h => hkey h.1

/-- An index has a status after a discovery when it was discovered. -/
theorem isSome_updateIndexes : (updateIndexes idxs keys key).isSome ↔ key ∈ keys := by
  unfold updateIndexes
  split
  · next hkey => exact iff_of_true rfl hkey
  · next hkey => exact iff_of_false Bool.false_ne_true hkey

theorem setIndexStatus_self :
    setIndexStatus idxs key status key = (idxs key).map fun _ => status :=
  Function.update_self ..

theorem setIndexStatus_of_ne {other : IndexKey} (h : other ≠ key) :
    setIndexStatus idxs key status other = idxs other :=
  Function.update_of_ne h ..

/-- Replacing a status keeps the indexes that have one. -/
theorem isSome_setIndexStatus (idxs : IndexKey → Option IndexStatus) (key other : IndexKey)
    (status : IndexStatus) :
    (setIndexStatus idxs key status other).isSome = (idxs other).isSome := by
  by_cases h : other = key
  · rw [h, setIndexStatus_self, Option.isSome_map]
  · rw [setIndexStatus_of_ne h]

/-- An index that serves after its status was replaced. -/
theorem setIndexStatus_eq_serving {idxs : IndexKey → Option IndexStatus} {key other : IndexKey}
    {status : IndexStatus} :
    setIndexStatus idxs key status other = some .serving ↔
      other = key ∧ (idxs key).isSome ∧ status = .serving ∨
        other ≠ key ∧ idxs other = some .serving := by
  by_cases h : other = key
  · subst h
    rw [setIndexStatus_self]
    cases idxs other <;> simp
  · rw [setIndexStatus_of_ne h]
    simp [h]

theorem idxs_discovering (s : NodeState) : s.discovering.idxs = s.idxs := by
  unfold discovering
  split
  · split <;> rfl
  · split <;> rfl
  · rfl
  · rfl
  · rfl

theorem idxs_scanned (s : NodeState) (metadata : DiscoveredIndex) :
    (s.scanned metadata).idxs = setIndexStatus s.idxs metadata.key .serving := by
  unfold scanned
  cases s.initialIdxs <;> rfl

theorem initialIdxs_discovering (s : NodeState) : s.discovering.initialIdxs = s.initialIdxs := by
  unfold discovering
  split
  · split <;> rfl
  · split <;> rfl
  · rfl
  · rfl
  · rfl

/-- Only the first discovery is for all indexes that it finds. -/
theorem initialIdxs_discovered (s : NodeState) (indexes : Finset DiscoveredIndex) :
    (s.discovered indexes).initialIdxs =
      some ((s.initialIdxs.getD indexes).filter fun idx => idx ∈ indexes) := by
  have hkey : ∀ idx ∈ indexes,
      (updateIndexes s.idxs (indexes.image DiscoveredIndex.key) idx.key).isSome := fun idx hidx =>
    isSome_updateIndexes.mpr (Finset.mem_image_of_mem _ hidx)
  unfold discovered
  refine congrArg some (Finset.filter_congr fun idx _ => ?_)
  exact and_iff_right_of_imp (hkey idx)

/-- After a discovery the node serves when no initial indexes are left. -/
theorem status_discovered (s : NodeState) (indexes : Finset DiscoveredIndex) :
    (s.discovered indexes).status =
      if ((s.initialIdxs.getD indexes).filter fun idx => idx ∈ indexes) = ∅ then .serving
      else .indexingEmbeddings := by
  rw [← Option.some_inj.mp (initialIdxs_discovered s indexes)]
  rfl

theorem serving_discovered (s : NodeState) (indexes : Finset DiscoveredIndex)
    (h : (s.discovered indexes).status = .serving) :
    (s.discovered indexes).initialIdxs = some ∅ := by
  rw [status_discovered] at h
  split at h
  · next hempty => rw [initialIdxs_discovered, hempty]
  · cases h

/-- When no initial indexes are left, the node serves once indexes are about to be discovered. -/
theorem status_discovering (s : NodeState) : s.discovering.status =
    if s.status = .initializing ∨ s.status = .connectingToDb then
      match s.initialIdxs with
      | some initialIdxs => if initialIdxs = ∅ then .serving else .indexingEmbeddings
      | none => .discoveringIndexes
    else s.status := by
  unfold discovering
  cases s.initialIdxs <;> cases hstatus : s.status <;> simp [hstatus]

end NodeState

end VectorStore
