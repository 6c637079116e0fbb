import VectorStore.Table.Column

/-!
# The index of a table

An index decides, for every upsert and delete of a row, which operations the external index has to
perform.  A global index has one partition.  A local index keeps one partition for every value of
its partition key columns: the map from keys to partitions, the free identifiers, and the vectors
with the key and the size of every partition and the partition of every row.
-/

namespace VectorStore

/-! ## Operations and intermediate values -/

/-- The operations a table asks the external index to perform. -/
inductive Operation where
  | addVector (primaryId : PrimaryId) (partitionId : PartitionId) (vector : Vector)
      (isUpdate : Bool)
  | addDocument (primaryId : PrimaryId) (partitionId : PartitionId) (document : String)
      (isUpdate : Bool)
  | removeBeforeAddValue (primaryId : PrimaryId) (partitionId : PartitionId)
  | removeValue (primaryId : PrimaryId) (partitionId : PartitionId)
  | removePartition (partitionId : PartitionId)
deriving DecidableEq

/-- Where the row that is being processed is and where its columns say it belongs. -/
inductive ProcessingPartition where
  | existing (partitionId : PartitionId)
  | new (partitionKey : PartitionKey)
  | addToExisting (partitionId : PartitionId)
  | moveToNew (partitionId : PartitionId) (partitionKey : PartitionKey)
  | moveToExisting (cur new : PartitionId)
  | missingKey (partitionId : PartitionId)
  | missing

/-- `is_changing_partitions`. -/
def ProcessingPartition.isChangingPartitions : ProcessingPartition → Bool
  | moveToNew _ _ | moveToExisting _ _ | missingKey _ | new _ => true
  | existing _ | addToExisting _ | missing => false

/-! ## The data of an index -/

/-- The data of a local index. -/
structure LocalData where
  /-- The order of the columns is the order of the values in the partition keys. -/
  partitionKeyColumns : NonemptyBox ColumnName
  nonpkPartitionKeyColumns : List ColumnName
  map : AList fun _ : PartitionKey => PartitionId
  freeIds : List PartitionId
  keys : ColumnVec PartitionId (Option PartitionKey)
  ids : ColumnVec PrimaryId (Option PartitionId)
  sizes : ColumnVec PartitionId Nat

/-- The data of an index specific to its type. -/
inductive IndexData where
  | globalIndex
  | localIndex (data : LocalData)

/-- `partition_key`: the key built from the stored columns of a row, if all of them have a
value. -/
def partitionKey (primaryId : PrimaryId) (partitionKeyColumns : List ColumnName)
    (primaryKeys : ColumnVec PrimaryId (Option PrimaryKey)) (columns : Columns) :
    Option PartitionKey :=
  (partitionKeyColumns.mapM fun name =>
    (columns.lookup name).bind fun column => column.get primaryId primaryKeys).map
      PartitionKey.fromIter

namespace LocalData

/-- `remove_row_from_partition` on a local index; the flag says that the partition became empty.
With a size of zero the code only logs: the counter never wraps. -/
def removeRowFromPartition (data : LocalData) (primaryId : PrimaryId)
    (partitionId : PartitionId) : Bool × LocalData :=
  let data := { data with ids := data.ids.set primaryId none }
  match data.sizes.get partitionId with
  | none => (false, data)
  | some size =>
    let data := { data with sizes := data.sizes.set partitionId (size - 1) }
    if size - 1 = 0 then
      match data.keys.get partitionId with
      | some (some key) =>
        (true, { data with
          keys := data.keys.set partitionId none
          map := data.map.erase key
          freeIds := data.freeIds ++ [partitionId] })
      | _ => (true, data)
    else (false, data)

/-- `insert_row_into_partition` on a local index. -/
def insertRowIntoPartition (data : LocalData) (primaryId : PrimaryId)
    (partitionId : PartitionId) : LocalData :=
  { data with
    ids := data.ids.set primaryId (some partitionId)
    sizes := match data.sizes.get partitionId with
      | some size => data.sizes.set partitionId (size + 1)
      | none => data.sizes }

/-- `get_partition_key` on a local index. -/
def getPartitionKey (data : LocalData) (primaryId : PrimaryId)
    (primaryKeys : ColumnVec PrimaryId (Option PrimaryKey)) (columns : Columns) :
    Except Failure ProcessingPartition :=
  match data.ids.get primaryId with
  | none => .error (.error "PrimaryId index out of partition ids bounds")
  | some partitionIdIds =>
    match data.nonpkPartitionKeyColumns.isEmpty, partitionIdIds with
    | true, some partitionId => .ok (.existing partitionId)
    | _, _ =>
      match partitionKey primaryId data.partitionKeyColumns.toList primaryKeys columns,
          partitionIdIds with
      | none, some partitionId => .ok (.missingKey partitionId)
      | none, none => .ok .missing
      | some key, _ =>
        match data.map.lookup key, partitionIdIds with
        | none, some partitionId => .ok (.moveToNew partitionId key)
        | none, none => .ok (.new key)
        | some partitionIdMap, none => .ok (.addToExisting partitionIdMap)
        | some partitionIdMap, some partitionIdIds =>
          if partitionIdMap = partitionIdIds then .ok (.existing partitionIdIds)
          else .ok (.moveToExisting partitionIdIds partitionIdMap)

/-- The size of a partition that is being created is reset. -/
def resetSize (data : LocalData) (partitionId : PartitionId) : LocalData :=
  { data with sizes := data.sizes.set partitionId 0 }

/-- `create_partition` on a local index. -/
def createPartition (data : LocalData) (partitionKey : PartitionKey) :
    Except Failure PartitionId × LocalData :=
  match data.map.lookup partitionKey with
  | some partitionId => (.ok partitionId, data.resetSize partitionId)
  | none =>
    match data.freeIds with
    | [] => (.error (.error "Partition ids should be reserved"), data)
    | partitionId :: freeIds =>
      let data := { data with freeIds, map := data.map.insert partitionKey partitionId }
      match data.keys.get partitionId with
      | none => (.error (.error "PartitionId index out of partition keys bounds"), data)
      | some _ =>
        let data := { data with keys := data.keys.set partitionId (some partitionKey) }
        (.ok partitionId, data.resetSize partitionId)

end LocalData

namespace IndexData

/-- `remove_row_from_partition`. -/
def removeRowFromPartition (data : IndexData) (primaryId : PrimaryId)
    (partitionId : PartitionId) : Bool × IndexData :=
  match data with
  | globalIndex => (false, globalIndex)
  | localIndex data =>
    let (isEmpty, data) := data.removeRowFromPartition primaryId partitionId
    (isEmpty, localIndex data)

/-- `insert_row_into_partition`. -/
def insertRowIntoPartition (data : IndexData) (primaryId : PrimaryId)
    (partitionId : PartitionId) : IndexData :=
  match data with
  | globalIndex => globalIndex
  | localIndex data => localIndex (data.insertRowIntoPartition primaryId partitionId)

/-- `get_partition_key`. -/
def getPartitionKey (data : IndexData) (indexId : IndexId) (primaryId : PrimaryId)
    (primaryKeys : ColumnVec PrimaryId (Option PrimaryKey)) (columns : Columns) :
    Except Failure ProcessingPartition :=
  match data with
  | globalIndex => .ok (.existing (.global indexId))
  | localIndex data => data.getPartitionKey primaryId primaryKeys columns

/-- `create_partition`. -/
def createPartition (data : IndexData) (partitionKey : PartitionKey) :
    Except Failure PartitionId × IndexData :=
  match data with
  | globalIndex => (.error (.error "Global index does not support partition keys"), globalIndex)
  | localIndex data =>
    let (result, data) := data.createPartition partitionKey
    (result, localIndex data)

end IndexData

/-! ## Timestamps of the indexed values -/

/-- The epoch of a row and the timestamps of its values.  `VecChunks` stores them as bytes. -/
structure ChunkTimestamps where
  epoch : Epoch
  timestamps : List (Timestamped Unit)
deriving DecidableEq

/-- `ChunkTimestamps::fill_default`. -/
def ChunkTimestamps.default (size : Nat) : ChunkTimestamps :=
  ⟨.new, List.replicate size (.newTombstone .min)⟩

/-- What `compare_timestamps` finds out. -/
structure CompareTimestamps where
  isCurTombstone : Bool
  isNewTombstone : Bool
  isNewerTimestamp : Bool
  isSameTimestamp : Bool
deriving DecidableEq

/-- One comparison of a stored with a new timestamp. -/
def CompareTimestamps.add (comparison : CompareTimestamps) (cur new : Timestamped Unit) :
    CompareTimestamps where
  isCurTombstone := comparison.isCurTombstone || cur.isTombstone
  isNewTombstone := comparison.isNewTombstone && !new.isValid
  isNewerTimestamp := comparison.isNewerTimestamp || decide (cur.timestamp < new.timestamp)
  isSameTimestamp := comparison.isSameTimestamp && decide (cur.timestamp = new.timestamp)

/-- The fold of `compare_timestamps`, from position `idx` on. -/
def compareTimestampsFrom (valuesTimestamps : ChunkTimestamps) (comparison : CompareTimestamps) :
    Nat → List (Timestamped Unit) → Except Failure CompareTimestamps
  | _, [] => .ok comparison
  | idx, new :: rest =>
    match valuesTimestamps.timestamps[idx]? with
    | none => .error (.error s!"Failed to compare timestamp:  missing timestamped({idx})")
    | some cur => compareTimestampsFrom valuesTimestamps (comparison.add cur new) (idx + 1) rest

/-- `compare_timestamps`. -/
def compareTimestamps (valuesTimestamps : ChunkTimestamps)
    (timestamps : List (Timestamped Unit)) : Except Failure CompareTimestamps :=
  compareTimestampsFrom valuesTimestamps
    { isCurTombstone := false
      isNewTombstone := true
      isNewerTimestamp := false
      isSameTimestamp := true } 0 timestamps

/-- The loop of `update_timestamps`, from position `idx` on. -/
def updateTimestampsFrom (valuesTimestamps : ChunkTimestamps) :
    Nat → List (Timestamped Unit) → Except Failure Unit × ChunkTimestamps
  | _, [] => (.ok (), valuesTimestamps)
  | idx, timestamped :: rest =>
    if idx < valuesTimestamps.timestamps.length then
      updateTimestampsFrom
        { valuesTimestamps with
          timestamps := valuesTimestamps.timestamps.set idx timestamped } (idx + 1) rest
    else
      (.error (.error s!"Failed to update timestamp: missing timestamped({idx})"),
        valuesTimestamps)

/-- `update_timestamps`. -/
def updateTimestamps (valuesTimestamps : ChunkTimestamps) (timestamps : List (Timestamped Unit)) :
    Except Failure Unit × ChunkTimestamps :=
  updateTimestampsFrom valuesTimestamps 0 timestamps

/-! ## The index -/

/-- An index of a table. -/
structure Index where
  indexId : IndexId
  data : IndexData
  /-- The columns this index indexes; no value for them is stored in the table. -/
  targetColumns : NonemptyBox ColumnName
  filteringColumns : List ColumnName
  /-- Timestamps of the last update of the indexed values. -/
  valuesTimestamps : ColumnVec PrimaryId ChunkTimestamps

namespace Index

/-- `Index::INCREMENT_SIZE`. -/
def incrementSize : Nat := 1 <<< 8

/-- `Index::new_global`. -/
def newGlobal (indexId : IndexId) (targetColumns : NonemptyBox ColumnName)
    (filteringColumns : List ColumnName) : Index where
  indexId := indexId
  data := .globalIndex
  targetColumns := targetColumns
  filteringColumns := filteringColumns
  valuesTimestamps := .new

/-- `Index::new_local`. -/
def newLocal (indexId : IndexId) (primaryKeyColumns : List ColumnName)
    (partitionKeyColumns targetColumns : NonemptyBox ColumnName)
    (filteringColumns : List ColumnName) : Index where
  indexId := indexId
  data := .localIndex
    { partitionKeyColumns
      nonpkPartitionKeyColumns :=
        partitionKeyColumns.toList.filter fun col => !primaryKeyColumns.contains col
      map := ∅
      freeIds := []
      keys := .new
      ids := .new
      sizes := .new }
  targetColumns := targetColumns
  filteringColumns := filteringColumns
  valuesTimestamps := .new

/-- `resize_primary_ids_with`. -/
def resizePrimaryIdsWith (index : Index) (newSize : Nat) : Index :=
  { index with
    data := match index.data with
      | .globalIndex => .globalIndex
      | .localIndex data => .localIndex { data with ids := data.ids.resizeWith newSize none }
    valuesTimestamps :=
      index.valuesTimestamps.resizeWith newSize (.default index.targetColumns.length) }

/-- The identifiers from `start` on that `resize_partition_ids` makes, up to the first that is too
large. -/
def newPartitionIds (indexId : IndexId) (start : Nat) :
    Nat → Except Failure Unit × List PartitionId
  | 0 => (.ok (), [])
  | n + 1 =>
    match PartitionId.tryNew start indexId with
    | .error e => (.error e, [])
    | .ok id =>
      let (result, ids) := newPartitionIds indexId (start + 1) n
      (result, id :: ids)

/-- `resize_partition_ids`. -/
def resizePartitionIds (index : Index) : Except Failure Unit × Index :=
  match index.data with
  | .globalIndex => (.ok (), index)
  | .localIndex data =>
    if !data.freeIds.isEmpty then (.ok (), index)
    else
      let start := data.map.keys.length
      let stop := start + incrementSize
      let (result, ids) := newPartitionIds index.indexId start incrementSize
      let data := { data with freeIds := data.freeIds ++ ids }
      match result with
      | .error e => (.error e, { index with data := .localIndex data })
      | .ok () =>
        (.ok (), { index with
          data := .localIndex { data with
            keys := data.keys.resizeWith stop none
            sizes := data.sizes.resizeWith stop 0 } })

/-- `nonpk_partition_key_columns`. -/
def nonpkPartitionKeyColumns (index : Index) : List ColumnName :=
  match index.data with
  | .globalIndex => []
  | .localIndex data => data.nonpkPartitionKeyColumns

end Index

/-! ## The work of an update -/

/-- What an update does to the entry of its row. -/
inductive UpdateWork where
  | none
  | moveInsidePartition (partitionId : PartitionId)
  | moveBetweenPartitions (cur new : PartitionId)
  | addToPartition (partitionId : PartitionId)
  | removeFromPartition (partitionId : PartitionId)

namespace UpdateWork

/-- What `UpdateWork::new` returns together with the values and the timestamps it may have
changed. -/
structure Planned where
  work : UpdateWork
  values : Option SplittingValues
  timestamps : NonemptyBox (Timestamped Unit)

/-- `UpdateWork::new`. -/
def new (processingPartition : ProcessingPartition) (compareTimestamps : CompareTimestamps)
    (indexData : IndexData) (values : Option SplittingValues)
    (timestamps : NonemptyBox (Timestamped Unit)) :
    Except Failure (Option Planned) × IndexData :=
  let isCurTombstone := compareTimestamps.isCurTombstone
  let isNewTombstone := compareTimestamps.isNewTombstone
  let plan (work : UpdateWork) : Except Failure (Option Planned) :=
    .ok (some ⟨work, values, timestamps⟩)
  match processingPartition with
  | .existing partitionId =>
    if isCurTombstone then
      if isNewTombstone then (plan .none, indexData)
      else (plan (.addToPartition partitionId), indexData)
    else if isNewTombstone then (plan (.removeFromPartition partitionId), indexData)
    else (plan (.moveInsidePartition partitionId), indexData)
  | .new partitionKey =>
    if isNewTombstone then (plan .none, indexData)
    else
      match indexData.createPartition partitionKey with
      | (.error e, indexData) => (.error e, indexData)
      | (.ok partitionId, indexData) => (plan (.addToPartition partitionId), indexData)
  | .addToExisting partitionId =>
    if isNewTombstone then (plan .none, indexData)
    else (plan (.addToPartition partitionId), indexData)
  | .moveToNew curPartitionId partitionKey =>
    if isNewTombstone then
      if isCurTombstone then (plan .none, indexData)
      else (plan (.removeFromPartition curPartitionId), indexData)
    else
      match indexData.createPartition partitionKey with
      | (.error e, indexData) => (.error e, indexData)
      | (.ok newPartitionId, indexData) =>
        if isCurTombstone then (plan (.addToPartition newPartitionId), indexData)
        else (plan (.moveBetweenPartitions curPartitionId newPartitionId), indexData)
  | .moveToExisting cur new =>
    if isCurTombstone then
      if isNewTombstone then (plan .none, indexData)
      else (plan (.addToPartition new), indexData)
    else if isNewTombstone then (plan (.removeFromPartition cur), indexData)
    else (plan (.moveBetweenPartitions cur new), indexData)
  | .missingKey curPartitionId =>
    let timestamps := timestamps.modifyFirst .setTombstone
    let work := if isCurTombstone then .none else .removeFromPartition curPartitionId
    (.ok (some ⟨work, Option.none, timestamps⟩), indexData)
  -- Without a partition and without a key the update is skipped, its timestamp included.
  | .missing => (.ok Option.none, indexData)

/-- `is_adding_value`. -/
def isAddingValue : UpdateWork → Bool
  | moveInsidePartition _ | moveBetweenPartitions _ _ | addToPartition _ => true
  | none | removeFromPartition _ => false

/-- `is_inserting_new_row`. -/
def isInsertingNewRow : UpdateWork → Bool
  | moveBetweenPartitions _ _ | addToPartition _ => true
  | none | moveInsidePartition _ | removeFromPartition _ => false

/-- The partition an update adds its value to, and whether it replaces a value. -/
def addTarget : UpdateWork → Option (PartitionId × Bool)
  | moveInsidePartition partitionId => some (partitionId, true)
  | moveBetweenPartitions _ new => some (new, true)
  | addToPartition partitionId => some (partitionId, false)
  | none | removeFromPartition _ => Option.none

/-- The operation that adds a value. -/
def addOperation (primaryId : PrimaryId) (partitionId : PartitionId) (isUpdate : Bool) :
    SplittingValues → Operation
  | .vector vector => .addVector primaryId partitionId vector isUpdate
  | .document document => .addDocument primaryId partitionId document isUpdate

/-- The operation that ends a partition that became empty. -/
def removeIfEmpty (partitionId : PartitionId) (isEmpty : Bool) : List Operation :=
  if isEmpty then [.removePartition partitionId] else []

/-- The operations that remove the old entry before the new value is added. -/
def removeBeforeAdd (work : UpdateWork) (data : IndexData) (curPrimaryId : PrimaryId) :
    List Operation × IndexData :=
  match work with
  | moveInsidePartition partitionId =>
    ([.removeBeforeAddValue curPrimaryId partitionId], data)
  | moveBetweenPartitions partitionId _ =>
    let (isEmpty, data) := data.removeRowFromPartition curPrimaryId partitionId
    (.removeBeforeAddValue curPrimaryId partitionId :: removeIfEmpty partitionId isEmpty, data)
  | _ => ([], data)

/-- The operations that add the new value. -/
def addValue (work : UpdateWork) (data : IndexData) (newPrimaryId : PrimaryId)
    (values : Option SplittingValues) : List Operation × IndexData :=
  match values, work.addTarget with
  | some values, some (partitionId, isUpdate) =>
    ([addOperation newPrimaryId partitionId isUpdate values],
      if work.isInsertingNewRow then data.insertRowIntoPartition newPrimaryId partitionId
      else data)
  | _, _ => ([], data)

/-- The operations that remove the entry. -/
def removeEntry (work : UpdateWork) (data : IndexData) (curPrimaryId : PrimaryId) :
    List Operation × IndexData :=
  match work with
  | removeFromPartition partitionId =>
    let (isEmpty, data) := data.removeRowFromPartition curPrimaryId partitionId
    (.removeValue curPrimaryId partitionId :: removeIfEmpty partitionId isEmpty, data)
  | _ => ([], data)

/-- The operations of an update, in the order they are emitted. -/
def perform (work : UpdateWork) (data : IndexData) (curPrimaryId newPrimaryId : PrimaryId)
    (values : Option SplittingValues) : List Operation × IndexData :=
  let (before, data) := work.removeBeforeAdd data curPrimaryId
  let (add, data) := work.addValue data newPrimaryId values
  let (after, data) := work.removeEntry data curPrimaryId
  (before ++ add ++ after, data)

end UpdateWork

/-- `update_index`. -/
def updateIndex (curPrimaryId : PrimaryId) (processingPartition : ProcessingPartition)
    (index : Index) (values : Option SplittingValues)
    (timestamps : NonemptyBox (Timestamped Unit)) : Except Failure (List Operation) × Index :=
  match index.valuesTimestamps.get curPrimaryId with
  | none =>
    (.error (.error ("Failed to update value: missing value timestamp for index_id " ++
      s!"IndexId({index.indexId.val.toNat}) and primary_id " ++
      s!"PrimaryId({curPrimaryId.word.toNat})")), index)
  | some valuesTimestamps =>
    let curEpoch := valuesTimestamps.epoch
    match compareTimestamps valuesTimestamps timestamps.toList with
    | .error e => (.error e, index)
    | .ok comparison =>
      if !comparison.isNewerTimestamp &&
          (!comparison.isSameTimestamp || !processingPartition.isChangingPartitions) then
        (.ok [], index)
      else
        -- A value that is missing although its timestamp is valid counts as a tombstone.
        let isMissing := values.isNone && !comparison.isNewTombstone
        let comparison := if isMissing then { comparison with isNewTombstone := true }
          else comparison
        let timestamps := if isMissing then timestamps.modifyFirst .setTombstone else timestamps
        match UpdateWork.new processingPartition comparison index.data values timestamps with
        | (.error e, data) => (.error e, { index with data })
        | (.ok none, data) => (.ok [], { index with data })
        | (.ok (some planned), data) =>
          let curPrimaryId := curPrimaryId.newEpoch curEpoch
          let newEpoch := curEpoch.next
          let newPrimaryId := curPrimaryId.newEpoch newEpoch
          let (result, valuesTimestamps) :=
            updateTimestamps { valuesTimestamps with epoch := newEpoch } planned.timestamps.toList
          let index := { index with
            data
            valuesTimestamps := index.valuesTimestamps.set curPrimaryId valuesTimestamps }
          match result with
          | .error e => (.error e, index)
          | .ok () =>
            let (operations, data) :=
              planned.work.perform index.data curPrimaryId newPrimaryId planned.values
            (.ok operations, { index with data })

end VectorStore
