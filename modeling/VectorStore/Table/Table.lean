import Mathlib.Data.PNat.Basic
import VectorStore.Foundation.FiniteMap
import VectorStore.Table.Index

/-!
# The table

A `Table` maps primary keys to row identifiers, keeps the columns of the rows, and holds one
index.  `upsert` and `delete` change it and return the operations for the external index.  Both
keep what they changed before an error, so they return the state next to the result.
-/

namespace VectorStore

/-- A table.  `Table::new` registers one index and nothing adds another, so the maps `index_ids`
and `indexes` are one key and one index. -/
structure Table where
  partitionPrimaryKeyCount : ℕ+
  needsCkNormalization : Bool
  primaryIds : AList fun _ : PrimaryKey => PrimaryId
  freePrimaryIds : List PrimaryId
  primaryKeys : ColumnVec PrimaryId (Option PrimaryKey)
  columns : Columns
  indexKey : IndexKey
  index : Index

/-- The number of keys the table knows. -/
def Table.rowCount (table : Table) : Nat := table.primaryIds.keys.length

namespace Table

/-! ## Reserving identifiers -/

/-- `Table::INCREMENT_SIZE`. -/
def incrementSize : Nat := 1 <<< 10

/-- The identifiers from `start` on, up to the first that is too large. -/
def newPrimaryIds (start : Nat) : Nat → List PrimaryId
  | 0 => []
  | n + 1 =>
    match PrimaryId.tryNew start .new with
    | .error _ => []
    | .ok id => id :: newPrimaryIds (start + 1) n

/-- Every vector indexed by rows is resized. -/
def resizeRows (table : Table) (newSize : Nat) : Table :=
  { table with
    primaryKeys := table.primaryKeys.resizeWith newSize none
    columns := FiniteMap.mapValues (·.resizeWith newSize) table.columns
    index := table.index.resizePrimaryIdsWith newSize }

/-- `reserve_primary_ids`. -/
def reservePrimaryIds (table : Table) : Except Failure Unit × Table :=
  if !table.freePrimaryIds.isEmpty then (.ok (), table)
  else
    let start := table.rowCount
    let free := table.freePrimaryIds ++ newPrimaryIds start incrementSize
    if free.isEmpty then
      (.error (.error "Failed to reserve vector ids: no more ids available"), table)
    else (.ok (), { table with freePrimaryIds := free }.resizeRows (start + free.length))

/-- `reserve_partition_ids`. -/
def reservePartitionIds (table : Table) : Except Failure Unit × Table :=
  let (result, index) := table.index.resizePartitionIds
  (result, { table with index })

/-! ## Building a table -/

/-- The primary key columns, by name. -/
def primaryKeyColumnsMap (primaryKeyColumns : List ColumnName) : Columns :=
  primaryKeyColumns.zipIdx.foldl (fun columns p => columns.insert p.1 (.primaryKey p.2)) ∅

/-- The column of a name that is not part of the primary key. -/
def columnWithValues (tableColumns : AList fun _ : ColumnName => NativeType) (name : ColumnName) :
    Except Failure (ColumnName × Column) :=
  match tableColumns.lookup name with
  | none => .error (.error s!"Column {name.name} not found in table columns")
  | some type => (Column.new type).map fun column => (name, column)

/-- `Table::new`. -/
def new (indexKey : IndexKey) (primaryKeyColumns : NonemptyBox ColumnName)
    (partitionPrimaryKeyCount : ℕ+) (partitionKeyColumns : Option (NonemptyBox ColumnName))
    (targetColumns : NonemptyBox ColumnName) (filteringColumns : List ColumnName)
    (tableColumns : AList fun _ : ColumnName => NativeType) : Except Failure Table :=
  if (partitionPrimaryKeyCount : Nat) > primaryKeyColumns.length then
    let primaryCount := primaryKeyColumns.length
    .error (.error (s!"Partition key count ({partitionPrimaryKeyCount.val}) cannot be greater " ++
      s!"than primary key columns count ({primaryCount}) for index " ++
      s!"IndexKey({indexKey.name.quote})"))
  else do
    let (indexId, _) ← IndexIdGenerator.new.nextId partitionKeyColumns.isNone
    let index :=
      match partitionKeyColumns with
      | some partitionKeyColumns =>
        Index.newLocal indexId primaryKeyColumns.toList partitionKeyColumns targetColumns
          filteringColumns
      | none => Index.newGlobal indexId targetColumns filteringColumns
    let keyColumns := primaryKeyColumnsMap primaryKeyColumns.toList
    let names := (partitionKeyColumns.elim [] NonemptyBox.toList ++ filteringColumns).filter
      fun name => (keyColumns.lookup name).isNone
    let columnsWithValues ← names.mapM (columnWithValues tableColumns)
    let table : Table :=
      { partitionPrimaryKeyCount
        needsCkNormalization :=
          (primaryKeyColumns.toList.drop partitionPrimaryKeyCount).any fun col =>
            tableColumns.lookup col = some .decimal
        primaryIds := ∅
        freePrimaryIds := []
        primaryKeys := .new
        columns := columnsWithValues.foldl (fun columns p => columns.insert p.1 p.2) keyColumns
        indexKey
        index }
    match table.reservePrimaryIds with
    | (.error e, _) => .error e
    | (.ok (), table) =>
      match table.reservePartitionIds with
      | (.error e, _) => .error e
      | (.ok (), table) => .ok table

/-! ## Rows and keys -/

variable [DecimalNormalizer]

/-- `normalize_primary_key`: the clustering columns are normalized for lookups. -/
def normalizePrimaryKey (table : Table) (key : PrimaryKey) : Except Failure PrimaryKey :=
  if !table.needsCkNormalization then .ok key
  else do
    let values ← key.key.values.zipIdx.mapM fun (value, idx) =>
      if idx ≥ (table.partitionPrimaryKeyCount : Nat) then normalize value else .ok value
    let normalized := PrimaryKey.fromIter values
    return if normalized = key then key else normalized

/-- `add_primary_key`: the identifier of a key, taken from the free ones for a new key.  The key
itself is stored as it came. -/
def addPrimaryKey (table : Table) (primaryKey : PrimaryKey) : Except Failure PrimaryId × Table :=
  match table.normalizePrimaryKey primaryKey with
  | .error e => (.error e, table)
  | .ok normalizedKey =>
    match table.primaryIds.lookup normalizedKey, table.freePrimaryIds with
    | some primaryId, _ => (.ok primaryId, table)
    | none, [] => (.error (.error "Primary ids should be reserved"), table)
    | none, primaryId :: freePrimaryIds =>
      let table := { table with
        freePrimaryIds
        primaryIds := table.primaryIds.insert normalizedKey primaryId }
      match table.primaryKeys.get primaryId with
      | none => (.error (.error "PrimaryId index out of primary keys bounds"), table)
      | some _ =>
        (.ok primaryId,
          { table with primaryKeys := table.primaryKeys.set primaryId (some primaryKey) })

/-! ## Splitting the values of a row -/

/-- `SplitValuesFiltering`. -/
structure SplitValuesFiltering where
  values : Option SplittingValues
  timestamps : NonemptyBox (Timestamped Unit)
  filtering : List ColumnWrite

/-- The value of the first column. -/
def splitValue : Option DbIndexedValue → Except Failure (Option SplittingValues)
  | some (.vector vector) => .ok (some (.vector vector))
  | some (.document document) => .ok (some (.document document))
  | some (.filtering _) =>
    .error
      (.error "Expected vector or document value for first column, got filtering value")
  | none => .ok none

/-- The value of a filtering column, with its timestamp. -/
def splitFiltering (value : Timestamped DbIndexedValue) : Except Failure ColumnWrite :=
  match value.value with
  | some (.filtering filteringValue) => .ok (value.timestamp, some filteringValue)
  | some (.vector _) | some (.document _) =>
    .error (.error "Expected filtering value for column, got vector or document value")
  | none => .ok (value.timestamp, none)

/-- `split_values_filtering`. -/
def splitValuesFiltering (values : NonemptyBox (Timestamped DbIndexedValue)) :
    Except Failure SplitValuesFiltering := do
  let value := values.first
  let timestamped := if value.isValid then Timestamped.newValid value.timestamp
    else Timestamped.newTombstone value.timestamp
  let split ← splitValue value.value
  let filtering ← values.rest.mapM splitFiltering
  return ⟨split, ⟨timestamped, []⟩, filtering⟩

/-! ## Upsert and delete -/

/-- The last two steps of `upsert` and `delete`: find where the row belongs, and update the
index. -/
def processRow (table : Table) (primaryId : PrimaryId) (values : Option SplittingValues)
    (timestamps : NonemptyBox (Timestamped Unit)) : Except Failure (List Operation) × Table :=
  match table.index.data.getPartitionKey table.index.indexId primaryId table.primaryKeys
      table.columns with
  | .error e => (.error e, table)
  | .ok processingPartition =>
    let (result, index) := updateIndex primaryId processingPartition table.index values timestamps
    (result, { table with index })

/-- `Table::upsert`. -/
def upsert (table : Table) (indexKey : IndexKey) (primaryKey : PrimaryKey)
    (values : NonemptyBox (Timestamped DbIndexedValue)) :
    Except Failure (List Operation) × Table :=
  match table.reservePrimaryIds with
  | (.error e, table) => (.error e, table)
  | (.ok (), table) =>
  match table.reservePartitionIds with
  | (.error e, table) => (.error e, table)
  | (.ok (), table) =>
  if indexKey ≠ table.indexKey then
    (.error (.error s!"Index key IndexKey({indexKey.name.quote}) not found"), table)
  else
  match table.addPrimaryKey primaryKey with
  | (.error e, table) => (.error e, table)
  | (.ok primaryId, table) =>
  match splitValuesFiltering values with
  | .error e => (.error e, table)
  | .ok split =>
  match updateColumns primaryId table.columns
      (table.index.nonpkPartitionKeyColumns ++ table.index.filteringColumns) split.filtering with
  | (.error e, columns) => (.error e, { table with columns })
  | (.ok (), columns) =>
    { table with columns }.processRow primaryId split.values split.timestamps

/-- `Table::delete`.  Only filtering columns are removed, and no identifiers are reserved. -/
def delete (table : Table) (indexKey : IndexKey) (primaryKey : PrimaryKey)
    (timestamp : Timestamp) : Except Failure (List Operation) × Table :=
  if indexKey ≠ table.indexKey then
    (.error (.error s!"Index key IndexKey({indexKey.name.quote}) not found"), table)
  else
  match table.addPrimaryKey primaryKey with
  | (.error e, table) => (.error e, table)
  | (.ok primaryId, table) =>
  match updateColumns primaryId table.columns table.index.filteringColumns
      (table.index.filteringColumns.map fun _ => (timestamp, none)) with
  | (.error e, columns) => (.error e, { table with columns })
  | (.ok (), columns) =>
    { table with columns }.processRow primaryId none ⟨.newTombstone timestamp, []⟩

end Table

end VectorStore
