import VectorStore.Metadata
import VectorStore.Read.ParseValues
import VectorStore.Table.Store

/-!
# Rows read for an index

A query for an index selects the target column, the partition columns outside of the primary key
and the filtering columns, each with its write time; the full scan selects the primary key before
them.
-/

namespace VectorStore

/-- The operation read from a CDC row or the full scan. -/
inductive DbIndexedOperation where
  | upsert (values : NonemptyBox (Timestamped DbIndexedValue))
  | delete (timestamp : Timestamp)
deriving DecidableEq

/-- A row read from a CDC row or the full scan. -/
structure DbIndexedRow where
  primaryKey : PrimaryKey
  operation : DbIndexedOperation
deriving DecidableEq

/-- The call that `monitor_items` makes for a row. -/
def DbIndexedRow.call (indexKey : IndexKey) (row : DbIndexedRow) : Call :=
  match row.operation with
  | .upsert values => .upsert indexKey row.primaryKey values
  | .delete timestamp => .delete indexKey row.primaryKey timestamp

/-- What the queries for an index select, and how it is decoded. -/
structure Statements where
  primaryKeyColumns : NonemptyBox ColumnName
  targetColumns : NonemptyBox ColumnName
  nonpkPartitionKeyColumns : List ColumnName
  filteringColumns : List ColumnName
  alternatorDecodeTypes : List (Option NativeType)
  kind : IndexKind

namespace Statements

/-- `Statements::new`.  The argument `decodeType` says which columns are virtual Alternator
attributes, with their types. -/
def new (metadata : IndexMetadata) (decodeType : ColumnName → Option NativeType)
    (kind : IndexKind) : Statements where
  primaryKeyColumns := metadata.primaryKeyColumns
  targetColumns := metadata.targetColumns
  nonpkPartitionKeyColumns := metadata.nonpkPartitionKeyColumns.getD []
  filteringColumns := metadata.nonpkFilteringColumns
  alternatorDecodeTypes :=
    (metadata.nonpkPartitionKeyColumns.getD [] ++ metadata.nonpkFilteringColumns).map decodeType
  kind := kind

variable (statements : Statements)

/-- The number of target columns. -/
def targetColumnsLen : ℕ+ :=
  ⟨statements.targetColumns.length, Nat.succ_pos _⟩

/-- The columns that are selected with their write times. -/
def columns : List ColumnName :=
  statements.targetColumns.toList ++ statements.nonpkPartitionKeyColumns ++
    statements.filteringColumns

/-- The number of items that the values and write times take. -/
def columnsLenExpected : Nat :=
  (statements.targetColumns.length + statements.nonpkPartitionKeyColumns.length +
    statements.filteringColumns.length) * 2

end Statements

/-- The value of a primary key column, which is never null or a vector. -/
def primaryKeyValue : Option DbValue → Option CqlValue
  | some (.value value) => some value
  | some (.vector _) | none => none

/-- `parse_primary_key`. -/
def parsePrimaryKey (columns : List (Option DbValue)) : Option PrimaryKey :=
  (columns.mapM primaryKeyValue).map PrimaryKey.fromIter

/-- What `range_scan_stream` makes of a row of the full scan. -/
def Statements.rangeScanRow [Driver] (statements : Statements) (row : List (Option DbValue)) :
    Option DbIndexedRow :=
  let targetColumnsOffset := statements.primaryKeyColumns.length
  if row.length ≠ targetColumnsOffset + statements.columnsLenExpected then none
  else
    match parseValues (row.drop targetColumnsOffset) none statements.targetColumnsLen
        statements.kind statements.alternatorDecodeTypes with
    | .error _ => none
    | .ok values =>
      (parsePrimaryKey (row.take targetColumnsOffset)).map fun primaryKey =>
        ⟨primaryKey, .upsert values⟩

end VectorStore
