import VectorStore.Search.Restriction

/-!
# Routing of a query

The entry of an index is scored with the columns a query restricts: a local index needs an equality
on each of its partition columns, and every restricted column has to be one that the index can
filter by.
-/

namespace VectorStore

/-- How much an index still has to filter. -/
inductive NeedsFiltering where
  | no
  | yes (uncovered : UInt64)
deriving DecidableEq

/-- The entry of a vector index, as far as its score depends on it. -/
structure VsIndexEntry where
  primaryKeyColumns : NonemptyBox ColumnName
  partitioning : DbIndexPartitioning
  filteringColumns : List ColumnName
  tableColumns : AList fun _ : ColumnName => NativeType

namespace VsIndexEntry

/-- `VsIndexEntry::new`. -/
def new (metadata : IndexMetadata) (tableColumns : AList fun _ : ColumnName => NativeType) :
    VsIndexEntry where
  primaryKeyColumns := metadata.primaryKeyColumns
  partitioning := metadata.partitioning
  filteringColumns := metadata.primaryKeyColumns.toList ++
    metadata.nonpkPartitionKeyColumns.getD [] ++ metadata.filteringColumns
  tableColumns := tableColumns

/-- `score_index`.  The lengths are machine words: the difference wraps. -/
def scoreIndex (entry : VsIndexEntry) (equalityColumns rangeColumns : List ColumnName) :
    Option NeedsFiltering :=
  if !(equalityColumns ++ rangeColumns).all (entry.filteringColumns.contains ·) then none
  else
    match entry.partitioning with
    | .global =>
      let uncovered := UInt64.ofNat equalityColumns.length + UInt64.ofNat rangeColumns.length
      some (if uncovered = 0 then .no else .yes uncovered)
    | .local pkColumns =>
      if !pkColumns.toList.all (equalityColumns.contains ·) then none
      else
        let uncovered := UInt64.ofNat equalityColumns.length - UInt64.ofNat pkColumns.length +
          UInt64.ofNat rangeColumns.length
        some (if uncovered = 0 then .no else .yes uncovered)

end VsIndexEntry

end VectorStore
