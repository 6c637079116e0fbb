import VectorStore.Table.Table

/-!
# The metadata of an index

What the database says about an index, as far as the table is built from it.
-/

namespace VectorStore

/-- How an index is partitioned. -/
inductive DbIndexPartitioning where
  | global
  | local (columns : NonemptyBox ColumnName)
deriving DecidableEq

/-- The metadata of an index. -/
structure IndexMetadata where
  keyspaceName : String
  indexName : String
  primaryKeyColumns : NonemptyBox ColumnName
  partitionKeyCount : ℕ+
  targetColumns : NonemptyBox ColumnName
  partitioning : DbIndexPartitioning
  filteringColumns : List ColumnName

namespace IndexMetadata

/-- `IndexMetadata::key`. -/
def key (metadata : IndexMetadata) : IndexKey := .new metadata.keyspaceName metadata.indexName

/-- `nonpk_filtering_columns`: a column of the primary key cannot be stored as a filtering column. -/
def nonpkFilteringColumns (metadata : IndexMetadata) : List ColumnName :=
  metadata.filteringColumns.filter fun col => !metadata.primaryKeyColumns.toList.contains col

/-- `nonpk_partition_key_columns`: the partition key columns outside of the primary key. -/
def nonpkPartitionKeyColumns (metadata : IndexMetadata) : Option (List ColumnName) :=
  match metadata.partitioning with
  | .global => none
  | .local columns =>
    some (columns.toList.filter fun col => !metadata.primaryKeyColumns.toList.contains col)

end IndexMetadata

/-- `build_table` of the engine. -/
def buildTable (key : IndexKey) (metadata : IndexMetadata)
    (tableColumns : AList fun _ : ColumnName => NativeType) : Except Failure Table :=
  let partitionKeyColumns :=
    match metadata.partitioning with
    | .local partitionKeyColumns => some partitionKeyColumns
    | .global => none
  Table.new key metadata.primaryKeyColumns metadata.partitionKeyCount partitionKeyColumns
    metadata.targetColumns metadata.nonpkFilteringColumns tableColumns

end VectorStore
