import VectorStore.Search.Compare
import VectorStore.Search.Restriction
import VectorStore.Table.Store

/-!
# Searching a table

A query on a local index takes the key of its partition from the `Eq` restrictions on the partition
columns and drops these restrictions; the rest is checked row by row on the stored columns.
-/

namespace VectorStore

/-! ## The partition of a query -/

namespace RestrictionOf

variable {ν : Type}

/-- The value that an `Eq` restriction gives to a column. -/
def eqValue (column : ColumnName) (restriction : RestrictionOf ν) : Option ν :=
  match restriction with
  | eq lhs rhs => if lhs = column then some rhs else none
  | isIn _ _ | lt _ _ | lte _ _ | gt _ _ | gte _ _ | eqTuple _ _ | inTuple _ _ | ltTuple _ _
  | lteTuple _ _ | gtTuple _ _ | gteTuple _ _ => none

/-- The restriction is an `Eq` on one of the columns. -/
def isEqOn (keyColumns : List ColumnName) : RestrictionOf ν → Bool
  | eq lhs _ => keyColumns.contains lhs
  | isIn _ _ | lt _ _ | lte _ _ | gt _ _ | gte _ _ | eqTuple _ _ | inTuple _ _ | ltTuple _ _
  | lteTuple _ _ | gtTuple _ _ | gteTuple _ _ => false

end RestrictionOf

/-- `partition_key_from_restrictions`: the key and the restrictions that remain. -/
def partitionKeyFromRestrictions (keyColumns : List ColumnName)
    (restrictions : List Restriction) : Option (PartitionKey × Option (List Restriction)) :=
  (keyColumns.mapM fun column => restrictions.findSome? (RestrictionOf.eqValue column)).map
    fun values =>
      let residual := restrictions.filter fun restriction => !restriction.isEqOn keyColumns
      (.fromIter values, if residual.isEmpty then none else some residual)

namespace Table

variable [TimeuuidOrd] (table : Table)

/-- `Table::partition_id`. -/
def partitionId (indexKey : IndexKey) (restrictions : Option (List Restriction)) :
    Option (PartitionId × Option (List Restriction)) :=
  if indexKey ≠ table.indexKey then none
  else
    match table.index.data with
    | .globalIndex => some (.global table.index.indexId, restrictions)
    | .localIndex data =>
      (restrictions.bind (partitionKeyFromRestrictions data.partitionKeyColumns.toList)).bind
        fun found => (data.map.lookup found.1).map fun partitionId => (partitionId, found.2)

/-- `is_valid_primary_id`. -/
def isValidPrimaryId (partitionId : PartitionId) (primaryId : PrimaryId) : Bool :=
  if partitionId.indexId ≠ table.index.indexId then false
  else (table.index.valuesTimestamps.get primaryId).any fun v => v.epoch = primaryId.epoch

/-- `Table::primary_key`. -/
def primaryKey (partitionId : PartitionId) (primaryId : PrimaryId) : Option PrimaryKey :=
  if !table.isValidPrimaryId partitionId primaryId then none
  else (table.primaryKeys.get primaryId).join

/-- The stored value of a column. -/
def columnValue (primaryId : PrimaryId) (column : ColumnName) : Option CqlValue :=
  (table.columns.lookup column).bind fun column => column.get primaryId table.primaryKeys

/-- `Table::column_value_for`. -/
def columnValueFor (partitionId : PartitionId) (primaryId : PrimaryId) (column : ColumnName) :
    Option CqlValue :=
  if !table.isValidPrimaryId partitionId primaryId then none
  else table.columnValue primaryId column

/-- `cql_cmp_single`. -/
def cqlCmpSingle (primaryId : PrimaryId) (lhs : ColumnName) (rhs : CqlValue) : Option Ordering :=
  (table.columnValue primaryId lhs).bind fun value => value.cmp rhs

/-- `cql_cmp_tuple`: the first pair that is not equal decides. -/
def cqlCmpTuple (primaryId : PrimaryId) (lhs : List ColumnName) (rhs : List CqlValue) :
    Option Ordering :=
  (((lhs.zip rhs).map fun p => table.cqlCmpSingle primaryId p.1 p.2).find?
    fun ord => ord ≠ some .eq).getD (some .eq)

/-- What `is_valid_for` checks of the columns of a row. -/
def satisfies (primaryId : PrimaryId) : Restriction → Bool
  | .eq lhs rhs => (table.cqlCmpSingle primaryId lhs rhs).any Ordering.isEq
  | .isIn lhs rhs => (table.columnValue primaryId lhs).any fun value =>
      (rhs.filterMap value.cmp).any Ordering.isEq
  | .lt lhs rhs => (table.cqlCmpSingle primaryId lhs rhs).any Ordering.isLT
  | .lte lhs rhs => (table.cqlCmpSingle primaryId lhs rhs).any Ordering.isLE
  | .gt lhs rhs => (table.cqlCmpSingle primaryId lhs rhs).any Ordering.isGT
  | .gte lhs rhs => (table.cqlCmpSingle primaryId lhs rhs).any Ordering.isGE
  | .eqTuple lhs rhs => (lhs.zip rhs).all fun p =>
      (table.cqlCmpSingle primaryId p.1 p.2).any Ordering.isEq
  | .inTuple lhs rhs => (lhs.mapM (table.columnValue primaryId)).any fun lhs =>
      rhs.any fun rhs => (lhs.zip rhs).all fun p => (p.1.cmp p.2).any Ordering.isEq
  | .ltTuple lhs rhs => (table.cqlCmpTuple primaryId lhs rhs).any Ordering.isLT
  | .lteTuple lhs rhs => (table.cqlCmpTuple primaryId lhs rhs).any Ordering.isLE
  | .gtTuple lhs rhs => (table.cqlCmpTuple primaryId lhs rhs).any Ordering.isGT
  | .gteTuple lhs rhs => (table.cqlCmpTuple primaryId lhs rhs).any Ordering.isGE

/-- `Table::is_valid_for`. -/
def isValidFor (partitionId : PartitionId) (primaryId : PrimaryId) (restriction : Restriction) :
    Bool :=
  if !table.isValidPrimaryId partitionId primaryId then false
  else table.satisfies primaryId restriction

end Table

end VectorStore
