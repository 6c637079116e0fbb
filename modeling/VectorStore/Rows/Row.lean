import VectorStore.Foundation.Register
import VectorStore.Table.Store

/-!
# Rows without identifiers

What a table and its index are for, said row by row: a `Row` has the key it was first seen with,
one last-write-wins register for every column, and a `Target`, the stamp of the last indexed value
and the partition key and value the index holds.  No identifier, epoch or vector occurs.

The one thing a row learns from the others is `present`: whether a partition exists.
-/

namespace VectorStore

/-! ## The schema of a table -/

/-- A column without its values. -/
inductive ColumnShape where
  | values (type : NativeType)
  | primaryKey (offset : Nat)
deriving DecidableEq

/-- The shape of a column. -/
def Column.shape : Column → ColumnShape
  | values type _ => .values type
  | primaryKey offset => .primaryKey offset

/-- A column of the shape takes the write. -/
def ColumnShape.takes (write : ColumnWrite) : ColumnShape → Bool
  | values type => write.2.all fun value => value.nativeType = some type
  | primaryKey _ => false

/-- The column a write is for exists and takes it. -/
def accepts (shape : ColumnName → Option ColumnShape) (write : ColumnWrite × ColumnName) : Bool :=
  (shape write.2).any (·.takes write.1)

/-- What no call on a table changes. -/
structure Schema where
  indexKey : IndexKey
  partitionPrimaryKeyCount : ℕ+
  needsCkNormalization : Bool
  shape : ColumnName → Option ColumnShape
  /-- The partition key columns of a local index, and those outside the primary key. -/
  partitionColumns : Option (NonemptyBox ColumnName × List ColumnName)
  filteringColumns : List ColumnName

namespace Schema

/-- The partition key columns outside the primary key. -/
def nonpkPartitionKeyColumns (schema : Schema) : List ColumnName :=
  schema.partitionColumns.elim [] Prod.snd

end Schema

/-! ## The calls, without the table -/

namespace Call

/-- The index key of a call. -/
def indexKey : Call → IndexKey
  | upsert indexKey _ _ => indexKey
  | delete indexKey _ _ => indexKey

/-- The values of a call, split. -/
def split : Call → Except Failure Table.SplitValuesFiltering
  | upsert _ _ values => Table.splitValuesFiltering values
  | delete _ _ timestamp => .ok ⟨none, ⟨.newTombstone timestamp, []⟩, []⟩

/-- The writes of a call to the columns, in order. -/
def writes (schema : Schema) (call : Call) (split : Table.SplitValuesFiltering) :
    List (ColumnWrite × ColumnName) :=
  match call with
  | upsert _ _ _ =>
    split.filtering.zip (schema.nonpkPartitionKeyColumns ++ schema.filteringColumns)
  | delete _ _ timestamp =>
    (schema.filteringColumns.map fun _ => (timestamp, none)).zip schema.filteringColumns

end Call

/-! ## The target of a row -/

/-- What an index knows of a row: the stamp of its last value and what it holds. -/
@[ext] structure Target where
  stamp : Timestamp
  held : Option (PartitionKey × SplittingValues)

/-- The key that stands for the only partition of a global index. -/
def PartitionKey.whole : PartitionKey := .fromIter []

/-- Whether a row held under one key and due under another changes partitions.  A row that is not
held changes partitions only when its partition does not exist yet. -/
def changesPartition (present : PartitionKey → Bool) :
    Option PartitionKey → Option PartitionKey → Bool
  | some cur, some new => cur ≠ new
  | some _, none => true
  | none, some new => !present new
  | none, none => false

namespace Target

/-- The target of a row nothing is known of. -/
def fresh : Target := ⟨.min, none⟩

/-- The partition key of a held row. -/
def key (target : Target) : Option PartitionKey := target.held.map Prod.fst

/-- An update is admitted when it is newer, or as old as the last one and the row changes
partitions. -/
def admits (present : PartitionKey → Bool) (dest : Option PartitionKey) (timestamp : Timestamp)
    (target : Target) : Bool :=
  target.stamp < timestamp ||
    (target.stamp = timestamp && changesPartition present target.key dest)

/-- A row that is not held and has no partition key is skipped, its timestamp included. -/
def skips (dest : Option PartitionKey) (target : Target) : Bool :=
  target.held.isNone && dest.isNone

/-- The target after an update. -/
def process (present : PartitionKey → Bool) (dest : Option PartitionKey) (timestamp : Timestamp)
    (value : Option SplittingValues) (target : Target) : Target :=
  if target.admits present dest timestamp && !target.skips dest then
    ⟨timestamp, dest.bind fun key => value.map fun v => (key, v)⟩
  else target

/-- The update puts a value into the index. -/
def adds (present : PartitionKey → Bool) (dest : Option PartitionKey) (timestamp : Timestamp)
    (value : Option SplittingValues) (target : Target) : Bool :=
  target.admits present dest timestamp && dest.isSome && value.isSome

variable {present : PartitionKey → Bool} {dest : Option PartitionKey} {timestamp : Timestamp}
  {value : Option SplittingValues} {target : Target}

/-- A newer update is admitted. -/
theorem process_of_lt (h : target.stamp < timestamp) :
    target.process present dest timestamp value =
      if target.skips dest then target
      else ⟨timestamp, dest.bind fun key => value.map fun v => (key, v)⟩ := by
  unfold process admits
  cases hskips : target.skips dest <;> simp [h]

/-- An update as old as what is stored is admitted when the row changes partitions. -/
theorem process_of_eq (h : target.stamp = timestamp) :
    target.process present dest timestamp value =
      if changesPartition present target.key dest then
        ⟨timestamp, dest.bind fun key => value.map fun v => (key, v)⟩
      else target := by
  have hskips : changesPartition present target.key dest = true → target.skips dest = false := by
    unfold skips key
    cases target.held <;> cases dest <;> simp [changesPartition]
  unfold process admits
  cases hchanges : changesPartition present target.key dest with
  | true => simp [h, hskips hchanges]
  | false => simp [h]

/-- An older update changes nothing. -/
theorem process_of_gt (h : timestamp < target.stamp) :
    target.process present dest timestamp value = target := by
  unfold process admits
  simp [h.not_gt, h.ne']

/-- No update takes the stamp back. -/
theorem stamp_le_process :
    target.stamp ≤ (target.process present dest timestamp value).stamp := by
  rcases lt_trichotomy target.stamp timestamp with hlt | heq | hgt
  · rw [process_of_lt hlt]
    split
    · exact le_rfl
    · exact hlt.le
  · rw [process_of_eq heq]
    split
    · exact heq.le
    · exact le_rfl
  · rw [process_of_gt hgt]

/-- After a newer update the row is held as the update says. -/
theorem held_process_of_lt (h : target.stamp < timestamp) :
    (target.process present dest timestamp value).held =
      dest.bind fun key => value.map fun v => (key, v) := by
  rw [process_of_lt h]
  split
  · next hskips =>
    unfold skips at hskips
    rw [Bool.and_eq_true, Option.isNone_iff_eq_none, Option.isNone_iff_eq_none] at hskips
    rw [hskips.1, hskips.2, Option.bind_none]
  · rfl

end Target

/-! ## Rows -/

/-- A column of a row. -/
abbrev Cell := Stamped Timestamp (Option CqlValue)

/-- The columns of a row, by name. -/
abbrev Cells := ColumnName → Cell

namespace Cells

/-- Columns without values. -/
def fresh : Cells := fun _ => ⟨.min, none⟩

/-- The columns after a write to one of them. -/
def write (cells : Cells) (write : ColumnWrite × ColumnName) : Cells :=
  Function.update cells write.2 ((cells write.2).absorb ⟨write.1.1, write.1.2⟩)

/-- The columns after the writes up to the first that is not accepted. -/
def writeAll (shape : ColumnName → Option ColumnShape) (cells : Cells)
    (writes : List (ColumnWrite × ColumnName)) : Cells :=
  (writes.takeWhile (accepts shape)).foldl write cells

end Cells

/-- A row of a table. -/
@[ext] structure Row where
  /-- The key the row was first seen with. -/
  key : Option PrimaryKey
  cells : Cells
  target : Target

namespace Row

/-- The row nothing is known of. -/
def fresh : Row := ⟨none, .fresh, .fresh⟩

/-- The value of a column of a row. -/
def column (schema : Schema) (row : Row) (name : ColumnName) : Option CqlValue :=
  match schema.shape name with
  | some (.values _) => (row.cells name).content
  | some (.primaryKey offset) => row.key.bind fun key => key.get offset
  | none => none

/-- The partition key its columns give a row. -/
def partitionKey (schema : Schema) (row : Row) : Option PartitionKey :=
  match schema.partitionColumns with
  | none => some .whole
  | some (columns, _) => (columns.toList.mapM (row.column schema)).map PartitionKey.fromIter

/-- The partition key a row is due under.  With all partition columns in the primary key, a held
row stays where it is. -/
def destination (schema : Schema) (row : Row) : Option PartitionKey :=
  if schema.nonpkPartitionKeyColumns.isEmpty && row.target.held.isSome then row.target.key
  else row.partitionKey schema

/-- The row after an update of its target. -/
def process (schema : Schema) (present : PartitionKey → Bool) (row : Row) (timestamp : Timestamp)
    (value : Option SplittingValues) : Row :=
  { row with
    target := row.target.process present (row.destination schema) timestamp value }

/-- The row with the key of a call, unless it has one. -/
def touch (row : Row) (key : PrimaryKey) : Row := { row with key := row.key.or (some key) }

/-- The row with the columns of a call. -/
def prepare (schema : Schema) (call : Call) (split : Table.SplitValuesFiltering) (row : Row) : Row :=
  { row.touch call.primaryKey with
    cells := row.cells.writeAll schema.shape (call.writes schema split) }

/-- The row after a call that found its identifier. -/
def call (schema : Schema) (present : PartitionKey → Bool) (call : Call) (row : Row) : Row :=
  match call.split with
  | .error _ => row.touch call.primaryKey
  | .ok split =>
    let prepared := row.prepare schema call split
    if (call.writes schema split).all (accepts schema.shape) then
      prepared.process schema present split.timestamps.first.timestamp split.values
    else prepared

/-- Whether the call puts a value of the row into the index. -/
def adds (schema : Schema) (present : PartitionKey → Bool) (call : Call) (row : Row) : Bool :=
  match call.split with
  | .error _ => false
  | .ok split =>
    let prepared := row.prepare schema call split
    (call.writes schema split).all (accepts schema.shape) &&
      prepared.target.adds present (prepared.destination schema)
        split.timestamps.first.timestamp split.values

end Row

/-- The values of a call suit the columns they are for. -/
def Call.WellFormed (schema : Schema) (call : Call) : Prop :=
  ∃ split, call.split = .ok split ∧ (call.writes schema split).all (accepts schema.shape)

end VectorStore
