import VectorStore.Read.DbIndex

/-!
# The consumer of CDC rows

A reader hands its consumer the rows of the CDC log.  The consumer skips what does not concern the
index and what repeats its last row; an upsert makes it fetch the row from the database, and a
delete becomes a message at once.
-/

namespace VectorStore

/-- What a consumer does with a row. -/
inductive CdcOperation where
  | upsert
  | delete
deriving DecidableEq

/-- The operation of a row of the CDC log. -/
inductive OperationType where
  | preImage
  | rowUpdate
  | rowInsert
  | rowDelete
  | partitionDelete
  | rowRangeDelInclLeft
  | rowRangeDelExclLeft
  | rowRangeDelInclRight
  | rowRangeDelExclRight
  | postImage
deriving DecidableEq

/-- What a consumer does with the rows of an operation; the others are unsupported. -/
def OperationType.operation : OperationType → Option CdcOperation
  | partitionDelete | rowDelete => some .delete
  | rowUpdate | rowInsert | postImage => some .upsert
  | preImage | rowRangeDelInclLeft | rowRangeDelExclLeft | rowRangeDelInclRight
  | rowRangeDelExclRight => none

/-- A row of the CDC log: its operation, the seconds and nanoseconds of its time, and its values. -/
structure CdcRow where
  operation : OperationType
  time : Option (Nat × Nat)
  value : ColumnName → Option CqlValue

/-- A consumer: the last row that it processed. -/
structure CdcConsumer where
  primaryKey : List CqlValue
  timestamp : Timestamp
  operation : CdcOperation
deriving DecidableEq

namespace CdcConsumer

/-- `new_consumer`. -/
def new : CdcConsumer := ⟨[], .min, .upsert⟩

/-- `consume_cdc` up to `process_row`: the consumer whose row is processed next, or nothing for a
row that is skipped.  The argument `same` compares primary keys as the driver does. -/
def consumeCdc (statements : Statements) (same : List CqlValue → List CqlValue → Bool)
    (isClosed : Bool) (consumer : CdcConsumer) (row : CdcRow) :
    Except String (Option CdcConsumer) :=
  if isClosed then .ok none
  else
    match row.operation.operation with
    | none => .ok none
    | some operation =>
      match statements.primaryKeyColumns.toList.mapM row.value with
      | none => .ok none
      | some primaryKey =>
        match Timestamp.tryFrom row.time with
        | .error err => .error s!"CDC error: converting row.time: {err}"
        | .ok timestamp =>
          if timestamp = consumer.timestamp ∧ same primaryKey consumer.primaryKey ∧
              operation = consumer.operation then .ok none
          else .ok (some ⟨primaryKey, timestamp, operation⟩)

end CdcConsumer

/-- `process_upsert` after the row was fetched: the row that is sent.  A row that is not found is
deleted. -/
def Statements.processUpsert [Driver] (statements : Statements) (primaryKey : List CqlValue)
    (timestamp : Timestamp) (fetched : Option (List (Option DbValue))) :
    Except Failure DbIndexedRow :=
  match fetched with
  | none => .ok ⟨.fromIter primaryKey, .delete timestamp⟩
  | some columns =>
    if columns.length ≠ statements.columnsLenExpected then
      .error <| .error <| "Unexpected number of columns in row: expected " ++
        s!"{statements.columnsLenExpected}, got {columns.length}"
    else do
      let values ← parseValues columns (some timestamp) statements.targetColumnsLen
        statements.kind statements.alternatorDecodeTypes
      return ⟨.fromIter primaryKey, .upsert values⟩

/-- `process_delete`: the row that is sent. -/
def processDelete (primaryKey : List CqlValue) (timestamp : Timestamp) : DbIndexedRow :=
  ⟨.fromIter primaryKey, .delete timestamp⟩

end VectorStore
