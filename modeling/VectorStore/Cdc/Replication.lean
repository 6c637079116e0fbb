import VectorStore.Cdc.Consumer
import VectorStore.Rows.Global

/-!
# Replication of a row

One row of the database, the full scan, any number of CDC readers, the messages they send and the
table of an index, as one machine.  The database row is a register for every cell.  A fetch of the
row for an event takes place some time after the event was consumed, and a message is processed
some time after it was sent, in any order.
-/

namespace VectorStore

/-! ## The row of the database -/

/-- A write to a row of the database at a number of microseconds.  An insert or an update gives
values to some columns; a null value deletes the cell. -/
inductive RowWrite where
  | insert (writetime : Nat) (values : ColumnName → Option (Option DbValue))
  | update (writetime : Nat) (values : ColumnName → Option (Option DbValue))
  | delete (writetime : Nat)

namespace RowWrite

/-- The time of a write. -/
def writetime : RowWrite → Nat
  | insert writetime _ => writetime
  | update writetime _ => writetime
  | delete writetime => writetime

/-- What a write leaves in a column, when it writes it. -/
def value (name : ColumnName) : RowWrite → Option (Option DbValue)
  | insert _ values => values name
  | update _ values => values name
  | delete _ => some none

/-- What a write makes of the row marker, when it writes it. -/
def marker : RowWrite → Option Bool
  | insert _ _ => some true
  | update _ _ => none
  | delete _ => some false

/-- The timestamp of a write. -/
def stamp (write : RowWrite) : Timestamp := .fromMicros write.writetime

/-- The timestamp and the operation of the event of a write. -/
def event : RowWrite → Timestamp × CdcOperation
  | insert writetime _ => (.fromMicros writetime, .upsert)
  | update writetime _ => (.fromMicros writetime, .upsert)
  | delete writetime => (.fromMicros writetime, .delete)

end RowWrite

/-- A row of the database: its marker, which says that the row was inserted, and its cells. -/
structure BaseRow where
  marker : Stamped Nat Bool
  cells : ColumnName → Stamped Nat (Option DbValue)

namespace BaseRow

/-- A row that was never written. -/
def fresh : BaseRow := ⟨⟨0, false⟩, fun _ => ⟨0, none⟩⟩

/-- The row after a write: the last write of the marker and of every cell wins. -/
def write (row : BaseRow) (write : RowWrite) : BaseRow where
  marker := write.marker.elim row.marker fun live => row.marker.absorb ⟨write.writetime, live⟩
  cells := fun name => (write.value name).elim (row.cells name) fun value =>
    (row.cells name).absorb ⟨write.writetime, value⟩

/-- The row exists: it was inserted, or one of its columns has a value. -/
def isPresent (columns : List ColumnName) (row : BaseRow) : Bool :=
  row.marker.content || columns.any fun name => (row.cells name).content.isSome

/-- The values of some columns with their write times, as a query selects them. -/
def select (names : List ColumnName) (row : BaseRow) : List (Option DbValue) :=
  names.flatMap fun name =>
    [(row.cells name).content, (row.cells name).content.map fun _ =>
      .value (.bigInt (.ofNat (row.cells name).stamp))]

end BaseRow

/-! ## The parties -/

/-- A global index of one column, a row of its table and what is known of the table. -/
structure Replication where
  metadata : IndexMetadata
  decodeType : ColumnName → Option NativeType
  kind : IndexKind
  /-- The columns of the table outside of the primary key. -/
  baseColumns : List ColumnName
  primaryKey : List CqlValue
  same : List CqlValue → List CqlValue → Bool
  partitioning_eq : metadata.partitioning = .global
  targetColumns_rest : metadata.targetColumns.rest = []
  columns_subset : (Statements.new metadata decodeType kind).columns ⊆ baseColumns
  length_primaryKey : primaryKey.length = metadata.primaryKeyColumns.length

namespace Replication

/-- What the queries select. -/
def statements (r : Replication) : Statements := .new r.metadata r.decodeType r.kind

/-- The state of all parties. -/
structure State (ι : Type) where
  /-- The writes of the row, from the first to the last. -/
  history : List RowWrite
  consumers : ι → CdcConsumer
  /-- The events of the row that a consumer processed. -/
  delivered : List (Timestamp × CdcOperation)
  /-- The events whose row is still to be fetched. -/
  tasks : List Timestamp
  /-- The messages that are still to be processed. -/
  messages : List DbIndexedRow
  world : World

/-- What the parties do. -/
inductive Action (ι : Type) where
  /-- The row is written. -/
  | write (write : RowWrite)
  /-- The full scan reads the row. -/
  | scan
  /-- A reader hands a row of the log to its consumer. -/
  | consume (reader : ι) (row : CdcRow)
  /-- The row is fetched for an event. -/
  | fetch (timestamp : Timestamp)
  /-- A message is processed. -/
  | process (message : DbIndexedRow)
  /-- A call on another row. -/
  | other (call : Call)

variable {ι : Type} [DecidableEq ι] [Driver] [DecimalNormalizer]

namespace State

/-- The row of the database. -/
def row (s : State ι) : BaseRow := s.history.foldl BaseRow.write .fresh

/-- The state before the first write. -/
def init (table : Table) : State ι := ⟨[], fun _ => .new, [], [], [], .init table⟩

/-- The state after a consumer processed an event of the row. -/
def deliver (consumer : CdcConsumer) (s : State ι) : State ι :=
  let s := { s with delivered := s.delivered ++ [(consumer.timestamp, consumer.operation)] }
  match consumer.operation with
  | .upsert => { s with tasks := s.tasks ++ [consumer.timestamp] }
  | .delete =>
    { s with messages := s.messages ++ [processDelete consumer.primaryKey consumer.timestamp] }

end State

/-- What a query for the row finds. -/
def fetched (r : Replication) (s : State ι) : Option (List (Option DbValue)) :=
  if s.row.isPresent r.baseColumns then some (s.row.select r.statements.columns) else none

/-- What the full scan sends of the row. -/
def scanned (r : Replication) (s : State ι) : Option DbIndexedRow :=
  (r.fetched s).bind fun columns =>
    r.statements.rangeScanRow (r.primaryKey.map (fun value => some (.value value)) ++ columns)

/-- What is sent for an event after the row was fetched. -/
def sent (r : Replication) (s : State ι) (timestamp : Timestamp) : Except Failure DbIndexedRow :=
  r.statements.processUpsert r.primaryKey timestamp (r.fetched s)

/-- What a consumer does with a row of the log. -/
def consumed (r : Replication) (s : State ι) (reader : ι) (row : CdcRow) : Option CdcConsumer :=
  ((s.consumers reader).consumeCdc r.statements r.same false row).toOption.join

/-- The state after an action. -/
def step (r : Replication) (s : State ι) : Action ι → State ι
  | .write write => { s with history := s.history ++ [write] }
  | .scan => { s with messages := s.messages ++ (r.scanned s).toList }
  | .consume reader row =>
    match r.consumed s reader row with
    | none => s
    | some consumer =>
      let s := { s with consumers := Function.update s.consumers reader consumer }
      if consumer.primaryKey = r.primaryKey then s.deliver consumer else s
  | .fetch timestamp =>
    { s with
      tasks := s.tasks.erase timestamp
      messages := s.messages ++ (r.sent s timestamp).toOption.toList }
  | .process message =>
    { s with
      messages := s.messages.erase message
      world := s.world.step (message.call r.metadata.key) }
  | .other call => { s with world := s.world.step call }

/-- The write times increase and the timestamps hold them, the log tells the writes that took
place, fetched rows can be parsed, and calls on the table succeed. -/
def Enabled (r : Replication) (s : State ι) : Action ι → Prop
  | .write write =>
    (0 < write.writetime ∧ write.writetime ≤ maxMicros) ∧
      ∀ earlier ∈ s.history, earlier.writetime < write.writetime
  | .scan => True
  | .consume reader row => ∀ consumer, r.consumed s reader row = some consumer →
      consumer.primaryKey = r.primaryKey →
        ∃ write ∈ s.history, write.event = (consumer.timestamp, consumer.operation)
  | .fetch timestamp => timestamp ∈ s.tasks ∧ ∃ message, r.sent s timestamp = .ok message
  | .process message => message ∈ s.messages ∧ s.world.Succeeds (message.call r.metadata.key)
  | .other call =>
    s.world.keyOf call ≠ s.world.table.normalizePrimaryKey (.fromIter r.primaryKey)

instance (r : Replication) (s : State ι) (reader : ι) (row : CdcRow) :
    Decidable (r.Enabled s (.consume reader row)) :=
  decidable_of_iff (∀ consumer ∈ (r.consumed s reader row).toList,
      consumer.primaryKey = r.primaryKey →
        ∃ write ∈ s.history, write.event = (consumer.timestamp, consumer.operation)) (by
    simp only [Option.mem_toList]
    rfl)

instance (r : Replication) (s : State ι) (timestamp : Timestamp) :
    Decidable (r.Enabled s (.fetch timestamp)) :=
  decidable_of_iff (timestamp ∈ s.tasks ∧ (r.sent s timestamp).toOption.isSome) (by
    refine and_congr_right fun _ => ?_
    cases r.sent s timestamp <;> simp [Except.toOption])

instance (r : Replication) (s : State ι) : (action : Action ι) → Decidable (r.Enabled s action)
  | .write write => inferInstanceAs (Decidable
      ((0 < write.writetime ∧ write.writetime ≤ maxMicros) ∧
        ∀ earlier ∈ s.history, earlier.writetime < write.writetime))
  | .scan => inferInstanceAs (Decidable True)
  | .consume _ _ => inferInstance
  | .fetch _ => inferInstance
  | .process message => inferInstanceAs (Decidable
      (message ∈ s.messages ∧ s.world.Succeeds (message.call r.metadata.key)))
  | .other call => inferInstanceAs (Decidable
      (s.world.keyOf call ≠ s.world.table.normalizePrimaryKey (.fromIter r.primaryKey)))

/-- Every write was delivered, every event fetched and every message processed. -/
structure Settled (s : State ι) : Prop where
  delivered : ∀ write ∈ s.history, write.event ∈ s.delivered
  tasks : s.tasks = []
  messages : s.messages = []

end Replication

end VectorStore
