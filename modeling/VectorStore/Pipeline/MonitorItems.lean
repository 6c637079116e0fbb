import VectorStore.FtsIndex.Documents
import VectorStore.Pipeline.Batches
import VectorStore.VsIndex.Actor

/-!
# The monitor of items

The actor that takes the rows of an index off its channel, gives them to the table and sends the
operations of the table to the actor of the index.  A row comes with a guard that says why it is in
progress: a full scan waits until all guards of its rows are dropped, and when the guard of a row from
the change log is dropped, the time since the write is observed.  The modifications are counted by
label.  When the actor of the index is gone, the monitor stops, and drops what is still on its channel.
-/

namespace VectorStore

/-- Why a row is in progress.  The channel and the histogram are those of the index. -/
inductive AsyncInProgress where
  | none
  | fullscan
  | cdc (timestamp : Timestamp)
deriving DecidableEq

namespace AsyncInProgress

/-- `take`: what was there, and what is left. -/
def take (inProgress : AsyncInProgress) : AsyncInProgress × AsyncInProgress := (inProgress, none)

/-- What is released when a guard is dropped. -/
def guards : AsyncInProgress → List AsyncInProgress
  | none => []
  | fullscan => [fullscan]
  | cdc timestamp => [cdc timestamp]

end AsyncInProgress

/-- Whether the actor of the index is there. -/
inductive MonitorItems.IndexStatus where
  | live
  | dead
deriving DecidableEq

/-- The labels of the counter `modified`. -/
inductive ModifiedLabel where
  | insert
  | update
  | remove
deriving DecidableEq

/-- The counter `modified` of an index, by label. -/
structure Modified where
  insert : ℕ
  update : ℕ
  remove : ℕ
deriving DecidableEq

namespace Modified

def inc (modified : Modified) : ModifiedLabel → Modified
  | .insert => { modified with insert := modified.insert + 1 }
  | .update => { modified with update := modified.update + 1 }
  | .remove => { modified with remove := modified.remove + 1 }

end Modified

/-- The messages that an index is sent.  An index that does not support a call ignores it, and so does
one that has no partitions. -/
structure IndexDispatch (M : Type) where
  addVector : PartitionId → PrimaryId → Vector → Option M
  addDocument : PartitionId → PrimaryId → String → Option M
  removeValue : PartitionId → PrimaryId → M
  removePartition : PartitionId → Option M

/-- A vector index. -/
def VsIndexModify.dispatch : IndexDispatch VsIndexModify where
  addVector partitionId primaryId vector := some (.addVector partitionId primaryId vector)
  addDocument _ _ _ := none
  removeValue partitionId primaryId := .removeVector partitionId primaryId
  removePartition partitionId := some (.removePartition partitionId)

/-- A full-text index, or a pattern index. -/
def FtsModify.dispatch : IndexDispatch FtsModify where
  addVector _ _ _ := none
  addDocument _ primaryId document := some (.addDocument primaryId document)
  removeValue _ primaryId := .removeDocument primaryId
  removePartition _ := none

/-- The state of the monitor. -/
structure MonitorItems (M : Type) where
  table : Table
  /-- The number of messages after which the actor of the index is gone, if it ever is. -/
  closing : Option ℕ
  /-- The messages that were sent, each with its guard. -/
  sent : List (M × AsyncInProgress)
  /-- The guards that were dropped here. -/
  dropped : List AsyncInProgress
  modified : Modified
  /-- The index is marked dirty in the metrics. -/
  dirty : Bool
  finished : Bool

namespace MonitorItems

variable {M : Type}

/-- The monitor of a table, before the first row. -/
def init (table : Table) (closing : Option ℕ) : MonitorItems M where
  table
  closing
  sent := []
  dropped := []
  modified := ⟨0, 0, 0⟩
  dirty := false
  finished := false

/-- A guard is dropped. -/
def drop (s : MonitorItems M) (inProgress : AsyncInProgress) : MonitorItems M :=
  { s with dropped := s.dropped ++ inProgress.guards }

/-- A message is sent with its guard.  Without a message, or when the channel is closed, the guard is
dropped. -/
def send (s : MonitorItems M) (message : Option M) (inProgress : AsyncInProgress) :
    IndexStatus × MonitorItems M :=
  match message with
  | none => (.live, s.drop inProgress)
  | some message =>
    match s.closing with
    | some 0 => (.dead, s.drop inProgress)
    | closing =>
      (.live, { s with
        closing := closing.map (· - 1)
        sent := s.sent ++ [(message, inProgress)] })

/-- A message is sent, and counted unless the index is dead.  With it comes what is left of the guard
of the row. -/
def sendCounted (s : MonitorItems M) (message : Option M) (taken inProgress : AsyncInProgress)
    (label : Option ModifiedLabel) : IndexStatus × AsyncInProgress × MonitorItems M :=
  match s.send message taken with
  | (.dead, s) => (.dead, inProgress, s)
  | (.live, s) => (.live, inProgress, { s with modified := label.elim s.modified s.modified.inc })

/-- An operation of `process_operations`. -/
def processOperation (dispatch : IndexDispatch M) (s : MonitorItems M)
    (inProgress : AsyncInProgress) : Operation → IndexStatus × AsyncInProgress × MonitorItems M
  | .addVector primaryId partitionId vector isUpdate =>
    let opLabel : ModifiedLabel := if isUpdate then .update else .insert
    let (taken, inProgress) := inProgress.take
    s.sendCounted (dispatch.addVector partitionId primaryId vector) taken inProgress opLabel
  | .addDocument primaryId partitionId document isUpdate =>
    let opLabel : ModifiedLabel := if isUpdate then .update else .insert
    let (taken, inProgress) := inProgress.take
    s.sendCounted (dispatch.addDocument partitionId primaryId document) taken inProgress opLabel
  | .removeBeforeAddValue primaryId partitionId =>
    s.sendCounted (some (dispatch.removeValue partitionId primaryId)) .none inProgress none
  | .removeValue primaryId partitionId =>
    let (taken, inProgress) := inProgress.take
    s.sendCounted (some (dispatch.removeValue partitionId primaryId)) taken inProgress
      (some .remove)
  | .removePartition partitionId =>
    s.sendCounted (dispatch.removePartition partitionId) .none inProgress none

/-- `process_operations`.  What is left of the guard is dropped at the end. -/
def processOperations (dispatch : IndexDispatch M) (s : MonitorItems M)
    (inProgress : AsyncInProgress) : List Operation → IndexStatus × MonitorItems M
  | [] => (.live, { s with dirty := true }.drop inProgress)
  | operation :: operations =>
    match s.processOperation dispatch inProgress operation with
    | (.dead, inProgress, s) => (.dead, s.drop inProgress)
    | (.live, inProgress, s) => s.processOperations dispatch inProgress operations

variable [DecimalNormalizer]

/-- A row is taken off the channel, with its guard.  A row that the table refuses is dropped; when the
index is dead, the monitor stops, and what comes afterwards is dropped with the channel. -/
def step (dispatch : IndexDispatch M) (s : MonitorItems M) (row : Call × AsyncInProgress) :
    MonitorItems M :=
  if s.finished then s.drop row.2
  else
    match s.table.call row.1 with
    | (.error _, table) => { s with table }.drop row.2
    | (.ok operations, table) =>
      match { s with table }.processOperations dispatch row.2 operations with
      | (.live, s) => s
      | (.dead, s) => { s with finished := true }

end MonitorItems

end VectorStore
