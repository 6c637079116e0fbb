import VectorStore.VsIndex.Usearch

/-!
# The DiskANN actor

The actor takes one message at a time, finds or creates the partition of the message and hands a task
over to the workers.  There are no permits: the tasks of one partition run next to each other.  A task
calls the index and counts in the size of the index when the call succeeded.
-/

namespace VectorStore

namespace Diskann

open Usearch (Allocate Message fetchAdd fetchSub)

/-- A partition with the live ids of its graph and the vectors they were inserted with. -/
structure Partition where
  partitionId : PartitionId
  live : AList fun _ : PrimaryId => Vector

/-- What a task does. -/
inductive Job where
  | addVector (primaryId : PrimaryId) (embedding : Vector)
  | removeVector (primaryId : PrimaryId)
  | ann
deriving DecidableEq

/-- What `insert` or `inplace_delete` does to a partition when it succeeds. -/
def Job.call (ok : Bool) (partition : Partition) : Job → Partition
  | addVector primaryId embedding =>
    if ok then { partition with live := partition.live.insert primaryId embedding } else partition
  | removeVector primaryId =>
    if ok then { partition with live := partition.live.erase primaryId } else partition
  | ann => partition

/-- Whether a task counts after its call. -/
def Job.counts (ok : Bool) : Job → Bool
  | addVector _ _ | removeVector _ => ok
  | ann => false

/-- How a task changes the size of its index. -/
def Job.count : Job → ℕ → ℕ
  | addVector _ _ => fetchAdd
  | removeVector _ => fetchSub
  | ann => id

/-- A task with the partition it works on. -/
structure Dispatch where
  partitionId : PartitionId
  partition : ℕ
  job : Job
deriving DecidableEq

/-- The index that a task counts for. -/
def Dispatch.indexId (d : Dispatch) : IndexId := d.partitionId.indexId

/-- How far a running task has come. -/
inductive Progress where
  | started
  /-- The call of the index succeeded: the size is next. -/
  | called
  | processed
deriving DecidableEq

/-- Where the actor is with a message. -/
inductive Phase where
  | idle
  /-- `dispatch_task` waits for a slot of the channel. -/
  | send
deriving DecidableEq

structure State where
  runtime : Runtime
  /-- The partitions in use, by their position in the arena. -/
  partitions : AList fun _ : PartitionId => ℕ
  /-- All partitions, in the order of their creation. -/
  arena : List Partition
  sizes : AList fun _ : IndexId => ℕ
  tasks : List (Task Dispatch Progress)
  phase : Phase
  /-- The modifications that were not refused, in order. -/
  accepted : List VsIndexModify

/-- What the actor is told when it takes a message: whether it may allocate memory, and whether
`create_index` succeeds. -/
structure Environment where
  allocate : Allocate
  created : Bool
deriving DecidableEq

/-- A step of the actor, of a worker or of a task. -/
inductive Action where
  | receive (message : Message) (environment : Environment)
  | send
  /-- A worker takes a task. -/
  | take (task : ℕ)
  /-- A task calls the index, which says whether the call succeeded. -/
  | call (task : ℕ) (ok : Bool)
  /-- A task updates the size. -/
  | count (task : ℕ)
  | finish (task : ℕ)
deriving DecidableEq

namespace State

variable (s : State)

/-- A new actor. -/
def init (runtime : Runtime) : State := ⟨runtime, ∅, [], ∅, [], .idle, []⟩

/-- What `Count` answers for an index. -/
def count (indexId : IndexId) : ℕ := (s.sizes.lookup indexId).getD 0

/-- Nothing is on its way. -/
def Quiescent : Prop := s.phase = .idle ∧ ∀ t ∈ s.tasks, t.stage = .finished

instance : Decidable s.Quiescent := inferInstanceAs (Decidable (_ ∧ _))

/-- The state with a task at another stage. -/
def move (task : ℕ) (stage : Stage Progress) : State :=
  { s with tasks := s.tasks.modify task (Task.withStage stage) }

/-- The state with a partition changed. -/
def setPartition (partition : ℕ) (f : Partition → Partition) : State :=
  { s with arena := s.arena.modify partition f }

/-- `dispatch_task`: a task is about to be handed over.  The size of its index is there. -/
def dispatchTask (dispatch : Dispatch) : State :=
  { s with
    sizes := s.sizes.insert dispatch.indexId ((s.sizes.lookup dispatch.indexId).getD 0)
    tasks := s.tasks ++ [⟨dispatch, .sending⟩]
    phase := .send }

/-- The state with one more modification that was not refused. -/
def accept (message : VsIndexModify) : State := { s with accepted := s.accepted ++ [message] }

/-- The state with a new partition. -/
def create (partitionId : PartitionId) : State :=
  { s with
    partitions := s.partitions.insert partitionId s.arena.length
    arena := s.arena ++ [⟨partitionId, ∅⟩] }

/-- `preprocess` for a vector to add: its partition is found or created. -/
def preprocessAdd (partitionId : PartitionId) (primaryId : PrimaryId) (embedding : Vector)
    (created : Bool) : State :=
  let s' := s.accept (.addVector partitionId primaryId embedding)
  match s.partitions.lookup partitionId with
  | some partition => s'.dispatchTask ⟨partitionId, partition, .addVector primaryId embedding⟩
  | none =>
    if created then
      (s'.create partitionId).dispatchTask
        ⟨partitionId, s.arena.length, .addVector primaryId embedding⟩
    else s

/-- `preprocess` for what needs a partition that is there: without one the message is dropped. -/
def preprocessFound (partitionId : PartitionId) (job : Job) : State :=
  match s.partitions.lookup partitionId with
  | some partition => s.dispatchTask ⟨partitionId, partition, job⟩
  | none => s

/-- `preprocess` and `dispatch_task`. -/
def preprocess (message : Message) (created : Bool) : State :=
  match message with
  | .modify (.addVector partitionId primaryId embedding) =>
    s.preprocessAdd partitionId primaryId embedding created
  | .modify (.removeVector partitionId primaryId) =>
    (s.accept (.removeVector partitionId primaryId)).preprocessFound partitionId
      (.removeVector primaryId)
  | .modify (.removePartition partitionId) =>
    { s.accept (.removePartition partitionId) with
      partitions := s.partitions.erase partitionId }
  | .search partitionId => s.preprocessFound partitionId .ann

/-- The actor takes a message, when `check_memory_allocation` lets it through. -/
def receive (message : Message) (environment : Environment) : State :=
  if Usearch.State.checkMemoryAllocation message environment.allocate then
    s.preprocess message environment.created
  else s

/-- A task calls the index. -/
def call (i : ℕ) (ok : Bool) : State :=
  match s.tasks[i]? with
  | none => s
  | some task =>
    (s.setPartition task.dispatch.partition (task.dispatch.job.call ok)).move i
      (.running (if task.dispatch.job.counts ok then .called else .processed))

/-- A task updates the size of its index. -/
def countTask (i : ℕ) : State :=
  match s.tasks[i]? with
  | none => s
  | some task =>
    { s with
      sizes := FiniteMap.modify s.sizes task.dispatch.indexId task.dispatch.job.count }.move i
        (.running .processed)

end State

/-- The state after a step. -/
def step (s : State) : Action → State
  | .receive message environment => s.receive message environment
  | .send => { s.move (s.tasks.length - 1) .queued with phase := .idle }
  | .take i => s.move i (.running .started)
  | .call i ok => s.call i ok
  | .count i => s.countTask i
  | .finish i => s.move i .finished

/-- The stage of a task. -/
def State.stageOf (s : State) (i : ℕ) : Option (Stage Progress) := s.tasks[i]?.map Task.stage

/-- When a step can be taken. -/
def Enabled (s : State) : Action → Prop
  | .receive _ _ => s.phase = .idle
  | .send => s.phase = .send ∧ Task.HasSlot s.runtime s.tasks
  | .take i => s.stageOf i = some .queued ∧ Task.HasWorker s.runtime s.tasks
  | .call i _ => s.stageOf i = some (.running .started)
  | .count i => s.stageOf i = some (.running .called)
  | .finish i => s.stageOf i = some (.running .processed)

instance (s : State) (a : Action) : Decidable (Enabled s a) := by
  cases a <;> unfold Enabled <;> infer_instance

end Diskann

end VectorStore
