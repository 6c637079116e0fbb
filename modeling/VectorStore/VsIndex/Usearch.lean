import VectorStore.VsIndex.Operation
import VectorStore.VsIndex.Placed
import VectorStore.Worker

/-!
# The usearch actor

The actor takes one message at a time.  It finds or creates the partition of the message, makes sure
that an addition has room, waits for the permit and hands a closure over to the workers.  A closure
calls the index, updates the counters and drops its permit.  Each access of something shared is a
step of its own, so the closures of all partitions interleave with each other and with the actor.
-/

namespace VectorStore

namespace Usearch

/-- `fetch_add(1)` of an `AtomicUsize`. -/
def fetchAdd (n : ℕ) : ℕ := (n + 1) % 2 ^ 64

/-- `fetch_sub(1)` of an `AtomicUsize`. -/
def fetchSub (n : ℕ) : ℕ := (n + (2 ^ 64 - 1)) % 2 ^ 64

theorem fetchAdd_lt (n : ℕ) : fetchAdd n < 2 ^ 64 := by
  unfold fetchAdd
  omega

theorem fetchSub_lt (n : ℕ) : fetchSub n < 2 ^ 64 := by
  unfold fetchSub
  omega

/-! ## Partitions -/

/-- What the index of a partition holds, and how much it can hold. -/
structure UsearchIndex where
  stored : AList fun _ : PrimaryId => Vector
  capacity : ℕ

def reserveIncrementGlobal : ℕ := 1000000

def reserveIncrementLocal : ℕ := 1000

/-- How much room a partition keeps free ahead of the vectors it holds. -/
def freeThreshold (channelSize numWorkers : ℕ) : ℕ := channelSize + numWorkers + 1

structure PartitionState where
  partitionId : PartitionId
  size : ℕ
  capacity : ℕ
  capacityIncrement : ℕ
  freeThreshold : ℕ
  idx : UsearchIndex

/-- `PartitionState::new`, with an empty index. -/
def PartitionState.new (runtime : Runtime) (partitionId : PartitionId) (idxCapacity : ℕ) :
    PartitionState where
  partitionId
  size := 0
  capacity := 0
  capacityIncrement :=
    if partitionId.indexId.isGlobal then reserveIncrementGlobal else reserveIncrementLocal
  freeThreshold := Usearch.freeThreshold runtime.channelSize runtime.numWorkers
  idx := ⟨∅, idxCapacity⟩

/-- The capacity to reserve when the free space has run low. -/
def PartitionState.needsMoreCapacity (partition : PartitionState) : Option ℕ :=
  if partition.capacity - partition.size < partition.freeThreshold then
    some ((partition.capacity + partition.capacityIncrement) % 2 ^ 64)
  else none

/-- `IndexState`: the number of vectors of an index and the permits of its closures. -/
structure IndexState where
  size : ℕ
  operation : Operation

/-- `IndexState::new`. -/
def IndexState.new : IndexState := ⟨0, .new⟩

/-! ## Closures -/

/-- What a closure does. -/
inductive Job where
  | reserve (capacity : ℕ)
  | add (primaryId : PrimaryId) (embedding : Vector)
  | remove (primaryId : PrimaryId)
  | search
deriving DecidableEq

/-- The mode of the permit a closure runs under. -/
def Job.mode : Job → Mode
  | reserve _ => .reserve
  | add _ _ => .insert
  | remove _ => .remove
  | search => .search

/-- A closure with the partition it works on. -/
structure Dispatch where
  partitionId : PartitionId
  partition : ℕ
  job : Job
deriving DecidableEq

/-- The index whose permits a closure takes. -/
def Dispatch.indexId (d : Dispatch) : IndexId := d.partitionId.indexId

/-- How far a running closure has come. -/
inductive Progress where
  | started
  /-- The call of the index succeeded: the first counter is next. -/
  | called
  /-- The second counter is next. -/
  | counted
  /-- The permit is about to be dropped. -/
  | processed
deriving DecidableEq

/-- The results of the calls of the index. -/
inductive Outcome where
  | err
  /-- `reserve` succeeded and this is the capacity afterwards. -/
  | reserved (capacity : ℕ)
  | added
  | removed (found : Bool)
  | found
deriving DecidableEq

/-- What a call of the index does to it, and whether counters follow. -/
def Job.call : Job → Outcome → (UsearchIndex → UsearchIndex) × Progress
  | .reserve _, .reserved capacity => (fun idx => { idx with capacity }, .called)
  | .add primaryId embedding, .added =>
    (fun idx => { idx with stored := idx.stored.insert primaryId embedding }, .called)
  | .remove primaryId, .removed true =>
    (fun idx => { idx with stored := idx.stored.erase primaryId }, .called)
  | _, _ => (id, .processed)

/-! ## The actor -/

/-- Where the actor is with a message. -/
inductive Phase where
  | idle
  /-- `dispatch_task` begins. -/
  | check (dispatch : Dispatch)
  /-- `permit_for_reserve`. -/
  | reserve (dispatch : Dispatch)
  /-- The permit to reserve is held. -/
  | recheck (dispatch : Dispatch)
  | sendReserve (dispatch : Dispatch)
  /-- `permit_for_message`. -/
  | permit (dispatch : Dispatch)
  | send
deriving DecidableEq

/-- The closure a message will lead to, while the actor is with it. -/
def Phase.dispatch : Phase → Option Dispatch
  | .check d | .reserve d | .recheck d | .sendReserve d | .permit d => some d
  | .idle | .send => none

structure State where
  runtime : Runtime
  states : AList fun _ : IndexId => IndexState
  /-- The partitions in use, by their position in the arena. -/
  partitions : AList fun _ : PartitionId => ℕ
  /-- All partitions, in the order of their creation. -/
  arena : List PartitionState
  tasks : List (Task Dispatch Progress)
  phase : Phase
  /-- The modifications that were not refused, in order. -/
  accepted : List VsIndexModify

/-- `Allocate`. -/
inductive Allocate where
  | can
  | cannot
deriving DecidableEq

/-- What the actor is told when it takes a message: whether it may allocate memory, and the result
of `index_fn`, with the capacity of the index it made. -/
structure Environment where
  allocate : Allocate
  created : Option ℕ
deriving DecidableEq

/-- A message.  A search comes with the partition that the table finds for it. -/
inductive Message where
  | modify (message : VsIndexModify)
  | search (partitionId : PartitionId)
deriving DecidableEq

/-- The modifications in a message. -/
def Message.modifications : Message → List VsIndexModify
  | .modify message => [message]
  | .search _ => []

/-- A step of the actor, of a worker or of a closure. -/
inductive Action where
  | receive (message : Message) (environment : Environment)
  | check
  | permitReserve
  | recheck
  | send
  | permit
  /-- A worker takes a closure. -/
  | take (task : ℕ)
  /-- A closure calls the index. -/
  | call (task : ℕ) (outcome : Outcome)
  /-- A closure updates a counter. -/
  | count (task : ℕ)
  /-- A closure drops its permit and ends. -/
  | release (task : ℕ)
deriving DecidableEq

namespace State

variable (s : State)

/-- A new actor. -/
def init (runtime : Runtime) : State := ⟨runtime, ∅, ∅, [], [], .idle, []⟩

/-- What `Count` answers for an index. -/
def count (indexId : IndexId) : ℕ := ((s.states.lookup indexId).map IndexState.size).getD 0

/-- Nothing is on its way. -/
def Quiescent : Prop := s.phase = .idle ∧ ∀ t ∈ s.tasks, t.stage = .finished

instance : Decidable s.Quiescent := inferInstanceAs (Decidable (_ ∧ _))

/-- The state with the operation of an index changed. -/
def setOperation (indexId : IndexId) (f : Operation → Operation) : State :=
  { s with
    states := FiniteMap.modify s.states indexId fun state =>
      { state with operation := f state.operation } }

/-- The state with the size of an index changed. -/
def setSize (indexId : IndexId) (f : ℕ → ℕ) : State :=
  { s with
    states := FiniteMap.modify s.states indexId fun state => { state with size := f state.size } }

/-- The state with a partition changed. -/
def setPartition (partition : ℕ) (f : PartitionState → PartitionState) : State :=
  { s with arena := s.arena.modify partition f }

/-- The state with a closure at another stage. -/
def move (task : ℕ) (stage : Stage Progress) : State :=
  { s with tasks := s.tasks.modify task (Task.withStage stage) }

/-- The state with a closure that is about to be handed over. -/
def push (dispatch : Dispatch) : State := { s with tasks := s.tasks ++ [⟨dispatch, .sending⟩] }

/-- The lock of an index admits a permit. -/
def Admits (indexId : IndexId) (mode : Mode) : Prop :=
  ∀ state ∈ s.states.lookup indexId, state.operation.Admits Mode.isExclusive mode

instance (indexId : IndexId) (mode : Mode) : Decidable (s.Admits indexId mode) :=
  decidable_of_iff (((s.states.lookup indexId).all fun state =>
    decide (state.operation.Admits Mode.isExclusive mode)) = true) (by
      unfold Admits
      cases s.states.lookup indexId <;> simp)

/-- `needs_more_capacity` of a partition. -/
def needsMoreCapacity (partition : ℕ) : Option ℕ :=
  s.arena[partition]?.bind PartitionState.needsMoreCapacity

/-! ### `preprocess` -/

/-- `preprocess` for a vector to add: its partition is found or created. -/
def preprocessAdd (partitionId : PartitionId) (primaryId : PrimaryId) (embedding : Vector)
    (created : Option ℕ) : State :=
  let dispatch partition := Phase.check ⟨partitionId, partition, .add primaryId embedding⟩
  let accepted := s.accepted ++ [.addVector partitionId primaryId embedding]
  match s.partitions.lookup partitionId, s.states.lookup partitionId.indexId with
  | some partition, some _ => { s with phase := dispatch partition, accepted }
  -- the state of the index is not found
  | some _, none => s
  | none, state =>
    match created with
    | none => s
    | some idxCapacity =>
      { s with
        states := s.states.insert partitionId.indexId (state.getD .new)
        partitions := s.partitions.insert partitionId s.arena.length
        arena := s.arena ++ [.new s.runtime partitionId idxCapacity]
        phase := dispatch s.arena.length
        accepted }

/-- `preprocess` for what needs a partition that is there: without one the message is dropped. -/
def preprocessFound (partitionId : PartitionId) (job : Job) : State :=
  match s.states.lookup partitionId.indexId, s.partitions.lookup partitionId with
  | some _, some partition => { s with phase := .check ⟨partitionId, partition, job⟩ }
  | _, _ => s

/-- `preprocess`. -/
def preprocess (message : Message) (created : Option ℕ) : State :=
  match message with
  | .modify (.addVector partitionId primaryId embedding) =>
    s.preprocessAdd partitionId primaryId embedding created
  | .modify (.removeVector partitionId primaryId) =>
    { s.preprocessFound partitionId (.remove primaryId) with
      accepted := s.accepted ++ [.removeVector partitionId primaryId] }
  | .modify (.removePartition partitionId) =>
    { s with
      partitions := s.partitions.erase partitionId
      accepted := s.accepted ++ [.removePartition partitionId] }
  | .search partitionId => s.preprocessFound partitionId .search

/-- `check_memory_allocation`. -/
def checkMemoryAllocation (message : Message) (allocate : Allocate) : Bool :=
  match message with
  | .modify (.addVector _ _ _) => allocate = .can
  | _ => true

/-- The actor takes a message. -/
def receive (message : Message) (environment : Environment) : State :=
  if checkMemoryAllocation message environment.allocate then
    s.preprocess message environment.created
  else s

/-! ### Closures -/

/-- A closure calls the index. -/
def call (i : ℕ) (outcome : Outcome) : State :=
  match s.tasks[i]? with
  | none => s
  | some task =>
    let (effect, progress) := task.dispatch.job.call outcome
    (s.setPartition task.dispatch.partition fun partition =>
      { partition with idx := effect partition.idx }).move i (.running progress)

/-- A closure updates a counter: an addition counts in the partition first, a removal in the index,
and a reservation stores the capacity. -/
def countTask (i : ℕ) : State :=
  match s.tasks[i]? with
  | none => s
  | some task =>
    let d := task.dispatch
    match d.job, task.stage with
    | .reserve _, .running .called =>
      (s.setPartition d.partition fun partition =>
        { partition with capacity := partition.idx.capacity }).move i (.running .processed)
    | .add _ _, .running .called =>
      (s.setPartition d.partition fun partition =>
        { partition with size := fetchAdd partition.size }).move i (.running .counted)
    | .add _ _, .running .counted => (s.setSize d.indexId fetchAdd).move i (.running .processed)
    | .remove _, .running .called => (s.setSize d.indexId fetchSub).move i (.running .counted)
    | .remove _, .running .counted =>
      (s.setPartition d.partition fun partition =>
        { partition with size := fetchSub partition.size }).move i (.running .processed)
    | _, _ => s

/-- A closure drops its permit. -/
def releaseTask (i : ℕ) : State :=
  match s.tasks[i]? with
  | none => s
  | some task => (s.setOperation task.dispatch.indexId ModeLock.release).move i .finished

end State

/-! ## Steps -/

/-- The state after a step. -/
def step (s : State) : Action → State
  | .receive message environment => s.receive message environment
  | .check =>
    match s.phase with
    | .check d =>
      if d.job.mode = .insert ∧ (s.needsMoreCapacity d.partition).isSome then
        { s with phase := .reserve d }
      else { s with phase := .permit d }
    | _ => s
  | .permitReserve =>
    match s.phase with
    | .reserve d => { s.setOperation d.indexId (·.acquire .reserve) with phase := .recheck d }
    | _ => s
  | .recheck =>
    match s.phase with
    | .recheck d =>
      match s.needsMoreCapacity d.partition with
      | some capacity =>
        { s.push { d with job := .reserve capacity } with phase := .sendReserve d }
      | none => { s.setOperation d.indexId ModeLock.release with phase := .permit d }
    | _ => s
  | .send =>
    match s.phase with
    | .sendReserve d => { s.move (s.tasks.length - 1) .queued with phase := .permit d }
    | .send => { s.move (s.tasks.length - 1) .queued with phase := .idle }
    | _ => s
  | .permit =>
    match s.phase with
    | .permit d =>
      { (s.setOperation d.indexId (·.acquire d.job.mode)).push d with phase := .send }
    | _ => s
  | .take i => s.move i (.running .started)
  | .call i outcome => s.call i outcome
  | .count i => s.countTask i
  | .release i => s.releaseTask i

/-- The stage of a closure. -/
def State.stageOf (s : State) (i : ℕ) : Option (Stage Progress) := s.tasks[i]?.map Task.stage

/-- When a step can be taken. -/
def Enabled (s : State) : Action → Prop
  | .receive _ _ => s.phase = .idle
  | .check => ∃ d, s.phase = .check d
  | .permitReserve => ∃ d, s.phase = .reserve d ∧ s.Admits d.indexId .reserve
  | .recheck => ∃ d, s.phase = .recheck d
  | .send =>
    (s.phase = .send ∨ ∃ d, s.phase = .sendReserve d) ∧ Task.HasSlot s.runtime s.tasks
  | .permit => ∃ d, s.phase = .permit d ∧ s.Admits d.indexId d.job.mode
  | .take i => s.stageOf i = some .queued ∧ Task.HasWorker s.runtime s.tasks
  | .call i _ => s.stageOf i = some (.running .started)
  | .count i => s.stageOf i = some (.running .called) ∨ s.stageOf i = some (.running .counted)
  | .release i => s.stageOf i = some (.running .processed)

/-- A phase is decided by the closure that its message will lead to. -/
theorem Phase.exists_iff {phase : Phase} {P : Dispatch → Prop}
    (h : ∀ d, P d → phase.dispatch = some d) : (∃ d ∈ phase.dispatch, P d) ↔ ∃ d, P d :=
  ⟨fun ⟨d, _, hd⟩ => ⟨d, hd⟩, fun ⟨d, hd⟩ => ⟨d, h d hd, hd⟩⟩

instance (s : State) (a : Action) : Decidable (Enabled s a) :=
  match a with
  | .receive _ _ => inferInstanceAs (Decidable (_ = _))
  | .check =>
    decidable_of_iff (∃ d ∈ s.phase.dispatch, s.phase = .check d)
      (Phase.exists_iff fun d h => by rw [h]; rfl)
  | .permitReserve =>
    decidable_of_iff (∃ d ∈ s.phase.dispatch, s.phase = .reserve d ∧ s.Admits d.indexId .reserve)
      (Phase.exists_iff fun d h => by rw [h.1]; rfl)
  | .recheck =>
    decidable_of_iff (∃ d ∈ s.phase.dispatch, s.phase = .recheck d)
      (Phase.exists_iff fun d h => by rw [h]; rfl)
  | .send =>
    decidable_of_iff ((s.phase = .send ∨ ∃ d ∈ s.phase.dispatch, s.phase = .sendReserve d) ∧
        Task.HasSlot s.runtime s.tasks)
      (and_congr_left' (or_congr_right (Phase.exists_iff fun d h => by rw [h]; rfl)))
  | .permit =>
    decidable_of_iff (∃ d ∈ s.phase.dispatch, s.phase = .permit d ∧ s.Admits d.indexId d.job.mode)
      (Phase.exists_iff fun d h => by rw [h.1]; rfl)
  | .take _ => inferInstanceAs (Decidable (_ ∧ _))
  | .call _ _ => inferInstanceAs (Decidable (_ = _))
  | .count _ => inferInstanceAs (Decidable (_ ∨ _))
  | .release _ => inferInstanceAs (Decidable (_ = _))

end Usearch

end VectorStore
