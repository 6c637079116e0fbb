import VectorStore.FtsIndex.Documents
import VectorStore.VsIndex.Usearch
import VectorStore.Worker

/-!
# The full-text actor

The actor takes one message at a time and hands a closure over to the workers.  A closure adds the
document to the writer or deletes it there, and leaves its in-progress guard with the writer.  A commit
takes these guards and hands them to the reader, which drops them once a reload serves the commit.
The actor starts a commit or asks for a reload at every tick; the reloads run one at a time.  Each
access of something shared is a step of its own.

The guards are numbered in the order of the messages they come with.  The history records what the
rules for dropping guards are about and is not used by any step.
-/

namespace VectorStore

namespace Tantivy

open Usearch (Allocate)

/-- The number of a guard. -/
abbrev Guard := ℕ

abbrev Opstamp := ℕ

/-- A version of the documents that can be served, with the opstamp of its commit. -/
structure Metas where
  opstamp : Opstamp
  documents : Documents
deriving DecidableEq

/-- The documents of all operations, and the guards of the ones that are not committed. -/
structure Writer where
  documents : Documents
  uncommittedDocsInProgressGuards : List Guard

def Writer.uncommittedDocs (writer : Writer) : ℕ := writer.uncommittedDocsInProgressGuards.length

def Writer.hasUncommittedDocs (writer : Writer) : Bool :=
  !writer.uncommittedDocsInProgressGuards.isEmpty

/-- `Writer::add_document` and `Writer::rm_document`; only an addition can fail, and then its guard
is dropped. -/
def Writer.operate (writer : Writer) (guard : Guard) (message : FtsModify) (ok : Bool) : Writer :=
  if ok ∨ message.isRemoval then
    { documents := writer.documents.apply message
      uncommittedDocsInProgressGuards := writer.uncommittedDocsInProgressGuards ++ [guard] }
  else writer

structure ReloadState where
  unsearchableDocs : AList fun _ : Opstamp => List Guard
  reloadedOpstamp : Opstamp
  reloadFailed : Bool

/-- The second part of `ReaderInner::reload`: what the reload came to is noted. -/
def ReloadState.store (state : ReloadState) : Option Opstamp → ReloadState
  | some opstamp =>
    { unsearchableDocs := FiniteMap.filterKeys (fun committed => opstamp < committed)
        state.unsearchableDocs
      reloadedOpstamp := opstamp
      reloadFailed := false }
  | none => { state with reloadFailed := true }

def ReloadState.needsReload (state : ReloadState) : Bool :=
  state.reloadFailed || !state.unsearchableDocs.keys.isEmpty

def ReloadState.dropGuardsWhenSearchable (state : ReloadState) (commitOpstamp : Opstamp)
    (guards : List Guard) : ReloadState :=
  if state.reloadedOpstamp < commitOpstamp then
    { state with unsearchableDocs := state.unsearchableDocs.insert commitOpstamp guards }
  else state

/-- The closures on the workers. -/
inductive Job where
  | operate (guard : Guard) (message : FtsModify)
  | commit
  | reload
deriving DecidableEq

/-- How far a running closure has come. -/
inductive Progress where
  /-- The writer is about to be locked for the operation. -/
  | operating
  /-- The writer is about to be locked for a commit. -/
  | committing
  /-- The commit has saved the metas; the writer is locked. -/
  | saved (opstamp : Opstamp)
  /-- The commit has taken the guards, which go to the reader next. -/
  | handing (opstamp : Opstamp) (guards : List Guard)
  /-- `load_metas` is next. -/
  | loading
  /-- The metas with the opstamp have been read; `reader.reload` is next. -/
  | reloading (opstamp : Opstamp)
  /-- What the reload came to is about to be noted. -/
  | reloaded (result : Option Opstamp)
  | done
deriving DecidableEq

def Job.start : Job → Progress
  | operate _ _ => .operating
  | commit => .committing
  | reload => .loading

/-- Where the actor is. -/
inductive Phase where
  | idle
  /-- The actor waits for a slot of the channel for its last closure. -/
  | send (task : ℕ)
  /-- The tick found no uncommitted documents: `needs_reload` is next. -/
  | check
deriving DecidableEq

/-- Where the task that reloads the reader is. -/
inductive Reloader where
  | waiting
  | reloading (task : ℕ)
deriving DecidableEq

/-- What has happened to the guards. -/
structure History where
  /-- Guards of messages that were refused and of operations that failed. -/
  refused : List Guard
  /-- Guards of the operations since the last successful commit. -/
  operated : List Guard
  /-- Guards with the first successful commit after their operation. -/
  committed : List (Guard × Opstamp)
  /-- The opstamps of the reloads that have completed. -/
  reloads : List Opstamp

/-- The history after the operation of a closure. -/
def History.operate (history : History) (guard : Guard) (message : FtsModify) (ok : Bool) :
    History :=
  if ok ∨ message.isRemoval then { history with operated := history.operated ++ [guard] }
  else { history with refused := guard :: history.refused }

structure State where
  runtime : Runtime
  commitThreshold : ℕ
  /-- The state of the index exists. -/
  created : Bool
  writer : Writer
  /-- The metas of the last commit. -/
  metas : Metas
  searcher : Metas
  reloadState : ReloadState
  /-- A reload has been requested since the last one began. -/
  requested : Bool
  reloader : Reloader
  tasks : List (Task Job Progress)
  phase : Phase
  /-- The number of guards handed in. -/
  guards : ℕ
  history : History

/-- What the actor is told when it takes a message: whether it may allocate memory, and whether
`IndexState::new` succeeds. -/
structure Environment where
  allocate : Allocate
  created : Bool
deriving DecidableEq

/-- A step of the actor, of the reload task, of a worker or of a closure. -/
inductive Action where
  | receive (message : FtsModify) (environment : Environment)
  | tick
  /-- The second half of a tick. -/
  | check
  /-- The directory calls back because its metas have changed. -/
  | notify
  /-- The reload task takes a request and goes on to the worker. -/
  | respond
  /-- The reload task learns that its reload has finished. -/
  | resume
  | send (task : ℕ)
  /-- A worker takes a closure. -/
  | take (task : ℕ)
  /-- A closure carries out its operation. -/
  | operate (task : ℕ) (ok : Bool)
  /-- A commit saves the metas with its opstamp. -/
  | save (task : ℕ) (opstamp : Opstamp)
  /-- A commit returns; one that saved nothing has failed. -/
  | commit (task : ℕ) (ok : Bool)
  | handOver (task : ℕ)
  | load (task : ℕ) (ok : Bool)
  | reload (task : ℕ) (ok : Bool)
  /-- A reload is noted. -/
  | store (task : ℕ)
  | finish (task : ℕ)
deriving DecidableEq

/-! ## Closures by their stage -/

/-- The closure is about to carry out its operation. -/
def operates : Task Job Progress → Bool
  | ⟨.operate _ _, .running .operating⟩ => true
  | _ => false

/-- The closure has locked the writer. -/
def locksWriter : Task Job Progress → Bool
  | ⟨_, .running (.saved _)⟩ => true
  | _ => false

/-- The closure is about to hand its guards to the reader. -/
def hands : Task Job Progress → Bool
  | ⟨_, .running (.handing _ _)⟩ => true
  | _ => false

/-- The closure is about to reload the reader. -/
def reloads : Task Job Progress → Bool
  | ⟨_, .running (.reloading _)⟩ => true
  | _ => false

/-- The closure is about to note what its reload came to. -/
def stores : Task Job Progress → Bool
  | ⟨_, .running (.reloaded _)⟩ => true
  | _ => false

namespace State

variable (s : State)

/-- A new actor. -/
def init (runtime : Runtime) (commitThreshold : ℕ) : State where
  runtime
  commitThreshold
  created := false
  writer := ⟨0, []⟩
  metas := ⟨0, 0⟩
  searcher := ⟨0, 0⟩
  reloadState := ⟨∅, 0, false⟩
  requested := false
  reloader := .waiting
  tasks := []
  phase := .idle
  guards := 0
  history := ⟨[], [], [], []⟩

/-- No closure is on its way, and the actor is at its `select`. -/
def Quiescent : Prop := s.phase = .idle ∧ ∀ t ∈ s.tasks, t.stage = .finished

instance : Decidable s.Quiescent := inferInstanceAs (Decidable (_ ∧ _))

/-- The writer can be locked. -/
def Unlocked : Prop := ∀ t ∈ s.tasks, ¬locksWriter t

instance : Decidable s.Unlocked := inferInstanceAs (Decidable (∀ t ∈ s.tasks, _))

/-- The state with a closure at another stage. -/
def move (task : ℕ) (stage : Stage Progress) : State :=
  { s with tasks := s.tasks.modify task (Task.withStage stage) }

/-- The actor waits to hand a closure over. -/
def dispatch (job : Job) : State :=
  { s with tasks := s.tasks ++ [⟨job, .sending⟩], phase := .send s.tasks.length }

/-- The state with the guard of the next message refused. -/
def refuse : State :=
  { s with
    guards := s.guards + 1
    history := { s.history with refused := s.guards :: s.history.refused } }

/-- The actor takes a message: `get_or_create_state` and `can_allocate_memory`. -/
def receive (message : FtsModify) (environment : Environment) : State :=
  if s.created ∨ environment.created then
    if message.isRemoval ∨ environment.allocate = .can then
      { s with created := true, guards := s.guards + 1 }.dispatch (.operate s.guards message)
    else { s with created := true }.refuse
  else s.refuse

/-- The first half of a tick. -/
def tick : State :=
  if s.created then
    if s.writer.hasUncommittedDocs then s.dispatch .commit else { s with phase := .check }
  else s

/-- The second half of a tick. -/
def check : State :=
  { s with requested := s.requested || s.reloadState.needsReload, phase := .idle }

/-- The reload task takes a request. -/
def respond : State :=
  { s with
    requested := false
    reloader := .reloading s.tasks.length
    tasks := s.tasks ++ [⟨.reload, .sending⟩] }

/-- A closure that waited for a slot is in the channel. -/
def send (i : ℕ) : State :=
  { s.move i .queued with phase := if s.phase = .send i then .idle else s.phase }

/-- A worker takes a closure. -/
def take (i : ℕ) : State :=
  match s.tasks[i]? with
  | none => s
  | some task => s.move i (.running task.dispatch.start)

/-- What comes after the operation of a closure. -/
def afterOperation (writer : Writer) : Progress :=
  if s.commitThreshold ≤ writer.uncommittedDocs then .committing else .done

/-- `handle_add_document` and `handle_remove_document`. -/
def operate (i : ℕ) (ok : Bool) : State :=
  match s.tasks[i]?.map Task.dispatch with
  | some (.operate guard message) =>
    let writer := s.writer.operate guard message ok
    { s with writer, history := s.history.operate guard message ok }.move i
      (.running (s.afterOperation writer))
  | _ => s

/-- A commit saves the metas. -/
def save (i : ℕ) (opstamp : Opstamp) : State :=
  { s with metas := ⟨opstamp, s.writer.documents⟩ }.move i (.running (.saved opstamp))

/-- `Writer::commit` returns. -/
def commit (i : ℕ) (ok : Bool) : State :=
  match s.tasks[i]?.map Task.stage, ok with
  | some (.running (.saved opstamp)), true =>
    { s with
      writer := { s.writer with uncommittedDocsInProgressGuards := [] }
      history := { s.history with
        operated := []
        committed := s.history.committed ++ s.history.operated.map fun guard => (guard, opstamp) }
    }.move i (.running (.handing opstamp s.writer.uncommittedDocsInProgressGuards))
  | _, _ => s.move i (.running .done)

/-- The guards of a commit go to the reader. -/
def handOver (i : ℕ) : State :=
  match s.tasks[i]?.map Task.stage with
  | some (.running (.handing opstamp guards)) =>
    { s with reloadState := s.reloadState.dropGuardsWhenSearchable opstamp guards }.move i
      (.running .done)
  | _ => s

/-- `load_metas`. -/
def load (i : ℕ) (ok : Bool) : State :=
  s.move i (.running (if ok then .reloading s.metas.opstamp else .reloaded none))

/-- `reader.reload`. -/
def reload (i : ℕ) (ok : Bool) : State :=
  match s.tasks[i]?.map Task.stage, ok with
  | some (.running (.reloading opstamp)), true =>
    { s with
      searcher := s.metas
      history := { s.history with reloads := opstamp :: s.history.reloads }
    }.move i (.running (.reloaded (some opstamp)))
  | _, _ => s.move i (.running (.reloaded none))

/-- What a reload came to is noted. -/
def store (i : ℕ) : State :=
  match s.tasks[i]?.map Task.stage with
  | some (.running (.reloaded result)) =>
    { s with reloadState := s.reloadState.store result }.move i (.running .done)
  | _ => s

/-- The stage of a closure. -/
def stageOf (i : ℕ) : Option (Stage Progress) := s.tasks[i]?.map Task.stage

end State

/-- The state after a step. -/
def step (s : State) : Action → State
  | .receive message environment => s.receive message environment
  | .tick => s.tick
  | .check => s.check
  | .notify => { s with requested := true }
  | .respond => s.respond
  | .resume => { s with reloader := .waiting }
  | .send i => s.send i
  | .take i => s.take i
  | .operate i ok => s.operate i ok
  | .save i opstamp => s.save i opstamp
  | .commit i ok => s.commit i ok
  | .handOver i => s.handOver i
  | .load i ok => s.load i ok
  | .reload i ok => s.reload i ok
  | .store i => s.store i
  | .finish i => s.move i .finished

/-- A closure with the property. -/
def State.Has (s : State) (i : ℕ) (p : Task Job Progress → Bool) : Prop := s.tasks[i]?.any p

instance (s : State) (i : ℕ) (p : Task Job Progress → Bool) : Decidable (s.Has i p) :=
  inferInstanceAs (Decidable (_ = true))

/-- The reload task waits for a reload that has finished. -/
def State.CanResume (s : State) : Prop :=
  match s.reloader with
  | .waiting => False
  | .reloading i => s.stageOf i = some .finished

instance (s : State) : Decidable s.CanResume := by
  unfold State.CanResume
  split <;> infer_instance

/-- When a step can be taken.  A commit that fails before it saved the metas locks the writer in the
same step. -/
def Enabled (s : State) : Action → Prop
  | .receive _ _ => s.phase = .idle
  | .tick => s.phase = .idle ∧ (s.created → s.Unlocked)
  | .check => s.phase = .check
  | .notify => s.created
  | .respond => s.requested ∧ s.reloader = .waiting
  | .resume => s.CanResume
  | .send i => s.stageOf i = some .sending ∧ Task.HasSlot s.runtime s.tasks
  | .take i => s.stageOf i = some .queued ∧ Task.HasWorker s.runtime s.tasks
  | .operate i _ => s.Has i operates ∧ s.Unlocked
  | .save i opstamp =>
    s.stageOf i = some (.running .committing) ∧ s.Unlocked ∧ s.metas.opstamp < opstamp
  | .commit i ok =>
    s.Has i locksWriter ∨ ok = false ∧ s.stageOf i = some (.running .committing) ∧ s.Unlocked
  | .handOver i => s.Has i hands
  | .load i _ => s.stageOf i = some (.running .loading)
  | .reload i _ => s.Has i reloads
  | .store i => s.Has i stores
  | .finish i => s.stageOf i = some (.running .done)

instance (s : State) (a : Action) : Decidable (Enabled s a) := by
  cases a <;> unfold Enabled <;> infer_instance

/-- A runtime with two workers. -/
def Sample.runtime : Runtime := ⟨2, 2, Nat.two_pos, Nat.two_pos⟩

end Tantivy

end VectorStore
