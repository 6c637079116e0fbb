import VectorStore.VsIndex.Diskann

/-!
# The steps of the DiskANN actor

`Effect` lists what a step can do.  The tasks that have not called the index yet are pending writes.
As long as none of them overtakes an earlier one for the same vector, the live vectors and the pending
writes together stand for the messages in order, and the sizes are right up to what is not counted yet.
-/

namespace VectorStore

namespace Diskann

open Usearch (Allocate Message fetchAdd fetchSub)

/-- The modifications that a task is for. -/
def Dispatch.messages (d : Dispatch) : List VsIndexModify :=
  match d.job with
  | .addVector primaryId embedding => [.addVector d.partitionId primaryId embedding]
  | .removeVector primaryId => [.removeVector d.partitionId primaryId]
  | .ann => []

/-- The write of a task to its partition. -/
def Dispatch.write (d : Dispatch) : Option (Write (ℕ × PrimaryId) Vector) :=
  match d.job with
  | .addVector primaryId embedding => some ⟨(d.partition, primaryId), some embedding⟩
  | .removeVector primaryId => some ⟨(d.partition, primaryId), none⟩
  | .ann => none

/-- The index has not been called yet. -/
def isPending : Stage Progress → Bool
  | .sending | .queued | .running .started => true
  | .running .called | .running .processed | .finished => false

/-- The write of a task that has not called the index yet. -/
def pendingWrite (t : Task Dispatch Progress) : Option (Write (ℕ × PrimaryId) Vector) :=
  if isPending t.stage then t.dispatch.write else none

/-- What the index says about a call: only an id that is not live can be inserted, and only a live
one can be deleted. -/
def Job.Says (live : PrimaryId → Option Vector) (ok : Bool) : Job → Prop
  | .addVector primaryId _ => ok = (live primaryId).isNone
  | .removeVector primaryId => ok = (live primaryId).isSome
  | .ann => True

instance (live : PrimaryId → Option Vector) (ok : Bool) (job : Job) : Decidable (job.Says live ok) := by
  cases job <;> unfold Job.Says <;> infer_instance

/-! ## Effects -/

/-- A message that can be refused: a vector to add, without memory or without an index for it. -/
def Refusable (environment : Environment) : Message → Prop
  | .modify (.addVector _ _ _) => environment.allocate = .cannot ∨ environment.created = false
  | .modify (.removeVector _ _) | .modify (.removePartition _) => False
  | .search _ => True

/-- The changes of the state by a step. -/
inductive Effect (s : State) : Action → State → Prop where
  /-- A message is refused, or a search finds no partition. -/
  | refused {message environment} (hrefusable : Refusable environment message) :
      Effect s (.receive message environment) s
  /-- There is nothing to remove. -/
  | absent {partitionId primaryId environment} (hpart : s.partitions.lookup partitionId = none) :
      Effect s (.receive (.modify (.removeVector partitionId primaryId)) environment)
        (s.accept (.removeVector partitionId primaryId))
  | ended {partitionId environment} :
      Effect s (.receive (.modify (.removePartition partitionId)) environment)
        { s.accept (.removePartition partitionId) with
          partitions := s.partitions.erase partitionId }
  | found {message environment d}
      (hpart : s.partitions.lookup d.partitionId = some d.partition)
      (hmessage : message.modifications = d.messages) :
      Effect s (.receive message environment)
        (State.dispatchTask { s with accepted := s.accepted ++ d.messages } d)
  | created {partitionId primaryId embedding environment}
      (hpart : s.partitions.lookup partitionId = none) :
      Effect s (.receive (.modify (.addVector partitionId primaryId embedding)) environment)
        (((s.accept (.addVector partitionId primaryId embedding)).create partitionId).dispatchTask
          ⟨partitionId, s.arena.length, .addVector primaryId embedding⟩)
  | sent (hphase : s.phase = .send) :
      Effect s .send { s.move (s.tasks.length - 1) .queued with phase := .idle }
  | taken {i task} (hget : s.tasks[i]? = some task) (hstage : task.stage = .queued) :
      Effect s (.take i) (s.move i (.running .started))
  | called {i ok task} (hget : s.tasks[i]? = some task)
      (hstage : task.stage = .running .started) :
      Effect s (.call i ok)
        ((s.setPartition task.dispatch.partition (task.dispatch.job.call ok)).move i
          (.running (if task.dispatch.job.counts ok then .called else .processed)))
  | counted {i task} (hget : s.tasks[i]? = some task) (hstage : task.stage = .running .called) :
      Effect s (.count i)
        ({ s with
          sizes := FiniteMap.modify s.sizes task.dispatch.indexId task.dispatch.job.count }.move i
            (.running .processed))
  | finished {i task} (hget : s.tasks[i]? = some task)
      (hstage : task.stage = .running .processed) : Effect s (.finish i) (s.move i .finished)

namespace State

variable {s t : State} {i : ℕ} {task : Task Dispatch Progress}

theorem stageOf_eq_some {stage : Stage Progress} (h : s.stageOf i = some stage) :
    ∃ t, s.tasks[i]? = some t ∧ t.stage = stage :=
  Option.map_eq_some_iff.mp h

/-- Every step has one of the effects. -/
theorem effect {a : Action} (ha : Enabled s a) : Effect s a (step s a) := by
  cases a with
  | receive message environment =>
    change Effect s _ (s.receive message environment)
    unfold receive
    split
    case isFalse hcheck =>
      refine .refused ?_
      unfold Usearch.State.checkMemoryAllocation at hcheck
      cases message with
      | search p => trivial
      | modify m =>
        cases m with
        | addVector p id v =>
          left
          cases hallocate : environment.allocate with
          | can => simp [hallocate] at hcheck
          | cannot => rfl
        | removeVector p id => simp at hcheck
        | removePartition p => simp at hcheck
    case isTrue =>
      cases message with
      | search p =>
        change Effect s _ (s.preprocessFound p .ann)
        unfold preprocessFound
        cases hp : s.partitions.lookup p with
        | none => exact .refused trivial
        | some a =>
          have hfound : Effect s (.receive (.search p) environment)
              (State.dispatchTask { s with accepted := s.accepted ++ [] } ⟨p, a, .ann⟩) :=
            .found hp rfl
          rw [List.append_nil] at hfound
          exact hfound
      | modify m =>
        cases m with
        | removePartition p => exact .ended
        | removeVector p id =>
          change Effect s _ ((s.accept (.removeVector p id)).preprocessFound p (.removeVector id))
          unfold preprocessFound
          cases hp : (s.accept (.removeVector p id)).partitions.lookup p with
          | none => exact .absent hp
          | some a => exact Effect.found (d := ⟨p, a, .removeVector id⟩) hp rfl
        | addVector p id v =>
          change Effect s _ (s.preprocessAdd p id v environment.created)
          unfold preprocessAdd
          dsimp only
          cases hp : s.partitions.lookup p with
          | some a => exact Effect.found (d := ⟨p, a, .addVector id v⟩) hp rfl
          | none =>
            cases hcreated : environment.created with
            | false => exact .refused (Or.inr hcreated)
            | true => exact .created hp
  | send => exact .sent ha.1
  | take i =>
    obtain ⟨task, hget, hstage⟩ := stageOf_eq_some ha.1
    exact .taken hget hstage
  | call i ok =>
    obtain ⟨task, hget, hstage⟩ := stageOf_eq_some ha
    simp only [step, call, hget]
    exact .called hget hstage
  | count i =>
    obtain ⟨task, hget, hstage⟩ := stageOf_eq_some ha
    simp only [step, countTask, hget]
    exact .counted hget hstage
  | finish i =>
    obtain ⟨task, hget, hstage⟩ := stageOf_eq_some ha
    exact .finished hget hstage

end State

end Diskann

end VectorStore
