import VectorStore.Foundation.Lists

/-!
# Workers

The actors of the indexes hand their closures to a bounded channel, from which a fixed number of
workers take them.  A worker is busy with a closure until it has run, also when it passes the
closure on to the dedicated thread.  At most as many closures are on their way as the channel has
slots and there are workers.
-/

namespace VectorStore

/-- The shape of the runtime. -/
structure Runtime where
  /-- `perf::channel_size`. -/
  channelSize : ℕ
  /-- `perf::num_workers`. -/
  numWorkers : ℕ
  channelSize_pos : 0 < channelSize
  numWorkers_pos : 0 < numWorkers

/-- Where a closure is on its way, and how far it has come once it runs. -/
inductive Stage (ρ : Type) where
  /-- The actor waits for a slot of the channel. -/
  | sending
  | queued
  | running (progress : ρ)
  | finished
deriving DecidableEq

namespace Stage

variable {ρ : Type}

def isQueued : Stage ρ → Bool
  | queued => true
  | sending | running _ | finished => false

def isRunning : Stage ρ → Bool
  | running _ => true
  | sending | queued | finished => false

def isSending : Stage ρ → Bool
  | sending => true
  | queued | running _ | finished => false

/-- The closure has not been dropped yet. -/
def isLive : Stage ρ → Bool
  | sending | queued | running _ => true
  | finished => false

end Stage

/-- A closure that an actor has handed over. -/
structure Task (δ ρ : Type) where
  dispatch : δ
  stage : Stage ρ
deriving DecidableEq

namespace Task

variable {δ ρ : Type} {tasks : List (Task δ ρ)} {runtime : Runtime} {i : ℕ} {task : Task δ ρ}

/-- The task at another stage. -/
def withStage (stage : Stage ρ) (task : Task δ ρ) : Task δ ρ := { task with stage }

@[simp] theorem dispatch_withStage (stage : Stage ρ) (task : Task δ ρ) :
    (task.withStage stage).dispatch = task.dispatch := rfl

@[simp] theorem stage_withStage (stage : Stage ρ) (task : Task δ ρ) : (task.withStage stage).stage = stage := rfl

/-- The channel has a free slot. -/
def HasSlot (runtime : Runtime) (tasks : List (Task δ ρ)) : Prop :=
  tasks.countP (fun t => t.stage.isQueued) < runtime.channelSize

/-- A worker is idle. -/
def HasWorker (runtime : Runtime) (tasks : List (Task δ ρ)) : Prop :=
  tasks.countP (fun t => t.stage.isRunning) < runtime.numWorkers

instance : Decidable (HasSlot runtime tasks) := inferInstanceAs (Decidable (_ < _))

instance : Decidable (HasWorker runtime tasks) := inferInstanceAs (Decidable (_ < _))

/-- The channel holds no more closures than it has slots, and no more of them run than there are
workers. -/
structure Bounded (runtime : Runtime) (tasks : List (Task δ ρ)) : Prop where
  queued : tasks.countP (fun t => t.stage.isQueued) ≤ runtime.channelSize
  running : tasks.countP (fun t => t.stage.isRunning) ≤ runtime.numWorkers

theorem bounded_nil : Bounded runtime ([] : List (Task δ ρ)) :=
  ⟨Nat.zero_le _, Nat.zero_le _⟩

/-- A closure that waits for a slot takes none. -/
theorem Bounded.concat (h : Bounded runtime tasks) (dispatch : δ) :
    Bounded runtime (tasks ++ [⟨dispatch, .sending⟩]) := by
  refine ⟨?_, ?_⟩
  · simpa [Stage.isQueued] using h.queued
  · simpa [Stage.isRunning] using h.running

/-- A closure moves on: it finds a slot or a worker, or stays where it was or leaves. -/
theorem Bounded.move (h : Bounded runtime tasks) (hget : tasks[i]? = some task) {stage : Stage ρ}
    (hqueued : stage.isQueued → HasSlot runtime tasks)
    (hrunning : stage.isRunning → task.stage.isRunning ∨ HasWorker runtime tasks) :
    Bounded runtime (tasks.modify i (withStage stage)) := by
  have hq := countP_modify (fun t => t.stage.isQueued) (withStage stage) hget
  have hr := countP_modify (fun t => t.stage.isRunning) (withStage stage) hget
  simp only [stage_withStage] at hq hr
  refine ⟨?_, ?_⟩
  · have := h.queued
    cases hstage : stage.isQueued
    · rw [hstage, Bool.toNat_false] at hq
      omega
    · have hslot : _ < _ := hqueued hstage
      rw [hstage, Bool.toNat_true] at hq
      omega
  · have := h.running
    cases hstage : stage.isRunning
    · rw [hstage, Bool.toNat_false] at hr
      omega
    · rw [hstage, Bool.toNat_true] at hr
      rcases hrunning hstage with hold | hworker
      · rw [hold, Bool.toNat_true] at hr
        omega
      · have hworker : _ < _ := hworker
        omega

/-- When none waits for a slot, the closures on their way are in the channel or on a worker. -/
theorem Bounded.countP_isLive_le (h : Bounded runtime tasks)
    (hsending : ∀ t ∈ tasks, t.stage.isSending = false) :
    tasks.countP (fun t => t.stage.isLive) ≤ runtime.channelSize + runtime.numWorkers := by
  have hle : tasks.countP (fun t => t.stage.isLive) ≤
      tasks.countP (fun t => t.stage.isQueued) + tasks.countP (fun t => t.stage.isRunning) := by
    clear h
    induction tasks with
    | nil => exact Nat.zero_le _
    | cons t ts ih =>
      obtain ⟨ht, hts⟩ := List.forall_mem_cons.mp hsending
      have hstage : (if t.stage.isLive then 1 else 0) ≤
          (if t.stage.isQueued then 1 else 0) + if t.stage.isRunning then 1 else 0 := by
        generalize t.stage = stage at ht ⊢
        cases stage
        case sending => cases ht
        all_goals simp [Stage.isLive, Stage.isQueued, Stage.isRunning]
      have := ih hts
      rw [List.countP_cons, List.countP_cons, List.countP_cons]
      omega
  exact hle.trans (Nat.add_le_add h.queued h.running)

end Task

end VectorStore
