import VectorStore.Foundation.Run
import VectorStore.Read.DbIndex

/-!
# The full scan

The full scan opens one token range after the other, with a permit for each range whose rows are
still being sent.  Every range has a task that sends its rows into the pipeline, each with a guard,
and adds the length of the range to the completed length when the pipeline has dropped the guards.
What the driver yields for a range, the pipeline and the end of the index are free.
-/

namespace VectorStore

/-- A token of the ring. -/
abbrev Token := ℤ

/-- `range_length`. -/
def rangeLength (start stop : Token) : ℕ := (stop - (start - 1)).natAbs

/-- What a row stream of the driver yields: a row, or an error of a page or a row. -/
abbrev StreamItem := Except String (List (Option DbValue))

/-- The adapters of `range_scan_stream`. -/
def Statements.rangeScanItem [Driver] (statements : Statements) :
    StreamItem → Option DbIndexedRow
  | .ok row => statements.rangeScanRow row
  | .error _ => none

namespace FullScan

/-- Why a range could not be opened. -/
inductive OpenError where
  | retryable
  | nonRetryable
deriving DecidableEq

/-- Where the task of a range is: it sends the rest of the stream, waits for the guards to be
dropped, or is finished. -/
inductive TaskPhase where
  | sending (rest : List StreamItem)
  | acknowledging
  | finished
deriving DecidableEq

/-- The task of a range. -/
structure RangeTask where
  range : Token × Token
  /-- What the driver yields for the range. -/
  stream : List StreamItem
  phase : TaskPhase
  /-- The rows that were sent into the pipeline. -/
  forwarded : List DbIndexedRow
  /-- The rows that were sent after the pipeline dropped its receiver. -/
  lost : List DbIndexedRow
deriving DecidableEq

/-- What `initial_scan` came to; after `finished`, `FullScanFinished` is sent. -/
inductive Outcome where
  | finished
  | failed
  | cancelled
deriving DecidableEq

structure State where
  /-- The ranges that are still to be opened. -/
  ranges : List (Token × Token)
  tasks : List RangeTask
  /-- The guards that are not dropped, with the task that made them. -/
  inProgress : List (ℕ × DbIndexedRow)
  /-- The pipeline dropped its receiver. -/
  closed : Bool
  completedScanLength : ℕ
  outcome : Option Outcome
deriving DecidableEq

/-- The state before the first range. -/
def State.init (ranges : List (Token × Token)) : State := ⟨ranges, [], [], false, 0, none⟩

/-- The steps of the scan, of the tasks and of what is around them. -/
inductive Action where
  /-- An attempt to open the next range. -/
  | openRange (result : Except OpenError (List StreamItem))
  /-- A task takes the next item of its stream. -/
  | advance (task : ℕ)
  /-- The stream of a task ends, and the permit is dropped. -/
  | drained (task : ℕ)
  /-- A task sees that its guards are dropped. -/
  | finish (task : ℕ)
  /-- The pipeline drops a guard. -/
  | acknowledge (guard : ℕ × DbIndexedRow)
  /-- The pipeline drops its receiver. -/
  | close
  /-- All tasks are joined. -/
  | join
  /-- The index is dropped. -/
  | cancel

namespace State

/-- The task of an index takes an item. -/
def send [Driver] (statements : Statements) (s : State) (i : ℕ) (item : StreamItem)
    (rest : List StreamItem) : State :=
  match statements.rangeScanItem item with
  | none =>
    { s with tasks := s.tasks.modify i fun task => { task with phase := .sending rest } }
  | some row =>
    if s.closed then
      { s with
        tasks := s.tasks.modify i fun task =>
          { task with phase := .sending rest, lost := task.lost ++ [row] } }
    else
      { s with
        tasks := s.tasks.modify i fun task =>
          { task with phase := .sending rest, forwarded := task.forwarded ++ [row] }
        inProgress := s.inProgress ++ [(i, row)] }

/-- The task of an index in another phase. -/
def setPhase (s : State) (i : ℕ) (phase : TaskPhase) : State :=
  { s with tasks := s.tasks.modify i fun task => { task with phase } }

/-- The tasks that hold a permit. -/
def sendingCount (s : State) : ℕ :=
  s.tasks.countP fun task =>
    match task.phase with
    | .sending _ => true
    | .acknowledging | .finished => false

end State

/-- The state after a step. -/
def step [Driver] (statements : Statements) (s : State) : Action → State
  | .openRange (.ok stream) =>
    match s.ranges with
    | [] => s
    | range :: ranges =>
      { s with ranges, tasks := s.tasks ++ [⟨range, stream, .sending stream, [], []⟩] }
  | .openRange (.error .retryable) => s
  | .openRange (.error .nonRetryable) => { s with outcome := some .failed }
  | .advance i =>
    match s.tasks[i]?.map RangeTask.phase with
    | some (.sending (item :: rest)) => s.send statements i item rest
    | _ => s
  | .drained i => s.setPhase i .acknowledging
  | .finish i =>
    let length := (s.tasks[i]?.map fun task => rangeLength task.range.1 task.range.2).getD 0
    { s.setPhase i .finished with
      completedScanLength := (s.completedScanLength + length) % 2 ^ 64 }
  | .acknowledge guard => { s with inProgress := s.inProgress.erase guard }
  | .close => { s with closed := true }
  | .join => { s with outcome := some .finished }
  | .cancel => { s with outcome := some .cancelled }

/-- The step can be taken. -/
def Enabled (statements : Statements) (concurrency : ℕ+) (s : State) : Action → Prop
  | .openRange _ => statements.kind ≠ .pattern ∧ s.outcome = none ∧ s.ranges ≠ [] ∧
      s.sendingCount < concurrency
  | .advance i => ∃ item rest, s.tasks[i]?.map RangeTask.phase = some (.sending (item :: rest))
  | .drained i => s.tasks[i]?.map RangeTask.phase = some (.sending [])
  | .finish i => s.tasks[i]?.map RangeTask.phase = some .acknowledging ∧
      ∀ guard ∈ s.inProgress, guard.1 ≠ i
  | .acknowledge guard => guard ∈ s.inProgress
  | .close => True
  | .join => statements.kind ≠ .pattern ∧ s.outcome = none ∧ s.ranges = [] ∧
      ∀ task ∈ s.tasks, task.phase = .finished
  | .cancel => s.outcome = none

instance (s : State) (i : ℕ) : Decidable
    (∃ item rest, s.tasks[i]?.map RangeTask.phase = some (.sending (item :: rest))) :=
  match s.tasks[i]?.map RangeTask.phase with
  | some (.sending (item :: rest)) => isTrue ⟨item, rest, rfl⟩
  | none | some (.sending []) | some .acknowledging | some .finished => isFalse (by simp)

instance (statements : Statements) (concurrency : ℕ+) (s : State) :
    (action : Action) → Decidable (Enabled statements concurrency s action)
  | .openRange _ => inferInstanceAs (Decidable (statements.kind ≠ .pattern ∧ s.outcome = none ∧
      s.ranges ≠ [] ∧ s.sendingCount < concurrency))
  | .advance i => inferInstanceAs (Decidable
      (∃ item rest, s.tasks[i]?.map RangeTask.phase = some (.sending (item :: rest))))
  | .drained i => inferInstanceAs (Decidable
      (s.tasks[i]?.map RangeTask.phase = some (.sending [])))
  | .finish i => inferInstanceAs (Decidable
      (s.tasks[i]?.map RangeTask.phase = some .acknowledging ∧
        ∀ guard ∈ s.inProgress, guard.1 ≠ i))
  | .acknowledge guard => inferInstanceAs (Decidable (guard ∈ s.inProgress))
  | .close => isTrue trivial
  | .join => inferInstanceAs (Decidable (statements.kind ≠ .pattern ∧ s.outcome = none ∧
      s.ranges = [] ∧ ∀ task ∈ s.tasks, task.phase = .finished))
  | .cancel => inferInstanceAs (Decidable (s.outcome = none))

end FullScan

end VectorStore
