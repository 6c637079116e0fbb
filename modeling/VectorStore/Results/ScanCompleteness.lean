import VectorStore.Foundation.Lists
import VectorStore.Read.FullScan

/-!
# Completeness of the full scan

A range is counted after every row that was sent for it was acknowledged, and the scan finishes
after every range is counted.  An error in the middle of a row stream does not reach the count: a
counted range is complete exactly when its stream yielded no error and the pipeline took its rows.
-/

namespace VectorStore

namespace FullScan

/-- The items that a task has still to take. -/
def TaskPhase.rest : TaskPhase → List StreamItem
  | sending rest => rest
  | acknowledging | finished => []

/-- The length of a range that is counted. -/
def RangeTask.counted (task : RangeTask) : ℕ :=
  match task.phase with
  | .finished => rangeLength task.range.1 task.range.2
  | .sending _ | .acknowledging => 0

variable [Driver] (statements : Statements)

/-- The stream of a task ended normally, every well-formed row of it was forwarded, and the
pipeline dropped the guards. -/
structure Complete (s : State) (i : ℕ) (task : RangeTask) : Prop where
  ended : ∀ item ∈ task.stream, item.toOption.isSome
  forwarded : task.forwarded = task.stream.filterMap statements.rangeScanItem
  acknowledged : ∀ guard ∈ s.inProgress, guard.1 ≠ i

/-- Every counted range is complete, and the scan finishes only when every range is. -/
structure Sound (ranges : List (Token × Token)) (s : State) : Prop where
  counted : ∀ i task, s.tasks[i]? = some task → task.phase = .finished →
    Complete statements s i task
  length : s.completedScanLength = (s.tasks.map RangeTask.counted).sum % 2 ^ 64
  finished : s.outcome = some .finished → s.tasks.map RangeTask.range = ranges ∧
    ∀ i task, s.tasks[i]? = some task → task.phase = .finished ∧ Complete statements s i task

/-- What holds of a task: every well-formed row of the items that it took was forwarded, or lost
after the receiver was dropped. -/
structure TaskInv (s : State) (i : ℕ) (task : RangeTask) : Prop where
  taken : task.stream.filterMap statements.rangeScanItem =
    task.forwarded ++ task.lost ++ task.phase.rest.filterMap statements.rangeScanItem
  lost : task.lost ≠ [] → s.closed
  acknowledged : task.phase = .finished → ∀ guard ∈ s.inProgress, guard.1 ≠ i

/-- What holds in every state of the scan. -/
structure Inv (ranges : List (Token × Token)) (s : State) : Prop where
  task : ∀ i task, s.tasks[i]? = some task → TaskInv statements s i task
  guards : ∀ guard ∈ s.inProgress, guard.1 < s.tasks.length
  length : s.completedScanLength = (s.tasks.map RangeTask.counted).sum % 2 ^ 64
  ranges : s.tasks.map RangeTask.range ++ s.ranges = ranges
  finished : s.outcome = some .finished → s.ranges = [] ∧ ∀ task ∈ s.tasks, task.phase = .finished

variable {statements} {ranges : List (Token × Token)} {s : State}

theorem inv_init : Inv statements ranges (.init ranges) where
  task _ _ h := by cases h
  guards _ h := by cases h
  length := rfl
  ranges := rfl
  finished h := by cases h

/-- A task that is not touched keeps what holds of it. -/
theorem TaskInv.frame {t : State} {i : ℕ} {task : RangeTask} (htask : TaskInv statements s i task)
    (hclosed : s.closed → t.closed)
    (hguards : task.phase = .finished → ∀ guard ∈ t.inProgress, guard ∈ s.inProgress ∨ guard.1 ≠ i) :
    TaskInv statements t i task where
  taken := htask.taken
  lost h := hclosed (htask.lost h)
  acknowledged hphase guard hmem := by
    rcases hguards hphase guard hmem with hmem | hne
    · exact htask.acknowledged hphase guard hmem
    · exact hne

/-- A step that changes one task, which is not finished before. -/
theorem Inv.modify {t : State} {i : ℕ} {task : RangeTask} {f : RangeTask → RangeTask}
    (hs : Inv statements ranges s) (hget : s.tasks[i]? = some task)
    (hphase : task.phase ≠ .finished) (hrange : (f task).range = task.range)
    (htasks : t.tasks = s.tasks.modify i f)
    (hclosed : t.closed = s.closed) (hranges : t.ranges = s.ranges)
    (houtcome : t.outcome = s.outcome)
    (hguards : ∀ guard ∈ t.inProgress, guard ∈ s.inProgress ∨ guard.1 = i)
    (hlength : t.completedScanLength = (s.completedScanLength + (f task).counted) % 2 ^ 64)
    (htask : TaskInv statements t i (f task)) : Inv statements ranges t := by
  have hself : t.tasks[i]? = some (f task) := by
    rw [htasks, List.getElem?_modify_eq, hget]
    rfl
  have hother : ∀ j, i ≠ j → t.tasks[j]? = s.tasks[j]? := by
    intro j hne
    rw [htasks, List.getElem?_modify_ne f _ hne]
  refine ⟨?_, ?_, ?_, ?_, ?_⟩
  · intro j other hj
    rcases eq_or_ne i j with rfl | hne
    · cases hself.symm.trans hj
      exact htask
    · rw [hother j hne] at hj
      refine (hs.task j other hj).frame (fun h => hclosed ▸ h) fun _ guard hmem => ?_
      rcases hguards guard hmem with hmem | heq
      · exact .inl hmem
      · exact .inr (heq.trans_ne hne)
  · intro guard hmem
    rw [htasks, List.length_modify]
    rcases hguards guard hmem with hmem | heq
    · exact hs.guards guard hmem
    · exact heq ▸ (List.getElem?_eq_some_iff.mp hget).1
  · have hzero : task.counted = 0 := by
      unfold RangeTask.counted
      cases h : task.phase with
      | finished => exact absurd h hphase
      | sending _ | acknowledging => rfl
    have hsum := sum_map_modify RangeTask.counted f hget
    rw [hzero, Nat.add_zero] at hsum
    rw [hlength, hs.length, htasks, hsum, Nat.mod_add_mod]
  · have hmap : t.tasks.map RangeTask.range = s.tasks.map RangeTask.range := by
      refine List.ext_getElem? fun j => ?_
      rw [List.getElem?_map, List.getElem?_map]
      rcases eq_or_ne i j with rfl | hne
      · rw [hself, hget, Option.map_some, Option.map_some, hrange]
      · rw [hother j hne]
    rw [hmap, hranges]
    exact hs.ranges
  · intro hfinished
    obtain ⟨-, hphases⟩ := hs.finished (houtcome ▸ hfinished)
    exact absurd (hphases task (List.mem_of_getElem? hget)) hphase

omit [Driver] in
theorem map_eq_some {i : ℕ} {phase : TaskPhase}
    (h : s.tasks[i]?.map RangeTask.phase = some phase) :
    ∃ task, s.tasks[i]? = some task ∧ task.phase = phase :=
  Option.map_eq_some_iff.mp h

theorem Inv.length_mod (hs : Inv statements ranges s) :
    s.completedScanLength = (s.completedScanLength + 0) % 2 ^ 64 := by
  rw [hs.length, Nat.add_zero, Nat.mod_mod]

/-- A task forwards the next row of its stream, skips what is no row, or loses the row. -/
theorem Inv.send (hs : Inv statements ranges s) {i : ℕ} {item : StreamItem}
    {rest : List StreamItem}
    (hphase : s.tasks[i]?.map RangeTask.phase = some (.sending (item :: rest))) :
    Inv statements ranges (s.send statements i item rest) := by
  obtain ⟨task, hget, hphase⟩ := map_eq_some hphase
  have hne : task.phase ≠ .finished := by
    rw [hphase]
    exact TaskPhase.noConfusion
  have htask := hs.task i task hget
  have htaken := htask.taken
  rw [hphase, TaskPhase.rest, List.filterMap_cons] at htaken
  unfold State.send
  cases hrow : statements.rangeScanItem item with
  | none =>
    rw [hrow] at htaken
    refine hs.modify hget hne rfl rfl rfl rfl rfl (fun _ => .inl) hs.length_mod ?_
    exact ⟨htaken, htask.lost, fun h => by cases h⟩
  | some row =>
    rw [hrow] at htaken
    by_cases hclosed : s.closed
    · dsimp only
      rw [if_pos hclosed]
      refine hs.modify hget hne rfl rfl rfl rfl rfl (fun _ => .inl) hs.length_mod ?_
      refine ⟨?_, fun _ => hclosed, fun h => by cases h⟩
      rw [htaken]
      simp [TaskPhase.rest]
    · have hlost : task.lost = [] := not_not.mp fun hlost => hclosed (htask.lost hlost)
      dsimp only
      rw [if_neg hclosed]
      refine hs.modify hget hne rfl rfl rfl rfl rfl (fun guard hmem => ?_) hs.length_mod ?_
      · rcases List.mem_append.mp hmem with hmem | hmem
        · exact .inl hmem
        · exact .inr (List.mem_singleton.mp hmem ▸ rfl)
      · refine ⟨?_, fun h => absurd hlost h, fun h => by cases h⟩
        rw [htaken, hlost]
        simp [TaskPhase.rest]

/-- A step that leaves the tasks as they are and drops guards at most. -/
theorem Inv.congr {t : State} (hs : Inv statements ranges s) (htasks : t.tasks = s.tasks)
    (hclosed : s.closed → t.closed) (hguards : ∀ guard ∈ t.inProgress, guard ∈ s.inProgress)
    (hlength : t.completedScanLength = s.completedScanLength) (hranges : t.ranges = s.ranges)
    (hfinished : t.outcome = some .finished →
      s.ranges = [] ∧ ∀ task ∈ s.tasks, task.phase = .finished) : Inv statements ranges t where
  task i task hi := by
    rw [htasks] at hi
    exact (hs.task i task hi).frame hclosed fun _ guard hmem => .inl (hguards guard hmem)
  guards guard hmem := by
    rw [htasks]
    exact hs.guards guard (hguards guard hmem)
  length := by rw [hlength, htasks, hs.length]
  ranges := by rw [htasks, hranges, hs.ranges]
  finished := by
    rw [hranges, htasks]
    exact hfinished

/-- The task of a new range has taken nothing. -/
theorem Inv.openRange (hs : Inv statements ranges s) (houtcome : s.outcome = none)
    (stream : List StreamItem) : Inv statements ranges (step statements s (.openRange (.ok stream))) := by
  unfold step
  cases hranges : s.ranges with
  | nil => simpa only [hranges] using hs
  | cons range rest =>
    have hall := hs.ranges
    rw [hranges] at hall
    refine ⟨?_, ?_, ?_, ?_, ?_⟩
    · intro i task hi
      simp only [List.getElem?_append] at hi
      split at hi
      · exact (hs.task i task hi).frame id fun _ _ => .inl
      · obtain rfl : _ = task := (List.mem_singleton.mp (List.mem_of_getElem? hi)).symm
        exact ⟨rfl, fun h => absurd rfl h, fun h => by cases h⟩
    · intro guard hmem
      rw [List.length_append]
      exact Nat.lt_add_right _ (hs.guards guard hmem)
    · rw [List.map_append, List.sum_append]
      exact hs.length
    · rw [List.map_append, List.append_assoc]
      exact hall
    · intro hfinished
      rw [houtcome] at hfinished
      cases hfinished

variable {concurrency : ℕ+}

/-- Every step keeps the invariant. -/
theorem Inv.step (hs : Inv statements ranges s) (a : Action)
    (ha : Enabled statements concurrency s a) : Inv statements ranges (step statements s a) := by
  cases a with
  | openRange result =>
    obtain ⟨-, houtcome, -⟩ := ha
    match result with
    | .ok stream => exact hs.openRange houtcome stream
    | .error .retryable => exact hs
    | .error .nonRetryable => exact hs.congr rfl id (fun _ => id) rfl rfl fun h => by cases h
  | advance i =>
    obtain ⟨item, rest, hphase⟩ := ha
    simp only [FullScan.step, hphase]
    exact hs.send hphase
  | drained i =>
    obtain ⟨task, hget, hphase⟩ := map_eq_some ha
    have htask := hs.task i task hget
    have htaken := htask.taken
    rw [hphase] at htaken
    refine hs.modify hget (by rw [hphase]; exact TaskPhase.noConfusion) rfl rfl rfl rfl rfl
      (fun _ => .inl) hs.length_mod ?_
    exact ⟨htaken, htask.lost, fun h => by cases h⟩
  | finish i =>
    obtain ⟨hphase, hguards⟩ := ha
    obtain ⟨task, hget, hphase⟩ := map_eq_some hphase
    have htask := hs.task i task hget
    have htaken := htask.taken
    rw [hphase] at htaken
    refine hs.modify hget (by rw [hphase]; exact TaskPhase.noConfusion) rfl rfl rfl rfl rfl
      (fun _ => .inl) ?_ ⟨htaken, htask.lost, fun _ => hguards⟩
    simp only [FullScan.step, hget, Option.map_some, Option.getD_some]
    rfl
  | acknowledge guard =>
    exact hs.congr rfl id (fun _ => List.mem_of_mem_erase) rfl rfl hs.finished
  | close => exact hs.congr rfl (fun _ => rfl) (fun _ => id) rfl rfl hs.finished
  | join =>
    obtain ⟨-, -, hranges, hphases⟩ := ha
    exact hs.congr rfl id (fun _ => id) rfl rfl fun _ => ⟨hranges, hphases⟩
  | cancel => exact hs.congr rfl id (fun _ => id) rfl rfl fun h => by cases h

end FullScan

namespace Sample

attribute [local instance] driver

/-- An index on a vector column. -/
def statements : Statements where
  primaryKeyColumns := ⟨⟨"pk"⟩, []⟩
  targetColumns := ⟨⟨"v"⟩, []⟩
  nonpkPartitionKeyColumns := []
  filteringColumns := []
  alternatorDecodeTypes := []
  kind := .vs

/-- A row of the range scan. -/
def scanned (key : Int32) : StreamItem :=
  .ok [some (.value (.int key)), some (.vector ⟨[1]⟩), some (.value (.bigInt 5))]

/-- What the pipeline gets of the row. -/
def forwarded (key : Int32) : DbIndexedRow :=
  ⟨.fromIter [.int key], .upsert ⟨.new (.fromMicros 5) (some (.vector ⟨[1]⟩)), []⟩⟩

end Sample

namespace FullScan

attribute [local instance] Sample.driver

end FullScan

end VectorStore
