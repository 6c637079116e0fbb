import VectorStore.VsIndex.Usearch

/-!
# The steps of the usearch actor

What a step can do, once for all invariants: `Effect` lists the changes of the state with what was
found before them.  The first invariant says that the closures, the message at hand and the map refer
to partitions that exist, and that the channel and the workers are not overfull.
-/

namespace VectorStore

namespace Usearch

/-! ## What refers to a partition -/

/-- The actor waits for a slot of the channel. -/
def Phase.sends : Phase → Bool
  | .sendReserve _ | .send => true
  | .idle | .check _ | .reserve _ | .recheck _ | .permit _ => false

namespace State

variable (s : State)

/-- The ids of the partitions, in the order of their creation. -/
def ids : List PartitionId := s.arena.map PartitionState.partitionId

/-- The partition of a closure exists. -/
def Knows (d : Dispatch) : Prop := s.ids[d.partition]? = some d.partitionId

@[simp] theorem ids_move (i : ℕ) (stage : Stage Progress) : (s.move i stage).ids = s.ids := rfl

/-- A partition keeps its id. -/
theorem ids_setPartition (a : ℕ) {f : PartitionState → PartitionState}
    (hf : ∀ p, (f p).partitionId = p.partitionId) : (s.setPartition a f).ids = s.ids := by
  refine List.ext_getElem? fun i => ?_
  simp only [ids, setPartition, List.getElem?_map, List.getElem?_modify]
  split
  · cases s.arena[i]? <;> simp [hf]
  · simp

/-- A partition that was not changed, and the one that was. -/
theorem arena_setPartition (a : ℕ) (f : PartitionState → PartitionState) (b : ℕ) :
    (s.setPartition a f).arena[b]? =
      if a = b then s.arena[b]?.map f else s.arena[b]? := by
  rw [setPartition, List.getElem?_modify]
  split <;> simp

theorem lookup_setOperation (indexId ix : IndexId) (f : Operation → Operation) :
    (s.setOperation indexId f).states.lookup ix =
      if ix = indexId then (s.states.lookup ix).map fun state =>
        { state with operation := f state.operation }
      else s.states.lookup ix :=
  FiniteMap.lookup_modify ..

theorem lookup_setSize (indexId ix : IndexId) (f : ℕ → ℕ) :
    (s.setSize indexId f).states.lookup ix =
      if ix = indexId then (s.states.lookup ix).map fun state =>
        { state with size := f state.size }
      else s.states.lookup ix :=
  FiniteMap.lookup_modify ..

/-- References are valid, and the workers are not overfull. -/
structure Shaped : Prop where
  tasks : ∀ t ∈ s.tasks, s.Knows t.dispatch
  current : ∀ d ∈ s.phase.dispatch, s.Knows d
  states : ∀ p ∈ s.ids, (s.states.lookup p.indexId).isSome
  mapped : ∀ p a, s.partitions.lookup p = some a → s.ids[a]? = some p
  bounded : Task.Bounded s.runtime s.tasks
  /-- Only the last closure can be on its way into the channel. -/
  sending : ∀ i t, s.tasks[i]? = some t → t.stage.isSending →
    s.phase.sends ∧ i + 1 = s.tasks.length
  sends : s.phase.sends → ∃ t, s.tasks[s.tasks.length - 1]? = some t ∧ t.stage = .sending

theorem shaped_init (runtime : Runtime) : (init runtime).Shaped where
  tasks _ h := by cases h
  current _ h := by cases h
  states _ h := by cases h
  mapped p a h := by
    rw [show (init runtime).partitions = ∅ from rfl, AList.lookup_empty] at h
    cases h
  bounded := Task.bounded_nil
  sending _ _ h := by cases h
  sends h := by cases h

variable {s}

theorem stageOf_eq_some {i : ℕ} {stage : Stage Progress} (h : s.stageOf i = some stage) :
    ∃ t, s.tasks[i]? = some t ∧ t.stage = stage :=
  Option.map_eq_some_iff.mp h

end State

/-! ## Effects -/

/-- The message a closure is dispatched for. -/
def Dispatch.messages (d : Dispatch) : List VsIndexModify :=
  match d.job with
  | .add primaryId embedding => [.addVector d.partitionId primaryId embedding]
  | .remove primaryId => [.removeVector d.partitionId primaryId]
  | .reserve _ | .search => []

/-- A message that can be refused: a vector to add, without memory or without an index for it. -/
def Message.Refusable (environment : Environment) : Message → Prop
  | .modify (.addVector _ _ _) => environment.allocate = .cannot ∨ environment.created = none
  | .modify (.removeVector _ _) | .modify (.removePartition _) => False
  | .search _ => True

/-- The changes of the state by a step. -/
inductive Effect (s : State) : Action → State → Prop where
  /-- A message is refused, or a search finds no partition. -/
  | refused {message environment} (hrefusable : message.Refusable environment) :
      Effect s (.receive message environment) s
  /-- There is nothing to remove. -/
  | absent {partitionId primaryId environment} (hpart : s.partitions.lookup partitionId = none) :
      Effect s (.receive (.modify (.removeVector partitionId primaryId)) environment)
        { s with accepted := s.accepted ++ [.removeVector partitionId primaryId] }
  | ended {partitionId environment} :
      Effect s (.receive (.modify (.removePartition partitionId)) environment)
        { s with
          partitions := s.partitions.erase partitionId
          accepted := s.accepted ++ [.removePartition partitionId] }
  | found {message environment d} (hidle : s.phase = .idle)
      (hpart : s.partitions.lookup d.partitionId = some d.partition)
      (hjob : ∀ capacity, d.job ≠ .reserve capacity)
      (hmessage : message.modifications = d.messages) :
      Effect s (.receive message environment)
        { s with phase := .check d, accepted := s.accepted ++ d.messages }
  | created {partitionId primaryId embedding environment idxCapacity} (hidle : s.phase = .idle)
      (hpart : s.partitions.lookup partitionId = none) :
      Effect s (.receive (.modify (.addVector partitionId primaryId embedding)) environment)
        { s with
          states := s.states.insert partitionId.indexId
            ((s.states.lookup partitionId.indexId).getD .new)
          partitions := s.partitions.insert partitionId s.arena.length
          arena := s.arena ++ [.new s.runtime partitionId idxCapacity]
          phase := .check ⟨partitionId, s.arena.length, .add primaryId embedding⟩
          accepted := s.accepted ++ [.addVector partitionId primaryId embedding] }
  | checkedLow {d capacity} (hphase : s.phase = .check d) (hadd : d.job.mode = .insert)
      (hneeds : s.needsMoreCapacity d.partition = some capacity) :
      Effect s .check { s with phase := .reserve d }
  | checked {d} (hphase : s.phase = .check d)
      (hneeds : d.job.mode = .insert → s.needsMoreCapacity d.partition = none) :
      Effect s .check { s with phase := .permit d }
  | permitReserve {d} (hphase : s.phase = .reserve d) (hadmits : s.Admits d.indexId .reserve) :
      Effect s .permitReserve
        { s.setOperation d.indexId (·.acquire .reserve) with phase := .recheck d }
  | recheckedLow {d capacity} (hphase : s.phase = .recheck d)
      (hneeds : s.needsMoreCapacity d.partition = some capacity) :
      Effect s .recheck
        { s.push { d with job := .reserve capacity } with phase := .sendReserve d }
  | rechecked {d} (hphase : s.phase = .recheck d)
      (hneeds : s.needsMoreCapacity d.partition = none) :
      Effect s .recheck { s.setOperation d.indexId ModeLock.release with phase := .permit d }
  | sentReserve {d} (hphase : s.phase = .sendReserve d) (hslot : Task.HasSlot s.runtime s.tasks) :
      Effect s .send { s.move (s.tasks.length - 1) .queued with phase := .permit d }
  | sent (hphase : s.phase = .send) (hslot : Task.HasSlot s.runtime s.tasks) :
      Effect s .send { s.move (s.tasks.length - 1) .queued with phase := .idle }
  | permit {d} (hphase : s.phase = .permit d) (hadmits : s.Admits d.indexId d.job.mode) :
      Effect s .permit
        { (s.setOperation d.indexId (·.acquire d.job.mode)).push d with phase := .send }
  | taken {i task} (hget : s.tasks[i]? = some task) (hstage : task.stage = .queued)
      (hworker : Task.HasWorker s.runtime s.tasks) :
      Effect s (.take i) (s.move i (.running .started))
  | called {i outcome task} (hget : s.tasks[i]? = some task)
      (hstage : task.stage = .running .started) :
      Effect s (.call i outcome)
        ((s.setPartition task.dispatch.partition fun partition =>
          { partition with idx := (task.dispatch.job.call outcome).1 partition.idx }).move i
            (.running (task.dispatch.job.call outcome).2))
  /-- The closure has no counter to update. -/
  | uncounted {i} : Effect s (.count i) s
  | reserved {i task capacity} (hget : s.tasks[i]? = some task)
      (hjob : task.dispatch.job = .reserve capacity) (hstage : task.stage = .running .called) :
      Effect s (.count i)
        ((s.setPartition task.dispatch.partition fun partition =>
          { partition with capacity := partition.idx.capacity }).move i (.running .processed))
  | addedToPartition {i task primaryId embedding} (hget : s.tasks[i]? = some task)
      (hjob : task.dispatch.job = .add primaryId embedding)
      (hstage : task.stage = .running .called) :
      Effect s (.count i)
        ((s.setPartition task.dispatch.partition fun partition =>
          { partition with size := fetchAdd partition.size }).move i (.running .counted))
  | addedToIndex {i task primaryId embedding} (hget : s.tasks[i]? = some task)
      (hjob : task.dispatch.job = .add primaryId embedding)
      (hstage : task.stage = .running .counted) :
      Effect s (.count i) ((s.setSize task.dispatch.indexId fetchAdd).move i (.running .processed))
  | removedFromIndex {i task primaryId} (hget : s.tasks[i]? = some task)
      (hjob : task.dispatch.job = .remove primaryId) (hstage : task.stage = .running .called) :
      Effect s (.count i) ((s.setSize task.dispatch.indexId fetchSub).move i (.running .counted))
  | removedFromPartition {i task primaryId} (hget : s.tasks[i]? = some task)
      (hjob : task.dispatch.job = .remove primaryId) (hstage : task.stage = .running .counted) :
      Effect s (.count i)
        ((s.setPartition task.dispatch.partition fun partition =>
          { partition with size := fetchSub partition.size }).move i (.running .processed))
  | released {i task} (hget : s.tasks[i]? = some task)
      (hstage : task.stage = .running .processed) :
      Effect s (.release i)
        ((s.setOperation task.dispatch.indexId ModeLock.release).move i .finished)

namespace State

variable {s : State}

/-- A partition in the map has the state of its index. -/
theorem Shaped.lookup_isSome (hs : s.Shaped) {p : PartitionId} {a : ℕ}
    (hp : s.partitions.lookup p = some a) : (s.states.lookup p.indexId).isSome :=
  hs.states p (List.mem_of_getElem? (hs.mapped p a hp))

/-- What `preprocess` finds. -/
theorem Shaped.preprocessFound_eq (hs : s.Shaped) (p : PartitionId) (job : Job) :
    (s.partitions.lookup p = none ∧ s.preprocessFound p job = s) ∨
      ∃ a, s.partitions.lookup p = some a ∧
        s.preprocessFound p job = { s with phase := .check ⟨p, a, job⟩ } := by
  unfold preprocessFound
  cases hp : s.partitions.lookup p with
  | none => exact Or.inl ⟨rfl, by cases s.states.lookup p.indexId <;> rfl⟩
  | some a =>
    obtain ⟨state, hstate⟩ := Option.isSome_iff_exists.mp (hs.lookup_isSome hp)
    exact Or.inr ⟨a, rfl, by rw [hstate]⟩

/-- The effect of a message that passes the check of the memory. -/
theorem Shaped.preprocess_effect (hs : s.Shaped) (hidle : s.phase = .idle) (message : Message)
    (environment : Environment) :
    Effect s (.receive message environment) (s.preprocess message environment.created) := by
  cases message with
  | search p =>
    rcases hs.preprocessFound_eq p .search with ⟨-, heq⟩ | ⟨a, hp, heq⟩
    · rw [preprocess, heq]
      exact .refused trivial
    · have hfound : Effect s (.receive (.search p) environment)
          { s with phase := .check ⟨p, a, .search⟩, accepted := s.accepted ++ [] } :=
        Effect.found (d := ⟨p, a, .search⟩) hidle hp (by simp) rfl
      rw [List.append_nil] at hfound
      rw [preprocess, heq]
      exact hfound
  | modify m =>
    cases m with
    | removePartition p => exact .ended
    | removeVector p id =>
      rcases hs.preprocessFound_eq p (.remove id) with ⟨hp, heq⟩ | ⟨a, hp, heq⟩
      · rw [preprocess, heq]
        exact .absent hp
      · rw [preprocess, heq]
        exact Effect.found (d := ⟨p, a, .remove id⟩) hidle hp (by simp) rfl
    | addVector p id v =>
      change Effect s _ (s.preprocessAdd p id v environment.created)
      unfold preprocessAdd
      dsimp only
      cases hp : s.partitions.lookup p with
      | some a =>
        obtain ⟨state, hstate⟩ := Option.isSome_iff_exists.mp (hs.lookup_isSome hp)
        rw [hstate]
        exact Effect.found (d := ⟨p, a, .add id v⟩) hidle hp (by simp) rfl
      | none =>
        cases hcreated : environment.created with
        | none =>
          cases s.states.lookup p.indexId <;> exact .refused (Or.inr hcreated)
        | some idxCapacity =>
          have hnew := @Effect.created s p id v environment idxCapacity hidle hp
          cases hstate : s.states.lookup p.indexId <;> rw [hstate] at hnew <;> exact hnew

/-- Every step has one of the effects. -/
theorem Shaped.effect (hs : s.Shaped) {a : Action} (ha : Enabled s a) : Effect s a (step s a) := by
  cases a with
  | receive message environment =>
    change Effect s _ (s.receive message environment)
    unfold receive
    split
    · exact hs.preprocess_effect ha message environment
    · next hcheck =>
      refine .refused ?_
      unfold checkMemoryAllocation at hcheck
      cases message with
      | search p => trivial
      | modify m =>
        cases m with
        | addVector p id v =>
          left
          cases hallocate : environment.allocate with
          | can => simp [hallocate] at hcheck
          | cannot => rfl
        | removeVector p id => simp at hcheck
        | removePartition p => simp at hcheck
  | check =>
    obtain ⟨d, hphase⟩ := ha
    simp only [step, hphase]
    split
    · next h =>
      obtain ⟨capacity, hneeds⟩ := Option.isSome_iff_exists.mp h.2
      exact .checkedLow hphase h.1 hneeds
    · next h =>
      refine .checked hphase fun hadd => ?_
      rw [not_and, Bool.not_eq_true, Option.isSome_eq_false_iff, Option.isNone_iff_eq_none] at h
      exact h hadd
  | permitReserve =>
    obtain ⟨d, hphase, hadmits⟩ := ha
    simp only [step, hphase]
    exact .permitReserve hphase hadmits
  | recheck =>
    obtain ⟨d, hphase⟩ := ha
    simp only [step, hphase]
    cases hneeds : s.needsMoreCapacity d.partition with
    | none => exact .rechecked hphase hneeds
    | some capacity => exact .recheckedLow hphase hneeds
  | send =>
    obtain ⟨hphase | ⟨d, hphase⟩, hslot⟩ := ha
    · simp only [step, hphase]
      exact .sent hphase hslot
    · simp only [step, hphase]
      exact .sentReserve hphase hslot
  | permit =>
    obtain ⟨d, hphase, hadmits⟩ := ha
    simp only [step, hphase]
    exact .permit hphase hadmits
  | take i =>
    obtain ⟨hstage, hworker⟩ := ha
    obtain ⟨t, hget, hstage⟩ := stageOf_eq_some hstage
    exact .taken hget hstage hworker
  | call i outcome =>
    obtain ⟨t, hget, hstage⟩ := stageOf_eq_some ha
    simp only [step, call, hget]
    exact .called hget hstage
  | count i =>
    obtain ⟨t, hget, hstage⟩ : ∃ t, s.tasks[i]? = some t ∧
        (t.stage = .running .called ∨ t.stage = .running .counted) := by
      rcases ha with h | h
      · obtain ⟨t, hget, hstage⟩ := stageOf_eq_some h
        exact ⟨t, hget, Or.inl hstage⟩
      · obtain ⟨t, hget, hstage⟩ := stageOf_eq_some h
        exact ⟨t, hget, Or.inr hstage⟩
    simp only [step, countTask, hget]
    rcases hstage with hstage | hstage
    · cases hjob : t.dispatch.job with
      | reserve capacity =>
        rw [hstage]
        exact .reserved hget hjob hstage
      | add id v =>
        rw [hstage]
        exact .addedToPartition hget hjob hstage
      | remove id =>
        rw [hstage]
        exact .removedFromIndex hget hjob hstage
      | search => exact .uncounted
    · cases hjob : t.dispatch.job with
      | reserve capacity =>
        rw [hstage]
        exact .uncounted
      | add id v =>
        rw [hstage]
        exact .addedToIndex hget hjob hstage
      | remove id =>
        rw [hstage]
        exact .removedFromPartition hget hjob hstage
      | search => exact .uncounted
  | release i =>
    obtain ⟨t, hget, hstage⟩ := stageOf_eq_some ha
    simp only [step, releaseTask, hget]
    exact .released hget hstage

/-! ## References stay valid -/

theorem knows_congr {t : State} (h : t.ids = s.ids) (d : Dispatch) : t.Knows d ↔ s.Knows d := by
  rw [Knows, Knows, h]

/-- Only the actor has changed, and it does not wait for a slot. -/
theorem Shaped.phase {t : State} (hs : s.Shaped) (hids : t.ids = s.ids)
    (hstates : ∀ ix, (t.states.lookup ix).isSome = (s.states.lookup ix).isSome)
    (hpartitions : ∀ p a, t.partitions.lookup p = some a → s.partitions.lookup p = some a)
    (hruntime : t.runtime = s.runtime) (htasks : t.tasks = s.tasks)
    (hcurrent : ∀ d ∈ t.phase.dispatch, s.Knows d) (hbefore : s.phase.sends = false)
    (hafter : t.phase.sends = false) : t.Shaped where
  tasks := by
    rw [htasks]
    exact fun task h => (knows_congr hids _).mpr (hs.tasks task h)
  current d h := (knows_congr hids _).mpr (hcurrent d h)
  states := by
    rw [hids]
    exact fun p hp => (hstates _).trans (hs.states p hp)
  mapped p a h := by
    rw [hids]
    exact hs.mapped p a (hpartitions p a h)
  bounded := by
    rw [hruntime, htasks]
    exact hs.bounded
  sending i task hget hsending := by
    rw [htasks] at hget
    have := (hs.sending i task hget hsending).1
    rw [hbefore] at this
    cases this
  sends h := by
    rw [hafter] at h
    cases h

/-- A closure is created. -/
theorem Shaped.push {t : State} {d : Dispatch} (hs : s.Shaped) (hids : t.ids = s.ids)
    (hstates : ∀ ix, (t.states.lookup ix).isSome = (s.states.lookup ix).isSome)
    (hpartitions : t.partitions = s.partitions) (hruntime : t.runtime = s.runtime)
    (htasks : t.tasks = s.tasks ++ [⟨d, .sending⟩]) (hd : s.Knows d)
    (hcurrent : ∀ d ∈ t.phase.dispatch, s.Knows d) (hbefore : s.phase.sends = false)
    (hafter : t.phase.sends = true) : t.Shaped where
  tasks := by
    rw [htasks]
    intro task h
    rw [knows_congr hids]
    rcases List.mem_append.mp h with h | h
    · exact hs.tasks task h
    · rwa [List.mem_singleton.mp h]
  current d h := (knows_congr hids _).mpr (hcurrent d h)
  states := by
    rw [hids]
    exact fun p hp => (hstates _).trans (hs.states p hp)
  mapped := by
    rw [hids, hpartitions]
    exact hs.mapped
  bounded := by
    rw [hruntime, htasks]
    exact hs.bounded.concat d
  sending i task hget hsending := by
    refine ⟨hafter, ?_⟩
    rw [htasks] at hget ⊢
    rw [List.getElem?_append] at hget
    split at hget
    · have := (hs.sending i task hget hsending).1
      rw [hbefore] at this
      cases this
    · next hle =>
      have hlt := (List.getElem?_eq_some_iff.mp hget).1
      rw [List.length_singleton] at hlt
      rw [List.length_append, List.length_singleton]
      omega
  sends _ := by
    rw [htasks]
    exact ⟨⟨d, .sending⟩, by simp, rfl⟩

/-- A closure moves on, while the actor goes on from its wait for a slot or stays where it is. -/
theorem Shaped.move {t : State} {i : ℕ} {task : Task Dispatch Progress} {stage : Stage Progress}
    (hs : s.Shaped) (hget : s.tasks[i]? = some task) (hids : t.ids = s.ids)
    (hstates : ∀ ix, (t.states.lookup ix).isSome = (s.states.lookup ix).isSome)
    (hpartitions : t.partitions = s.partitions) (hruntime : t.runtime = s.runtime)
    (htasks : t.tasks = s.tasks.modify i (Task.withStage stage))
    (hcurrent : t.phase.dispatch = s.phase.dispatch)
    (hqueued : stage.isQueued → Task.HasSlot s.runtime s.tasks)
    (hrunning : stage.isRunning → task.stage.isRunning ∨ Task.HasWorker s.runtime s.tasks)
    (hstage : stage.isSending = false)
    (hsends : t.phase.sends = (s.phase.sends && !task.stage.isSending)) : t.Shaped where
  tasks := by
    rw [htasks]
    intro x hx
    rw [knows_congr hids]
    obtain ⟨j, hj⟩ := List.getElem?_of_mem hx
    rw [List.getElem?_modify] at hj
    split at hj
    · next heq =>
      subst heq
      rw [hget] at hj
      cases hj
      exact hs.tasks task (List.mem_of_getElem? hget)
    · exact hs.tasks x (List.mem_of_getElem? (by simpa using hj))
  current := by
    rw [hcurrent]
    exact fun d h => (knows_congr hids _).mpr (hs.current d h)
  states := by
    rw [hids]
    exact fun p hp => (hstates _).trans (hs.states p hp)
  mapped := by
    rw [hids, hpartitions]
    exact hs.mapped
  bounded := by
    rw [hruntime, htasks]
    exact hs.bounded.move hget hqueued hrunning
  sending j x hj hsending := by
    rw [htasks] at hj ⊢
    rw [List.getElem?_modify] at hj
    rw [List.length_modify]
    split at hj
    · next heq =>
      subst heq
      rw [hget] at hj
      cases hj
      rw [Task.stage_withStage, hstage] at hsending
      cases hsending
    · next hne =>
      have hj : s.tasks[j]? = some x := by simpa using hj
      obtain ⟨hsends', hlast⟩ := hs.sending j x hj hsending
      refine ⟨?_, hlast⟩
      rw [hsends, hsends', Bool.true_and, Bool.not_eq_true']
      cases hsend : task.stage.isSending with
      | false => rfl
      | true =>
        have := (hs.sending i task hget hsend).2
        omega
  sends h := by
    rw [hsends, Bool.and_eq_true, Bool.not_eq_true'] at h
    obtain ⟨x, hx, hsending⟩ := hs.sends h.1
    rw [htasks, List.length_modify, List.getElem?_modify]
    split
    · next heq =>
      rw [← heq, hget] at hx
      cases hx
      rw [hsending] at h
      cases h.2
    · exact ⟨x, by simpa using hx, hsending⟩

theorem isSome_setOperation (indexId ix : IndexId) (f : Operation → Operation) :
    ((s.setOperation indexId f).states.lookup ix).isSome = (s.states.lookup ix).isSome := by
  rw [lookup_setOperation]
  split <;> simp

theorem isSome_setSize (indexId ix : IndexId) (f : ℕ → ℕ) :
    ((s.setSize indexId f).states.lookup ix).isSome = (s.states.lookup ix).isSome := by
  rw [lookup_setSize]
  split <;> simp

/-- A partition is created. -/
theorem Shaped.created (hs : s.Shaped) (hidle : s.phase = .idle) {p : PartitionId} (id : PrimaryId)
    (v : Vector) (idxCapacity : ℕ) {t : State}
    (ht : t = { s with
      states := s.states.insert p.indexId ((s.states.lookup p.indexId).getD .new)
      partitions := s.partitions.insert p s.arena.length
      arena := s.arena ++ [.new s.runtime p idxCapacity]
      phase := .check ⟨p, s.arena.length, .add id v⟩
      accepted := s.accepted ++ [.addVector p id v] }) : t.Shaped := by
  have hids : t.ids = s.ids ++ [p] := by
    rw [ht, ids, ids, List.map_append, List.map_singleton]
    rfl
  have hold : ∀ {i : ℕ} {q}, s.ids[i]? = some q → t.ids[i]? = some q := by
    intro i q hq
    rw [hids, List.getElem?_append_left (List.getElem?_eq_some_iff.mp hq).1, hq]
  have hlength : s.ids.length = s.arena.length := List.length_map _
  have hnew : t.ids[s.arena.length]? = some p := by
    rw [hids, ← hlength, List.getElem?_append_right le_rfl, Nat.sub_self]
    rfl
  have hstates : ∀ ix, t.states.lookup ix = if ix = p.indexId then
      some ((s.states.lookup p.indexId).getD .new) else s.states.lookup ix := by
    intro ix
    rw [ht]
    exact FiniteMap.lookup_insert_eq ..
  refine ⟨?_, ?_, ?_, ?_, ?_, ?_, ?_⟩
  · intro task htask
    rw [ht] at htask
    exact hold (hs.tasks task htask)
  · intro d hd
    rw [ht] at hd
    cases hd
    exact hnew
  · intro q hq
    rw [hstates]
    split
    · rfl
    · next hne =>
      rw [hids] at hq
      rcases List.mem_append.mp hq with hq | hq
      · exact hs.states q hq
      · rw [List.mem_singleton.mp hq] at hne
        exact absurd rfl hne
  · intro q a hq
    rw [ht] at hq
    change (s.partitions.insert p s.arena.length).lookup q = some a at hq
    rw [FiniteMap.lookup_insert_eq] at hq
    split at hq
    · next heq =>
      cases hq
      rw [heq, hnew]
    · exact hold (hs.mapped q a hq)
  · rw [ht]
    exact hs.bounded
  · intro i task hget hsending
    rw [ht] at hget
    have := (hs.sending i task hget hsending).1
    rw [hidle] at this
    cases this
  · intro hsends
    rw [ht] at hsends
    cases hsends

/-- Every step keeps the references valid. -/
theorem Shaped.step (hs : s.Shaped) {a : Action} (ha : Enabled s a) : (step s a).Shaped := by
  have heffect := hs.effect ha
  generalize Usearch.step s a = t at heffect
  cases heffect with
  | refused => exact hs
  | uncounted => exact hs
  | absent => 
    exact ⟨hs.tasks, hs.current, hs.states, hs.mapped, hs.bounded, hs.sending, hs.sends⟩
  | ended =>
    refine ⟨hs.tasks, hs.current, hs.states, ?_, hs.bounded, hs.sending, hs.sends⟩
    intro p a hp
    change (s.partitions.erase _).lookup p = some a at hp
    rw [FiniteMap.lookup_erase_eq] at hp
    split at hp
    · cases hp
    · exact hs.mapped p a hp
  | found hidle hpart =>
    refine hs.phase rfl (fun _ => rfl) (fun _ _ h => h) rfl rfl ?_ (by rw [hidle]; rfl) rfl
    intro d hd
    cases hd
    exact hs.mapped _ _ hpart
  | created hidle => exact hs.created hidle _ _ _ rfl
  | checkedLow hphase =>
    exact hs.phase rfl (fun _ => rfl) (fun _ _ h => h) rfl rfl
      (fun d hd => hs.current d (by rw [hphase]; exact hd)) (by rw [hphase]; rfl) rfl
  | checked hphase =>
    exact hs.phase rfl (fun _ => rfl) (fun _ _ h => h) rfl rfl
      (fun d hd => hs.current d (by rw [hphase]; exact hd)) (by rw [hphase]; rfl) rfl
  | @permitReserve d hphase =>
    exact hs.phase rfl (fun _ => isSome_setOperation d.indexId _ (·.acquire .reserve))
      (fun _ _ h => h) rfl rfl (fun d hd => hs.current d (by rw [hphase]; exact hd)) (by rw [hphase]; rfl) rfl
  | rechecked hphase =>
    exact hs.phase rfl (fun _ => isSome_setOperation ..) (fun _ _ h => h) rfl rfl
      (fun d hd => hs.current d (by rw [hphase]; exact hd)) (by rw [hphase]; rfl) rfl
  | @recheckedLow d _ hphase =>
    have hd : s.Knows d := hs.current d (by rw [hphase]; rfl)
    exact hs.push rfl (fun _ => rfl) rfl rfl rfl hd
      (fun d hd => hs.current d (by rw [hphase]; exact hd)) (by rw [hphase]; rfl) rfl
  | @permit d hphase =>
    have hd : s.Knows d := hs.current d (by rw [hphase]; rfl)
    exact hs.push rfl (fun _ => isSome_setOperation d.indexId _ (·.acquire d.job.mode)) rfl rfl
      rfl hd (fun d hd => by cases hd) (by rw [hphase]; rfl) rfl
  | sentReserve hphase hslot =>
    obtain ⟨task, hget, hstage⟩ := hs.sends (by rw [hphase]; rfl)
    exact hs.move hget rfl (fun _ => rfl) rfl rfl rfl (by rw [hphase]; rfl) (fun _ => hslot)
      (fun h => by cases h) rfl (by rw [hphase, hstage]; rfl)
  | sent hphase hslot =>
    obtain ⟨task, hget, hstage⟩ := hs.sends (by rw [hphase]; rfl)
    exact hs.move hget rfl (fun _ => rfl) rfl rfl rfl (by rw [hphase]; rfl) (fun _ => hslot)
      (fun h => by cases h) rfl (by rw [hphase, hstage]; rfl)
  | taken hget hstage hworker =>
    exact hs.move hget rfl (fun _ => rfl) rfl rfl rfl rfl (fun h => by cases h)
      (fun _ => Or.inr hworker) rfl (by rw [hstage]; simp [Stage.isSending, State.move])
  | called hget hstage =>
    exact hs.move hget (ids_setPartition s _ fun _ => rfl) (fun _ => rfl) rfl rfl rfl rfl
      (fun h => by cases h) (fun _ => Or.inl (by rw [hstage]; rfl)) rfl
      (by rw [hstage]; simp [Stage.isSending, State.move, State.setPartition])
  | reserved hget hjob hstage =>
    exact hs.move hget (ids_setPartition s _ fun _ => rfl) (fun _ => rfl) rfl rfl rfl rfl
      (fun h => by cases h) (fun _ => Or.inl (by rw [hstage]; rfl)) rfl
      (by rw [hstage]; simp [Stage.isSending, State.move, State.setPartition])
  | addedToPartition hget hjob hstage =>
    exact hs.move hget (ids_setPartition s _ fun _ => rfl) (fun _ => rfl) rfl rfl rfl rfl
      (fun h => by cases h) (fun _ => Or.inl (by rw [hstage]; rfl)) rfl
      (by rw [hstage]; simp [Stage.isSending, State.move, State.setPartition])
  | removedFromPartition hget hjob hstage =>
    exact hs.move hget (ids_setPartition s _ fun _ => rfl) (fun _ => rfl) rfl rfl rfl rfl
      (fun h => by cases h) (fun _ => Or.inl (by rw [hstage]; rfl)) rfl
      (by rw [hstage]; simp [Stage.isSending, State.move, State.setPartition])
  | addedToIndex hget hjob hstage =>
    exact hs.move hget rfl (fun _ => isSome_setSize ..) rfl rfl rfl rfl
      (fun h => by cases h) (fun _ => Or.inl (by rw [hstage]; rfl)) rfl
      (by rw [hstage]; simp [Stage.isSending, State.move, State.setSize])
  | removedFromIndex hget hjob hstage =>
    exact hs.move hget rfl (fun _ => isSome_setSize ..) rfl rfl rfl rfl
      (fun h => by cases h) (fun _ => Or.inl (by rw [hstage]; rfl)) rfl
      (by rw [hstage]; simp [Stage.isSending, State.move, State.setSize])
  | released hget hstage =>
    exact hs.move hget rfl (fun _ => isSome_setOperation ..) rfl rfl rfl rfl
      (fun h => by cases h) (fun h => by cases h) rfl
      (by rw [hstage]; simp [Stage.isSending, State.move, State.setOperation])

end State

end Usearch

end VectorStore
