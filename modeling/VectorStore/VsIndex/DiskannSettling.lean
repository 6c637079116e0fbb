import Mathlib.Data.ZMod.Basic
import VectorStore.VsIndex.DiskannSteps

/-!
# Tasks of the DiskANN actor take effect

The tasks that have not called the index yet are writes that are pending.  Nothing keeps them in
order: a task that is called before an earlier one for the same vector overtakes it.  In a run without
overtaking the partitions and the pending writes together stand for the messages in order, and the
sizes are the numbers of vectors up to what is not counted yet.
-/

namespace VectorStore

namespace Diskann

open Usearch (fetchAdd fetchSub fetchAdd_lt fetchSub_lt)

/-! ## Words -/

theorem cast_fetchAdd (n : ℕ) : (fetchAdd n : ZMod (2 ^ 64)) = n + 1 := by
  rw [fetchAdd, ZMod.natCast_mod, Nat.cast_add, Nat.cast_one]

theorem cast_fetchSub (n : ℕ) : (fetchSub n : ZMod (2 ^ 64)) = n - 1 := by
  have hmax : ((2 ^ 64 - 1 : ℕ) : ZMod (2 ^ 64)) = -1 := by
    rw [Nat.cast_sub Nat.one_le_two_pow, ZMod.natCast_self, Nat.cast_one, zero_sub]
  rw [fetchSub, ZMod.natCast_mod, Nat.cast_add, hmax, sub_eq_add_neg]

/-- What a call adds to the number of vectors, once it succeeded. -/
def Job.change : Job → ZMod (2 ^ 64)
  | .addVector _ _ => 1
  | .removeVector _ => -1
  | .ann => 0

theorem Job.cast_count (job : Job) (n : ℕ) :
    (job.count n : ZMod (2 ^ 64)) = n + job.change := by
  cases job with
  | addVector id v => exact cast_fetchAdd n
  | removeVector id => exact (cast_fetchSub n).trans (sub_eq_add_neg _ _)
  | ann => exact (add_zero _).symm

theorem Job.count_lt (job : Job) {n : ℕ} (h : n < 2 ^ 64) : job.count n < 2 ^ 64 := by
  cases job with
  | addVector id v => exact fetchAdd_lt n
  | removeVector id => exact fetchSub_lt n
  | ann => exact h

/-- What the size of an index lacks because of a task. -/
def owed (indexId : IndexId) (t : Task Dispatch Progress) : ZMod (2 ^ 64) :=
  if t.dispatch.indexId = indexId ∧ t.stage = .running .called then t.dispatch.job.change else 0

/-- The vectors of a partition, when it is one of the index. -/
def Partition.share (indexId : IndexId) (partition : Partition) : ℕ :=
  if partition.partitionId.indexId = indexId then partition.live.keys.length else 0

namespace State

/-! ## Invariants -/

/-- The ids of the partitions, in the order of their creation. -/
def ids (s : State) : List PartitionId := s.arena.map Partition.partitionId

/-- The partition of a task exists. -/
def Knows (s : State) (d : Dispatch) : Prop := s.ids[d.partition]? = some d.partitionId

/-- References are valid, and the last task is the one that waits for a slot. -/
structure Shaped (s : State) : Prop where
  tasks : ∀ t ∈ s.tasks, s.Knows t.dispatch
  sizes : ∀ p ∈ s.ids, (s.sizes.lookup p.indexId).isSome
  mapped : ∀ p a, s.partitions.lookup p = some a → s.ids[a]? = some p
  sends : s.phase = .send → ∃ t, s.tasks[s.tasks.length - 1]? = some t ∧ t.stage = .sending

/-- The live vectors of the partitions. -/
def contents (s : State) (key : ℕ × PrimaryId) : Option Vector :=
  s.arena[key.1]?.bind fun partition => partition.live.lookup key.2

/-- The writes of all tasks, in the order of their dispatch. -/
def log (s : State) : List (Write (ℕ × PrimaryId) Vector) :=
  s.tasks.filterMap fun t => t.dispatch.write

/-- The writes that have not taken effect. -/
def pending (s : State) : List (Write (ℕ × PrimaryId) Vector) := s.tasks.filterMap pendingWrite

/-- The vectors there should be after the accepted messages. -/
def vectors (s : State) : Vectors := Vectors.replay ∅ s.accepted

/-- The partitions and the pending writes stand for the accepted messages. -/
structure Settled (s : State) : Prop where
  deferred : Write.Deferred s.contents s.pending s.log
  expected : Write.Expected s.contents s.pending
  placed : Placed s.ids s.partitions (Write.replay (fun _ => none) s.log) s.vectors

/-- The number of vectors in the partitions of an index. -/
def total (s : State) (indexId : IndexId) : ℕ := (s.arena.map (Partition.share indexId)).sum

/-- The sizes are right, as words, up to what is owed. -/
def Counted (s : State) : Prop :=
  ∀ ix n, s.sizes.lookup ix = some n → n < 2 ^ 64 ∧
    (n : ZMod (2 ^ 64)) + (s.tasks.map (owed ix)).sum = s.total ix

/-- A message that is received is admitted by the vectors there should be. -/
def AdmitsMessage (s : State) : Action → Prop
  | .receive (.modify message) _ => s.vectors.Admits message
  | _ => True

/-- The index says of a call whether the id was there. -/
def Says (s : State) : Action → Prop
  | .call i ok => ∀ task ∈ s.tasks[i]?,
    task.dispatch.job.Says (fun id => s.contents (task.dispatch.partition, id)) ok
  | _ => True

instance (s : State) (a : Action) : Decidable (s.Says a) :=
  match a with
  | .call i ok => inferInstanceAs (Decidable (∀ task ∈ s.tasks[i]?,
    task.dispatch.job.Says (fun id => s.contents (task.dispatch.partition, id)) ok))
  | .receive _ _ | .send | .take _ | .count _ | .finish _ =>
    inferInstanceAs (Decidable True)

/-- A task is not called before an earlier one for the same vector. -/
def InTurn (s : State) : Action → Prop
  | .call i _ => ∀ task ∈ s.tasks[i]?, ∀ w ∈ task.dispatch.write,
    ∀ earlier ∈ (s.tasks.take i).filterMap pendingWrite, earlier.key ≠ w.key
  | _ => True

instance (s : State) (a : Action) : Decidable (s.InTurn a) :=
  match a with
  | .call i _ => inferInstanceAs (Decidable (∀ task ∈ s.tasks[i]?, ∀ w ∈ task.dispatch.write,
    ∀ earlier ∈ (s.tasks.take i).filterMap pendingWrite, earlier.key ≠ w.key))
  | .receive _ _ | .send | .take _ | .count _ | .finish _ =>
    inferInstanceAs (Decidable True)

variable {s t : State} {i : ℕ} {task : Task Dispatch Progress} {d : Dispatch}

theorem shaped_init (runtime : Runtime) : (init runtime).Shaped where
  tasks _ h := by cases h
  sizes _ h := by cases h
  mapped p a h := by
    rw [show (init runtime).partitions = ∅ from rfl, AList.lookup_empty] at h
    cases h
  sends h := by cases h

theorem settled_init (runtime : Runtime) : (init runtime).Settled where
  deferred := Write.deferred_nil
  expected := Write.expected_nil _
  placed := Placed.empty

theorem counted_init (runtime : Runtime) : (init runtime).Counted := by
  intro ix n h
  rw [show (init runtime).sizes = ∅ from rfl, AList.lookup_empty] at h
  cases h

/-! ## A message is dispatched -/

theorem sizes_dispatchTask (s : State) (d : Dispatch) (ix : IndexId) :
    (s.dispatchTask d).sizes.lookup ix =
      if ix = d.indexId then some ((s.sizes.lookup d.indexId).getD 0) else s.sizes.lookup ix :=
  FiniteMap.lookup_insert_eq ..

/-- A task for a partition that exists. -/
theorem Shaped.dispatchTask (htasks : ∀ t ∈ s.tasks, s.Knows t.dispatch)
    (hsizes : ∀ p ∈ s.ids, p.indexId = d.indexId ∨ (s.sizes.lookup p.indexId).isSome)
    (hmapped : ∀ p a, s.partitions.lookup p = some a → s.ids[a]? = some p) (hd : s.Knows d) :
    (s.dispatchTask d).Shaped where
  tasks t ht := by
    rcases List.mem_append.mp ht with ht | ht
    · exact htasks t ht
    · rw [List.mem_singleton.mp ht]
      exact hd
  sizes p hp := by
    rw [sizes_dispatchTask]
    split
    · rfl
    · next hne => exact (hsizes p hp).resolve_left hne
  mapped := hmapped
  sends _ := ⟨⟨d, .sending⟩, by simp [State.dispatchTask], rfl⟩

theorem log_dispatchTask (s : State) (d : Dispatch) :
    (s.dispatchTask d).log = s.log ++ d.write.toList := by
  simp only [log, dispatchTask, List.filterMap_append, List.filterMap_cons, List.filterMap_nil]
  cases d.write <;> rfl

theorem pending_dispatchTask (s : State) (d : Dispatch) :
    (s.dispatchTask d).pending = s.pending ++ d.write.toList := by
  simp only [pending, dispatchTask, List.filterMap_append, List.filterMap_cons, List.filterMap_nil,
    pendingWrite, isPending, if_pos]
  cases d.write <;> rfl

/-- A new partition changes nothing in the others. -/
theorem contents_create (s : State) (p : PartitionId) : (s.create p).contents = s.contents := by
  funext key
  rw [contents, contents, create]
  rcases lt_trichotomy key.1 s.arena.length with hlt | heq | hgt
  · rw [List.getElem?_append_left hlt]
  · rw [List.getElem?_append_right heq.ge, heq, Nat.sub_self,
      List.getElem?_eq_none (le_refl s.arena.length)]
    exact AList.lookup_empty _
  · rw [List.getElem?_eq_none (by simpa using hgt), List.getElem?_eq_none hgt.le]

/-- The message of a task for a partition in use. -/
theorem placed_dispatch {ids : List PartitionId} {partitions : AList fun _ : PartitionId => ℕ}
    {contents : ℕ × PrimaryId → Option Vector} {vectors : Vectors}
    (h : Placed ids partitions contents vectors)
    (hpart : partitions.lookup d.partitionId = some d.partition) :
    Placed ids partitions (Write.replay contents d.write.toList)
      (Vectors.replay vectors d.messages) := by
  obtain ⟨p, a, job⟩ := d
  cases job with
  | addVector id v => exact h.addVector hpart id v
  | removeVector id => exact h.removeVector hpart id
  | ann => exact h

/-- A message is dispatched. -/
theorem Settled.dispatchTask (hs : s.Settled)
    (hpart : s.partitions.lookup d.partitionId = some d.partition)
    (hadmits : ∀ m ∈ d.messages, s.vectors.Admits m) :
    (State.dispatchTask { s with accepted := s.accepted ++ d.messages } d).Settled := by
  have hlog : (State.dispatchTask { s with accepted := s.accepted ++ d.messages } d).log =
      s.log ++ d.write.toList := log_dispatchTask _ d
  have hpending : (State.dispatchTask { s with accepted := s.accepted ++ d.messages } d).pending =
      s.pending ++ d.write.toList := pending_dispatchTask _ d
  have hvectors : (State.dispatchTask { s with accepted := s.accepted ++ d.messages } d).vectors =
      s.vectors.replay d.messages := Machine.run_append ∅ s.accepted d.messages
  have hfresh : ∀ w ∈ d.write, w.value.isSome →
      Write.replay s.contents s.pending w.key = none := by
    intro w hw hsome
    rw [hs.deferred]
    obtain ⟨p, a, job⟩ := d
    cases job with
    | addVector id v =>
      cases hw
      exact (hs.placed.entry p a hpart id).trans (hadmits _ (List.mem_singleton_self _))
    | removeVector id =>
      cases hw
      cases hsome
    | ann => cases hw
  constructor
  case placed =>
    rw [hlog, hvectors, Write.replay_append]
    exact placed_dispatch hs.placed hpart
  case deferred =>
    rw [hpending, hlog]
    cases hwrite : d.write with
    | none =>
      rw [Option.toList_none, List.append_nil, List.append_nil]
      exact hs.deferred
    | some w => exact hs.deferred.issue w
  case expected =>
    rw [hpending]
    cases hwrite : d.write with
    | none =>
      rw [Option.toList_none, List.append_nil]
      exact hs.expected
    | some w => exact hs.expected.issue (hfresh w hwrite)

/-- Nothing is there, and nothing is owed, for an index without a size. -/
theorem Shaped.total_eq_zero (hs : s.Shaped) {ix : IndexId} (hnone : s.sizes.lookup ix = none) :
    s.total ix = 0 ∧ (s.tasks.map (owed ix)).sum = 0 := by
  have hindex : ∀ p ∈ s.ids, p.indexId ≠ ix := by
    rintro p hp rfl
    have := hs.sizes p hp
    rw [hnone] at this
    cases this
  refine ⟨List.sum_eq_zero_iff.mpr fun n hn => ?_, List.sum_eq_zero fun z hz => ?_⟩
  · obtain ⟨partition, hpartition, rfl⟩ := List.mem_map.mp hn
    exact if_neg (hindex _ (List.mem_map_of_mem hpartition))
  · obtain ⟨t, ht, rfl⟩ := List.mem_map.mp hz
    exact if_neg fun h => hindex _ (List.mem_of_getElem? (hs.tasks t ht)) h.1

/-- A task that is dispatched owes nothing yet. -/
theorem Counted.dispatchTask (hs : s.Counted)
    (hnone : s.sizes.lookup d.indexId = none →
      s.total d.indexId = 0 ∧ (s.tasks.map (owed d.indexId)).sum = 0) :
    (s.dispatchTask d).Counted := by
  intro ix n hn
  have howed : ((s.dispatchTask d).tasks.map (owed ix)).sum = (s.tasks.map (owed ix)).sum := by
    have hzero : owed ix ⟨d, .sending⟩ = 0 := if_neg fun h => by cases h.2
    rw [State.dispatchTask, List.map_append, List.sum_append, List.map_singleton,
      List.sum_singleton, hzero, add_zero]
  rw [howed]
  rw [sizes_dispatchTask] at hn
  split at hn
  case isFalse => exact hs ix n hn
  case isTrue heq =>
    subst heq
    cases hold : s.sizes.lookup d.indexId with
    | some m =>
      rw [hold] at hn
      cases hn
      exact hs _ m hold
    | none =>
      rw [hold] at hn
      cases hn
      obtain ⟨htotal, howed⟩ := hnone hold
      refine ⟨by decide, ?_⟩
      rw [howed]
      change ((0 : ℕ) : ZMod (2 ^ 64)) + 0 = (s.total d.indexId : ZMod (2 ^ 64))
      rw [htotal, add_zero]

/-! ## A partition is created -/

theorem ids_create (s : State) (p : PartitionId) : (s.create p).ids = s.ids ++ [p] := by
  rw [ids, ids, create, List.map_append, List.map_singleton]

/-- The first message of a partition: the partition is created for it. -/
theorem Shaped.created (hs : s.Shaped) {p : PartitionId} {id : PrimaryId} {v : Vector} :
    (((s.accept (.addVector p id v)).create p).dispatchTask
      ⟨p, s.arena.length, .addVector id v⟩).Shaped := by
  have hids : ((s.accept (.addVector p id v)).create p).ids = s.ids ++ [p] := ids_create _ p
  have hlength : s.ids.length = s.arena.length := List.length_map _
  have hold : ∀ {i : ℕ} {q}, s.ids[i]? = some q → (s.ids ++ [p])[i]? = some q := by
    intro i q hq
    rw [List.getElem?_append_left (List.getElem?_eq_some_iff.mp hq).1, hq]
  have hnew : (s.ids ++ [p])[s.arena.length]? = some p := by
    rw [← hlength, List.getElem?_append_right le_rfl, Nat.sub_self]
    rfl
  refine Shaped.dispatchTask (fun t ht => ?_) (fun q hq => ?_) (fun q a hq => ?_) ?_
  · rw [Knows, hids]
    exact hold (hs.tasks t ht)
  · rw [hids] at hq
    rcases List.mem_append.mp hq with hq | hq
    · exact Or.inr (hs.sizes q hq)
    · rw [List.mem_singleton.mp hq]
      exact Or.inl rfl
  · rw [hids]
    change (s.partitions.insert p s.arena.length).lookup q = some a at hq
    rw [FiniteMap.lookup_insert_eq] at hq
    split at hq
    · next heq =>
      cases hq
      rw [heq, hnew]
    · exact hold (hs.mapped q a hq)
  · rw [Knows, hids]
    exact hnew

theorem Settled.create (hs : s.Settled) {p : PartitionId} (hp : s.partitions.lookup p = none) :
    (s.create p).Settled := by
  have hplaced := hs.placed.create hp
  have hlength : s.ids.length = s.arena.length := List.length_map _
  rw [hlength] at hplaced
  refine ⟨?_, ?_, ?_⟩
  · rw [contents_create]
    exact hs.deferred
  · rw [contents_create]
    exact hs.expected
  · rw [ids_create]
    exact hplaced

theorem total_create (s : State) (p : PartitionId) (ix : IndexId) :
    (s.create p).total ix = s.total ix := by
  have hnew : Partition.share ix ⟨p, ∅⟩ = 0 := by
    unfold Partition.share
    split <;> rfl
  rw [total, total, create, List.map_append, List.sum_append, List.map_singleton,
    List.sum_singleton, hnew, Nat.add_zero]

/-! ## A task moves on -/

/-- A partition keeps its id in a call. -/
theorem partitionId_call (job : Job) (ok : Bool) (partition : Partition) :
    (job.call ok partition).partitionId = partition.partitionId := by
  cases job <;> cases ok <;> rfl

theorem ids_setPartition (s : State) (a : ℕ) {f : Partition → Partition}
    (hf : ∀ p, (f p).partitionId = p.partitionId) : (s.setPartition a f).ids = s.ids := by
  refine List.ext_getElem? fun i => ?_
  simp only [ids, setPartition, List.getElem?_map, List.getElem?_modify]
  split
  · cases s.arena[i]? <;> simp [hf]
  · simp

/-- A task that has been sent moves on. -/
theorem Shaped.move (hs : s.Shaped) (hget : s.tasks[i]? = some task) {stage : Stage Progress}
    (hids : t.ids = s.ids) (hsizes : ∀ ix, (t.sizes.lookup ix).isSome = (s.sizes.lookup ix).isSome)
    (hpartitions : t.partitions = s.partitions)
    (htasks : t.tasks = s.tasks.modify i (Task.withStage stage))
    (hsends : t.phase = .send → s.phase = .send ∧ task.stage ≠ .sending) : t.Shaped where
  tasks x hx := by
    rw [Knows, hids]
    rw [htasks] at hx
    obtain ⟨j, hj⟩ := List.getElem?_of_mem hx
    rw [List.getElem?_modify] at hj
    split at hj
    · next heq =>
      subst heq
      rw [hget] at hj
      cases hj
      exact hs.tasks task (List.mem_of_getElem? hget)
    · exact hs.tasks x (List.mem_of_getElem? (by simpa using hj))
  sizes p hp := by
    rw [hids] at hp
    exact (hsizes _).trans (hs.sizes p hp)
  mapped := by
    rw [hids, hpartitions]
    exact hs.mapped
  sends h := by
    obtain ⟨hphase, hne⟩ := hsends h
    obtain ⟨x, hx, hsending⟩ := hs.sends hphase
    rw [htasks, List.length_modify, List.getElem?_modify]
    split
    · next heq =>
      rw [← heq, hget] at hx
      cases hx
      exact absurd hsending hne
    · exact ⟨x, by simpa using hx, hsending⟩

/-- What the invariant depends on. -/
theorem Settled.congr (hs : s.Settled) (hcontents : t.contents = s.contents)
    (hpending : t.pending = s.pending) (hlog : t.log = s.log) (hids : t.ids = s.ids)
    (hpartitions : t.partitions = s.partitions) (haccepted : t.accepted = s.accepted) :
    t.Settled where
  deferred := by
    rw [hcontents, hpending, hlog]
    exact hs.deferred
  expected := by
    rw [hcontents, hpending]
    exact hs.expected
  placed := by
    rw [hids, hpartitions, hlog, vectors, haccepted]
    exact hs.placed

/-- A task moves on without calling the index. -/
theorem Settled.move (hs : s.Settled) (hget : s.tasks[i]? = some task) {stage : Stage Progress}
    (hpending : isPending stage = isPending task.stage) (harena : t.arena = s.arena)
    (hpartitions : t.partitions = s.partitions) (haccepted : t.accepted = s.accepted)
    (htasks : t.tasks = s.tasks.modify i (Task.withStage stage)) : t.Settled := by
  refine hs.congr ?_ ?_ ?_ ?_ hpartitions haccepted
  · funext key
    rw [contents, contents, harena]
  · rw [pending, htasks]
    refine filterMap_modify pendingWrite hget ?_
    simp only [pendingWrite, Task.stage_withStage, Task.dispatch_withStage, hpending]
  · rw [log, htasks]
    exact filterMap_modify (fun t : Task Dispatch Progress => t.dispatch.write) hget rfl
  · rw [ids, ids, harena]

/-- A task moves on, and the number of vectors and the size change by what it owes. -/
theorem Counted.move (hs : s.Counted) (hget : s.tasks[i]? = some task) {stage : Stage Progress}
    (htasks : t.tasks = s.tasks.modify i (Task.withStage stage))
    (hchange : ∀ ix n, t.sizes.lookup ix = some n → ∃ m, s.sizes.lookup ix = some m ∧
      (m < 2 ^ 64 → n < 2 ^ 64) ∧
      (n : ZMod (2 ^ 64)) + owed ix (task.withStage stage) + s.total ix =
        m + owed ix task + t.total ix) : t.Counted := by
  intro ix n hn
  obtain ⟨m, hm, hlt, heq⟩ := hchange ix n hn
  obtain ⟨hmlt, hcounted⟩ := hs ix m hm
  have hsum := sum_map_modify (owed ix) (Task.withStage stage) hget
  refine ⟨hlt hmlt, ?_⟩
  rw [htasks]
  linear_combination heq + hcounted + hsum

/-! ## A task calls the index -/

/-- The partition of a task. -/
theorem Knows.exists_partition (hd : s.Knows d) :
    ∃ partition, s.arena[d.partition]? = some partition ∧
      partition.partitionId = d.partitionId := by
  rw [Knows, ids, List.getElem?_map] at hd
  exact Option.map_eq_some_iff.mp hd

theorem arena_setPartition (s : State) (a : ℕ) (f : Partition → Partition) (b : ℕ) :
    (s.setPartition a f).arena[b]? = if a = b then s.arena[b]?.map f else s.arena[b]? := by
  rw [setPartition, List.getElem?_modify]
  split <;> simp

/-- An insertion of an id that is not live. -/
theorem lookup_insertion {jd : PrimaryId} {v : Vector} {ok : Bool} {partition : Partition}
    (hanswer : (Job.addVector jd v).Says partition.live.lookup ok)
    (hnone : partition.live.lookup jd = none) (id : PrimaryId) :
    ((Job.addVector jd v).call ok partition).live.lookup id =
      if id = jd then some v else partition.live.lookup id := by
  have hok : ok = (partition.live.lookup jd).isNone := hanswer
  rw [hnone] at hok
  subst hok
  exact FiniteMap.lookup_insert_eq ..

/-- A deletion, also one of an id that is not live. -/
theorem lookup_deletion {jd : PrimaryId} {ok : Bool} {partition : Partition}
    (hanswer : (Job.removeVector jd).Says partition.live.lookup ok) (id : PrimaryId) :
    ((Job.removeVector jd).call ok partition).live.lookup id =
      if id = jd then none else partition.live.lookup id := by
  have hok : ok = (partition.live.lookup jd).isSome := hanswer
  cases hfound : partition.live.lookup jd with
  | none =>
    rw [hfound] at hok
    subst hok
    change partition.live.lookup id = _
    split
    · next heq => rw [heq, hfound]
    · rfl
  | some u =>
    rw [hfound] at hok
    subst hok
    exact FiniteMap.lookup_erase_eq ..

/-- What is in a partition. -/
theorem contents_eq_lookup {a : ℕ} {partition : Partition}
    (hpartition : s.arena[a]? = some partition) :
    (fun id => s.contents (a, id)) = partition.live.lookup := by
  funext id
  rw [contents, hpartition, Option.bind_some]

/-- A call of the index makes the write of its task, when an insertion finds no value. -/
theorem contents_call {ok : Bool} {partition : Partition}
    (hpartition : s.arena[d.partition]? = some partition)
    (hanswer : d.job.Says (fun id => s.contents (d.partition, id)) ok)
    (hfresh : ∀ w ∈ d.write, w.value.isSome → s.contents w.key = none) :
    (s.setPartition d.partition (d.job.call ok)).contents =
      Write.replay s.contents d.write.toList := by
  have hlookup := contents_eq_lookup hpartition
  rw [hlookup] at hanswer
  funext ⟨b, jd⟩
  rw [contents, arena_setPartition]
  by_cases hb : d.partition = b
  · subst hb
    rw [if_pos rfl, hpartition, Option.map_some, Option.bind_some]
    unfold Dispatch.write at hfresh ⊢
    cases hjob : d.job with
    | ann => exact (congrFun hlookup jd).symm
    | addVector id v =>
      rw [hjob] at hfresh hanswer
      have hnone : partition.live.lookup id = none :=
        (congrFun hlookup id).symm.trans (hfresh _ rfl rfl)
      rw [lookup_insertion hanswer hnone]
      by_cases hid : jd = id
      · rw [if_pos hid, hid]
        exact (Write.apply_self s.contents ⟨(d.partition, id), some v⟩).symm
      · rw [if_neg hid, ← congrFun hlookup jd]
        exact (Write.apply_of_ne s.contents fun h => hid (Prod.mk.inj h).2).symm
    | removeVector id =>
      rw [hjob] at hanswer
      rw [lookup_deletion hanswer]
      by_cases hid : jd = id
      · rw [if_pos hid, hid]
        exact (Write.apply_self s.contents ⟨(d.partition, id), none⟩).symm
      · rw [if_neg hid, ← congrFun hlookup jd]
        exact (Write.apply_of_ne s.contents fun h => hid (Prod.mk.inj h).2).symm
  · rw [if_neg hb]
    change s.contents (b, jd) = Write.replay s.contents d.write.toList (b, jd)
    refine (Write.replay_of_ne fun w hw hkey => hb ?_).symm
    have hw : w ∈ d.write := Option.mem_toList.mp hw
    unfold Dispatch.write at hw
    cases hjob : d.job <;> rw [hjob] at hw <;> cases hw <;> exact (Prod.mk.inj hkey).1.symm

/-- A task calls the index in its turn. -/
theorem Settled.called (hs : s.Settled) (hshaped : s.Shaped) (hget : s.tasks[i]? = some task)
    (hstage : task.stage = .running .started) {ok : Bool} (hanswer : s.Says (.call i ok))
    (hturn : s.InTurn (.call i ok)) :
    ((s.setPartition task.dispatch.partition (task.dispatch.job.call ok)).move i
      (.running (if task.dispatch.job.counts ok then .called else .processed))).Settled := by
  obtain ⟨partition, hpartition, -⟩ :=
    (hshaped.tasks task (List.mem_of_getElem? hget)).exists_partition
  obtain ⟨htasks, hmodify⟩ := modify_take hget
  have hself : pendingWrite task = task.dispatch.write := if_pos (by rw [hstage]; rfl)
  have hafter : pendingWrite (task.withStage
      (.running (if task.dispatch.job.counts ok then .called else .processed))) = none := by
    refine if_neg ?_
    rw [Task.stage_withStage]
    split <;> exact Bool.false_ne_true
  have hbefore : s.pending = (s.tasks.take i).filterMap pendingWrite ++
      task.dispatch.write.toList ++ (s.tasks.drop (i + 1)).filterMap pendingWrite := by
    conv_lhs => rw [pending, htasks]
    rw [List.filterMap_append, List.filterMap_cons, hself]
    cases task.dispatch.write <;> simp
  have hpending : ((s.setPartition task.dispatch.partition (task.dispatch.job.call ok)).move i
      (.running (if task.dispatch.job.counts ok then .called else .processed))).pending =
      (s.tasks.take i).filterMap pendingWrite ++
        (s.tasks.drop (i + 1)).filterMap pendingWrite := by
    change ((s.tasks.modify i _).filterMap pendingWrite) = _
    rw [hmodify, List.filterMap_append, List.filterMap_cons, hafter]
  have hlog : ((s.setPartition task.dispatch.partition (task.dispatch.job.call ok)).move i
      (.running (if task.dispatch.job.counts ok then .called else .processed))).log = s.log :=
    filterMap_modify (fun t : Task Dispatch Progress => t.dispatch.write) hget rfl
  have hids : ((s.setPartition task.dispatch.partition (task.dispatch.job.call ok)).move i
      (.running (if task.dispatch.job.counts ok then .called else .processed))).ids = s.ids :=
    ids_setPartition s _ (partitionId_call _ ok)
  have hturn := hturn task hget
  have hdeferred := hs.deferred
  have hexpected := hs.expected
  rw [hbefore] at hdeferred hexpected
  have hfresh : ∀ w ∈ task.dispatch.write, w.value.isSome → s.contents w.key = none := by
    intro w hw hsome
    rw [Option.mem_def.mp hw, Option.toList_some, List.append_assoc, List.singleton_append]
      at hexpected
    exact hexpected.eq_none (hturn w hw) hsome
  have hcontents := contents_call hpartition (hanswer task hget) hfresh
  constructor
  case placed =>
    rw [hids, hlog]
    exact hs.placed
  case deferred =>
    rw [hpending, hlog]
    change Write.Deferred (State.contents (s.setPartition _ _)) _ _
    rw [hcontents]
    cases hwrite : task.dispatch.write with
    | none =>
      rw [hwrite, Option.toList_none, List.append_nil] at hdeferred
      exact hdeferred
    | some w =>
      rw [hwrite, Option.toList_some, List.append_assoc, List.singleton_append] at hdeferred
      exact hdeferred.perform (hturn w hwrite)
  case expected =>
    rw [hpending]
    change Write.Expected (State.contents (s.setPartition _ _)) _
    rw [hcontents]
    cases hwrite : task.dispatch.write with
    | none =>
      rw [hwrite, Option.toList_none, List.append_nil] at hexpected
      exact hexpected
    | some w =>
      rw [hwrite, Option.toList_some, List.append_assoc, List.singleton_append] at hexpected
      exact hexpected.perform (hturn w hwrite)

/-- A call that counts afterwards has changed the number of vectors by one. -/
theorem length_call {job : Job} {ok : Bool} {partition : Partition}
    (hanswer : job.Says partition.live.lookup ok) :
    ((job.call ok partition).live.keys.length : ZMod (2 ^ 64)) =
      partition.live.keys.length + if job.counts ok then job.change else 0 := by
  cases job with
  | ann => exact (add_zero _).symm
  | addVector id v =>
    cases ok with
    | false => exact (add_zero _).symm
    | true =>
      have hnone : partition.live.lookup id = none := Option.isNone_iff_eq_none.mp hanswer.symm
      have hlength := FiniteMap.length_keys_insert hnone v
      change ((AList.insert id v partition.live).keys.length : ZMod (2 ^ 64)) = _ + 1
      rw [hlength, Nat.cast_add, Nat.cast_one]
  | removeVector id =>
    cases ok with
    | false => exact (add_zero _).symm
    | true =>
      obtain ⟨v, hv⟩ := Option.isSome_iff_exists.mp hanswer.symm
      have hlength := FiniteMap.length_keys_erase hv
      change ((partition.live.erase id).keys.length : ZMod (2 ^ 64)) = _ + -1
      rw [← hlength, Nat.cast_add, Nat.cast_one, add_neg_cancel_right]

/-- A task calls the index. -/
theorem Counted.called (hs : s.Counted) (hshaped : s.Shaped) (hget : s.tasks[i]? = some task)
    (hstage : task.stage = .running .started) {ok : Bool} (hanswer : s.Says (.call i ok)) :
    ((s.setPartition task.dispatch.partition (task.dispatch.job.call ok)).move i
      (.running (if task.dispatch.job.counts ok then .called else .processed))).Counted := by
  obtain ⟨partition, hpartition, hid⟩ :=
    (hshaped.tasks task (List.mem_of_getElem? hget)).exists_partition
  have hanswer : task.dispatch.job.Says partition.live.lookup ok :=
    contents_eq_lookup hpartition ▸ hanswer task hget
  have hindex : partition.partitionId.indexId = task.dispatch.indexId :=
    congrArg PartitionId.indexId hid
  refine hs.move hget rfl fun ix n hn => ⟨n, hn, fun h => h, ?_⟩
  have hbefore : owed ix task = 0 := if_neg fun h => by
    rw [hstage] at h
    cases h.2
  have htotal : (s.setPartition task.dispatch.partition (task.dispatch.job.call ok)).total ix +
      partition.share ix = s.total ix + (task.dispatch.job.call ok partition).share ix :=
    sum_map_modify (Partition.share ix) _ hpartition
  have htotal := congrArg (Nat.cast (R := ZMod (2 ^ 64))) htotal
  rw [Nat.cast_add, Nat.cast_add] at htotal
  have hshare : ((task.dispatch.job.call ok partition).share ix : ZMod (2 ^ 64)) =
      partition.share ix + owed ix (task.withStage
        (.running (if task.dispatch.job.counts ok then .called else .processed))) := by
    unfold Partition.share owed
    rw [partitionId_call, hindex, Task.dispatch_withStage, Task.stage_withStage]
    by_cases hix : task.dispatch.indexId = ix
    · rw [if_pos hix, if_pos hix, length_call hanswer]
      congr 1
      by_cases hcounts : task.dispatch.job.counts ok
      · rw [if_pos hcounts, if_pos hcounts, if_pos ⟨hix, rfl⟩]
      · rw [if_neg hcounts, if_neg hcounts, if_neg fun h => by cases h.2]
    · rw [if_neg hix, if_neg hix, if_neg fun h => hix h.1, Nat.cast_zero, add_zero]
  change (n : ZMod (2 ^ 64)) + _ + (s.total ix : ZMod (2 ^ 64)) =
    n + owed ix task + ((s.setPartition task.dispatch.partition _).total ix : ZMod (2 ^ 64))
  rw [hbefore]
  rw [hshare] at htotal
  linear_combination -htotal

/-- A task updates the size of its index. -/
theorem Counted.counted (hs : s.Counted) (hget : s.tasks[i]? = some task)
    (hstage : task.stage = .running .called) :
    (({ s with
      sizes := FiniteMap.modify s.sizes task.dispatch.indexId task.dispatch.job.count } :
        State).move i (.running .processed)).Counted := by
  refine hs.move hget rfl fun ix n hn => ?_
  change (FiniteMap.modify s.sizes _ _).lookup ix = some n at hn
  rw [FiniteMap.lookup_modify] at hn
  have hafter : owed ix (task.withStage (.running .processed)) = 0 := if_neg fun h => by cases h.2
  rw [hafter]
  split at hn
  · next heq =>
    obtain ⟨m, hm, rfl⟩ := Option.map_eq_some_iff.mp hn
    have hbefore : owed ix task = task.dispatch.job.change := if_pos ⟨heq.symm, hstage⟩
    refine ⟨m, hm, task.dispatch.job.count_lt, ?_⟩
    rw [task.dispatch.job.cast_count, hbefore, add_zero]
    rfl
  · next hne =>
    have hbefore : owed ix task = 0 := if_neg fun h => hne h.1.symm
    refine ⟨n, hn, fun h => h, ?_⟩
    rw [hbefore]
    rfl

/-- A task that owes nothing before and afterwards moves on. -/
theorem Counted.move_of_zero (hs : s.Counted) (hget : s.tasks[i]? = some task)
    {stage : Stage Progress} (htasks : t.tasks = s.tasks.modify i (Task.withStage stage))
    (hbefore : task.stage ≠ .running .called) (hafter : stage ≠ .running .called)
    (hsizes : t.sizes = s.sizes) (harena : t.arena = s.arena) : t.Counted := by
  refine hs.move hget htasks fun ix n hn => ⟨n, hsizes ▸ hn, fun h => h, ?_⟩
  have hold : owed ix task = 0 := if_neg fun h => hbefore h.2
  have hnew : owed ix (task.withStage stage) = 0 := if_neg fun h => hafter h.2
  rw [hold, hnew, total, total, harena]

end State

end Diskann

end VectorStore
