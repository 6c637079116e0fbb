import VectorStore.VsIndex.Settling

/-!
# The size of an index

The size that an index reports is the number of vectors in its partitions, up to the additions and
the removals that have taken effect and are not counted yet.  The equation is one of words: it holds
whether or not the counter has wrapped.
-/

namespace VectorStore

namespace Usearch

/-- An addition that has taken effect and is not counted in the size of the index. -/
def owesAdd (indexId : IndexId) (t : Task Dispatch Progress) : Bool :=
  t.dispatch.indexId = indexId ∧ t.dispatch.job.mode = .insert ∧
    (t.stage = .running .called ∨ t.stage = .running .counted)

/-- A removal that has taken effect and is not counted in the size of the index. -/
def owesRemove (indexId : IndexId) (t : Task Dispatch Progress) : Bool :=
  t.dispatch.indexId = indexId ∧ t.dispatch.job.mode = .remove ∧ t.stage = .running .called

/-- The vectors of a partition, when it is one of the index. -/
def PartitionState.share (indexId : IndexId) (partition : PartitionState) : ℕ :=
  if partition.partitionId.indexId = indexId then partition.idx.stored.keys.length else 0

namespace State

/-- The number of vectors in the partitions of an index. -/
def total (s : State) (indexId : IndexId) : ℕ :=
  (s.arena.map (PartitionState.share indexId)).sum

/-- What is still to be added to the size of an index, and to be taken from it. -/
def addsOwed (s : State) (indexId : IndexId) : ℕ := s.tasks.countP (owesAdd indexId)

def removesOwed (s : State) (indexId : IndexId) : ℕ := s.tasks.countP (owesRemove indexId)

/-- The sizes of the indexes are right, up to what is owed. -/
def Counted (s : State) : Prop :=
  ∀ ix state, s.states.lookup ix = some state → state.size < 2 ^ 64 ∧
    (state.size + s.addsOwed ix) % 2 ^ 64 = (s.total ix + s.removesOwed ix) % 2 ^ 64

variable {s t : State} {i : ℕ} {task : Task Dispatch Progress} {ix : IndexId}

theorem counted_init (runtime : Runtime) : (init runtime).Counted := by
  intro ix state h
  rw [show (init runtime).states = ∅ from rfl, AList.lookup_empty] at h
  cases h

/-- A step that changes both sides of the equation alike. -/
theorem Counted.of_change (hs : s.Counted)
    (hchange : ∀ ix state, t.states.lookup ix = some state → ∃ old, s.states.lookup ix = some old ∧
      (old.size < 2 ^ 64 → state.size < 2 ^ 64) ∧
      (state.size + t.addsOwed ix + (s.total ix + s.removesOwed ix)) % 2 ^ 64 =
        (old.size + s.addsOwed ix + (t.total ix + t.removesOwed ix)) % 2 ^ 64) : t.Counted := by
  intro ix state hstate
  obtain ⟨old, hold, hlt, heq⟩ := hchange ix state hstate
  obtain ⟨holdlt, holdeq⟩ := hs ix old hold
  refine ⟨hlt holdlt, ?_⟩
  omega

/-- What is owed and what is there are as before. -/
theorem Counted.congr (hs : s.Counted) (hadds : ∀ ix, t.addsOwed ix = s.addsOwed ix)
    (hremoves : ∀ ix, t.removesOwed ix = s.removesOwed ix) (htotal : ∀ ix, t.total ix = s.total ix)
    (hstates : ∀ ix state, t.states.lookup ix = some state →
      ∃ old, s.states.lookup ix = some old ∧ state.size = old.size) : t.Counted := by
  refine hs.of_change fun ix state hstate => ?_
  obtain ⟨old, hold, hsize⟩ := hstates ix state hstate
  exact ⟨old, hold, fun h => hsize ▸ h, by rw [hsize, hadds, hremoves, htotal]⟩

/-- A change of the operation leaves the size alone. -/
theorem size_setOperation (indexId : IndexId) (f : Operation → Operation) (ix : IndexId)
    (state : IndexState) (h : (s.setOperation indexId f).states.lookup ix = some state) :
    ∃ old, s.states.lookup ix = some old ∧ state.size = old.size := by
  rw [lookup_setOperation] at h
  split at h
  · obtain ⟨old, hold, rfl⟩ := Option.map_eq_some_iff.mp h
    exact ⟨old, hold, rfl⟩
  · exact ⟨state, h, rfl⟩

/-- A closure moves on: what it owed before and what it owes afterwards. -/
theorem addsOwed_move (hget : s.tasks[i]? = some task) (stage : Stage Progress) (ix : IndexId) :
    (s.move i stage).addsOwed ix + (owesAdd ix task).toNat =
      s.addsOwed ix + (owesAdd ix (task.withStage stage)).toNat :=
  countP_modify (owesAdd ix) (Task.withStage stage) hget

theorem removesOwed_move (hget : s.tasks[i]? = some task) (stage : Stage Progress) (ix : IndexId) :
    (s.move i stage).removesOwed ix + (owesRemove ix task).toNat =
      s.removesOwed ix + (owesRemove ix (task.withStage stage)).toNat :=
  countP_modify (owesRemove ix) (Task.withStage stage) hget

/-- A partition whose vectors change. -/
theorem total_setPartition {a : ℕ} {partition : PartitionState}
    (hpartition : s.arena[a]? = some partition) (f : PartitionState → PartitionState)
    (ix : IndexId) :
    (s.setPartition a f).total ix + partition.share ix = s.total ix + (f partition).share ix :=
  sum_map_modify (PartitionState.share ix) f hpartition

/-- A partition whose vectors are the same. -/
theorem total_setPartition_same (a : ℕ) {f : PartitionState → PartitionState}
    (hid : ∀ p, (f p).partitionId = p.partitionId)
    (hstored : ∀ p, (f p).idx.stored = p.idx.stored) (ix : IndexId) :
    (s.setPartition a f).total ix = s.total ix := by
  cases hpartition : s.arena[a]? with
  | none =>
    rw [setPartition, total, total, List.modify_eq_self (List.getElem?_eq_none_iff.mp hpartition)]
  | some partition =>
    have hshare : (f partition).share ix = partition.share ix := by
      unfold PartitionState.share
      rw [hid, hstored]
    have := total_setPartition hpartition f ix
    omega

/-- A closure that owes nothing before and after it moves on. -/
theorem Counted.move_of_zero (hs : s.Counted) (hget : s.tasks[i]? = some task)
    {stage : Stage Progress} (htasks : t.tasks = s.tasks.modify i (Task.withStage stage))
    (hadd : ∀ ix, owesAdd ix (task.withStage stage) = owesAdd ix task)
    (hremove : ∀ ix, owesRemove ix (task.withStage stage) = owesRemove ix task)
    (htotal : ∀ ix, t.total ix = s.total ix)
    (hstates : ∀ ix state, t.states.lookup ix = some state →
      ∃ old, s.states.lookup ix = some old ∧ state.size = old.size) : t.Counted := by
  refine hs.congr (fun ix => ?_) (fun ix => ?_) htotal hstates
  · have := addsOwed_move hget stage ix
    rw [hadd] at this
    rw [addsOwed, htasks]
    exact Nat.add_right_cancel this
  · have := removesOwed_move hget stage ix
    rw [hremove] at this
    rw [removesOwed, htasks]
    exact Nat.add_right_cancel this

/-- A closure that is created owes nothing. -/
theorem addsOwed_push (d : Dispatch) (ix : IndexId) : (s.push d).addsOwed ix = s.addsOwed ix := by
  rw [addsOwed, push, List.countP_append, List.countP_singleton, if_neg (by simp [owesAdd])]
  rfl

theorem removesOwed_push (d : Dispatch) (ix : IndexId) :
    (s.push d).removesOwed ix = s.removesOwed ix := by
  rw [removesOwed, push, List.countP_append, List.countP_singleton, if_neg (by simp [owesRemove])]
  rfl

/-- Nothing is counted or owed for an index without a state. -/
theorem Shaped.total_eq_zero (hs : s.Shaped) (hnone : s.states.lookup ix = none) :
    s.total ix = 0 ∧ s.addsOwed ix = 0 ∧ s.removesOwed ix = 0 := by
  have hindex : ∀ p ∈ s.ids, p.indexId ≠ ix := by
    rintro p hp rfl
    have := hs.states p hp
    rw [hnone] at this
    cases this
  have htask : ∀ t ∈ s.tasks, t.dispatch.indexId ≠ ix := fun t ht =>
    hindex _ (List.mem_of_getElem? (hs.tasks t ht))
  refine ⟨?_, ?_, ?_⟩
  · refine List.sum_eq_zero_iff.mpr fun n hn => ?_
    obtain ⟨partition, hpartition, rfl⟩ := List.mem_map.mp hn
    exact if_neg (hindex _ (List.mem_map_of_mem hpartition))
  · exact List.countP_eq_zero.mpr fun t ht => by simp [owesAdd, htask t ht]
  · exact List.countP_eq_zero.mpr fun t ht => by simp [owesRemove, htask t ht]

/-- A partition is created. -/
theorem Counted.created (hs : s.Counted) (hshaped : s.Shaped) {p : PartitionId} {c : ℕ}
    (hstates : t.states = s.states.insert p.indexId ((s.states.lookup p.indexId).getD .new))
    (harena : t.arena = s.arena ++ [.new s.runtime p c]) (htasks : t.tasks = s.tasks) :
    t.Counted := by
  have htotal : ∀ ix, t.total ix = s.total ix := by
    intro ix
    rw [total, total, harena, List.map_append, List.sum_append, List.map_singleton,
      List.sum_singleton]
    have hnew : (PartitionState.new s.runtime p c).share ix = 0 := by
      unfold PartitionState.share
      split <;> rfl
    rw [hnew, Nat.add_zero]
  intro ix state hstate
  rw [htotal, addsOwed, removesOwed, htasks]
  rw [hstates, FiniteMap.lookup_insert_eq] at hstate
  split at hstate
  · next heq =>
    subst heq
    cases hold : s.states.lookup p.indexId with
    | some old =>
      rw [hold] at hstate
      cases hstate
      exact hs _ old hold
    | none =>
      rw [hold] at hstate
      cases hstate
      obtain ⟨hzero, hadds, hremoves⟩ := hshaped.total_eq_zero hold
      rw [hzero]
      rw [addsOwed] at hadds
      rw [removesOwed] at hremoves
      rw [hadds, hremoves]
      exact ⟨by decide, rfl⟩
  · exact hs ix state hstate

/-- A successful call changes the number of vectors by what its closure owes afterwards. -/
theorem Job.length_call {job : Job} {outcome : Outcome} {idx : UsearchIndex}
    (hsucceeds : job.Succeeds idx.stored.lookup outcome)
    (hfresh : ∀ id v, job = .add id v → idx.stored.lookup id = none) :
    ((job.call outcome).1 idx).stored.keys.length +
        (decide (job.mode = .remove ∧ (job.call outcome).2 = .called)).toNat =
      idx.stored.keys.length +
        (decide (job.mode = .insert ∧ (job.call outcome).2 = .called)).toNat := by
  cases job with
  | add id v =>
    cases hsucceeds
    exact FiniteMap.length_keys_insert (hfresh id v rfl) v
  | remove id =>
    have houtcome : outcome = .removed (idx.stored.lookup id).isSome := hsucceeds
    rw [houtcome]
    cases hfound : idx.stored.lookup id with
    | none => rfl
    | some v => exact FiniteMap.length_keys_erase hfound
  | reserve capacity => cases outcome <;> rfl
  | search => rfl

/-- What is in a partition. -/
theorem contents_eq_lookup {a : ℕ} {partition : PartitionState}
    (hpartition : s.arena[a]? = some partition) :
    (fun id => s.contents (a, id)) = partition.idx.stored.lookup := by
  funext id
  rw [contents, hpartition, Option.bind_some]

/-- An addition that is pending is for a vector that is not there. -/
theorem Settled.lookup_eq_none (hs : s.Settled) (htask : task ∈ s.tasks)
    (hpending : isPending task.stage) {id : PrimaryId} {v : Vector}
    (hjob : task.dispatch.job = .add id v) {partition : PartitionState}
    (hpartition : s.arena[task.dispatch.partition]? = some partition) :
    partition.idx.stored.lookup id = none := by
  have hmem : ⟨(task.dispatch.partition, id), some v⟩ ∈ s.pending := by
    refine List.mem_filterMap.mpr ⟨task, htask, ?_⟩
    rw [pendingWrite, if_pos hpending, Dispatch.write, hjob]
  refine (congrFun (contents_eq_lookup hpartition) id).symm.trans ?_
  exact hs.independent.fresh _ hmem rfl

/-- An addition or a removal takes effect. -/
theorem Counted.called (hs : s.Counted) (hshaped : s.Shaped) (hsettled : s.Settled)
    (hget : s.tasks[i]? = some task) (hstage : task.stage = .running .started) {outcome : Outcome}
    (hsucceeds : s.Succeeds (.call i outcome)) :
    ((s.setPartition task.dispatch.partition fun partition =>
      { partition with idx := (task.dispatch.job.call outcome).1 partition.idx }).move i
        (.running (task.dispatch.job.call outcome).2)).Counted := by
  obtain ⟨partition, hpartition, hid⟩ :=
    (hshaped.tasks task (List.mem_of_getElem? hget)).exists_partition
  have hcall : task.dispatch.job.Succeeds partition.idx.stored.lookup outcome :=
    contents_eq_lookup hpartition ▸ hsucceeds task hget
  have hfresh : ∀ id v, task.dispatch.job = .add id v → partition.idx.stored.lookup id = none :=
    fun id v hjob => hsettled.lookup_eq_none (List.mem_of_getElem? hget) (by rw [hstage]; rfl) hjob
      hpartition
  have hlength := Job.length_call hcall hfresh
  refine hs.of_change fun ix state hstate => ⟨state, hstate, fun h => h, ?_⟩
  have htotal := total_setPartition hpartition (fun partition =>
    { partition with idx := (task.dispatch.job.call outcome).1 partition.idx }) ix
  have hadds := addsOwed_move hget (.running (task.dispatch.job.call outcome).2) ix
  have hremoves := removesOwed_move hget (.running (task.dispatch.job.call outcome).2) ix
  rw [show owesAdd ix task = false by simp [owesAdd, hstage], Bool.toNat_false] at hadds
  rw [show owesRemove ix task = false by simp [owesRemove, hstage], Bool.toNat_false] at hremoves
  change (state.size + (s.move i _).addsOwed ix + _) % 2 ^ 64 =
    (state.size + s.addsOwed ix + ((s.setPartition _ _).total ix + (s.move i _).removesOwed ix)) %
      2 ^ 64
  have hindex : partition.partitionId.indexId = task.dispatch.indexId :=
    congrArg PartitionId.indexId hid
  unfold PartitionState.share at htotal
  dsimp only at htotal
  by_cases hix : task.dispatch.indexId = ix
  case neg =>
    rw [if_neg (hindex ▸ hix), if_neg (hindex ▸ hix)] at htotal
    rw [show owesAdd ix (task.withStage _) = false by simp [owesAdd, hix], Bool.toNat_false]
      at hadds
    rw [show owesRemove ix (task.withStage _) = false by simp [owesRemove, hix],
      Bool.toNat_false] at hremoves
    omega
  case pos =>
    rw [if_pos (hindex.trans hix), if_pos (hindex.trans hix)] at htotal
    have hcounted : (task.dispatch.job.call outcome).2 ≠ .counted := by
      unfold Job.call
      split <;> exact Progress.noConfusion
    rw [show owesAdd ix (task.withStage (.running (task.dispatch.job.call outcome).2)) =
      decide (task.dispatch.job.mode = .insert ∧ (task.dispatch.job.call outcome).2 = .called) by
        simp [owesAdd, hix, hcounted]] at hadds
    rw [show owesRemove ix (task.withStage (.running (task.dispatch.job.call outcome).2)) =
      decide (task.dispatch.job.mode = .remove ∧ (task.dispatch.job.call outcome).2 = .called) by
        simp [owesRemove, hix]] at hremoves
    omega

/-- The size of an index is updated for a closure that owes it. -/
theorem Counted.counted (hs : s.Counted) (hget : s.tasks[i]? = some task) {f : ℕ → ℕ}
    {progress : Progress} (hf : ∀ n, f n < 2 ^ 64)
    (howed : ∀ n, (f n + (owesAdd task.dispatch.indexId (task.withStage (.running progress))).toNat +
        (owesRemove task.dispatch.indexId task).toNat) % 2 ^ 64 =
      (n + (owesAdd task.dispatch.indexId task).toNat +
        (owesRemove task.dispatch.indexId (task.withStage (.running progress))).toNat) % 2 ^ 64) :
    ((s.setSize task.dispatch.indexId f).move i (.running progress)).Counted := by
  refine hs.of_change fun ix state hstate => ?_
  change (s.setSize task.dispatch.indexId f).states.lookup ix = some state at hstate
  change ∃ old : IndexState, _ ∧ _ ∧ (state.size + (s.move i _).addsOwed ix + _) % 2 ^ 64 =
    (old.size + s.addsOwed ix + (s.total ix + (s.move i _).removesOwed ix)) % 2 ^ 64
  have hadds := addsOwed_move hget (.running progress) ix
  have hremoves := removesOwed_move hget (.running progress) ix
  rw [lookup_setSize] at hstate
  split at hstate
  · next heq =>
    subst heq
    obtain ⟨old, hold, rfl⟩ := Option.map_eq_some_iff.mp hstate
    refine ⟨old, hold, fun _ => hf old.size, ?_⟩
    have := howed old.size
    dsimp only
    omega
  · next hne =>
    have hzero : ∀ t : Task Dispatch Progress, t.dispatch = task.dispatch →
        owesAdd ix t = false ∧ owesRemove ix t = false := by
      intro t ht
      have hindex : t.dispatch.indexId ≠ ix := by
        rw [ht]
        exact Ne.symm hne
      simp [owesAdd, owesRemove, hindex]
    rw [(hzero task rfl).1, (hzero (task.withStage (.running progress)) rfl).1] at hadds
    rw [(hzero task rfl).2, (hzero (task.withStage (.running progress)) rfl).2] at hremoves
    refine ⟨state, hstate, fun h => h, ?_⟩
    omega

/-- Every step keeps the sizes right, when the calls of the index succeed. -/
theorem Counted.step (hs : s.Counted) (hshaped : s.Shaped) (hsettled : s.Settled) {a : Action}
    (ha : Enabled s a) (hsucceeds : s.Succeeds a) : (step s a).Counted := by
  have hsame : ∀ (ix : IndexId) (state : IndexState), s.states.lookup ix = some state →
      ∃ old, s.states.lookup ix = some old ∧ state.size = old.size :=
    fun _ state h => ⟨state, h, rfl⟩
  have heffect := hshaped.effect ha
  generalize Usearch.step s a = t at heffect
  cases heffect with
  | refused => exact hs
  | uncounted => exact hs
  | absent => exact hs.congr (fun _ => rfl) (fun _ => rfl) (fun _ => rfl) hsame
  | ended => exact hs.congr (fun _ => rfl) (fun _ => rfl) (fun _ => rfl) hsame
  | found => exact hs.congr (fun _ => rfl) (fun _ => rfl) (fun _ => rfl) hsame
  | created => exact hs.created hshaped rfl rfl rfl
  | checkedLow => exact hs.congr (fun _ => rfl) (fun _ => rfl) (fun _ => rfl) hsame
  | checked => exact hs.congr (fun _ => rfl) (fun _ => rfl) (fun _ => rfl) hsame
  | @permitReserve d =>
    exact hs.congr (fun _ => rfl) (fun _ => rfl) (fun _ => rfl)
      (size_setOperation d.indexId (·.acquire .reserve))
  | rechecked =>
    exact hs.congr (fun _ => rfl) (fun _ => rfl) (fun _ => rfl) (size_setOperation _ _)
  | recheckedLow =>
    exact hs.congr (addsOwed_push _) (removesOwed_push _) (fun _ => rfl) hsame
  | @permit d =>
    exact hs.congr (addsOwed_push _) (removesOwed_push _) (fun _ => rfl)
      (size_setOperation d.indexId (·.acquire d.job.mode))
  | sentReserve hphase =>
    obtain ⟨task, hget, hstage⟩ := hshaped.sends (by rw [hphase]; rfl)
    exact hs.move_of_zero hget rfl (fun _ => by simp [owesAdd, hstage])
      (fun _ => by simp [owesRemove, hstage]) (fun _ => rfl) hsame
  | sent hphase =>
    obtain ⟨task, hget, hstage⟩ := hshaped.sends (by rw [hphase]; rfl)
    exact hs.move_of_zero hget rfl (fun _ => by simp [owesAdd, hstage])
      (fun _ => by simp [owesRemove, hstage]) (fun _ => rfl) hsame
  | taken hget hstage =>
    exact hs.move_of_zero hget rfl (fun _ => by simp [owesAdd, hstage])
      (fun _ => by simp [owesRemove, hstage]) (fun _ => rfl) hsame
  | called hget hstage => exact hs.called hshaped hsettled hget hstage hsucceeds
  | reserved hget hjob hstage =>
    exact hs.move_of_zero hget rfl (fun _ => by simp [owesAdd, hjob, Job.mode])
      (fun _ => by simp [owesRemove, hjob, Job.mode])
      (total_setPartition_same _ (fun _ => rfl) fun _ => rfl) hsame
  | addedToPartition hget hjob hstage =>
    exact hs.move_of_zero hget rfl (fun _ => by simp [owesAdd, hstage])
      (fun _ => by simp [owesRemove, hjob, Job.mode])
      (total_setPartition_same _ (fun _ => rfl) fun _ => rfl) hsame
  | removedFromPartition hget hjob hstage =>
    exact hs.move_of_zero hget rfl (fun _ => by simp [owesAdd, hjob, Job.mode])
      (fun _ => by simp [owesRemove, hstage])
      (total_setPartition_same _ (fun _ => rfl) fun _ => rfl) hsame
  | @addedToIndex i task id v hget hjob hstage =>
    refine hs.counted hget fetchAdd_lt fun n => ?_
    rw [show owesAdd _ task = true by simp [owesAdd, hjob, hstage, Job.mode],
      show owesAdd _ (task.withStage _) = false by simp [owesAdd],
      show owesRemove _ task = false by simp [owesRemove, hjob, Job.mode],
      show owesRemove _ (task.withStage _) = false by simp [owesRemove]]
    simp only [fetchAdd, Bool.toNat_false, Bool.toNat_true]
    omega
  | @removedFromIndex i task id hget hjob hstage =>
    refine hs.counted hget fetchSub_lt fun n => ?_
    rw [show owesAdd _ task = false by simp [owesAdd, hjob, Job.mode],
      show owesAdd _ (task.withStage _) = false by simp [owesAdd, hjob, Job.mode],
      show owesRemove _ task = true by simp [owesRemove, hjob, hstage, Job.mode],
      show owesRemove _ (task.withStage _) = false by simp [owesRemove]]
    simp only [fetchSub, Bool.toNat_false, Bool.toNat_true]
    omega
  | released hget hstage =>
    exact hs.move_of_zero hget rfl (fun _ => by simp [owesAdd, hstage])
      (fun _ => by simp [owesRemove, hstage]) (fun _ => rfl) (size_setOperation _ _)

end State

end Usearch

end VectorStore
