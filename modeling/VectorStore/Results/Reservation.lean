import VectorStore.Results.InOrder
import VectorStore.VsIndex.Reserving

/-!
# No insertion past the reservation

The check of the capacity reads counters that lag behind the closures on their way.  Whatever the
channel and the workers do, every addition finds room in the index, the size of a partition is right
once no closure runs, and the arithmetic of the counters does not wrap.
-/

namespace VectorStore

namespace Usearch

namespace State

variable {s : State} {a : Action} {as : List Action} {ix : IndexId}

/-- The vectors there should be, with two more that may be on their way out, and the room that is
kept ahead of them can be counted. -/
def Fits (s : State) : Prop :=
  ∀ indexId, s.vectors.count indexId + 2 +
    Usearch.freeThreshold s.runtime.channelSize s.runtime.numWorkers + reserveIncrementGlobal <
      2 ^ 64

instance (s : State) : Decidable s.Fits :=
  decidable_of_iff
    ((∀ key ∈ s.vectors.keys, s.vectors.count key.1.indexId + 2 +
        Usearch.freeThreshold s.runtime.channelSize s.runtime.numWorkers + reserveIncrementGlobal <
          2 ^ 64) ∧
      2 + Usearch.freeThreshold s.runtime.channelSize s.runtime.numWorkers +
        reserveIncrementGlobal < 2 ^ 64) (by
    constructor
    · rintro ⟨hsome, hnone⟩ indexId
      by_cases hex : ∃ key ∈ s.vectors.keys, key.1.indexId = indexId
      · obtain ⟨key, hmem, rfl⟩ := hex
        exact hsome key hmem
      · push Not at hex
        have hzero : s.vectors.count indexId = 0 :=
          List.countP_eq_zero.mpr fun key hkey => by simpa using hex key hkey
        rwa [hzero, Nat.zero_add]
    · intro h
      exact ⟨fun key _ => h _, lt_of_le_of_lt (by omega) (h ⟨0⟩)⟩)

/-! ## Vectors there are and vectors there should be -/

/-- The keys of the removals of an index that are on their way, and that of the message at hand. -/
def leaving (s : State) (indexId : IndexId) : List (ℕ × PrimaryId) :=
  ((s.tasks.filter fun t => t.dispatch.indexId = indexId ∧ t.dispatch.job.mode = .remove ∧
      isPending t.stage).filterMap fun t => t.dispatch.write.map Write.key) ++
    s.current.map Write.key

/-- There are two of them at most. -/
theorem Locked.length_leaving_le (hs : s.Locked) (hshaped : s.Shaped) (ix : IndexId) :
    (s.leaving ix).length ≤ 2 := by
  have hcurrent : (s.current.map Write.key).length ≤ 1 := by
    rw [List.length_map, current]
    exact Option.length_toList_le
  have htasks : (s.tasks.countP fun t => t.dispatch.indexId = ix ∧ t.dispatch.job.mode = .remove ∧
      isPending t.stage) ≤ 1 := by
    refine hs.countP_le_one hshaped (fun x hx => ?_) fun x _ y _ hx hy => ?_
    · obtain ⟨-, hremove, hpending⟩ := of_decide_eq_true hx
      exact ⟨isLive_of_isPending hpending, by rw [hremove]; rfl⟩
    · exact (of_decide_eq_true hy).1.trans (of_decide_eq_true hx).1.symm
  rw [List.countP_eq_length_filter] at htasks
  rw [leaving, List.length_append]
  exact Nat.add_le_add ((List.length_filterMap_le _ _).trans htasks) hcurrent

/-- A vector that is not on its way out is one of those there should be. -/
theorem Sound.lookup_of_contents (hs : s.Sound) {a : ℕ} {id : PrimaryId} {v : Vector}
    {partition : PartitionState} (hpartition : s.arena[a]? = some partition)
    (hcontents : s.contents (a, id) = some v)
    (hstays : (a, id) ∉ s.leaving partition.partitionId.indexId) :
    s.partitions.lookup partition.partitionId = some a ∧
      s.vectors.lookup (partition.partitionId, id) = some v := by
  have hpending : ∀ w ∈ s.pending, (a, id) ≠ w.key := by
    intro w hw hkey
    cases hvalue : w.value with
    | some u =>
      have hnone := hs.settled.independent.fresh w hw (by rw [hvalue]; rfl)
      rw [← hkey, hcontents] at hnone
      cases hnone
    | none =>
      obtain ⟨t, ht, hwrite⟩ := List.mem_filterMap.mp hw
      unfold pendingWrite at hwrite
      split at hwrite
      case isFalse => cases hwrite
      case isTrue hstage =>
        refine hstays (List.mem_append_left _ (List.mem_filterMap.mpr ⟨t, ?_, ?_⟩))
        · have hmode : t.dispatch.job.mode = .remove := by
            unfold Dispatch.write at hwrite
            cases hjob : t.dispatch.job <;> rw [hjob] at hwrite <;> cases hwrite
            · cases hvalue
            · rfl
          have hpart : t.dispatch.partition = a := by
            rw [← fst_key_of_write hwrite, ← hkey]
          have hid : s.ids[a]? = some partition.partitionId := by
            rw [ids, List.getElem?_map, hpartition]
            rfl
          have hknows := hs.shaped.tasks t ht
          rw [Knows, hpart, hid] at hknows
          refine List.mem_filter.mpr ⟨ht, decide_eq_true ⟨?_, hmode, hstage⟩⟩
          exact congrArg PartitionId.indexId (Option.some.inj hknows).symm
        · rw [hwrite, Option.map_some, hkey]
  have hcurrent : ∀ w ∈ s.current, (a, id) ≠ w.key := fun w hw hkey =>
    hstays (List.mem_append_right _ (hkey ▸ List.mem_map_of_mem hw))
  have hplaced := hs.settled.placed
  have hreplay : Write.replay (fun _ => none) (s.log ++ s.current) (a, id) = some v := by
    rw [Write.replay_append, Write.replay_of_ne hcurrent, ← hs.settled.deferred,
      Write.replay_of_ne hpending, hcontents]
  obtain ⟨p, hp⟩ := hplaced.occupied a id v hreplay
  have hid := hplaced.mapped p a hp
  rw [ids, List.getElem?_map, hpartition, Option.map_some] at hid
  cases hid
  exact ⟨hp, (hplaced.entry _ a hp id).symm.trans hreplay⟩

/-- The vectors of an index, by partition and id. -/
def slots (s : State) (indexId : IndexId) : Finset (Σ _ : Fin s.arena.length, PrimaryId) :=
  Finset.univ.sigma fun i =>
    if (s.arena[i]).partitionId.indexId = indexId then (s.arena[i]).idx.stored.keys.toFinset else ∅

theorem card_slots (s : State) (ix : IndexId) : (s.slots ix).card = s.total ix := by
  rw [slots, Finset.card_sigma, total, ← Fin.sum_univ_fun_getElem]
  refine Finset.sum_congr rfl fun i _ => ?_
  unfold PartitionState.share
  dsimp only [Fin.getElem_fin]
  split
  · exact List.toFinset_card_of_nodup (AList.keys_nodup _)
  · rfl

theorem contents_of_mem_slots {x : Σ _ : Fin s.arena.length, PrimaryId} (hx : x ∈ s.slots ix) :
    (s.arena[x.1]).partitionId.indexId = ix ∧ ∃ v, s.contents (x.1, x.2) = some v := by
  have hx := (Finset.mem_sigma.mp hx).2
  split at hx
  case isFalse => cases hx
  case isTrue hindex =>
    obtain ⟨v, hv⟩ := FiniteMap.mem_keys_iff.mp (List.mem_toFinset.mp hx)
    refine ⟨hindex, v, ?_⟩
    rw [contents, List.getElem?_eq_getElem x.1.2]
    exact hv

/-- An index has no more vectors than it should have, up to two that are on their way out. -/
theorem Sound.total_le (hs : s.Sound) (ix : IndexId) : s.total ix ≤ s.vectors.count ix + 2 := by
  have hfind : ∀ x ∈ (s.slots ix).filter fun x => (x.1.val, x.2) ∉ s.leaving ix,
      (s.arena[x.1]).partitionId.indexId = ix ∧
        s.partitions.lookup (s.arena[x.1]).partitionId = some x.1.val ∧
        ∃ v, s.vectors.lookup ((s.arena[x.1]).partitionId, x.2) = some v := by
    intro x hx
    obtain ⟨hslot, hstays⟩ := Finset.mem_filter.mp hx
    obtain ⟨hindex, v, hv⟩ := contents_of_mem_slots hslot
    obtain ⟨hp, hlookup⟩ := hs.lookup_of_contents (List.getElem?_eq_getElem x.1.2) hv
      (hindex.symm ▸ hstays)
    exact ⟨hindex, hp, v, hlookup⟩
  have hstaying : ((s.slots ix).filter fun x => (x.1.val, x.2) ∉ s.leaving ix).card ≤
      s.vectors.count ix := by
    rw [Vectors.count, FiniteMap.countKeys, List.countP_eq_length_filter,
      ← List.toFinset_card_of_nodup (s.vectors.keys_nodup.filter _)]
    refine Finset.card_le_card_of_injOn (fun x => ((s.arena[x.1]).partitionId, x.2)) ?_ ?_
    · intro x hx
      obtain ⟨hindex, -, v, hv⟩ := hfind x hx
      exact List.mem_toFinset.mpr (List.mem_filter.mpr
        ⟨FiniteMap.mem_keys_iff.mpr ⟨v, hv⟩, decide_eq_true hindex⟩)
    · intro x hx y hy heq
      obtain ⟨hid, hsnd⟩ := Prod.mk.inj heq
      have hx := (hfind x hx).2.1
      have hy := (hfind y hy).2.1
      rw [hid, hy] at hx
      exact Sigma.ext (Fin.ext (Option.some.inj hx).symm) (heq_of_eq hsnd)
  have hleaving : ((s.slots ix).filter fun x => ¬(x.1.val, x.2) ∉ s.leaving ix).card ≤ 2 := by
    refine le_trans ?_ (hs.locked.length_leaving_le hs.shaped ix)
    refine le_trans (Finset.card_le_card_of_injOn (t := (s.leaving ix).toFinset)
      (fun x => (x.1.val, x.2)) ?_ ?_) (List.toFinset_card_le _)
    · intro x hx
      exact List.mem_toFinset.mpr (not_not.mp (Finset.mem_filter.mp hx).2)
    · intro x _ y _ heq
      obtain ⟨hfst, hsnd⟩ := Prod.mk.inj heq
      exact Sigma.ext (Fin.ext hfst) (heq_of_eq hsnd)
  rw [← card_slots, ← Finset.card_filter_add_card_filter_not fun x => (x.1.val, x.2) ∉ s.leaving ix]
  exact Nat.add_le_add hstaying hleaving

/-- What can be counted of the vectors there should be can be counted of those there are. -/
theorem Sound.totalFits (hs : s.Sound) (hfits : s.Fits) : s.TotalFits := fun indexId => by
  have htotal := hs.total_le indexId
  have hfits := hfits indexId
  omega

/-! ## What holds at a step -/

/-- What holds at a step: an addition finds room and is not dropped, the capacity to reserve is a word
and not less than the size, and no counter is decremented at zero. -/
def Unhindered (s : State) : Action → Prop
  | .call i outcome => ∀ task ∈ s.tasks[i]?, ∀ partition ∈ s.arena[task.dispatch.partition]?,
    ∀ id v, task.dispatch.job = .add id v →
      partition.stored < partition.idx.capacity ∧ outcome = .added
  | .check | .recheck => ∀ d ∈ s.phase.dispatch, ∀ partition ∈ s.arena[d.partition]?,
    partition.size ≤ partition.capacity ∧
      (partition.capacity - partition.size < partition.freeThreshold →
        partition.capacity + partition.capacityIncrement < 2 ^ 64)
  | .count i => ∀ task ∈ s.tasks[i]?, ∀ id, task.dispatch.job = .remove id →
    (task.stage = .running .called →
      ∀ state ∈ s.states.lookup task.dispatch.indexId, 0 < state.size) ∧
    (task.stage = .running .counted →
      ∀ partition ∈ s.arena[task.dispatch.partition]?, 0 < partition.size)
  | _ => True

/-- No closure of a partition runs. -/
def Resting (s : State) (a : ℕ) : Prop :=
  ∀ t ∈ s.tasks, t.dispatch.partition = a → t.stage.isRunning = false

/-- The size of a partition is the number of its vectors once no closure runs. -/
def Accurate (s : State) : Prop :=
  ∀ a partition, s.arena[a]? = some partition → s.Resting a → partition.size = partition.stored

/-- A removal that is to be counted in the size of the index finds something there. -/
theorem Sound.size_pos (hs : s.Sound) (hfits : s.TotalFits) {task : Task Dispatch Progress}
    (htask : task ∈ s.tasks) {id : PrimaryId} (hjob : task.dispatch.job = .remove id)
    (hstage : task.stage = .running .called) {state : IndexState}
    (hstate : s.states.lookup task.dispatch.indexId = some state) : 0 < state.size := by
  obtain ⟨hlt, hcounted⟩ := hs.counted _ state hstate
  have hadds : s.addsOwed task.dispatch.indexId = 0 := by
    refine List.countP_eq_zero.mpr fun x hx howes => ?_
    obtain ⟨hindex, hinsert, hcalled⟩ := of_decide_eq_true howes
    have hlive : x.stage.isLive := by rcases hcalled with h | h <;> rw [h] <;> rfl
    have hmode := hs.locked.mode_eq hs.shaped htask (by rw [hstage]; rfl) hx hlive hindex
    rw [hinsert, hjob] at hmode
    cases hmode
  have hremoves : 0 < s.removesOwed task.dispatch.indexId :=
    List.countP_pos_iff.mpr ⟨task, htask, decide_eq_true ⟨rfl, by rw [hjob]; rfl, hstage⟩⟩
  have hle : s.removesOwed task.dispatch.indexId ≤ 1 := by
    refine hs.locked.countP_le_one hs.shaped (fun x hx => ?_) fun x _ y _ hx hy => ?_
    · obtain ⟨-, hremove, hcalled⟩ := of_decide_eq_true hx
      rw [hremove, hcalled]
      exact ⟨rfl, rfl⟩
    · exact (of_decide_eq_true hy).1.trans (of_decide_eq_true hx).1.symm
  have hfits := hfits task.dispatch.indexId
  unfold freeThreshold at hfits
  rw [hadds, Nat.add_zero, Nat.mod_eq_of_lt hlt] at hcounted
  omega

/-- A partition of which no closure runs has counted everything. -/
theorem Roomy.accurate (hs : s.Roomy) : s.Accurate := by
  intro a partition hpartition hresting
  have hzero : ∀ role : Role, (∀ t, Plays a role t → t.stage.isRunning) → s.playing a role = 0 := by
    intro role hrunning
    refine List.countP_eq_zero.mpr fun t ht hplays => ?_
    have hplays : Plays a role t := of_decide_eq_true hplays
    have hrunning := hrunning t hplays
    rw [hresting t ht hplays.1] at hrunning
    cases hrunning
  have hcounted := (hs.reserved a partition hpartition).counted
  rw [hzero .countAdded fun t ht => ht.isRunning (Or.inl rfl),
    hzero .countRemoved fun t ht => ht.isRunning (Or.inr rfl)] at hcounted
  exact hcounted

/-- The invariants say that a step is not hindered. -/
theorem Roomy.unhindered (hs : s.Roomy) (hsound : s.Sound) (hfits : s.TotalFits)
    (ha : Enabled s a) (hbehaves : s.Behaves a) : s.Unhindered a := by
  cases a with
  | call i outcome =>
    intro task hget partition hpartition id v hjob
    obtain ⟨x, hx, hstage⟩ := stageOf_eq_some ha
    cases hget.symm.trans hx
    refine ⟨(hs.reserved _ partition hpartition).stored_lt (List.mem_of_getElem? hget) hjob
      (by rw [hstage]; rfl), ?_⟩
    have hcall := hs.succeeds hsound.shaped hsound.settled ha hbehaves task hget
    rw [hjob] at hcall
    exact hcall
  | check =>
    intro d _ partition hpartition
    have hreserved := hs.reserved _ partition hpartition
    exact ⟨hreserved.size_le, hreserved.increment_lt hsound.locked hsound.shaped hfits hpartition⟩
  | recheck =>
    intro d _ partition hpartition
    have hreserved := hs.reserved _ partition hpartition
    exact ⟨hreserved.size_le, hreserved.increment_lt hsound.locked hsound.shaped hfits hpartition⟩
  | count i =>
    intro task hget id hjob
    refine ⟨fun hstage state hstate => ?_, fun hstage partition hpartition => ?_⟩
    · exact hsound.size_pos hfits (List.mem_of_getElem? hget) hjob hstage hstate
    · exact (hs.reserved _ partition hpartition).size_pos hsound.locked hsound.shaped hget hjob
        (Or.inr hstage)
  | _ => trivial

end State

/-! ## The result -/

/-- For every runtime and every run in which no vector is added twice, the index behaves and its
vectors can be counted: no addition finds the index full, the sizes are right when nothing runs, and
no counter wraps. -/
theorem adds_stay_within_reservation (runtime : Runtime) {as : List Action}
    (has : Machine.Along step
      (fun s a => Enabled s a ∧ s.AdmitsMessage a ∧ s.Behaves a ∧ s.Fits) (.init runtime) as) :
    Machine.Along step State.Unhindered (.init runtime) as ∧
      (Machine.run step (.init runtime) as).Accurate := by
  have hstep : ∀ (s : State) a, s.Sound ∧ s.Roomy →
      Enabled s a ∧ s.AdmitsMessage a ∧ s.Behaves a ∧ s.Fits →
      (step s a).Sound ∧ (step s a).Roomy := by
    rintro s a ⟨hsound, hroomy⟩ ⟨ha, hadmits, hbehaves, hfits⟩
    have hsucceeds := hroomy.succeeds hsound.shaped hsound.settled ha hbehaves
    exact ⟨hsound.step ha hsucceeds hadmits,
      hroomy.step hsound.shaped hsound.locked hsound.settled (hsound.totalFits hfits) ha hbehaves⟩
  have hinit : (State.init runtime).Sound ∧ (State.init runtime).Roomy :=
    ⟨State.sound_init runtime, State.roomy_init runtime⟩
  refine ⟨Machine.along_of_along hstep ?_ hinit has, ?_⟩
  · rintro s a ⟨hsound, hroomy⟩ ⟨ha, -, hbehaves, hfits⟩
    exact hroomy.unhindered hsound (hsound.totalFits hfits) ha hbehaves
  · exact (Machine.run_invariant_of_along hstep hinit has).2.accurate

attribute [local instance] VectorStore.Sample.decimals in
theorem adds_stay_within_reservation_movingRow :
    Machine.Along step State.Unhindered (.init Sample.runtime) Sample.movingRow ∧
      (Machine.run step (.init Sample.runtime) Sample.movingRow).Accurate :=
  adds_stay_within_reservation Sample.runtime (by decide +kernel)

end Usearch

end VectorStore
