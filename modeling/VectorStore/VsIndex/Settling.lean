import VectorStore.VsIndex.Locking

/-!
# Additions and removals take effect

The closures that have not called the index yet are writes that are still pending.  Additions of one
index are for different vectors, and a removal is alone, so each of them may take effect before those
dispatched earlier.  The partitions and the pending writes together stand for the messages in order.
-/

namespace VectorStore

namespace Usearch

/-- The write of a closure to its partition. -/
def Dispatch.write (d : Dispatch) : Option (Write (ℕ × PrimaryId) Vector) :=
  match d.job with
  | .add primaryId embedding => some ⟨(d.partition, primaryId), some embedding⟩
  | .remove primaryId => some ⟨(d.partition, primaryId), none⟩
  | .reserve _ | .search => none

/-- The index has not been called yet. -/
def isPending : Stage Progress → Bool
  | .sending | .queued | .running .started => true
  | .running .called | .running .counted | .running .processed | .finished => false

/-- The write of a closure that has not called the index yet. -/
def pendingWrite (t : Task Dispatch Progress) : Option (Write (ℕ × PrimaryId) Vector) :=
  if isPending t.stage then t.dispatch.write else none

/-- A call of the index that succeeds.  `stored` is what the index holds: `remove` says whether there
was something to remove. -/
def Job.Succeeds (stored : PrimaryId → Option Vector) (outcome : Outcome) : Job → Prop
  | .add _ _ => outcome = .added
  | .remove primaryId => outcome = .removed (stored primaryId).isSome
  | .reserve _ | .search => True

instance (stored : PrimaryId → Option Vector) (outcome : Outcome) (job : Job) :
    Decidable (job.Succeeds stored outcome) := by
  cases job <;> unfold Job.Succeeds <;> infer_instance

namespace State

/-- The vectors in the partitions. -/
def contents (s : State) (key : ℕ × PrimaryId) : Option Vector :=
  s.arena[key.1]?.bind fun partition => partition.idx.stored.lookup key.2

/-- The writes of all closures, in the order of their dispatch. -/
def log (s : State) : List (Write (ℕ × PrimaryId) Vector) :=
  s.tasks.filterMap fun t => t.dispatch.write

/-- The writes that have not taken effect. -/
def pending (s : State) : List (Write (ℕ × PrimaryId) Vector) := s.tasks.filterMap pendingWrite

/-- The write of the message at hand. -/
def current (s : State) : List (Write (ℕ × PrimaryId) Vector) :=
  (s.phase.dispatch.bind Dispatch.write).toList

/-- The vectors the index should hold after the accepted messages. -/
def vectors (s : State) : Vectors := Vectors.replay ∅ s.accepted

/-- The partitions and the pending writes stand for the accepted messages. -/
structure Settled (s : State) : Prop where
  deferred : Write.Deferred s.contents s.pending s.log
  independent : Write.Independent s.contents s.pending
  fresh : ∀ w ∈ s.current, w.value.isSome → Write.replay (fun _ => none) s.log w.key = none
  placed : Placed s.ids s.partitions (Write.replay (fun _ => none) (s.log ++ s.current)) s.vectors

/-- A message that is received is admitted by the vectors there should be. -/
def AdmitsMessage (s : State) : Action → Prop
  | .receive (.modify message) _ => s.vectors.Admits message
  | _ => True

instance (s : State) (a : Action) : Decidable (s.AdmitsMessage a) :=
  match a with
  | .receive (.modify message) _ => inferInstanceAs (Decidable (s.vectors.Admits message))
  | .receive (.search _) _ | .check | .permitReserve | .recheck | .send | .permit | .take _
  | .call _ _ | .count _ | .release _ => inferInstanceAs (Decidable True)

/-- Every `add` and every `remove` succeeds. -/
def Succeeds (s : State) : Action → Prop
  | .call i outcome => ∀ task ∈ s.tasks[i]?,
    task.dispatch.job.Succeeds (fun id => s.contents (task.dispatch.partition, id)) outcome
  | _ => True

instance (s : State) (a : Action) : Decidable (s.Succeeds a) :=
  match a with
  | .call i outcome => inferInstanceAs (Decidable (∀ task ∈ s.tasks[i]?,
    task.dispatch.job.Succeeds (fun id => s.contents (task.dispatch.partition, id)) outcome))
  | .receive _ _ | .check | .permitReserve | .recheck | .send | .permit | .take _ | .count _
  | .release _ =>
    inferInstanceAs (Decidable True)

variable {s t : State} {i : ℕ} {task : Task Dispatch Progress}

theorem settled_init (runtime : Runtime) : (init runtime).Settled where
  deferred := Write.deferred_nil
  independent := Write.independent_nil _
  fresh _ h := by cases h
  placed := Placed.empty

/-- What the invariant depends on. -/
theorem Settled.congr (hs : s.Settled) (hcontents : t.contents = s.contents)
    (hpending : t.pending = s.pending) (hlog : t.log = s.log) (hcurrent : t.current = s.current)
    (hids : t.ids = s.ids) (hpartitions : t.partitions = s.partitions)
    (haccepted : t.accepted = s.accepted) : t.Settled where
  deferred := by rw [hcontents, hpending, hlog]; exact hs.deferred
  independent := by rw [hcontents, hpending]; exact hs.independent
  fresh := by rw [hcurrent, hlog]; exact hs.fresh
  placed := by
    rw [hids, hpartitions, hlog, hcurrent, vectors, haccepted]
    exact hs.placed

/-! ## Views of a changed state -/

theorem vectors_append (s : State) (messages : List VsIndexModify) :
    Vectors.replay ∅ (s.accepted ++ messages) = s.vectors.replay messages :=
  Machine.run_append ∅ s.accepted messages

/-- A partition whose vectors are the same. -/
theorem contents_setPartition (a : ℕ) {f : PartitionState → PartitionState}
    (hf : ∀ p, (f p).idx.stored = p.idx.stored) : (s.setPartition a f).contents = s.contents := by
  funext key
  rw [contents, contents, arena_setPartition]
  split
  · cases s.arena[key.1]? <;> simp [hf]
  · rfl

/-- The partition of a closure. -/
theorem Knows.exists_partition {d : Dispatch} (hd : s.Knows d) :
    ∃ partition, s.arena[d.partition]? = some partition ∧
      partition.partitionId = d.partitionId := by
  rw [Knows, ids, List.getElem?_map] at hd
  exact Option.map_eq_some_iff.mp hd

/-- A partition of which one entry was written. -/
theorem contents_write {d : Dispatch} {partition : PartitionState} {id : PrimaryId}
    {value : Option Vector} (hpartition : s.arena[d.partition]? = some partition)
    {f : PartitionState → PartitionState}
    (hlookup : ∀ jd, (f partition).idx.stored.lookup jd =
      if jd = id then value else partition.idx.stored.lookup jd) :
    (s.setPartition d.partition f).contents =
      Write.apply s.contents ⟨(d.partition, id), value⟩ := by
  funext ⟨b, jd⟩
  rw [contents, arena_setPartition]
  by_cases hkey : (b, jd) = (d.partition, id)
  · obtain ⟨rfl, rfl⟩ := Prod.mk.inj hkey
    rw [if_pos rfl, hpartition, Option.map_some, Option.bind_some, hlookup, if_pos rfl]
    exact (Write.apply_self s.contents ⟨(d.partition, jd), value⟩).symm
  · rw [Write.apply_of_ne s.contents hkey, contents]
    split
    · next heq =>
      subst heq
      rw [hpartition, Option.map_some, Option.bind_some, Option.bind_some, hlookup, if_neg]
      rintro rfl
      exact hkey rfl
    · rfl

/-- A successful call of the index makes the write of its closure. -/
theorem contents_call {d : Dispatch} {partition : PartitionState} {w : Write (ℕ × PrimaryId) Vector}
    {outcome : Outcome} (hpartition : s.arena[d.partition]? = some partition)
    (hwrite : d.write = some w)
    (hsucceeds : d.job.Succeeds (fun id => s.contents (d.partition, id)) outcome) :
    (s.setPartition d.partition fun partition =>
      { partition with idx := (d.job.call outcome).1 partition.idx }).contents =
        w.apply s.contents := by
  unfold Dispatch.write at hwrite
  cases hjob : d.job with
  | reserve capacity =>
    rw [hjob] at hwrite
    cases hwrite
  | search =>
    rw [hjob] at hwrite
    cases hwrite
  | add id v =>
    rw [hjob] at hwrite hsucceeds
    cases hwrite
    cases hsucceeds
    exact contents_write hpartition fun jd => FiniteMap.lookup_insert_eq ..
  | remove id =>
    rw [hjob] at hwrite hsucceeds
    cases hwrite
    have hcontents : s.contents (d.partition, id) = partition.idx.stored.lookup id := by
      rw [contents, hpartition, Option.bind_some]
    have houtcome : outcome = .removed (partition.idx.stored.lookup id).isSome := by
      rw [← hcontents]
      exact hsucceeds
    refine contents_write hpartition fun jd => ?_
    cases hfound : partition.idx.stored.lookup id with
    | none =>
      rw [houtcome, hfound]
      change partition.idx.stored.lookup jd = _
      split
      · next heq => rw [heq, hfound]
      · rfl
    | some v =>
      rw [houtcome, hfound]
      exact FiniteMap.lookup_erase_eq ..

/-- A closure moves on without calling the index. -/
theorem pending_move {stage : Stage Progress} (hget : s.tasks[i]? = some task)
    (hstage : isPending stage = isPending task.stage) : (s.move i stage).pending = s.pending :=
  filterMap_modify pendingWrite hget (by
    simp only [pendingWrite, Task.stage_withStage, Task.dispatch_withStage, hstage])

theorem log_move (stage : Stage Progress) (hget : s.tasks[i]? = some task) :
    (s.move i stage).log = s.log :=
  filterMap_modify (fun t : Task Dispatch Progress => t.dispatch.write) hget rfl

/-- A closure is created. -/
theorem log_push (d : Dispatch) : (s.push d).log = s.log ++ d.write.toList := by
  simp only [log, push, List.filterMap_append, List.filterMap_cons, List.filterMap_nil]
  cases d.write <;> rfl

theorem pending_push (d : Dispatch) : (s.push d).pending = s.pending ++ d.write.toList := by
  simp only [pending, push, List.filterMap_append, List.filterMap_cons, List.filterMap_nil,
    pendingWrite, isPending, if_pos]
  cases d.write <;> rfl

/-- The pending writes around that of a closure, before and after it calls the index. -/
theorem pending_call {progress : Progress} (hget : s.tasks[i]? = some task)
    (hstage : task.stage = .running .started) (hprogress : isPending (.running progress) = false) :
    ∃ ws vs, s.pending = ws ++ task.dispatch.write.toList ++ vs ∧
      (s.move i (.running progress)).pending = ws ++ vs := by
  obtain ⟨ys, zs, htasks, hmodify⟩ := modify_split hget
  refine ⟨ys.filterMap pendingWrite, zs.filterMap pendingWrite, ?_, ?_⟩
  · have hself : pendingWrite task = task.dispatch.write := if_pos (by rw [hstage]; rfl)
    rw [pending, htasks, List.filterMap_append, List.filterMap_cons, hself]
    cases task.dispatch.write <;> simp
  · have hself : pendingWrite (task.withStage (.running progress)) = none :=
      if_neg (by rw [Task.stage_withStage, hprogress]; exact Bool.false_ne_true)
    rw [pending, move, hmodify, List.filterMap_append, List.filterMap_cons, hself]

/-- After its call a closure is not pending. -/
theorem not_isPending_call (job : Job) (outcome : Outcome) :
    isPending (.running (job.call outcome).2) = false := by
  unfold Job.call
  split <;> rfl

/-! ## Steps -/

/-- A closure calls the index. -/
theorem Settled.called (hs : s.Settled) (hshaped : s.Shaped) (hget : s.tasks[i]? = some task)
    (hstage : task.stage = .running .started) {outcome : Outcome}
    (hsucceeds : s.Succeeds (.call i outcome)) :
    ((s.setPartition task.dispatch.partition fun partition =>
      { partition with idx := (task.dispatch.job.call outcome).1 partition.idx }).move i
        (.running (task.dispatch.job.call outcome).2)).Settled := by
  obtain ⟨partition, hpartition, -⟩ :=
    (hshaped.tasks task (List.mem_of_getElem? hget)).exists_partition
  have hsucceeds := hsucceeds task hget
  obtain ⟨ws, vs, hbefore, hafter⟩ :=
    pending_call hget hstage (not_isPending_call task.dispatch.job outcome)
  have hlog := log_move (.running (task.dispatch.job.call outcome).2) hget
  have hids : (s.setPartition task.dispatch.partition fun partition =>
      { partition with idx := (task.dispatch.job.call outcome).1 partition.idx }).ids = s.ids :=
    ids_setPartition s _ fun _ => rfl
  cases hwrite : task.dispatch.write with
  | none =>
    rw [hwrite, Option.toList_none, List.append_nil] at hbefore
    refine hs.congr (contents_setPartition _ fun p => ?_) (hafter.trans hbefore.symm) hlog rfl hids
      rfl rfl
    unfold Dispatch.write at hwrite
    cases hjob : task.dispatch.job with
    | add id v =>
      rw [hjob] at hwrite
      cases hwrite
    | remove id =>
      rw [hjob] at hwrite
      cases hwrite
    | reserve capacity => cases outcome <;> rfl
    | search => rfl
  | some w =>
    have hcontents := contents_call hpartition hwrite hsucceeds
    rw [hwrite, Option.toList_some, List.append_assoc, List.singleton_append] at hbefore
    have hindependent := hs.independent
    have hdeferred := hs.deferred
    rw [hbefore] at hindependent hdeferred
    have hkey : ∀ v ∈ ws, v.key ≠ w.key := fun v hv =>
      hindependent.key_ne v (List.mem_append_left vs hv)
    refine ⟨?_, ?_, ?_, ?_⟩
    · change Write.Deferred (State.contents _) (State.pending (s.move i _)) (State.log (s.move i _))
      rw [hafter, hlog]
      exact hcontents ▸ hdeferred.perform hkey
    · change Write.Independent (State.contents _) (State.pending (s.move i _))
      rw [hafter]
      exact hcontents ▸ hindependent.perform
    · intro v hv
      change _ → Write.replay _ (s.move i _).log v.key = none
      rw [hlog]
      exact hs.fresh v hv
    · change Placed (State.ids _) s.partitions (Write.replay _ ((s.move i _).log ++ s.current)) _
      rw [hlog]
      exact hids ▸ hs.placed

/-- A closure that puts a vector into a partition, and what it is. -/
theorem write_of_shared {d : Dispatch} {w : Write (ℕ × PrimaryId) Vector} (hwrite : d.write = some w)
    (hshared : d.job.mode.isExclusive = false) : w.value.isSome := by
  unfold Dispatch.write at hwrite
  cases hjob : d.job <;> rw [hjob] at hwrite hshared <;> cases hwrite
  · rfl
  · cases hshared

theorem fst_key_of_write {d : Dispatch} {w : Write (ℕ × PrimaryId) Vector}
    (hwrite : d.write = some w) : w.key.1 = d.partition := by
  unfold Dispatch.write at hwrite
  cases hjob : d.job <;> rw [hjob] at hwrite <;> cases hwrite <;> rfl

/-- When the lock admits the closure of a write, no pending write is for its key. -/
theorem Settled.key_ne (hs : s.Settled) (hshaped : s.Shaped) (hlocked : s.Locked) {d : Dispatch}
    (hphase : s.phase = .permit d) (hadmits : s.Admits d.indexId d.job.mode)
    {w : Write (ℕ × PrimaryId) Vector} (hwrite : d.write = some w) (hmem : w ∈ s.current) :
    ∀ v ∈ s.pending, v.key ≠ w.key := by
  intro v hv hkey
  obtain ⟨t, ht, hpending⟩ := List.mem_filterMap.mp hv
  unfold pendingWrite at hpending
  split at hpending
  case isFalse => cases hpending
  case isTrue hstage =>
    have hlive : t.stage.isLive := by
      cases h : t.stage <;> rw [h] at hstage <;> first | rfl | cases hstage
    have hd : s.Knows d := hshaped.current d (by rw [hphase]; rfl)
    have hindex : t.dispatch.indexId = d.indexId := by
      have hpartition : t.dispatch.partition = d.partition := by
        rw [← fst_key_of_write hpending, ← fst_key_of_write hwrite, hkey]
      have hknows := hshaped.tasks t ht
      rw [Knows, hpartition, hd] at hknows
      exact congrArg PartitionId.indexId (Option.some.inj hknows).symm
    obtain ⟨hmode, hshared⟩ := hlocked.mode_of_admits hshaped hadmits ht hlive hindex
    have hvalue : v.value.isSome := write_of_shared hpending (hmode ▸ hshared)
    -- the pending addition would have made the vector one that is there already
    have hfresh := hs.fresh w hmem (write_of_shared hwrite hshared)
    rw [← hs.deferred, ← hkey, Write.replay_of_mem hs.independent.nodup hv] at hfresh
    rw [hfresh] at hvalue
    cases hvalue

/-- A permit is handed out for the message at hand: its closure is created. -/
theorem Settled.permit (hs : s.Settled) (hshaped : s.Shaped) (hlocked : s.Locked) {d : Dispatch}
    (hphase : s.phase = .permit d) (hadmits : s.Admits d.indexId d.job.mode) :
    ({ (s.setOperation d.indexId (·.acquire d.job.mode)).push d with phase := .send } :
      State).Settled := by
  have hcurrent : s.current = d.write.toList := by
    rw [current, hphase]
    rfl
  have hlog : (s.push d).log = s.log ++ d.write.toList := log_push d
  have hpending : (s.push d).pending = s.pending ++ d.write.toList := pending_push d
  have hplaced := hs.placed
  rw [hcurrent] at hplaced
  cases hwrite : d.write with
  | none =>
    rw [hwrite, Option.toList_none] at hcurrent
    rw [hwrite, Option.toList_none, List.append_nil] at hlog hpending
    exact hs.congr rfl hpending hlog hcurrent.symm rfl rfl rfl
  | some w =>
    rw [hwrite, Option.toList_some] at hlog hpending hcurrent hplaced
    have hd : s.Knows d := hshaped.current d (by rw [hphase]; rfl)
    have hmem : w ∈ s.current := by
      rw [hcurrent]
      exact List.mem_singleton_self w
    have hkey := hs.key_ne hshaped hlocked hphase hadmits hwrite hmem
    have hcontents : w.value.isSome → s.contents w.key = none := by
      intro hsome
      have hnone := hs.fresh w hmem hsome
      rw [← hs.deferred] at hnone
      exact (Write.replay_of_ne fun v hv => (hkey v hv).symm).symm.trans hnone
    refine ⟨?_, ?_, ?_, ?_⟩
    · change Write.Deferred s.contents (s.push d).pending (s.push d).log
      rw [hpending, hlog]
      exact hs.deferred.issue w
    · change Write.Independent s.contents (s.push d).pending
      rw [hpending]
      exact hs.independent.issue hkey hcontents
    · intro v hv
      cases hv
    · change Placed s.ids s.partitions (Write.replay _ ((s.push d).log ++ [])) s.vectors
      rw [hlog, List.append_nil]
      exact hplaced

/-- The message at hand is one for a partition in use. -/
theorem placed_dispatch {ids : List PartitionId} {partitions : AList fun _ : PartitionId => ℕ}
    {contents : ℕ × PrimaryId → Option Vector} {vectors : Vectors} {d : Dispatch}
    (h : Placed ids partitions contents vectors)
    (hpart : partitions.lookup d.partitionId = some d.partition) :
    Placed ids partitions (Write.replay contents d.write.toList)
      (Vectors.replay vectors d.messages) := by
  obtain ⟨p, a, job⟩ := d
  cases job with
  | add id v => exact h.addVector hpart id v
  | remove id => exact h.removeVector hpart id
  | reserve capacity => exact h
  | search => exact h

/-- The actor begins with a message for a partition in use. -/
theorem Settled.found (hs : s.Settled) {d : Dispatch} (hidle : s.phase = .idle)
    (hpart : s.partitions.lookup d.partitionId = some d.partition)
    (hadmits : ∀ m ∈ d.messages, s.vectors.Admits m) :
    ({ s with phase := .check d, accepted := s.accepted ++ d.messages } : State).Settled := by
  have hcurrent : s.current = [] := by
    rw [current, hidle]
    rfl
  have hplaced := hs.placed
  rw [hcurrent, List.append_nil] at hplaced
  refine ⟨hs.deferred, hs.independent, ?_, ?_⟩
  · intro w hw hsome
    have hw : w ∈ d.write.toList := hw
    obtain ⟨p, a, job⟩ := d
    cases job with
    | add id v =>
      cases List.mem_singleton.mp hw
      exact (hplaced.entry p a hpart id).trans (hadmits _ (List.mem_singleton_self _))
    | remove id =>
      cases List.mem_singleton.mp hw
      cases hsome
    | reserve capacity => cases hw
    | search => cases hw
  · change Placed s.ids s.partitions (Write.replay _ (s.log ++ d.write.toList))
      (Vectors.replay ∅ (s.accepted ++ d.messages))
    rw [vectors_append, Write.replay_append]
    exact placed_dispatch hplaced hpart

/-- The actor begins with a message for a new partition. -/
theorem Settled.created (hs : s.Settled) (hidle : s.phase = .idle) {p : PartitionId}
    {id : PrimaryId} {v : Vector} {idxCapacity : ℕ} (hpart : s.partitions.lookup p = none) {t : State}
    (ht : t = { s with
      states := s.states.insert p.indexId ((s.states.lookup p.indexId).getD .new)
      partitions := s.partitions.insert p s.arena.length
      arena := s.arena ++ [.new s.runtime p idxCapacity]
      phase := .check ⟨p, s.arena.length, .add id v⟩
      accepted := s.accepted ++ [.addVector p id v] }) : t.Settled := by
  have hcurrent : s.current = [] := by
    rw [current, hidle]
    rfl
  have hids : t.ids = s.ids ++ [p] := by
    rw [ht, ids, ids, List.map_append, List.map_singleton]
    rfl
  have hlength : s.ids.length = s.arena.length := List.length_map _
  have hcontents : t.contents = s.contents := by
    funext key
    rw [ht, contents, contents]
    rcases lt_trichotomy key.1 s.arena.length with hlt | heq | hgt
    · rw [List.getElem?_append_left hlt]
    · rw [List.getElem?_append_right heq.ge, heq, Nat.sub_self,
        List.getElem?_eq_none (le_refl s.arena.length)]
      exact AList.lookup_empty _
    · rw [List.getElem?_eq_none (by simpa using hgt), List.getElem?_eq_none hgt.le]
  have hplaced := hs.placed
  rw [hcurrent, List.append_nil] at hplaced
  have hcreated := hplaced.create hpart
  rw [hlength] at hcreated
  have hinsert : (s.partitions.insert p s.arena.length).lookup p = some s.arena.length :=
    AList.lookup_insert _
  refine ⟨?_, ?_, ?_, ?_⟩
  · rw [hcontents, ht]
    exact hs.deferred
  · rw [hcontents, ht]
    exact hs.independent
  · intro w hw _
    rw [ht] at hw ⊢
    cases List.mem_singleton.mp hw
    exact (hcreated.entry p _ hinsert id).trans (hplaced.unmapped p hpart id)
  · rw [hids]
    have haccepted : t.vectors = s.vectors.apply (.addVector p id v) := by
      rw [vectors, ht]
      exact vectors_append s _
    have hwrites : t.log ++ t.current = s.log ++ [⟨(s.arena.length, id), some v⟩] := by
      rw [ht]
      rfl
    have hpartitions : t.partitions = s.partitions.insert p s.arena.length := by rw [ht]
    rw [haccepted, hwrites, hpartitions, Write.replay_concat]
    exact hcreated.addVector hinsert id v

/-- Every step keeps the invariant, when the messages are admitted and the calls of the index
succeed. -/
theorem Settled.step (hs : s.Settled) (hshaped : s.Shaped) (hlocked : s.Locked) {a : Action}
    (ha : Enabled s a) (hadmits : s.AdmitsMessage a) (hsucceeds : s.Succeeds a) :
    (step s a).Settled := by
  have heffect := hshaped.effect ha
  generalize Usearch.step s a = t at heffect
  cases heffect with
  | refused => exact hs
  | uncounted => exact hs
  | @absent p id environment hpart =>
    have haccepted : Vectors.replay ∅ (s.accepted ++ [.removeVector p id]) =
        s.vectors.apply (.removeVector p id) := vectors_append s _
    refine ⟨hs.deferred, hs.independent, hs.fresh, ?_⟩
    change Placed s.ids s.partitions _ (Vectors.replay ∅ (s.accepted ++ [.removeVector p id]))
    rw [haccepted]
    exact hs.placed.removeVector_of_none hpart id
  | @ended p environment =>
    have haccepted : Vectors.replay ∅ (s.accepted ++ [.removePartition p]) =
        s.vectors.apply (.removePartition p) := vectors_append s _
    refine ⟨hs.deferred, hs.independent, hs.fresh, ?_⟩
    change Placed s.ids (s.partitions.erase p) _
      (Vectors.replay ∅ (s.accepted ++ [.removePartition p]))
    rw [haccepted]
    exact hs.placed.removePartition hadmits
  | @found message environment d hidle hpart hjob hmessage =>
    refine hs.found hidle hpart fun m hm => ?_
    rw [← hmessage] at hm
    cases message with
    | search p => cases hm
    | modify m' =>
      rw [List.mem_singleton.mp hm]
      exact hadmits
  | created hidle hpart => exact hs.created hidle hpart rfl
  | checkedLow hphase =>
    exact hs.congr rfl rfl rfl (by rw [current, current, hphase]; rfl) rfl rfl rfl
  | checked hphase => exact hs.congr rfl rfl rfl (by rw [current, current, hphase]; rfl) rfl rfl rfl
  | permitReserve hphase =>
    exact hs.congr rfl rfl rfl (by rw [current, current, hphase]; rfl) rfl rfl rfl
  | rechecked hphase =>
    exact hs.congr rfl rfl rfl (by rw [current, current, hphase]; rfl) rfl rfl rfl
  | @recheckedLow d capacity hphase =>
    have hlog := log_push (s := s) { d with job := .reserve capacity }
    have hpending := pending_push (s := s) { d with job := .reserve capacity }
    rw [show Dispatch.write { d with job := .reserve capacity } = none from rfl,
      Option.toList_none, List.append_nil] at hlog hpending
    exact hs.congr rfl hpending hlog (by rw [current, current, hphase]; rfl) rfl rfl rfl
  | sentReserve hphase =>
    obtain ⟨task, hget, hstage⟩ := hshaped.sends (by rw [hphase]; rfl)
    exact hs.congr rfl (pending_move hget (by rw [hstage]; rfl)) (log_move _ hget)
      (by rw [current, current, hphase]; rfl) rfl rfl rfl
  | sent hphase =>
    obtain ⟨task, hget, hstage⟩ := hshaped.sends (by rw [hphase]; rfl)
    exact hs.congr rfl (pending_move hget (by rw [hstage]; rfl)) (log_move _ hget)
      (by rw [current, current, hphase]; rfl) rfl rfl rfl
  | permit hphase hpermit => exact hs.permit hshaped hlocked hphase hpermit
  | taken hget hstage =>
    exact hs.congr rfl (pending_move hget (by rw [hstage]; rfl)) (log_move _ hget) rfl rfl rfl rfl
  | called hget hstage => exact hs.called hshaped hget hstage hsucceeds
  | reserved hget hjob hstage =>
    exact hs.congr (contents_setPartition _ fun _ => rfl) (pending_move hget (by rw [hstage]; rfl))
      (log_move _ hget) rfl (ids_setPartition s _ fun _ => rfl) rfl rfl
  | addedToPartition hget hjob hstage =>
    exact hs.congr (contents_setPartition _ fun _ => rfl) (pending_move hget (by rw [hstage]; rfl))
      (log_move _ hget) rfl (ids_setPartition s _ fun _ => rfl) rfl rfl
  | removedFromPartition hget hjob hstage =>
    exact hs.congr (contents_setPartition _ fun _ => rfl) (pending_move hget (by rw [hstage]; rfl))
      (log_move _ hget) rfl (ids_setPartition s _ fun _ => rfl) rfl rfl
  | addedToIndex hget hjob hstage =>
    exact hs.congr rfl (pending_move hget (by rw [hstage]; rfl)) (log_move _ hget) rfl rfl rfl rfl
  | removedFromIndex hget hjob hstage =>
    exact hs.congr rfl (pending_move hget (by rw [hstage]; rfl)) (log_move _ hget) rfl rfl rfl rfl
  | released hget hstage =>
    exact hs.congr rfl (pending_move hget (by rw [hstage]; rfl)) (log_move _ hget) rfl rfl rfl rfl

end State

end Usearch

end VectorStore
