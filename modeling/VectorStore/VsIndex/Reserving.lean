import VectorStore.VsIndex.Counting

/-!
# Room for additions

An addition that was dispatched is missing from the size of its partition until its closure has
counted it.  The size and the missing additions stay within the capacity that the partition knows of,
which the index has at least: the actor lets an addition through only when there is room for one more
or after a reservation of its own.
-/

namespace VectorStore

namespace Usearch

/-! ## What is relied on -/

/-- What the index is relied on for: `reserve` succeeds with at least the capacity asked for, `add`
of a new id succeeds below the capacity, and `remove` tells whether it found the id. -/
def Job.Behaves (idx : UsearchIndex) (outcome : Outcome) : Job → Prop
  | .reserve n => ∃ capacity, outcome = .reserved capacity ∧ n ≤ capacity
  | .add primaryId _ =>
    idx.stored.lookup primaryId = none → idx.stored.keys.length < idx.capacity → outcome = .added
  | .remove primaryId => outcome = .removed (idx.stored.lookup primaryId).isSome
  | .search => True

instance (idx : UsearchIndex) (outcome : Outcome) (job : Job) :
    Decidable (job.Behaves idx outcome) :=
  match job, outcome with
  | .reserve n, .reserved capacity =>
    decidable_of_iff (n ≤ capacity) (by simp [Job.Behaves])
  | .reserve _, .err | .reserve _, .added | .reserve _, .removed _ | .reserve _, .found =>
    isFalse (by simp [Job.Behaves])
  | .add _ _, _ => inferInstanceAs (Decidable (_ → _ → _))
  | .remove _, _ => inferInstanceAs (Decidable (_ = _))
  | .search, _ => inferInstanceAs (Decidable True)

namespace State

/-- The index behaves in a call. -/
def Behaves (s : State) : Action → Prop
  | .call i outcome => ∀ task ∈ s.tasks[i]?, ∀ partition ∈ s.arena[task.dispatch.partition]?,
    task.dispatch.job.Behaves partition.idx outcome
  | _ => True

instance (s : State) (a : Action) : Decidable (s.Behaves a) :=
  match a with
  | .call i outcome => inferInstanceAs (Decidable (∀ task ∈ s.tasks[i]?,
    ∀ partition ∈ s.arena[task.dispatch.partition]?,
      task.dispatch.job.Behaves partition.idx outcome))
  | .receive _ _ | .check | .permitReserve | .recheck | .send | .permit | .take _ | .count _
  | .release _ =>
    inferInstanceAs (Decidable True)

/-- The vectors of an index, and the room that is kept ahead of them, can be counted. -/
def TotalFits (s : State) : Prop :=
  ∀ indexId, s.total indexId + Usearch.freeThreshold s.runtime.channelSize s.runtime.numWorkers +
    reserveIncrementGlobal < 2 ^ 64

end State

/-! ## Roles -/

/-- What a closure has still to do for its partition. -/
inductive Role where
  /-- To add a vector. -/
  | add
  /-- To count a vector that was added. -/
  | countAdded
  /-- To count a vector that was removed. -/
  | countRemoved
  /-- To reserve a capacity. -/
  | reserve (capacity : ℕ)
  /-- To store the capacity that was reserved. -/
  | store
deriving DecidableEq

/-- The mode of the closures with a role. -/
def Role.mode : Role → Mode
  | add | countAdded => .insert
  | countRemoved => .remove
  | reserve _ | store => .reserve

/-- The role of a closure at a stage. -/
def Job.role (stage : Stage Progress) : Job → Option Role
  | .add _ _ =>
    if isPending stage then some .add
    else if stage = .running .called then some .countAdded
    else none
  | .remove _ =>
    if stage = .running .called ∨ stage = .running .counted then some .countRemoved else none
  | .reserve capacity =>
    if isPending stage then some (.reserve capacity)
    else if stage = .running .called then some .store
    else none
  | .search => none

/-- A closure has a role in a partition. -/
def Plays (a : ℕ) (role : Role) (t : Task Dispatch Progress) : Prop :=
  t.dispatch.partition = a ∧ t.dispatch.job.role t.stage = some role

instance (a : ℕ) (role : Role) (t : Task Dispatch Progress) : Decidable (Plays a role t) :=
  inferInstanceAs (Decidable (_ ∧ _))

theorem isLive_of_isPending {stage : Stage Progress} (h : isPending stage) : stage.isLive := by
  cases stage <;> first | rfl | cases h

/-- A closure with a role is on its way. -/
theorem Plays.mode_eq {a : ℕ} {role : Role} {t : Task Dispatch Progress} (h : Plays a role t) :
    t.dispatch.job.mode = role.mode ∧ t.stage.isLive := by
  obtain ⟨-, hrole⟩ := h
  generalize t.stage = stage at hrole ⊢
  cases hjob : t.dispatch.job with
  | add id v =>
    rw [hjob, Job.role] at hrole
    split at hrole
    · next hpending =>
      cases hrole
      exact ⟨rfl, isLive_of_isPending hpending⟩
    · split at hrole
      · next hcalled =>
        cases hrole
        exact ⟨rfl, by rw [hcalled]; rfl⟩
      · cases hrole
  | remove id =>
    rw [hjob, Job.role] at hrole
    split at hrole
    · next hstage =>
      cases hrole
      exact ⟨rfl, by rcases hstage with rfl | rfl <;> rfl⟩
    · cases hrole
  | reserve capacity =>
    rw [hjob, Job.role] at hrole
    split at hrole
    · next hpending =>
      cases hrole
      exact ⟨rfl, isLive_of_isPending hpending⟩
    · split at hrole
      · next hcalled =>
        cases hrole
        exact ⟨rfl, by rw [hcalled]; rfl⟩
      · cases hrole
  | search =>
    rw [hjob] at hrole
    cases hrole

/-- A closure that has something to count runs. -/
theorem Plays.isRunning {a : ℕ} {role : Role} {t : Task Dispatch Progress} (h : Plays a role t)
    (hrole : role = .countAdded ∨ role = .countRemoved) : t.stage.isRunning := by
  obtain ⟨-, hplays⟩ := h
  cases hjob : t.dispatch.job with
  | add id v =>
    rw [hjob, Job.role] at hplays
    split at hplays
    · cases hplays
      rcases hrole with h | h <;> cases h
    · split at hplays
      · next hcalled =>
        rw [hcalled]
        rfl
      · cases hplays
  | remove id =>
    rw [hjob, Job.role] at hplays
    split at hplays
    · next hstage => rcases hstage with h | h <;> rw [h] <;> rfl
    · cases hplays
  | reserve capacity =>
    rw [hjob, Job.role] at hplays
    split at hplays
    · cases hplays
      rcases hrole with h | h <;> cases h
    · split at hplays
      · cases hplays
        rcases hrole with h | h <;> cases h
      · cases hplays
  | search =>
    rw [hjob] at hplays
    cases hplays

/-! ## The invariant -/

/-- The message at hand, once there is room for it or a reservation on its way. -/
def Phase.admitted : Phase → Option Dispatch
  | .sendReserve d | .permit d => some d
  | .idle | .check _ | .reserve _ | .recheck _ | .send => none

/-- The number of vectors in a partition. -/
def PartitionState.stored (partition : PartitionState) : ℕ := partition.idx.stored.keys.length

namespace State

/-- The number of closures with a role in a partition. -/
def playing (s : State) (a : ℕ) (role : Role) : ℕ := s.tasks.countP (Plays a role ·)

/-- The vectors of a partition as its size will tell, once the additions on their way are done. -/
def awaited (s : State) (a : ℕ) (partition : PartitionState) : ℕ :=
  partition.size + s.playing a .add + s.playing a .countAdded

/-- A partition stays within its reservation. -/
structure Reserved (s : State) (a : ℕ) (partition : PartitionState) : Prop where
  freeThreshold : partition.freeThreshold =
    Usearch.freeThreshold s.runtime.channelSize s.runtime.numWorkers
  increment_pos : 0 < partition.capacityIncrement
  increment_le : partition.capacityIncrement ≤ reserveIncrementGlobal
  counted : partition.size + s.playing a .countAdded =
    partition.stored + s.playing a .countRemoved
  room : s.awaited a partition ≤ partition.capacity
  capacity : partition.capacity ≤ partition.idx.capacity
  /-- A reservation is for more than there is. -/
  reserve : ∀ n, 0 < s.playing a (.reserve n) → partition.capacity < n
  store : 0 < s.playing a .store → partition.capacity < partition.idx.capacity
  admitted : ∀ d ∈ s.phase.admitted, d.partition = a → d.job.mode = .insert →
    s.awaited a partition < partition.capacity ∨
      ∃ role : Role, role.mode = .reserve ∧ 0 < s.playing a role

/-- All partitions stay within their reservations, and no message is itself a reservation. -/
structure Roomy (s : State) : Prop where
  reserved : ∀ a partition, s.arena[a]? = some partition → s.Reserved a partition
  current : ∀ d ∈ s.phase.dispatch, ∀ n, d.job ≠ .reserve n

variable {s t : State} {i a : ℕ} {task : Task Dispatch Progress} {partition : PartitionState}

theorem roomy_init (runtime : Runtime) : (init runtime).Roomy where
  reserved _ _ h := by cases h
  current _ h := by cases h

/-! ## Closures of one partition -/

/-- What lives in a partition belongs to one index. -/
theorem Shaped.indexId_eq (hs : s.Shaped) {d : Dispatch} (hd : s.Knows d) (htask : task ∈ s.tasks)
    (hpartition : task.dispatch.partition = d.partition) :
    task.dispatch.indexId = d.indexId := by
  have hknows := hs.tasks task htask
  rw [Knows, hpartition, hd] at hknows
  exact congrArg PartitionId.indexId (Option.some.inj hknows).symm

/-- While a closure is on its way, those of other modes play no role. -/
theorem Locked.playing_eq_zero (hs : s.Locked) (hshaped : s.Shaped) (htask : task ∈ s.tasks)
    (hlive : task.stage.isLive) {role : Role} (hmode : role.mode ≠ task.dispatch.job.mode) :
    s.playing task.dispatch.partition role = 0 := by
  refine List.countP_eq_zero.mpr fun x hx hplays => ?_
  have hplays : Plays task.dispatch.partition role x := of_decide_eq_true hplays
  have hindex := hshaped.indexId_eq (hshaped.tasks task htask) hx hplays.1
  have heq := hs.mode_eq hshaped htask hlive hx hplays.mode_eq.2 hindex
  exact hmode (hplays.mode_eq.1.symm.trans heq)

/-- When a closure that is alone moves on, the others of its partition have ended. -/
theorem Locked.mem_modify (hs : s.Locked) (hshaped : s.Shaped) (hget : s.tasks[i]? = some task)
    (hlive : task.stage.isLive) (hexclusive : task.dispatch.job.mode.isExclusive)
    {f : Task Dispatch Progress → Task Dispatch Progress} {x : Task Dispatch Progress}
    (hx : x ∈ s.tasks.modify i f) :
    x = f task ∨ ∀ role, ¬Plays task.dispatch.partition role x := by
  obtain ⟨rest, htasks, hmodify⟩ := tasks_move hget
  have hx : x ∈ f task ::ₘ rest := by
    rw [← hmodify]
    exact Multiset.mem_coe.mpr hx
  refine (Multiset.mem_cons.mp hx).imp_right fun hrest role hplays => ?_
  have hmem : x ∈ s.tasks := Multiset.mem_coe.mp (htasks ▸ Multiset.mem_cons_of_mem hrest)
  have htask : task ∈ s.tasks := List.mem_of_getElem? hget
  have hdead := hs.alone hshaped htasks hlive hexclusive x hrest
    (hshaped.indexId_eq (hshaped.tasks task htask) hmem hplays.1)
  rw [hplays.mode_eq.2] at hdead
  cases hdead

/-- A closure moves on: the roles it had and has. -/
theorem playing_move (hget : s.tasks[i]? = some task) (stage : Stage Progress) (a : ℕ)
    (role : Role) : (s.move i stage).playing a role + (decide (Plays a role task)).toNat =
      s.playing a role + (decide (Plays a role (task.withStage stage))).toNat :=
  countP_modify (Plays a role ·) (Task.withStage stage) hget

/-- A closure moves on and keeps its role. -/
theorem playing_move_same (hget : s.tasks[i]? = some task) {stage : Stage Progress} {a : ℕ}
    (hrole : task.dispatch.partition = a →
      task.dispatch.job.role stage = task.dispatch.job.role task.stage) (role : Role) :
    (s.move i stage).playing a role = s.playing a role := by
  have hcount := playing_move hget stage a role
  have hsame : Plays a role (task.withStage stage) ↔ Plays a role task :=
    and_congr_right fun hpartition => by
      rw [Task.dispatch_withStage, Task.stage_withStage, hrole hpartition]
  rw [decide_eq_decide.mpr hsame] at hcount
  exact Nat.add_right_cancel hcount

/-- A closure moves on from one role to another one. -/
theorem playing_move_roles (hget : s.tasks[i]? = some task) (stage : Stage Progress)
    (before after : Option Role) (hbefore : task.dispatch.job.role task.stage = before)
    (hafter : task.dispatch.job.role stage = after) (role : Role) :
    (s.move i stage).playing task.dispatch.partition role + (decide (before = some role)).toNat =
      s.playing task.dispatch.partition role + (decide (after = some role)).toNat := by
  have hcount := playing_move hget stage task.dispatch.partition role
  have hold : Plays task.dispatch.partition role task ↔ before = some role := by
    rw [Plays, hbefore]
    exact and_iff_right rfl
  have hnew : Plays task.dispatch.partition role (task.withStage stage) ↔ after = some role := by
    rw [Plays, Task.dispatch_withStage, Task.stage_withStage, hafter]
    exact and_iff_right rfl
  rwa [decide_eq_decide.mpr hold, decide_eq_decide.mpr hnew] at hcount

/-- A closure moves on: the roles of other modes are as before. -/
theorem playing_move_of_mode (hget : s.tasks[i]? = some task) (stage : Stage Progress) (a : ℕ)
    {role : Role} (hmode : role.mode ≠ task.dispatch.job.mode) :
    (s.move i stage).playing a role = s.playing a role := by
  have hcount := playing_move hget stage a role
  have hold : ¬Plays a role task := fun h => hmode h.mode_eq.1.symm
  have hnew : ¬Plays a role (task.withStage stage) := fun h => hmode h.mode_eq.1.symm
  rw [decide_eq_false hold, decide_eq_false hnew] at hcount
  exact Nat.add_right_cancel hcount

/-- A closure is created. -/
theorem playing_push (d : Dispatch) (a : ℕ) (role : Role) :
    (s.push d).playing a role =
      s.playing a role + (decide (Plays a role ⟨d, .sending⟩)).toNat := by
  rw [playing, push, List.countP_append, List.countP_singleton]
  by_cases h : Plays a role ⟨d, .sending⟩
  · rw [if_pos (decide_eq_true h), decide_eq_true h]
    rfl
  · rw [if_neg (by simpa using h), decide_eq_false h]
    rfl

theorem playing_pos (htask : task ∈ s.tasks) {role : Role} (hplays : Plays a role task) :
    0 < s.playing a role :=
  List.countP_pos_iff.mpr ⟨task, htask, decide_eq_true hplays⟩

/-- At most one removal waits to be counted. -/
theorem Locked.playing_countRemoved_le (hs : s.Locked) (hshaped : s.Shaped) (a : ℕ) :
    s.playing a .countRemoved ≤ 1 := by
  refine hs.countP_le_one hshaped (fun x hx => ?_) fun x hmem y hymem hx hy => ?_
  · obtain ⟨hmode, hlive⟩ := (of_decide_eq_true hx : Plays a .countRemoved x).mode_eq
    exact ⟨hlive, by rw [hmode]; rfl⟩
  · have hx : Plays a .countRemoved x := of_decide_eq_true hx
    have hy : Plays a .countRemoved y := of_decide_eq_true hy
    exact hshaped.indexId_eq (hshaped.tasks x hmem) hymem (hy.1.trans hx.1.symm)

/-! ## Capacities -/

/-- The vectors of a partition are vectors of its index. -/
theorem stored_le_total (hpartition : s.arena[a]? = some partition) :
    partition.stored ≤ s.total partition.partitionId.indexId := by
  have hshare : partition.share partition.partitionId.indexId = partition.stored := if_pos rfl
  rw [← hshare]
  exact List.single_le_sum (fun _ _ => Nat.zero_le _) _
    (List.mem_map_of_mem (List.mem_of_getElem? hpartition))

/-- A partition has not more in its size than it has capacity. -/
theorem Reserved.size_le (h : s.Reserved a partition) : partition.size ≤ partition.capacity :=
  le_trans (by unfold awaited; omega) h.room

/-- When the free space runs low, the capacity to reserve is a word. -/
theorem Reserved.increment_lt (h : s.Reserved a partition) (hlocked : s.Locked)
    (hshaped : s.Shaped) (hfits : s.TotalFits) (hpartition : s.arena[a]? = some partition)
    (hlow : partition.capacity - partition.size < partition.freeThreshold) :
    partition.capacity + partition.capacityIncrement < 2 ^ 64 := by
  have htotal := stored_le_total hpartition
  have hremoves := hlocked.playing_countRemoved_le hshaped a
  have hcounted := h.counted
  have hincrement := h.increment_le
  have hfits := hfits partition.partitionId.indexId
  rw [h.freeThreshold] at hlow
  omega

/-- When the free space runs low, more than the capacity is reserved. -/
theorem Reserved.lt_of_needs (h : s.Reserved a partition) (hlocked : s.Locked)
    (hshaped : s.Shaped) (hfits : s.TotalFits) (hpartition : s.arena[a]? = some partition) {n : ℕ}
    (hneeds : s.needsMoreCapacity a = some n) : partition.capacity < n := by
  rw [needsMoreCapacity, hpartition, Option.bind_some, PartitionState.needsMoreCapacity] at hneeds
  split at hneeds
  · next hlow =>
    rw [Nat.mod_eq_of_lt (h.increment_lt hlocked hshaped hfits hpartition hlow)] at hneeds
    cases hneeds
    have := h.increment_pos
    omega
  · cases hneeds

/-- When the free space has not run low, it is at least the threshold. -/
theorem Reserved.le_of_needs (h : s.Reserved a partition)
    (hpartition : s.arena[a]? = some partition) (hneeds : s.needsMoreCapacity a = none) :
    partition.size + s.runtime.channelSize + s.runtime.numWorkers < partition.capacity := by
  rw [needsMoreCapacity, hpartition, Option.bind_some, PartitionState.needsMoreCapacity] at hneeds
  split at hneeds
  · cases hneeds
  · next hfree =>
    rw [h.freeThreshold, Usearch.freeThreshold] at hfree
    omega

/-- The additions on their way are no more than the channel and the workers take, when the actor does
not wait for a slot. -/
theorem Shaped.playing_le (hs : s.Shaped) (hsends : s.phase.sends = false) (a : ℕ) :
    s.playing a .add + s.playing a .countAdded ≤ s.runtime.channelSize + s.runtime.numWorkers := by
  refine le_trans (countP_add_countP_le ?_ ?_ ?_) (hs.bounded.countP_isLive_le ?_)
  · intro t hadd hcount
    have hrole := (of_decide_eq_true hadd).2.symm.trans (of_decide_eq_true hcount).2
    cases hrole
  · exact fun t hadd => (of_decide_eq_true hadd : Plays a .add t).mode_eq.2
  · exact fun t hcount => (of_decide_eq_true hcount : Plays a .countAdded t).mode_eq.2
  · intro t ht
    obtain ⟨i, hget⟩ := List.getElem?_of_mem ht
    by_contra hsending
    have := (hs.sending i t hget (by simpa using hsending)).1
    rw [hsends] at this
    cases this

/-- The check lets an addition through when there is room for it. -/
theorem Reserved.room_of_check (h : s.Reserved a partition) (hshaped : s.Shaped)
    (hsends : s.phase.sends = false) (hpartition : s.arena[a]? = some partition)
    (hneeds : s.needsMoreCapacity a = none) : s.awaited a partition < partition.capacity := by
  have hfree := h.le_of_needs hpartition hneeds
  have hplaying := hshaped.playing_le hsends a
  unfold awaited
  omega

/-! ## Steps -/

/-- The roles in a partition are as before, and a message that is admitted has room. -/
theorem Reserved.congr (h : s.Reserved a partition) (hruntime : t.runtime = s.runtime)
    (hplaying : ∀ role, t.playing a role = s.playing a role)
    (hadmitted : ∀ d ∈ t.phase.admitted, d.partition = a → d.job.mode = .insert →
      d ∈ s.phase.admitted ∨ s.awaited a partition < partition.capacity) :
    t.Reserved a partition where
  freeThreshold := by
    rw [hruntime]
    exact h.freeThreshold
  increment_pos := h.increment_pos
  increment_le := h.increment_le
  counted := by
    rw [hplaying, hplaying]
    exact h.counted
  room := by
    rw [awaited, hplaying, hplaying]
    exact h.room
  capacity := h.capacity
  reserve n := by
    rw [hplaying]
    exact h.reserve n
  store := by
    rw [hplaying]
    exact h.store
  admitted d hd hpartition hinsert := by
    simp only [awaited, hplaying]
    rcases hadmitted d hd hpartition hinsert with hold | hroom
    · exact h.admitted d hold hpartition hinsert
    · exact Or.inl hroom

/-- A new partition has no vectors and no capacity. -/
theorem Shaped.reserved_new (hs : s.Shaped) (hlength : a = s.arena.length)
    (hplaying : ∀ role, t.playing a role = s.playing a role) (hruntime : t.runtime = s.runtime)
    (hadmitted : t.phase.admitted = none) (p : PartitionId) (idxCapacity : ℕ) :
    t.Reserved a (.new s.runtime p idxCapacity) := by
  have hzero : ∀ role, t.playing a role = 0 := by
    intro role
    rw [hplaying]
    refine List.countP_eq_zero.mpr fun x hx hplays => ?_
    have hplays : Plays a role x := of_decide_eq_true hplays
    have hlt := (List.getElem?_eq_some_iff.mp (hs.tasks x hx)).1
    rw [ids, List.length_map, hplays.1, hlength] at hlt
    exact lt_irrefl _ hlt
  refine ⟨?_, ?_, ?_, ?_, ?_, ?_, ?_, ?_, ?_⟩
  · rw [hruntime]
    rfl
  · unfold PartitionState.new reserveIncrementGlobal reserveIncrementLocal
    dsimp only
    split <;> omega
  · unfold PartitionState.new reserveIncrementGlobal reserveIncrementLocal
    dsimp only
    split <;> omega
  · rw [hzero, hzero]
    rfl
  · rw [awaited, hzero, hzero]
    exact Nat.zero_le _
  · exact Nat.zero_le _
  · intro n hpos
    rw [hzero] at hpos
    cases hpos
  · intro hpos
    rw [hzero] at hpos
    cases hpos
  · intro d hd
    rw [hadmitted] at hd
    cases hd

/-- The closure of a reservation is created. -/
theorem Reserved.pushReserve (h : s.Reserved a partition) {d : Dispatch} {n : ℕ}
    (hlt : d.partition = a → partition.capacity < n) :
    ({ s.push { d with job := .reserve n } with phase := .sendReserve d } : State).Reserved a
      partition := by
  have hplaying : ∀ role, ({ s.push { d with job := .reserve n } with
      phase := .sendReserve d } : State).playing a role =
      s.playing a role + (decide (d.partition = a ∧ role = .reserve n)).toNat := by
    intro role
    refine (playing_push _ a role).trans (congrArg (s.playing a role + ·) (congrArg _ ?_))
    refine decide_eq_decide.mpr (and_congr_right fun _ => ?_)
    rw [show Job.role .sending (.reserve n) = some (.reserve n) from rfl, Option.some_inj, eq_comm]
  have hsame : ∀ role : Role, role ≠ .reserve n → ({ s.push { d with job := .reserve n } with
      phase := .sendReserve d } : State).playing a role = s.playing a role := by
    intro role hne
    rw [hplaying, decide_eq_false fun hc => hne hc.2]
    rfl
  refine ⟨h.freeThreshold, h.increment_pos, h.increment_le, ?_, ?_, h.capacity, ?_, ?_, ?_⟩
  · rw [hsame _ Role.noConfusion, hsame _ Role.noConfusion]
    exact h.counted
  · rw [awaited, hsame _ Role.noConfusion, hsame _ Role.noConfusion]
    exact h.room
  · intro m hpos
    by_cases hm : d.partition = a ∧ m = n
    · rw [hm.2]
      exact hlt hm.1
    · rw [hplaying, decide_eq_false fun hc => hm ⟨hc.1, Role.reserve.inj hc.2⟩] at hpos
      exact h.reserve m hpos
  · rw [hsame _ Role.noConfusion]
    exact h.store
  · intro e he hpartition _
    cases he
    refine Or.inr ⟨.reserve n, rfl, ?_⟩
    rw [hplaying, decide_eq_true ⟨hpartition, rfl⟩]
    exact Nat.succ_pos _

/-- The closure of the message at hand is created. -/
theorem Reserved.pushMessage (h : s.Reserved a partition) (hlocked : s.Locked)
    (hshaped : s.Shaped) {d : Dispatch} (hphase : s.phase = .permit d)
    (hadmits : s.Admits d.indexId d.job.mode) (hjob : ∀ n, d.job ≠ .reserve n) :
    ({ (s.setOperation d.indexId (·.acquire d.job.mode)).push d with
      phase := .send } : State).Reserved a partition := by
  have hplaying : ∀ role, ({ (s.setOperation d.indexId (·.acquire d.job.mode)).push d with
      phase := .send } : State).playing a role = s.playing a role +
        (decide (Plays a role ⟨d, .sending⟩)).toNat := fun role => playing_push d a role
  have hrole : ∀ role, Plays a role ⟨d, .sending⟩ →
      role = .add ∧ d.partition = a ∧ d.job.mode = .insert := by
    rintro role ⟨hpartition, hrole⟩
    dsimp only at hpartition hrole
    cases hd : d.job with
    | add id v =>
      rw [hd] at hrole
      cases hrole
      exact ⟨rfl, hpartition, rfl⟩
    | remove id =>
      rw [hd] at hrole
      cases hrole
    | reserve n => exact absurd hd (hjob n)
    | search =>
      rw [hd] at hrole
      cases hrole
  have hsame : ∀ role : Role, role ≠ .add → ({ (s.setOperation d.indexId
      (·.acquire d.job.mode)).push d with phase := .send } : State).playing a role =
        s.playing a role := by
    intro role hne
    rw [hplaying, decide_eq_false fun hc => hne (hrole role hc).1]
    rfl
  refine ⟨h.freeThreshold, h.increment_pos, h.increment_le, ?_, ?_, h.capacity, ?_, ?_, ?_⟩
  · rw [hsame _ Role.noConfusion, hsame _ Role.noConfusion]
    exact h.counted
  · rw [awaited, hplaying .add, hsame .countAdded Role.noConfusion]
    by_cases hadd : Plays a .add ⟨d, .sending⟩
    · rw [decide_eq_true hadd, Bool.toNat_true]
      obtain ⟨-, hpartition, hinsert⟩ := hrole _ hadd
      rcases h.admitted d (by rw [hphase]; rfl) hpartition hinsert with hroom |
        ⟨role, hreserve, hpos⟩
      · unfold awaited at hroom
        omega
      · -- the reservation would keep the lock
        obtain ⟨x, hx, hplays⟩ := List.countP_pos_iff.mp hpos
        have hplays : Plays a role x := of_decide_eq_true hplays
        have hd : s.Knows d := hshaped.current d (by rw [hphase]; rfl)
        obtain ⟨hmode, hlive⟩ := hplays.mode_eq
        have hindex := hshaped.indexId_eq hd hx (hplays.1.trans hpartition.symm)
        have heq := (hlocked.mode_of_admits hshaped hadmits hx hlive hindex).1
        rw [hmode, hreserve, hinsert] at heq
        cases heq
    · rw [decide_eq_false hadd, Bool.toNat_false]
      exact h.room
  · intro n
    rw [hsame _ Role.noConfusion]
    exact h.reserve n
  · rw [hsame _ Role.noConfusion]
    exact h.store
  · intro e he
    cases he

/-- A closure moves on in a partition that it leaves as it is. -/
theorem Reserved.move (h : s.Reserved a partition) (hget : s.tasks[i]? = some task)
    {stage : Stage Progress} (hruntime : t.runtime = s.runtime)
    (htasks : t.tasks = s.tasks.modify i (Task.withStage stage))
    (hrole : task.dispatch.partition = a →
      task.dispatch.job.role stage = task.dispatch.job.role task.stage)
    (hadmitted : ∀ d ∈ t.phase.admitted, d ∈ s.phase.admitted) : t.Reserved a partition := by
  refine h.congr hruntime (fun role => ?_) fun d hd _ _ => Or.inl (hadmitted d hd)
  rw [playing, htasks]
  exact playing_move_same hget hrole role

/-- A closure of additions or removals moves on, and the numbers add up. -/
theorem Reserved.change (h : s.Reserved a partition) {stage : Stage Progress}
    (hget : s.tasks[i]? = some task) (hmode : task.dispatch.job.mode ≠ .reserve)
    {partition' : PartitionState} (hruntime : t.runtime = s.runtime) (hphase : t.phase = s.phase)
    (htasks : t.tasks = s.tasks.modify i (Task.withStage stage))
    (hcapacity : partition'.capacity = partition.capacity)
    (hidx : partition'.idx.capacity = partition.idx.capacity)
    (hthreshold : partition'.freeThreshold = partition.freeThreshold)
    (hincrement : partition'.capacityIncrement = partition.capacityIncrement)
    (hcounted : partition'.size + (s.move i stage).playing a .countAdded =
      partition'.stored + (s.move i stage).playing a .countRemoved)
    (hroom : (s.move i stage).awaited a partition' ≤ s.awaited a partition) :
    t.Reserved a partition' := by
  have hmove : ∀ role, t.playing a role = (s.move i stage).playing a role := by
    intro role
    rw [playing, htasks]
    rfl
  have hreserves : ∀ role : Role, role.mode = .reserve → t.playing a role = s.playing a role :=
    fun role hrole => (hmove role).trans
      (playing_move_of_mode hget stage a (by rw [hrole]; exact hmode.symm))
  have hawaited : t.awaited a partition' ≤ s.awaited a partition := by
    rw [awaited, hmove, hmove]
    exact hroom
  constructor
  case freeThreshold =>
    rw [hthreshold, hruntime]
    exact h.freeThreshold
  case increment_pos => exact hincrement ▸ h.increment_pos
  case increment_le => exact hincrement ▸ h.increment_le
  case counted =>
    rw [hmove, hmove]
    exact hcounted
  case room =>
    rw [hcapacity]
    exact hawaited.trans h.room
  case capacity =>
    rw [hcapacity, hidx]
    exact h.capacity
  case reserve =>
    intro n
    rw [hreserves _ rfl, hcapacity]
    exact h.reserve n
  case store =>
    rw [hreserves _ rfl, hcapacity, hidx]
    exact h.store
  case admitted =>
    intro d hd hpartition hinsert
    rw [hphase] at hd
    rw [hcapacity]
    refine (h.admitted d hd hpartition hinsert).imp hawaited.trans_lt ?_
    rintro ⟨role, hrole, hpos⟩
    exact ⟨role, hrole, (hreserves role hrole).symm ▸ hpos⟩

/-- A closure of reservations moves on: the counts stay, and the capacities do not shrink. -/
theorem Reserved.reserved (h : s.Reserved a partition) {stage : Stage Progress}
    (hget : s.tasks[i]? = some task) (hmode : task.dispatch.job.mode = .reserve)
    {partition' : PartitionState} (hruntime : t.runtime = s.runtime) (hphase : t.phase = s.phase)
    (htasks : t.tasks = s.tasks.modify i (Task.withStage stage))
    (hsize : partition'.size = partition.size) (hstored : partition'.stored = partition.stored)
    (hthreshold : partition'.freeThreshold = partition.freeThreshold)
    (hincrement : partition'.capacityIncrement = partition.capacityIncrement)
    (hcapacity : partition.capacity ≤ partition'.capacity)
    (hidx : partition'.capacity ≤ partition'.idx.capacity)
    (hreserve : ∀ n, 0 < t.playing a (.reserve n) → partition'.capacity < n)
    (hstore : 0 < t.playing a .store → partition'.capacity < partition'.idx.capacity)
    (hadmitted : (∃ role : Role, role.mode = .reserve ∧ 0 < s.playing a role) →
      partition.capacity < partition'.capacity ∨
        ∃ role : Role, role.mode = .reserve ∧ 0 < t.playing a role) : t.Reserved a partition' := by
  have hcounts : ∀ role : Role, role.mode ≠ .reserve → t.playing a role = s.playing a role := by
    intro role hrole
    rw [playing, htasks]
    exact playing_move_of_mode hget stage a (by rw [hmode]; exact hrole)
  have hawaited : t.awaited a partition' = s.awaited a partition := by
    rw [awaited, awaited, hsize, hcounts _ Mode.noConfusion, hcounts _ Mode.noConfusion]
  constructor
  case freeThreshold =>
    rw [hthreshold, hruntime]
    exact h.freeThreshold
  case increment_pos => exact hincrement ▸ h.increment_pos
  case increment_le => exact hincrement ▸ h.increment_le
  case counted =>
    rw [hsize, hstored, hcounts _ Mode.noConfusion, hcounts _ Mode.noConfusion]
    exact h.counted
  case room => exact hawaited.trans_le (h.room.trans hcapacity)
  case capacity => exact hidx
  case reserve => exact hreserve
  case store => exact hstore
  case admitted =>
    intro d hd hpartition hinsert
    rw [hphase] at hd
    rw [hawaited]
    rcases h.admitted d hd hpartition hinsert with hlt | hex
    · exact Or.inl (hlt.trans_le hcapacity)
    · exact (hadmitted hex).imp_left h.room.trans_lt

/-- A closure has called the index. -/
theorem Reserved.called (h : s.Reserved task.dispatch.partition partition)
    (hget : s.tasks[i]? = some task) (hstage : task.stage = .running .started) {outcome : Outcome}
    (hbehaves : task.dispatch.job.Behaves partition.idx outcome)
    (hfresh : ∀ id v, task.dispatch.job = .add id v → partition.idx.stored.lookup id = none)
    (hadded : ∀ id v, task.dispatch.job = .add id v → outcome = .added) :
    ((s.setPartition task.dispatch.partition fun partition =>
      { partition with idx := (task.dispatch.job.call outcome).1 partition.idx }).move i
        (.running (task.dispatch.job.call outcome).2)).Reserved task.dispatch.partition
      { partition with idx := (task.dispatch.job.call outcome).1 partition.idx } := by
  have hcounted := h.counted
  generalize hjob : task.dispatch.job = job at hbehaves ⊢
  cases job with
  | add id v =>
    cases hadded id v hjob
    have hroles := playing_move_roles hget (.running .called) (some .add)
      (some .countAdded) (by rw [hjob, hstage]; rfl) (by rw [hjob]; rfl)
    have hadd : _ + 1 = _ + 0 := hroles .add
    have hcount : _ + 0 = _ + 1 := hroles .countAdded
    have hremove : _ + 0 = _ + 0 := hroles .countRemoved
    have hstored : (AList.insert id v partition.idx.stored).keys.length = partition.stored + 1 :=
      FiniteMap.length_keys_insert (hfresh id v hjob) v
    refine h.change hget (by rw [hjob]; exact Mode.noConfusion) rfl rfl rfl rfl rfl rfl rfl ?_ ?_
    · change partition.size + (s.move i (.running .called)).playing _ _ =
        (AList.insert id v partition.idx.stored).keys.length +
          (s.move i (.running .called)).playing _ _
      omega
    · change partition.size + (s.move i (.running .called)).playing _ _ +
        (s.move i (.running .called)).playing _ _ ≤ _
      unfold awaited
      omega
  | remove id =>
    have houtcome : outcome = .removed (partition.idx.stored.lookup id).isSome := hbehaves
    have hmode : task.dispatch.job.mode ≠ .reserve := by
      rw [hjob]
      exact Mode.noConfusion
    cases hfound : partition.idx.stored.lookup id with
    | none =>
      rw [houtcome, hfound]
      have hrole : task.dispatch.job.role (.running .processed) =
          task.dispatch.job.role task.stage := by
        rw [hjob, hstage]
        rfl
      have hsame := playing_move_same hget (a := task.dispatch.partition) fun _ => hrole
      refine h.change hget hmode rfl rfl rfl rfl rfl rfl rfl ?_ ?_
      · change partition.size + (s.move i (.running .processed)).playing _ _ =
          partition.stored + (s.move i (.running .processed)).playing _ _
        rw [hsame, hsame]
        exact hcounted
      · change partition.size + (s.move i (.running .processed)).playing _ _ +
          (s.move i (.running .processed)).playing _ _ ≤ _
        rw [hsame, hsame]
        exact le_rfl
    | some v =>
      rw [houtcome, hfound]
      have hroles := playing_move_roles hget (.running .called) none
        (some .countRemoved) (by rw [hjob, hstage]; rfl) (by rw [hjob]; rfl)
      have hadd : _ + 0 = _ + 0 := hroles .add
      have hcount : _ + 0 = _ + 0 := hroles .countAdded
      have hremove : _ + 0 = _ + 1 := hroles .countRemoved
      have hstored : (partition.idx.stored.erase id).keys.length + 1 = partition.stored :=
        FiniteMap.length_keys_erase hfound
      refine h.change hget hmode rfl rfl rfl rfl rfl rfl rfl ?_ ?_
      · change partition.size + (s.move i (.running .called)).playing _ _ =
          (partition.idx.stored.erase id).keys.length +
            (s.move i (.running .called)).playing _ _
        omega
      · change partition.size + (s.move i (.running .called)).playing _ _ +
          (s.move i (.running .called)).playing _ _ ≤ _
        unfold awaited
        omega
  | reserve n =>
    obtain ⟨capacity, rfl, hle⟩ := hbehaves
    have hroles := playing_move_roles hget (.running .called) (some (.reserve n))
      (some .store) (by rw [hjob, hstage]; rfl) (by rw [hjob]; rfl)
    have hstore : _ + 0 = _ + 1 := hroles .store
    have hn : partition.capacity < n := h.reserve n (playing_pos (List.mem_of_getElem? hget)
      ⟨rfl, by rw [hjob, hstage]; rfl⟩)
    have hlt : partition.capacity < capacity := hn.trans_le hle
    refine h.reserved hget (by rw [hjob]; rfl) rfl rfl rfl rfl rfl rfl rfl le_rfl hlt.le ?_
      (fun _ => hlt) fun _ => Or.inr ⟨.store, rfl, ?_⟩
    · intro m hpos
      refine h.reserve m (lt_of_lt_of_le hpos ?_)
      have hle : _ + _ = _ + 0 := hroles (.reserve m)
      exact Nat.le_of_add_right_le hle.le
    · change 0 < (s.move i (.running .called)).playing task.dispatch.partition .store
      omega
  | search =>
    exact h.move hget rfl rfl (fun _ => by rw [hjob]; rfl) fun _ hd => hd

/-- A closure stores the capacity that was reserved. -/
theorem Reserved.stored (h : s.Reserved task.dispatch.partition partition) (hlocked : s.Locked)
    (hshaped : s.Shaped) (hget : s.tasks[i]? = some task) {n : ℕ}
    (hjob : task.dispatch.job = .reserve n) (hstage : task.stage = .running .called) :
    ((s.setPartition task.dispatch.partition fun partition =>
      { partition with capacity := partition.idx.capacity }).move i (.running .processed)).Reserved
        task.dispatch.partition { partition with capacity := partition.idx.capacity } := by
  have hlt : partition.capacity < partition.idx.capacity := h.store
    (playing_pos (List.mem_of_getElem? hget) ⟨rfl, by rw [hjob, hstage]; rfl⟩)
  have hzero : ∀ role : Role, (s.move i (.running .processed)).playing task.dispatch.partition role
      = 0 := by
    intro role
    refine List.countP_eq_zero.mpr fun x hx hplays => ?_
    have hplays : Plays task.dispatch.partition role x := of_decide_eq_true hplays
    rcases hlocked.mem_modify hshaped hget (by rw [hstage]; rfl) (by rw [hjob]; rfl) hx with
      rfl | hnot
    · have hrole := hplays.2
      rw [Task.dispatch_withStage, hjob] at hrole
      cases hrole
    · exact hnot role hplays
  refine h.reserved hget (by rw [hjob]; rfl) rfl rfl rfl rfl rfl rfl rfl hlt.le le_rfl ?_ ?_
    fun _ => Or.inl hlt
  · intro m hpos
    exact absurd hpos (hzero (.reserve m)).not_gt
  · intro hpos
    exact absurd hpos (hzero .store).not_gt

/-- An addition is counted in its partition: the size is a word. -/
theorem Reserved.addedToPartition (h : s.Reserved task.dispatch.partition partition)
    (hlocked : s.Locked) (hshaped : s.Shaped) (hfits : s.TotalFits)
    (hpartition : s.arena[task.dispatch.partition]? = some partition)
    (hget : s.tasks[i]? = some task) {id : PrimaryId} {v : Vector}
    (hjob : task.dispatch.job = .add id v) (hstage : task.stage = .running .called) :
    ((s.setPartition task.dispatch.partition fun partition =>
      { partition with size := fetchAdd partition.size }).move i (.running .counted)).Reserved
        task.dispatch.partition { partition with size := fetchAdd partition.size } := by
  have hroles := playing_move_roles hget (.running .counted) (some .countAdded)
    none (by rw [hjob, hstage]; rfl) (by rw [hjob]; rfl)
  have hadd : _ + 0 = _ + 0 := hroles .add
  have hcount : _ + 1 = _ + 0 := hroles .countAdded
  have hremove : _ + 0 = _ + 0 := hroles .countRemoved
  have hnone : s.playing task.dispatch.partition .countRemoved = 0 :=
    hlocked.playing_eq_zero hshaped (List.mem_of_getElem? hget) (by rw [hstage]; rfl)
      (by rw [hjob]; exact Mode.noConfusion)
  have hcounted := h.counted
  have htotal := stored_le_total hpartition
  have hfits := hfits partition.partitionId.indexId
  have hsize : fetchAdd partition.size = partition.size + 1 := by
    unfold fetchAdd
    exact Nat.mod_eq_of_lt (by omega)
  refine h.change hget (by rw [hjob]; exact Mode.noConfusion) rfl rfl rfl rfl rfl rfl rfl ?_ ?_
  · change fetchAdd partition.size + (s.move i (.running .counted)).playing _ _ =
      partition.stored + (s.move i (.running .counted)).playing _ _
    omega
  · change fetchAdd partition.size + (s.move i (.running .counted)).playing _ _ +
      (s.move i (.running .counted)).playing _ _ ≤ _
    unfold awaited
    omega

/-- While a removal is to be counted, there is something to count. -/
theorem Reserved.size_pos (h : s.Reserved task.dispatch.partition partition) (hlocked : s.Locked)
    (hshaped : s.Shaped) (hget : s.tasks[i]? = some task) {id : PrimaryId}
    (hjob : task.dispatch.job = .remove id)
    (hstage : task.stage = .running .called ∨ task.stage = .running .counted) :
    0 < partition.size := by
  have hlive : task.stage.isLive := by rcases hstage with hstage | hstage <;> rw [hstage] <;> rfl
  have hnone : s.playing task.dispatch.partition .countAdded = 0 :=
    hlocked.playing_eq_zero hshaped (List.mem_of_getElem? hget) hlive
      (by rw [hjob]; exact Mode.noConfusion)
  have hremove : 0 < s.playing task.dispatch.partition .countRemoved :=
    playing_pos (List.mem_of_getElem? hget) ⟨rfl, by
      rw [hjob, Job.role, if_pos hstage]⟩
  have hcounted := h.counted
  omega

/-- A removal is counted in its partition. -/
theorem Reserved.removedFromPartition (h : s.Reserved task.dispatch.partition partition)
    (hlocked : s.Locked) (hshaped : s.Shaped) (hfits : s.TotalFits)
    (hpartition : s.arena[task.dispatch.partition]? = some partition)
    (hget : s.tasks[i]? = some task) {id : PrimaryId} (hjob : task.dispatch.job = .remove id)
    (hstage : task.stage = .running .counted) :
    ((s.setPartition task.dispatch.partition fun partition =>
      { partition with size := fetchSub partition.size }).move i (.running .processed)).Reserved
        task.dispatch.partition { partition with size := fetchSub partition.size } := by
  have hroles := playing_move_roles hget (.running .processed)
    (some .countRemoved) none (by rw [hjob, hstage]; rfl) (by rw [hjob]; rfl)
  have hadd : _ + 0 = _ + 0 := hroles .add
  have hcount : _ + 0 = _ + 0 := hroles .countAdded
  have hremove : _ + 1 = _ + 0 := hroles .countRemoved
  have hpos := h.size_pos hlocked hshaped hget hjob (Or.inr hstage)
  have hle := hlocked.playing_countRemoved_le hshaped task.dispatch.partition
  have hcounted := h.counted
  have htotal := stored_le_total hpartition
  have hfits := hfits partition.partitionId.indexId
  have hsize : fetchSub partition.size + 1 = partition.size := by
    unfold fetchSub
    omega
  refine h.change hget (by rw [hjob]; exact Mode.noConfusion) rfl rfl rfl rfl rfl rfl rfl ?_ ?_
  · unfold PartitionState.stored at hcounted ⊢
    dsimp only
    omega
  · unfold awaited
    dsimp only
    omega

/-- A closure moves on and leaves the other partitions as they are. -/
theorem Roomy.reserved_of_move (hs : s.Roomy) (hget : s.tasks[i]? = some task)
    {stage : Stage Progress} (hruntime : t.runtime = s.runtime)
    (htasks : t.tasks = s.tasks.modify i (Task.withStage stage))
    (hphase : t.phase = s.phase) {f : PartitionState → PartitionState}
    (harena : t.arena = s.arena.modify task.dispatch.partition f)
    (hself : ∀ partition, s.arena[task.dispatch.partition]? = some partition →
      t.Reserved task.dispatch.partition (f partition)) : t.Roomy where
  reserved b partition' hb := by
    have hb : (s.setPartition task.dispatch.partition f).arena[b]? = some partition' := by
      rw [setPartition, ← harena]
      exact hb
    rw [arena_setPartition] at hb
    split at hb
    · next heq =>
      subst heq
      obtain ⟨partition, hpartition, rfl⟩ := Option.map_eq_some_iff.mp hb
      exact hself partition hpartition
    · next hne =>
      exact (hs.reserved b partition' hb).move hget hruntime htasks (fun heq => absurd heq hne)
        fun d hd => hphase ▸ hd
  current := by
    rw [hphase]
    exact hs.current

/-- An addition that is pending finds room in the index. -/
theorem Reserved.stored_lt (h : s.Reserved task.dispatch.partition partition)
    (htask : task ∈ s.tasks) {id : PrimaryId} {v : Vector}
    (hjob : task.dispatch.job = .add id v) (hpending : isPending task.stage) :
    partition.stored < partition.idx.capacity := by
  have hadd : 0 < s.playing task.dispatch.partition .add :=
    playing_pos htask ⟨rfl, by rw [hjob, Job.role, if_pos hpending]⟩
  have hcounted := h.counted
  have hroom := h.room
  have hcapacity := h.capacity
  unfold awaited at hroom
  omega

/-- When the index behaves, the calls succeed. -/
theorem Roomy.succeeds (hs : s.Roomy) (hshaped : s.Shaped) (hsettled : s.Settled) {a : Action}
    (ha : Enabled s a) (hbehaves : s.Behaves a) : s.Succeeds a := by
  cases a with
  | call i outcome =>
    intro task hget
    obtain ⟨x, hx, hstage⟩ := stageOf_eq_some ha
    cases hget.symm.trans hx
    have htask : task ∈ s.tasks := List.mem_of_getElem? hget
    obtain ⟨partition, hpartition, -⟩ := (hshaped.tasks task htask).exists_partition
    have hbehaves := hbehaves task hget partition hpartition
    rw [contents_eq_lookup hpartition]
    cases hjob : task.dispatch.job with
    | add id v =>
      rw [hjob] at hbehaves
      have hpending : isPending task.stage := by
        rw [hstage]
        rfl
      exact hbehaves (hsettled.lookup_eq_none htask hpending hjob hpartition)
        ((hs.reserved _ partition hpartition).stored_lt htask hjob hpending)
    | remove id =>
      rw [hjob] at hbehaves
      exact hbehaves
    | reserve n => trivial
    | search => trivial
  | _ => trivial

/-- Every step keeps the partitions within their reservations. -/
theorem Roomy.step (hs : s.Roomy) (hshaped : s.Shaped) (hlocked : s.Locked) (hsettled : s.Settled)
    (hfits : s.TotalFits) {a : Action} (ha : Enabled s a) (hbehaves : s.Behaves a) :
    (Usearch.step s a).Roomy := by
  have hsucceeds := hs.succeeds hshaped hsettled ha hbehaves
  have heffect := hshaped.effect ha
  generalize Usearch.step s a = t at heffect
  cases heffect with
  | refused => exact hs
  | uncounted => exact hs
  | absent => exact ⟨fun b p hb => (hs.reserved b p hb).congr rfl (fun _ => rfl)
      fun _ hd _ _ => Or.inl hd, hs.current⟩
  | ended => exact ⟨fun b p hb => (hs.reserved b p hb).congr rfl (fun _ => rfl)
      fun _ hd _ _ => Or.inl hd, hs.current⟩
  | found hidle hpart hjob =>
    refine ⟨fun b p hb => (hs.reserved b p hb).congr rfl (fun _ => rfl) fun _ hd => (by cases hd), ?_⟩
    intro e he
    cases he
    exact hjob
  | @created p id v _ idxCapacity hidle hpart =>
    refine ⟨fun b partition hb => ?_, fun e he n => ?_⟩
    · have hb : (s.arena ++ [.new s.runtime p idxCapacity])[b]? = some partition := hb
      rw [List.getElem?_append] at hb
      split at hb
      · exact (hs.reserved b partition hb).congr rfl (fun _ => rfl) fun _ hd => by cases hd
      · next hlt =>
        have hlength := (List.getElem?_eq_some_iff.mp hb).1
        rw [List.length_singleton] at hlength
        have hb' : b = s.arena.length := by omega
        rw [hb', Nat.sub_self] at hb
        cases hb
        refine hshaped.reserved_new hb' ?_ ?_ ?_ p idxCapacity
        · exact fun _ => rfl
        · rfl
        · rfl
    · cases he
      exact Job.noConfusion
  | checkedLow hphase =>
    exact ⟨fun b p hb => (hs.reserved b p hb).congr rfl (fun _ => rfl) fun _ hd => (by cases hd),
      fun e he => hs.current e (by rw [hphase]; exact he)⟩
  | checked hphase hneeds =>
    refine ⟨fun b p hb => (hs.reserved b p hb).congr rfl (fun _ => rfl) fun e he hpartition hinsert
      => Or.inr ?_, fun e he => hs.current e (by rw [hphase]; exact he)⟩
    cases he
    exact (hs.reserved b p hb).room_of_check hshaped (by rw [hphase]; rfl) hb
      (hpartition ▸ hneeds hinsert)
  | permitReserve hphase =>
    exact ⟨fun b p hb => (hs.reserved b p hb).congr rfl (fun _ => rfl) fun _ hd => (by cases hd),
      fun e he => hs.current e (by rw [hphase]; exact he)⟩
  | rechecked hphase hneeds =>
    refine ⟨fun b p hb => (hs.reserved b p hb).congr rfl (fun _ => rfl) fun e he hpartition _
      => Or.inr ?_, fun e he => hs.current e (by rw [hphase]; exact he)⟩
    cases he
    exact (hs.reserved b p hb).room_of_check hshaped (by rw [hphase]; rfl) hb (hpartition ▸ hneeds)
  | recheckedLow hphase hneeds =>
    refine ⟨fun b p hb => (hs.reserved b p hb).pushReserve fun hpartition => ?_,
      fun e he => hs.current e (by rw [hphase]; exact he)⟩
    exact (hs.reserved b p hb).lt_of_needs hlocked hshaped hfits hb (hpartition ▸ hneeds)
  | permit hphase hadmits =>
    refine ⟨fun b p hb => (hs.reserved b p hb).pushMessage hlocked hshaped hphase hadmits ?_,
      fun e he => by cases he⟩
    exact hs.current _ (by rw [hphase]; rfl)
  | sentReserve hphase =>
    obtain ⟨task, hget, hstage⟩ := hshaped.sends (by rw [hphase]; rfl)
    refine ⟨fun b p hb => (hs.reserved b p hb).move hget rfl rfl (fun _ => ?_) fun e he => ?_,
      fun e he => hs.current e (by rw [hphase]; exact he)⟩
    · rw [hstage]
      cases task.dispatch.job <;> rfl
    · rw [hphase]
      exact he
  | sent hphase =>
    obtain ⟨task, hget, hstage⟩ := hshaped.sends (by rw [hphase]; rfl)
    refine ⟨fun b p hb => (hs.reserved b p hb).move hget rfl rfl (fun _ => ?_) fun e he => ?_,
      fun e he => by cases he⟩
    · rw [hstage]
      cases task.dispatch.job <;> rfl
    · cases he
  | @taken i task hget hstage =>
    refine ⟨fun b p hb => (hs.reserved b p hb).move hget rfl rfl (fun _ => ?_) fun _ he => he,
      hs.current⟩
    rw [hstage]
    cases task.dispatch.job <;> rfl
  | @called i outcome task hget hstage =>
    refine hs.reserved_of_move hget rfl rfl rfl rfl fun partition hpartition => ?_
    have htask := List.mem_of_getElem? hget
    refine (hs.reserved _ partition hpartition).called hget hstage
      (hbehaves task hget partition hpartition) (fun id v hjob => ?_) fun id v hjob => ?_
    · exact hsettled.lookup_eq_none htask (by rw [hstage]; rfl) hjob hpartition
    · have hcall := hsucceeds task hget
      rw [hjob] at hcall
      exact hcall
  | reserved hget hjob hstage =>
    exact hs.reserved_of_move hget rfl rfl rfl rfl fun partition hpartition =>
      (hs.reserved _ partition hpartition).stored hlocked hshaped hget hjob hstage
  | addedToPartition hget hjob hstage =>
    exact hs.reserved_of_move hget rfl rfl rfl rfl fun partition hpartition =>
      (hs.reserved _ partition hpartition).addedToPartition hlocked hshaped hfits hpartition hget
        hjob hstage
  | removedFromPartition hget hjob hstage =>
    exact hs.reserved_of_move hget rfl rfl rfl rfl fun partition hpartition =>
      (hs.reserved _ partition hpartition).removedFromPartition hlocked hshaped hfits hpartition hget
        hjob hstage
  | addedToIndex hget hjob hstage =>
    exact ⟨fun b p hb => (hs.reserved b p hb).move hget rfl rfl
      (fun _ => by rw [hjob, hstage]; rfl) fun _ he => he, hs.current⟩
  | removedFromIndex hget hjob hstage =>
    exact ⟨fun b p hb => (hs.reserved b p hb).move hget rfl rfl
      (fun _ => by rw [hjob, hstage]; rfl) fun _ he => he, hs.current⟩
  | @released i task hget hstage =>
    refine ⟨fun b p hb => (hs.reserved b p hb).move hget rfl rfl (fun _ => ?_) fun _ he => he,
      hs.current⟩
    rw [hstage]
    cases task.dispatch.job <;> rfl

end State

end Usearch

end VectorStore
