import VectorStore.VsIndex.Steps

/-!
# Permits of the closures

The closures of an index that have not ended, and the actor between its permit to reserve and the
closure it is for, are the holders of the lock of the index.  So all closures on their way work in
one mode, and a removal or a reservation is alone.
-/

namespace VectorStore

namespace Usearch

/-- The permit a closure holds at an index. -/
def holds (indexId : IndexId) (t : Task Dispatch Progress) : Option Mode :=
  if t.stage.isLive ∧ t.dispatch.indexId = indexId then some t.dispatch.job.mode else none

/-- The permit the actor itself holds at an index. -/
def Phase.holds (indexId : IndexId) : Phase → Multiset Mode
  | .recheck d => if d.indexId = indexId then {.reserve} else 0
  | .idle | .check _ | .reserve _ | .sendReserve _ | .permit _ | .send => 0

namespace State

variable {s t : State} {i : ℕ} {task : Task Dispatch Progress} {ix : IndexId}

/-- The modes of the outstanding permits of an index. -/
def held (s : State) (indexId : IndexId) : Multiset Mode :=
  s.phase.holds indexId + (s.tasks : Multiset (Task Dispatch Progress)).filterMap (holds indexId)

/-- The locks of the indexes guard the permits of the closures. -/
def Locked (s : State) : Prop :=
  ∀ ix state, s.states.lookup ix = some state →
    state.operation.Guards Mode.isExclusive (s.held ix)

/-- The tasks around one of them, before and after it moves on. -/
theorem tasks_move (hget : s.tasks[i]? = some task) :
    ∃ rest : Multiset (Task Dispatch Progress), (s.tasks : Multiset _) = task ::ₘ rest ∧
      ∀ f : Task Dispatch Progress → Task Dispatch Progress,
        (s.tasks.modify i f : Multiset _) = f task ::ₘ rest := by
  obtain ⟨ys, zs, htasks, hmodify⟩ := modify_split hget
  refine ⟨(ys ++ zs : List _), ?_, fun f => ?_⟩
  · rw [htasks]
    exact Multiset.coe_eq_coe.mpr List.perm_middle
  · rw [hmodify]
    exact Multiset.coe_eq_coe.mpr List.perm_middle

/-- A closure that is on its way before and after a step holds the same permit. -/
theorem filterMap_holds_move (hget : s.tasks[i]? = some task) (hlive : task.stage.isLive)
    {stage : Stage Progress} (hstage : stage.isLive) (indexId : IndexId) :
    (s.tasks.modify i (Task.withStage stage) : Multiset _).filterMap (holds indexId) =
      (s.tasks : Multiset _).filterMap (holds indexId) := by
  obtain ⟨rest, htasks, hmodify⟩ := tasks_move hget
  have hsame : holds indexId (task.withStage stage) = holds indexId task := by
    simp only [holds, Task.stage_withStage, Task.dispatch_withStage, hstage, hlive]
  rw [htasks, hmodify, Multiset.filterMap_cons, Multiset.filterMap_cons, hsame]

/-- The permits and the locks are as before. -/
theorem Locked.congr (hs : s.Locked) (hheld : ∀ ix, t.held ix = s.held ix)
    (hstates : ∀ ix state, t.states.lookup ix = some state →
      ∃ old, s.states.lookup ix = some old ∧ state.operation = old.operation) : t.Locked := by
  intro ix state hstate
  obtain ⟨old, hold, hoperation⟩ := hstates ix state hstate
  rw [hheld, hoperation]
  exact hs ix old hold

/-- A permit is handed out. -/
theorem Locked.acquire (hs : s.Locked) {mode : Mode} (hadmits : s.Admits ix mode)
    (hstates : t.states = (s.setOperation ix (·.acquire mode)).states)
    (hself : t.held ix = mode ::ₘ s.held ix) (hother : ∀ jx, jx ≠ ix → t.held jx = s.held jx) :
    t.Locked := by
  intro jx state hstate
  rw [hstates, lookup_setOperation] at hstate
  split at hstate
  · next heq =>
    subst heq
    obtain ⟨old, hold, rfl⟩ := Option.map_eq_some_iff.mp hstate
    rw [hself]
    exact (hs jx old hold).acquire (hadmits old hold)
  · next hne =>
    rw [hother jx hne]
    exact hs jx state hstate

/-- A permit is dropped. -/
theorem Locked.release (hs : s.Locked) (mode : Mode)
    (hstates : t.states = (s.setOperation ix ModeLock.release).states)
    (hself : s.held ix = mode ::ₘ t.held ix) (hother : ∀ jx, jx ≠ ix → t.held jx = s.held jx) :
    t.Locked := by
  intro jx state hstate
  rw [hstates, lookup_setOperation] at hstate
  split at hstate
  · next heq =>
    subst heq
    obtain ⟨old, hold, rfl⟩ := Option.map_eq_some_iff.mp hstate
    have hguards := hs jx old hold
    rw [hself] at hguards
    exact hguards.release
  · next hne =>
    rw [hother jx hne]
    exact hs jx state hstate

/-- A closure that holds a permit is created. -/
theorem filterMap_holds_push (d : Dispatch) (indexId : IndexId) :
    ((s.tasks ++ [⟨d, .sending⟩] : List _) : Multiset _).filterMap (holds indexId) =
      (if d.indexId = indexId then {d.job.mode} else 0) +
        (s.tasks : Multiset _).filterMap (holds indexId) := by
  have hcons : ((s.tasks ++ [⟨d, .sending⟩] : List (Task Dispatch Progress)) : Multiset _) =
      (⟨d, .sending⟩ : Task Dispatch Progress) ::ₘ (s.tasks : Multiset _) :=
    Multiset.coe_eq_coe.mpr (List.perm_append_singleton _ _)
  rw [hcons, Multiset.filterMap_cons]
  congr 1
  unfold holds
  by_cases h : d.indexId = indexId
  · rw [if_pos ⟨rfl, h⟩, if_pos h]
    rfl
  · rw [if_neg fun hc => h hc.2, if_neg h]
    rfl

/-- A closure moves on and keeps its permit. -/
theorem Locked.keep (hs : s.Locked) {stage : Stage Progress} (hget : s.tasks[i]? = some task)
    (hlive : task.stage.isLive) (hstage : stage.isLive)
    (hphase : ∀ ix, t.phase.holds ix = s.phase.holds ix)
    (htasks : t.tasks = s.tasks.modify i (Task.withStage stage))
    (hstates : ∀ ix state, t.states.lookup ix = some state →
      ∃ old, s.states.lookup ix = some old ∧ state.operation = old.operation) : t.Locked := by
  refine hs.congr (fun ix => ?_) hstates
  rw [held, held, hphase, htasks, filterMap_holds_move hget hlive hstage]

/-- A change of the size leaves the operation alone. -/
theorem operation_setSize (indexId : IndexId) (f : ℕ → ℕ) (ix : IndexId) (state : IndexState)
    (h : (s.setSize indexId f).states.lookup ix = some state) :
    ∃ old, s.states.lookup ix = some old ∧ state.operation = old.operation := by
  rw [lookup_setSize] at h
  split at h
  · obtain ⟨old, hold, rfl⟩ := Option.map_eq_some_iff.mp h
    exact ⟨old, hold, rfl⟩
  · exact ⟨state, h, rfl⟩

/-- Nobody holds a permit of an index without a state. -/
theorem Shaped.held_eq_zero (hs : s.Shaped) (hidle : s.phase = .idle)
    (hnone : s.states.lookup ix = none) : s.held ix = 0 := by
  rw [held, hidle, Phase.holds, zero_add]
  refine Multiset.eq_zero_of_forall_notMem fun mode hmem => ?_
  obtain ⟨task, htask, hholds⟩ := (Multiset.mem_filterMap _ _).mp hmem
  unfold holds at hholds
  split at hholds
  · next h =>
    have hknown := hs.states _ (List.mem_of_getElem? (hs.tasks task htask))
    have hindex : task.dispatch.partitionId.indexId = ix := h.2
    rw [hindex, hnone] at hknown
    cases hknown
  · cases hholds

/-- Every step keeps the locks. -/
theorem Locked.step (hs : s.Locked) (hshaped : s.Shaped) {a : Action} (ha : Enabled s a) :
    (step s a).Locked := by
  have hsame : ∀ (ix : IndexId) (state : IndexState), s.states.lookup ix = some state →
      ∃ old, s.states.lookup ix = some old ∧ state.operation = old.operation :=
    fun _ state h => ⟨state, h, rfl⟩
  have heffect := hshaped.effect ha
  generalize Usearch.step s a = t at heffect
  cases heffect with
  | refused => exact hs
  | uncounted => exact hs
  | absent => exact hs.congr (fun _ => rfl) hsame
  | ended => exact hs.congr (fun _ => rfl) hsame
  | found hidle => exact hs.congr (fun _ => by simp only [held, hidle, Phase.holds]) hsame
  | @created p id v _ idxCapacity hidle hpart =>
    intro ix state hstate
    have hheld : s.held ix = 0 + (s.tasks : Multiset _).filterMap (holds ix) := by
      rw [held, hidle]
      rfl
    change state.operation.Guards _ (0 + (s.tasks : Multiset _).filterMap (holds ix))
    rw [← hheld]
    change (s.states.insert p.indexId _).lookup ix = some state at hstate
    rw [FiniteMap.lookup_insert_eq] at hstate
    split at hstate
    · next heq =>
      rw [← heq] at hstate
      cases hold : s.states.lookup ix with
      | some old =>
        rw [hold] at hstate
        cases hstate
        exact hs ix old hold
      | none =>
        rw [hold] at hstate
        cases hstate
        rw [hshaped.held_eq_zero hidle hold]
        exact ModeLock.guards_zero rfl
    · exact hs ix state hstate
  | checkedLow hphase => exact hs.congr (fun _ => by simp only [held, hphase, Phase.holds]) hsame
  | checked hphase => exact hs.congr (fun _ => by simp only [held, hphase, Phase.holds]) hsame
  | @permitReserve d hphase hadmits =>
    refine hs.acquire hadmits rfl ?_ fun jx hne => ?_
    · simp only [held, hphase, Phase.holds, if_pos, setOperation, zero_add,
        Multiset.singleton_add]
    · simp only [held, hphase, Phase.holds, if_neg (Ne.symm hne), setOperation]
  | @recheckedLow d capacity hphase hneeds =>
    refine hs.congr (fun ix => ?_) hsame
    have hpush := filterMap_holds_push (s := s) { d with job := .reserve capacity } ix
    simp only [held, hphase, Phase.holds, push, zero_add, hpush]
    rfl
  | @rechecked d hphase hneeds =>
    refine hs.release .reserve rfl ?_ fun jx hne => ?_
    · simp only [held, hphase, Phase.holds, if_pos, setOperation, zero_add,
        Multiset.singleton_add]
    · simp only [held, hphase, Phase.holds, if_neg (Ne.symm hne), setOperation]
  | sentReserve hphase =>
    obtain ⟨task, hget, hstage⟩ := hshaped.sends (by rw [hphase]; rfl)
    exact hs.keep hget (by rw [hstage]; rfl) rfl (fun _ => by rw [hphase]; rfl) rfl hsame
  | sent hphase =>
    obtain ⟨task, hget, hstage⟩ := hshaped.sends (by rw [hphase]; rfl)
    exact hs.keep hget (by rw [hstage]; rfl) rfl (fun _ => by rw [hphase]; rfl) rfl hsame
  | @permit d hphase hadmits =>
    have hpush := filterMap_holds_push (s := s) d
    refine hs.acquire hadmits rfl ?_ fun jx hne => ?_
    · simp only [held, hphase, Phase.holds, push, setOperation, zero_add, hpush, if_pos,
        Multiset.singleton_add]
    · simp only [held, hphase, Phase.holds, push, setOperation, zero_add, hpush,
        if_neg (Ne.symm hne)]
  | taken hget hstage =>
    exact hs.keep hget (by rw [hstage]; rfl) rfl (fun _ => rfl) rfl hsame
  | called hget hstage =>
    exact hs.keep hget (by rw [hstage]; rfl) rfl (fun _ => rfl) rfl hsame
  | reserved hget hjob hstage =>
    exact hs.keep hget (by rw [hstage]; rfl) rfl (fun _ => rfl) rfl hsame
  | addedToPartition hget hjob hstage =>
    exact hs.keep hget (by rw [hstage]; rfl) rfl (fun _ => rfl) rfl hsame
  | removedFromPartition hget hjob hstage =>
    exact hs.keep hget (by rw [hstage]; rfl) rfl (fun _ => rfl) rfl hsame
  | addedToIndex hget hjob hstage =>
    exact hs.keep hget (by rw [hstage]; rfl) rfl (fun _ => rfl) rfl (operation_setSize _ _)
  | removedFromIndex hget hjob hstage =>
    exact hs.keep hget (by rw [hstage]; rfl) rfl (fun _ => rfl) rfl (operation_setSize _ _)
  | @released i task hget hstage =>
    obtain ⟨rest, htasks, hmodify⟩ := tasks_move hget
    refine hs.release task.dispatch.job.mode rfl ?_ fun jx hne => ?_
    · have hbefore : holds task.dispatch.indexId task = some task.dispatch.job.mode :=
        if_pos ⟨by rw [hstage]; rfl, rfl⟩
      have hafter : holds task.dispatch.indexId (task.withStage .finished) = none :=
        if_neg fun h => by cases h.1
      simp only [held, move, setOperation, hmodify, htasks,
        Multiset.filterMap_cons_some _ _ _ hbefore, Multiset.filterMap_cons_none _ _ hafter,
        Multiset.add_cons]
    · have hbefore : holds jx task = none := if_neg fun h => hne h.2.symm
      have hafter : holds jx (task.withStage .finished) = none := if_neg fun h => hne h.2.symm
      simp only [held, move, setOperation, hmodify, htasks,
        Multiset.filterMap_cons_none _ _ hbefore, Multiset.filterMap_cons_none _ _ hafter]

/-! ## What the locks say about the closures -/

theorem locked_init (runtime : Runtime) : (init runtime).Locked := by
  intro ix state h
  rw [show (init runtime).states = ∅ from rfl, AList.lookup_empty] at h
  cases h

/-- A closure on its way holds a permit. -/
theorem mem_held (htask : task ∈ s.tasks) (hlive : task.stage.isLive) :
    task.dispatch.job.mode ∈ s.held task.dispatch.indexId :=
  Multiset.mem_add.mpr (Or.inr ((Multiset.mem_filterMap _ _).mpr
    ⟨task, htask, if_pos ⟨hlive, rfl⟩⟩))

/-- The closures on their way have the state of their index. -/
theorem Shaped.exists_state (hs : s.Shaped) {d : Dispatch} (hd : s.Knows d) :
    ∃ state, s.states.lookup d.indexId = some state :=
  Option.isSome_iff_exists.mp (hs.states _ (List.mem_of_getElem? hd))

/-- A removal or a reservation on its way is alone at its index. -/
theorem Locked.alone (hs : s.Locked) (hshaped : s.Shaped)
    {rest : Multiset (Task Dispatch Progress)} (htasks : (s.tasks : Multiset _) = task ::ₘ rest)
    (hlive : task.stage.isLive) (hexclusive : task.dispatch.job.mode.isExclusive) :
    ∀ t ∈ rest, t.dispatch.indexId = task.dispatch.indexId → t.stage.isLive = false := by
  have htask : task ∈ s.tasks := Multiset.mem_coe.mp (htasks ▸ Multiset.mem_cons_self task rest)
  obtain ⟨state, hstate⟩ := hshaped.exists_state (hshaped.tasks task htask)
  have hguards := hs _ state hstate
  have hself : holds task.dispatch.indexId task = some task.dispatch.job.mode :=
    if_pos ⟨hlive, rfl⟩
  rw [held, htasks, Multiset.filterMap_cons_some _ _ _ hself, Multiset.add_cons] at hguards
  have hzero := hguards.eq_zero_of_exclusive hexclusive
  intro t ht hindex
  by_contra hne
  have hmem : t.dispatch.job.mode ∈ rest.filterMap (holds task.dispatch.indexId) :=
    (Multiset.mem_filterMap _ _).mpr ⟨t, ht, if_pos ⟨by simpa using hne, hindex⟩⟩
  have hheld : t.dispatch.job.mode ∈ s.phase.holds task.dispatch.indexId +
      rest.filterMap (holds task.dispatch.indexId) := Multiset.mem_add.mpr (Or.inr hmem)
  rw [hzero] at hheld
  exact absurd hheld (Multiset.notMem_zero _)

/-- No more than one removal or reservation of an index is on its way. -/
theorem Locked.countP_le_one (hs : s.Locked) (hshaped : s.Shaped)
    {p : Task Dispatch Progress → Bool}
    (hexclusive : ∀ x, p x → x.stage.isLive ∧ x.dispatch.job.mode.isExclusive)
    (hindex : ∀ x ∈ s.tasks, ∀ y ∈ s.tasks, p x → p y →
      y.dispatch.indexId = x.dispatch.indexId) : s.tasks.countP p ≤ 1 := by
  by_cases hex : ∃ x ∈ s.tasks, p x
  case neg =>
    push Not at hex
    rw [List.countP_eq_zero.mpr hex]
    exact Nat.zero_le 1
  case pos =>
    obtain ⟨x, hx, hpx⟩ := hex
    obtain ⟨hlive, hmode⟩ := hexclusive x hpx
    obtain ⟨i, hget⟩ := List.getElem?_of_mem hx
    obtain ⟨ys, zs, htasks, -⟩ := modify_split hget
    have hperm : (s.tasks : Multiset _) = x ::ₘ ((ys ++ zs : List _) : Multiset _) := by
      rw [htasks]
      exact Multiset.coe_eq_coe.mpr List.perm_middle
    have hrest : (ys ++ zs).countP p = 0 := by
      refine List.countP_eq_zero.mpr fun y hy hpy => ?_
      have hmem : y ∈ s.tasks := by
        rw [htasks, List.mem_append, List.mem_cons]
        exact (List.mem_append.mp hy).imp_right Or.inr
      have hdead := hs.alone hshaped hperm hlive hmode y (Multiset.mem_coe.mpr hy)
        (hindex x hx y hmem hpx hpy)
      rw [(hexclusive y hpy).1] at hdead
      cases hdead
    rw [htasks, List.countP_append, List.countP_cons_of_pos hpx]
    rw [List.countP_append] at hrest
    omega

/-- Closures of one index on their way work in one mode. -/
theorem Locked.mode_eq (hs : s.Locked) (hshaped : s.Shaped) {t : Task Dispatch Progress}
    (htask : task ∈ s.tasks) (hlive : task.stage.isLive) (ht : t ∈ s.tasks)
    (htlive : t.stage.isLive) (hindex : t.dispatch.indexId = task.dispatch.indexId) :
    t.dispatch.job.mode = task.dispatch.job.mode := by
  obtain ⟨state, hstate⟩ := hshaped.exists_state (hshaped.tasks task htask)
  have hguards := hs _ state hstate
  have hmem := mem_held ht htlive
  rw [hindex] at hmem
  exact (hguards.issued _ hmem).trans (hguards.issued _ (mem_held htask hlive)).symm

/-- A permit that is about to be handed out meets closures of its mode only, and none when the mode
is exclusive. -/
theorem Locked.mode_of_admits (hs : s.Locked) (hshaped : s.Shaped) {mode : Mode}
    (hadmits : s.Admits ix mode) (htask : task ∈ s.tasks) (hlive : task.stage.isLive)
    (hindex : task.dispatch.indexId = ix) :
    task.dispatch.job.mode = mode ∧ mode.isExclusive = false := by
  obtain ⟨state, hstate⟩ := hshaped.exists_state (hshaped.tasks task htask)
  rw [hindex] at hstate
  refine (hs _ state hstate).mode_eq_of_admits (hadmits state hstate) _ ?_
  exact hindex ▸ mem_held htask hlive

end State

end Usearch

end VectorStore
