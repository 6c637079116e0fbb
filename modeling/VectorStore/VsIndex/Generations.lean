import VectorStore.Results.InOrder

/-!
# The generations of a partition

An actor drops a partition from its map when the partition ends, and creates another one when the
identifier is used again.  Searches and closures keep the partition that they were given.  A partition
is of one generation: every vector that is in it, or on its way to it, was added by a message before
which the identifier was ended as often as it had been when the partition was in the map.
-/

namespace VectorStore

/-- The number of times that a partition is ended. -/
def ends (p : PartitionId) (messages : List VsIndexModify) : ℕ :=
  messages.count (.removePartition p)

theorem ends_append (p : PartitionId) (messages messages' : List VsIndexModify) :
    ends p (messages ++ messages') = ends p messages + ends p messages' :=
  List.count_append

theorem ends_eq_zero_iff {p : PartitionId} {messages : List VsIndexModify} :
    ends p messages = 0 ↔ .removePartition p ∉ messages :=
  List.count_eq_zero

namespace Usearch

theorem received_receive (message : Message) (environment : Environment) :
    received [.receive message environment] = message.modifications :=
  List.append_nil _

namespace State

/-- Partitions keep their places when others are added. -/
theorem getElem?_grown {ids ids' : List PartitionId} (h : ids <+: ids') {a : ℕ} {p : PartitionId}
    (hid : ids[a]? = some p) : ids'[a]? = some p := by
  obtain ⟨added, rfl⟩ := h
  rw [List.getElem?_append_left (List.getElem?_eq_some_iff.mp hid).1, hid]

/-- A vector that is in a partition, or on its way to it. -/
inductive Carries (s : State) (a : ℕ) (id : PrimaryId) (v : Vector) : Prop
  | message (d : Dispatch) (hphase : d ∈ s.phase.dispatch) (hpart : d.partition = a)
      (hjob : d.job = .add id v)
  | closure (task : Task Dispatch Progress) (hmem : task ∈ s.tasks)
      (hpart : task.dispatch.partition = a) (hjob : task.dispatch.job = .add id v)
  | stored (hstored : s.contents (a, id) = some v)

variable {s t : State} {a : ℕ} {p : PartitionId} {id : PrimaryId} {v : Vector}

/-- What a state carries when it has the contents of another one, and no closures of its own. -/
theorem Carries.congr (h : t.Carries a id v)
    (hphase : ∀ d ∈ t.phase.dispatch, d.job = .add id v → d ∈ s.phase.dispatch)
    (htasks : ∀ task ∈ t.tasks, task.dispatch.job = .add id v →
      task.dispatch ∈ s.phase.dispatch ∨ ∃ task' ∈ s.tasks, task'.dispatch = task.dispatch)
    (hcontents : t.contents (a, id) = some v → s.contents (a, id) = some v) :
    s.Carries a id v := by
  cases h with
  | message d hd hpart hjob => exact .message d (hphase d hd hjob) hpart hjob
  | closure task hmem hpart hjob =>
    rcases htasks task hmem hjob with hd | ⟨task', hmem', heq⟩
    · exact .message task.dispatch hd hpart hjob
    · exact .closure task' hmem' (heq ▸ hpart) (heq ▸ hjob)
  | stored hstored => exact .stored (hcontents hstored)

/-- A closure at another stage has the same dispatch. -/
theorem exists_task_of_move {i : ℕ} {stage : Stage Progress} {task : Task Dispatch Progress}
    (h : task ∈ (s.move i stage).tasks) : ∃ task' ∈ s.tasks, task'.dispatch = task.dispatch := by
  obtain ⟨j, hj⟩ := List.getElem?_of_mem h
  rw [move, List.getElem?_modify] at hj
  obtain ⟨task', hget, heq⟩ := Option.map_eq_some_iff.mp hj
  refine ⟨task', List.mem_of_getElem? hget, ?_⟩
  rw [← heq]
  split <;> rfl

theorem contents_move (s : State) (i : ℕ) (stage : Stage Progress) :
    (s.move i stage).contents = s.contents := rfl

/-- What is carried is in a partition that exists, or on its way to one. -/
theorem Carries.exists_id (h : s.Carries a id v) (hs : s.Shaped) : ∃ p, s.ids[a]? = some p := by
  cases h with
  | message d hphase hpart hjob => exact ⟨d.partitionId, by rw [← hpart]; exact hs.current d hphase⟩
  | closure task hmem hpart hjob => exact ⟨task.dispatch.partitionId, by rw [← hpart]; exact hs.tasks task hmem⟩
  | stored hstored =>
    obtain ⟨partition, hget, -⟩ := Option.bind_eq_some_iff.mp hstored
    exact ⟨partition.partitionId, by rw [ids, List.getElem?_map, hget]; rfl⟩

/-- A new partition is empty. -/
theorem contents_of_append {runtime : Runtime} {idxCapacity : ℕ} {t : State}
    (harena : t.arena = s.arena ++ [.new runtime p idxCapacity])
    (h : t.contents (a, id) = some v) : s.contents (a, id) = some v := by
  obtain ⟨partition, hget, hlook⟩ := Option.bind_eq_some_iff.mp h
  rw [harena, List.getElem?_append] at hget
  split at hget
  · rw [contents, hget]
    exact hlook
  · obtain rfl := List.mem_singleton.mp (List.mem_of_getElem? hget)
    change AList.lookup id (∅ : AList fun _ : PrimaryId => Vector) = some v at hlook
    rw [AList.lookup_empty] at hlook
    cases hlook

/-- A closure that calls the index has added its own vector at most. -/
theorem contents_of_call {b : ℕ} {job : Job} {outcome : Outcome}
    (h : (s.setPartition b fun partition =>
      { partition with idx := (job.call outcome).1 partition.idx }).contents (a, id) = some v) :
    s.contents (a, id) = some v ∨ b = a ∧ job = .add id v := by
  rw [contents, arena_setPartition] at h
  split at h
  · next heq =>
    obtain ⟨partition', hget, hlook⟩ := Option.bind_eq_some_iff.mp h
    obtain ⟨partition, hpartition, rfl⟩ := Option.map_eq_some_iff.mp hget
    have hkept : partition.idx.stored.lookup id = some v → s.contents (a, id) = some v := by
      intro hv
      rw [contents, hpartition]
      exact hv
    dsimp only at hlook
    cases job with
    | add jd w =>
      cases outcome with
      | added =>
        have hlook : (partition.idx.stored.insert jd w).lookup id = some v := hlook
        rw [FiniteMap.lookup_insert_eq] at hlook
        split at hlook
        · next hid => exact Or.inr ⟨heq, by rw [hid, Option.some.inj hlook]⟩
        · exact Or.inl (hkept hlook)
      | _ => exact Or.inl (hkept hlook)
    | remove jd =>
      cases outcome with
      | removed found =>
        cases found with
        | true =>
          have hlook : (partition.idx.stored.erase jd).lookup id = some v := hlook
          rw [FiniteMap.lookup_erase_eq] at hlook
          split at hlook
          · cases hlook
          · exact Or.inl (hkept hlook)
        | false => exact Or.inl (hkept hlook)
      | _ => exact Or.inl (hkept hlook)
    | reserve capacity => cases outcome <;> exact Or.inl (hkept hlook)
    | search => cases outcome <;> exact Or.inl (hkept hlook)
  · exact Or.inl h

/-! ## Steps -/

/-- Partitions are only added. -/
theorem Shaped.ids_step (hs : s.Shaped) {action : Action} (ha : Enabled s action) :
    s.ids <+: (Usearch.step s action).ids := by
  have heffect := hs.effect ha
  generalize Usearch.step s action = t at heffect
  cases heffect with
  | @created q id v environment idxCapacity hidle hpart =>
    refine ⟨[q], ?_⟩
    rw [ids, ids, List.map_append, List.map_singleton]
    rfl
  | called | reserved | addedToPartition | removedFromPartition =>
    rw [ids_move, ids_setPartition]
    exact fun _ => rfl
  | _ => exact List.prefix_refl _

/-- A partition that was there before a step and is in the map afterwards was in the map before, and
was not ended. -/
theorem Shaped.lookup_of_step (hs : s.Shaped) {action : Action} (ha : Enabled s action)
    (hlt : a < s.ids.length) (hp : (Usearch.step s action).partitions.lookup p = some a) :
    s.partitions.lookup p = some a ∧ .removePartition p ∉ received [action] := by
  have heffect := hs.effect ha
  generalize Usearch.step s action = t at heffect hp
  cases heffect with
  | @refused message environment hrefusable =>
    refine ⟨hp, fun hmem => ?_⟩
    rw [received_receive] at hmem
    cases message with
    | search q => cases hmem
    | modify m =>
      obtain rfl := List.mem_singleton.mp hmem
      exact hrefusable
  | absent hpart => exact ⟨hp, by simp [received, Message.modifications]⟩
  | @ended q environment =>
    have hp : (s.partitions.erase q).lookup p = some a := hp
    rw [FiniteMap.lookup_erase_eq] at hp
    split at hp
    · cases hp
    · next hne => exact ⟨hp, by simp [received, Message.modifications, hne]⟩
  | @found message environment d hidle hpart hjob hmessage =>
    refine ⟨hp, fun hmem => ?_⟩
    rw [received_receive, hmessage] at hmem
    unfold Dispatch.messages at hmem
    cases hd : d.job <;> simp [hd] at hmem
  | @created q id v environment idxCapacity hidle hpart =>
    have hp : (s.partitions.insert q s.arena.length).lookup p = some a := hp
    rw [FiniteMap.lookup_insert_eq] at hp
    split at hp
    · rw [ids, List.length_map] at hlt
      exact absurd hlt (Option.some.inj hp ▸ lt_irrefl _)
    · exact ⟨hp, by simp [received, Message.modifications]⟩
  | _ => exact ⟨hp, List.not_mem_nil⟩

/-- What is carried after a step was carried before, or a message has added it to the partition in the
map. -/
theorem Shaped.carries_of_step (hs : s.Shaped) {action : Action} (ha : Enabled s action)
    (h : (Usearch.step s action).Carries a id v) :
    s.Carries a id v ∨ ∃ p, received [action] = [.addVector p id v] ∧
      (Usearch.step s action).partitions.lookup p = some a := by
  have heffect := hs.effect ha
  generalize Usearch.step s action = t at heffect h
  have hmoved : ∀ {i : ℕ} {stage : Stage Progress}, ∀ task ∈ (s.move i stage).tasks,
      task.dispatch.job = .add id v →
        task.dispatch ∈ s.phase.dispatch ∨ ∃ task' ∈ s.tasks, task'.dispatch = task.dispatch :=
    fun _ hmem _ => Or.inr (exists_task_of_move hmem)
  have hsame : ∀ task ∈ s.tasks, task.dispatch.job = .add id v →
      task.dispatch ∈ s.phase.dispatch ∨ ∃ task' ∈ s.tasks, task'.dispatch = task.dispatch :=
    fun task hmem _ => Or.inr ⟨task, hmem, rfl⟩
  cases heffect with
  | refused hrefusable => exact Or.inl h
  | absent hpart => exact Or.inl (h.congr (fun _ hd _ => hd) hsame fun hv => hv)
  | ended => exact Or.inl (h.congr (fun _ hd _ => hd) hsame fun hv => hv)
  | @found message environment d hidle hpart hjob hmessage =>
    cases h with
    | message d' hphase hpart' hjob' =>
      obtain rfl : d = d' := Option.some.inj hphase
      right
      refine ⟨d.partitionId, ?_, hpart' ▸ hpart⟩
      rw [received_receive, hmessage, Dispatch.messages, hjob']
    | closure task hmem hpart' hjob' => exact Or.inl (.closure task hmem hpart' hjob')
    | stored hstored => exact Or.inl (.stored hstored)
  | @created q jd w environment idxCapacity hidle hpart =>
    cases h with
    | message d' hphase hpart' hjob' =>
      obtain rfl := Option.some.inj hphase
      obtain ⟨rfl, rfl⟩ := Job.add.inj hjob'
      exact Or.inr ⟨q, rfl, hpart' ▸ AList.lookup_insert _⟩
    | closure task hmem hpart' hjob' => exact Or.inl (.closure task hmem hpart' hjob')
    | stored hstored => exact Or.inl (.stored (contents_of_append rfl hstored))
  | checkedLow hphase hadd hneeds | checked hphase hneeds | permitReserve hphase hadmits
  | rechecked hphase hneeds =>
    refine Or.inl (h.congr (fun d hd _ => ?_) hsame fun hv => hv)
    rw [hphase]
    exact hd
  | @recheckedLow d capacity hphase hneeds =>
    refine Or.inl (h.congr (fun d hd _ => ?_) (fun task hmem hjob => ?_) fun hv => hv)
    · rw [hphase]
      exact hd
    · rcases List.mem_append.mp hmem with hmem | hmem
      · exact hsame task hmem hjob
      · rw [List.mem_singleton.mp hmem] at hjob
        cases hjob
  | sentReserve hphase hslot =>
    refine Or.inl (h.congr (fun d hd _ => ?_) hmoved fun hv => hv)
    rw [hphase]
    exact hd
  | sent hphase hslot =>
    refine Or.inl (h.congr (fun d hd _ => ?_) hmoved fun hv => hv)
    cases hd
  | @permit d hphase hadmits =>
    refine Or.inl (h.congr (fun d hd _ => ?_) (fun task hmem hjob => ?_) fun hv => hv)
    · cases hd
    · rcases List.mem_append.mp hmem with hmem | hmem
      · exact hsame task hmem hjob
      · rw [List.mem_singleton.mp hmem, hphase]
        exact Or.inl rfl
  | taken hget hstage hworker => exact Or.inl (h.congr (fun _ hd _ => hd) hmoved fun hv => hv)
  | @called i outcome task hget hstage =>
    left
    cases h with
    | message d hphase hpart hjob => exact .message d hphase hpart hjob
    | closure task' hmem hpart hjob =>
      obtain ⟨task'', hmem'', heq⟩ := exists_task_of_move hmem
      exact .closure task'' hmem'' (heq ▸ hpart) (heq ▸ hjob)
    | stored hstored =>
      rcases contents_of_call hstored with hstored | ⟨hpart, hjob⟩
      · exact .stored hstored
      · exact .closure task (List.mem_of_getElem? hget) hpart hjob
  | uncounted => exact Or.inl h
  | reserved | addedToPartition | removedFromPartition =>
    refine Or.inl (h.congr (fun _ hd _ => hd) hmoved fun hv => ?_)
    rw [contents_move, contents_setPartition] at hv
    · exact hv
    · exact fun _ => rfl
  | addedToIndex | removedFromIndex =>
    exact Or.inl (h.congr (fun _ hd _ => hd) hmoved fun hv => hv)
  | released hget hstage => exact Or.inl (h.congr (fun _ hd _ => hd) hmoved fun hv => hv)

/-! ## Runs -/

/-- Each partition has a generation: the number of times that its identifier had been ended when it was
created.  The partition in the map is of the current generation, and what a partition carries was added
in its generation. -/
structure Dated (s : State) (messages : List VsIndexModify) (generation : ℕ → ℕ) : Prop where
  mapped : ∀ p a, s.partitions.lookup p = some a → generation a = ends p messages
  carried : ∀ p a id v, s.ids[a]? = some p → s.Carries a id v → ∃ before after,
    messages = before ++ .addVector p id v :: after ∧ ends p before = generation a

theorem dated_init (runtime : Runtime) : (init runtime).Dated [] fun _ => 0 where
  mapped p a h := by
    rw [show (init runtime).partitions = ∅ from rfl, AList.lookup_empty] at h
    cases h
  carried p a id v h := by
    rw [show (init runtime).ids = [] from rfl] at h
    cases h

/-- A step gives a generation to the partition that it creates, and keeps those of the others. -/
theorem Dated.step {messages : List VsIndexModify} {generation : ℕ → ℕ}
    (hd : s.Dated messages generation) (hs : s.Shaped) {action : Action} (ha : Enabled s action) :
    ∃ generation', (Usearch.step s action).Dated (messages ++ received [action]) generation' ∧
      ∀ a < s.ids.length, generation' a = generation a := by
  have ht : (Usearch.step s action).Shaped := hs.step ha
  let generation' : ℕ → ℕ := fun a =>
    if a < s.ids.length then generation a
    else (Usearch.step s action).ids[a]?.elim 0 fun p => ends p (messages ++ received [action])
  have hold : ∀ a < s.ids.length, generation' a = generation a := fun a hlt => if_pos hlt
  have hmapped : ∀ p a, (Usearch.step s action).partitions.lookup p = some a →
      generation' a = ends p (messages ++ received [action]) := by
    intro p a hp
    by_cases hlt : a < s.ids.length
    · obtain ⟨hbefore, hnot⟩ := hs.lookup_of_step ha hlt hp
      rw [hold a hlt, hd.mapped p a hbefore, ends_append, ends_eq_zero_iff.mpr hnot, Nat.add_zero]
    · change ite _ _ _ = _
      rw [if_neg hlt, ht.mapped p a hp, Option.elim_some]
  refine ⟨generation', ⟨hmapped, fun p a id v hid hcarries => ?_⟩, hold⟩
  rcases hs.carries_of_step ha hcarries with hcarries | ⟨q, hreceived, hq⟩
  · obtain ⟨q, hq⟩ := hcarries.exists_id hs
    have hlt : a < s.ids.length := (List.getElem?_eq_some_iff.mp hq).1
    have hqp := getElem?_grown (hs.ids_step ha) hq
    obtain rfl : q = p := Option.some.inj (hqp.symm.trans hid)
    obtain ⟨before, after, hmessages, hends⟩ := hd.carried q a id v hq hcarries
    exact ⟨before, after ++ received [action], by rw [hmessages]; simp, by rw [hends, hold a hlt]⟩
  · obtain rfl : q = p := Option.some.inj ((ht.mapped q a hq).symm.trans hid)
    refine ⟨messages, [], by rw [hreceived], ?_⟩
    have hzero : ends q [.addVector q id v] = 0 := ends_eq_zero_iff.mpr (by simp)
    rw [hmapped q a hq, hreceived, ends_append, hzero, Nat.add_zero]

/-- The generations of the partitions that there are at the start of a run stay. -/
theorem Dated.run {messages : List VsIndexModify} {generation : ℕ → ℕ}
    (hd : s.Dated messages generation) (hs : s.Shaped) {as : List Action}
    (has : Machine.Along Usearch.step Enabled s as) :
    ∃ generation', (Machine.run Usearch.step s as).Dated (messages ++ received as) generation' ∧
      (∀ a < s.ids.length, generation' a = generation a) ∧
        s.ids <+: (Machine.run Usearch.step s as).ids := by
  induction as generalizing s messages generation with
  | nil =>
    refine ⟨generation, ?_, fun a hlt => rfl, List.prefix_refl _⟩
    rw [show received [] = [] from rfl, List.append_nil]
    exact hd
  | cons action as ih =>
    obtain ⟨generation', hd', hkept⟩ := hd.step hs has.1
    obtain ⟨generation'', hd'', hkept', hgrown⟩ := ih hd' (hs.step has.1) has.2
    have hgrow := hs.ids_step has.1
    rw [List.append_assoc, ← received_cons] at hd''
    refine ⟨generation'', hd'', fun a hlt => ?_, hgrow.trans hgrown⟩
    rw [hkept' a (hlt.trans_le hgrow.length_le), hkept a hlt]

/-- What a partition holds was added by a message in front of which the identifier of the partition
was ended as often as it had been at any time that the partition was in the map. -/
theorem generation_of_run {runtime : Runtime} {as as' : List Action}
    (has : Machine.Along Usearch.step Enabled (init runtime) (as ++ as'))
    (hp : (Machine.run Usearch.step (init runtime) as).partitions.lookup p = some a)
    (hv : (Machine.run Usearch.step (init runtime) (as ++ as')).contents (a, id) = some v) :
    ∃ before after, received (as ++ as') = before ++ .addVector p id v :: after ∧
      ends p before = ends p (received as) := by
  obtain ⟨hfirst, hsecond⟩ := Machine.along_append.mp has
  obtain ⟨generation, hd, -⟩ := (dated_init runtime).run (shaped_init runtime) hfirst
  have hshaped := @Machine.run_invariant_of_along _ _ Usearch.step State.Shaped Enabled
    (fun _ _ hs ha => hs.step ha) _ (shaped_init runtime) as hfirst
  obtain ⟨generation', hd', hkept, hgrown⟩ := hd.run hshaped hsecond
  have hid := hshaped.mapped p a hp
  have hlt : a < (Machine.run Usearch.step (init runtime) as).ids.length :=
    (List.getElem?_eq_some_iff.mp hid).1
  rw [Machine.run_append] at hv
  obtain ⟨before, after, hmessages, hends⟩ :=
    hd'.carried p a id v (getElem?_grown hgrown hid) (.stored hv)
  rw [List.nil_append] at hmessages hd
  refine ⟨before, after, ?_, ?_⟩
  · rw [← hmessages, received, received, received, List.flatMap_append]
  · rw [hends, hkept a hlt, hd.mapped p a hp]

end State

end Usearch

end VectorStore
