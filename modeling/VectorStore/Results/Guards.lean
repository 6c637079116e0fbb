import VectorStore.FtsIndex.Guards

/-!
# In-progress guards of a full-text index

In every run of the full-text actor, with commits, reloads and ticks in any order, a guard that was
handed in is held in exactly one place until it may be dropped.  A commit or a reload that fails drops
none, and a tick with nothing on its way and a guard still held starts a commit or asks for a reload.
-/

namespace VectorStore

namespace Tantivy

namespace State

variable {s : State}

theorem sound_init (runtime : Runtime) (commitThreshold : ℕ) :
    (init runtime commitThreshold).Sound where
  guarded := ⟨List.nodup_nil, (by rintro _ ⟨⟩), fun _ h => absurd h (Nat.not_lt_zero _)⟩
  ordered :=
    ⟨by rintro _ ⟨⟩, List.nodup_nil, by rintro _ ⟨⟩, rfl, by rintro _ ⟨⟩, le_refl _, by rintro _ ⟨⟩,
      Or.inl rfl⟩

/-- What a step does to the guards and to the opstamps. -/
theorem Sound.effect (hs : s.Sound) {a : Action} {t : State} (heffect : Effect s a t) :
    (∃ new dropped, Passage s t new dropped) ∧ t.Ordered := by
  cases heffect with
  | @dispatched message environment =>
    have hextends : Extends s ({ s with created := true, guards := s.guards + 1 }.dispatch
        (.operate s.guards message)) := .of_eq rfl rfl
    refine ⟨⟨[s.guards], [], fun g => ?_, Or.inr ⟨rfl, rfl⟩, (by rintro _ ⟨⟩), hextends⟩,
      hs.ordered.stay [.operate s.guards message] rfl
        ⟨rfl, rfl, rfl, rfl, rfl, List.Subset.refl _, rfl, rfl, rfl⟩⟩
    rw [count_held, count_held]
    have hcount : ((s.tasks ++ [(⟨.operate s.guards message, .sending⟩ : Task Job Progress)]).flatMap
        guardsOf).count g = (s.tasks.flatMap guardsOf).count g + List.count g [s.guards] := by
      rw [List.flatMap_append, List.count_append]
      rfl
    change ((s.tasks ++ [_]).flatMap guardsOf).count g +
      s.writer.uncommittedDocsInProgressGuards.count g + s.unsearchable.count g + 0 = _
    rw [hcount]
    omega
  | @refused message environment created =>
    have hextends : Extends s (refuse { s with created }) :=
      ⟨List.subset_cons_self _ _, List.Subset.refl _, List.Subset.refl _, le_refl _⟩
    refine ⟨⟨[s.guards], [s.guards], fun g => rfl, Or.inr ⟨rfl, rfl⟩, fun g hg => ?_, hextends⟩,
      hs.ordered.stay [] (List.append_nil _).symm
        ⟨rfl, rfl, rfl, rfl, rfl, hextends.refused, rfl, rfl, rfl⟩⟩
    rw [List.mem_singleton.mp hg]
    exact Or.inl List.mem_cons_self
  | ticked =>
    exact ⟨⟨[], [], .same [⟨.commit, .sending⟩] rfl rfl rfl rfl rfl (.of_eq rfl rfl)⟩,
      hs.ordered.stay [.commit] rfl ⟨rfl, rfl, rfl, rfl, rfl, List.Subset.refl _, rfl, rfl, rfl⟩⟩
  | responded =>
    exact ⟨⟨[], [], .same [⟨.reload, .sending⟩] rfl rfl rfl rfl rfl (.of_eq rfl rfl)⟩,
      hs.ordered.stay [.reload] rfl ⟨rfl, rfl, rfl, rfl, rfl, List.Subset.refl _, rfl, rfl, rfl⟩⟩
  | checking | missing | checked | notified | resumed =>
    exact ⟨⟨[], [], .same [] (List.append_nil _).symm rfl rfl rfl rfl (.of_eq rfl rfl)⟩,
      hs.ordered.stay [] (List.append_nil _).symm
        ⟨rfl, rfl, rfl, rfl, rfl, List.Subset.refl _, rfl, rfl, rfl⟩⟩
  | @sent i job hget =>
    have hsame : guardsOf ⟨job, .queued⟩ = guardsOf ⟨job, .sending⟩ := by cases job <;> rfl
    exact And.imp_left (fun h => ⟨[], [], h⟩)
      (hs.moved ⟨rfl, rfl, rfl, rfl, rfl, List.Subset.refl _, rfl, rfl, rfl⟩ rfl hget rfl hsame
        trivial rfl)
  | @taken i job hget =>
    have hsame : guardsOf ⟨job, .running job.start⟩ = guardsOf ⟨job, .queued⟩ ∧
        (s.move i (.running job.start)).Fits (.running job.start) ∧
        stampsOf ⟨job, .running job.start⟩ = [] := by
      cases job <;> exact ⟨rfl, trivial, rfl⟩
    exact And.imp_left (fun h => ⟨[], [], h⟩)
      (hs.moved ⟨rfl, rfl, rfl, rfl, rfl, List.Subset.refl _, rfl, rfl, rfl⟩ rfl hget rfl hsame.1
        hsame.2.1 hsame.2.2)
  | @loaded i job hget =>
    have hsame : guardsOf ⟨job, .running (.reloading s.metas.opstamp)⟩ =
        guardsOf ⟨job, .running .loading⟩ := by cases job <;> rfl
    exact And.imp_left (fun h => ⟨[], [], h⟩)
      (hs.moved ⟨rfl, rfl, rfl, rfl, rfl, List.Subset.refl _, rfl, rfl, rfl⟩ rfl hget rfl hsame
        (le_refl _) rfl)
  | @finished i job hget =>
    have hsame : guardsOf ⟨job, .finished⟩ = guardsOf ⟨job, .running .done⟩ := by cases job <;> rfl
    exact And.imp_left (fun h => ⟨[], [], h⟩)
      (hs.moved ⟨rfl, rfl, rfl, rfl, rfl, List.Subset.refl _, rfl, rfl, rfl⟩ rfl hget rfl hsame
        trivial rfl)
  | operated hget =>
    exact And.imp_left (fun h => ⟨[], [], h⟩)
      (hs.operated hget ⟨_, afterOperation_eq .., rfl⟩ rfl rfl rfl rfl rfl rfl)
  | @unoperated i guard message hget =>
    obtain ⟨stage', hstage', heq⟩ : ∃ stage', (stage' = .committing ∨ stage' = .done) ∧
        s.afterOperation s.writer = stage' := ⟨_, afterOperation_eq .., rfl⟩
    rw [heq]
    have hempty : guardsOf ⟨.operate guard message, .running stage'⟩ = [] ∧
        stampsOf ⟨.operate guard message, .running stage'⟩ = [] ∧
        ∀ t : State, t.Fits (.running stage') := by
      rcases hstage' with rfl | rfl <;> exact ⟨rfl, rfl, fun _ => trivial⟩
    refine ⟨⟨[], [guard], fun g => ?_, Or.inl ⟨rfl, rfl⟩, fun g hg => ?_,
      List.subset_cons_self _ _, List.Subset.refl _, List.Subset.refl _, le_refl _⟩,
      hs.ordered.move ⟨rfl, rfl, rfl, rfl, rfl, List.subset_cons_self _ _, rfl, rfl, rfl⟩ hget rfl
        (hempty.2.2 _) hempty.2.1⟩
    · have hmove := count_guardsOf_modify hget (.running stage') g
      rw [hempty.1] at hmove
      change _ + List.count g [guard] = _ + 0 at hmove
      rw [count_held, count_held]
      change ((s.tasks.modify i _).flatMap guardsOf).count g +
        s.writer.uncommittedDocsInProgressGuards.count g + s.unsearchable.count g + _ = _ + 0
      omega
    · rw [List.mem_singleton.mp hg]
      exact Or.inl List.mem_cons_self
  | saved hget hunlocked hopstamp =>
    exact And.imp_left (fun h => ⟨[], [], h⟩) (hs.saved hget hopstamp)
  | committed hget =>
    exact And.imp_left (fun h => ⟨[], [], h⟩) (hs.committed hget rfl rfl rfl rfl rfl rfl rfl)
  | handed hget =>
    exact And.imp_left (fun h => ⟨[], h⟩) (hs.handed hget rfl rfl rfl rfl rfl rfl rfl)
  | reloaded hget =>
    exact And.imp_left (fun h => ⟨[], [], h⟩) (hs.reloaded hget rfl rfl rfl rfl rfl rfl rfl)
  | @stored i job result hget =>
    cases result with
    | some o => exact And.imp_left (fun h => ⟨[], h⟩) (hs.stored hget rfl rfl rfl rfl rfl rfl rfl)
    | none =>
      exact And.imp_left (fun h => ⟨[], [], h⟩) (hs.failed (.stored hget) (stageOf_eq hget))
  | uncommitted hget hprogress =>
    exact And.imp_left (fun h => ⟨[], [], h⟩) (hs.failed (.uncommitted hget hprogress) rfl)
  | unloaded hget =>
    exact And.imp_left (fun h => ⟨[], [], h⟩) (hs.failed (.unloaded hget) rfl)
  | unreloaded hget =>
    exact And.imp_left (fun h => ⟨[], [], h⟩) (hs.failed (.unreloaded hget) rfl)

/-- Every step keeps the guards. -/
theorem Sound.step (hs : s.Sound) {a : Action} (ha : Enabled s a) : (Tantivy.step s a).Sound := by
  obtain ⟨⟨new, dropped, hpassage⟩, hordered⟩ := hs.effect (State.effect ha)
  exact ⟨hs.guarded.passage hpassage, hordered⟩

/-! ## Ticks -/

/-- Before the state of the index exists, there is nothing. -/
def Unborn (s : State) : Prop :=
  s.created = false → s.tasks = [] ∧ s.writer.uncommittedDocsInProgressGuards = [] ∧
    s.unsearchable = [] ∧ s.requested = false ∧ s.phase ≠ .check

theorem Unborn.step (hs : s.Unborn) {a : Action} {t : State} (heffect : Effect s a t) :
    t.Unborn := by
  intro hcreated
  have htask : ∀ {i : ℕ} {task : Task Job Progress}, s.created = false → s.tasks[i]? = some task →
      False := fun hmissing hget => by
    rw [(hs hmissing).1] at hget
    cases hget
  cases heffect with
  | dispatched => cases hcreated
  | @refused message environment created hrefused hstill =>
    have hmissing : s.created = false := Bool.eq_false_of_not_eq_true fun h => by
      have htrue := hstill h
      rw [show created = false from hcreated] at htrue
      cases htrue
    exact hs hmissing
  | ticked huncommitted => exact absurd (hs hcreated).2.1 huncommitted
  | checking hborn =>
    rw [show s.created = false from hcreated] at hborn
    cases hborn
  | missing => exact hs hcreated
  | checked hphase => exact absurd hphase (hs hcreated).2.2.2.2
  | notified hborn =>
    rw [show s.created = false from hcreated] at hborn
    cases hborn
  | responded hrequested =>
    rw [(hs hcreated).2.2.2.1] at hrequested
    cases hrequested
  | resumed => exact hs hcreated
  | sent hget | taken hget | operated hget | unoperated hget | saved hget | committed hget
  | uncommitted hget | handed hget | loaded hget | unloaded hget | reloaded hget | unreloaded hget
  | stored hget | finished hget => exact (htask hcreated hget).elim

/-- A guard that is held is one of an index whose state exists. -/
theorem Unborn.created (hs : s.Unborn) (hheld : s.held ≠ []) : s.created := by
  refine Bool.eq_true_of_not_eq_false fun hmissing => hheld ?_
  obtain ⟨htasks, hwriter, hunsearchable, -⟩ := hs hmissing
  rw [held, htasks, hwriter, hunsearchable]
  rfl

/-- A guard that no closure holds waits for a commit or for a reload. -/
theorem Quiescent.held_eq (hquiescent : s.Quiescent) :
    s.held = s.writer.uncommittedDocsInProgressGuards ++ s.unsearchable := by
  have hnone : s.tasks.flatMap guardsOf = [] := List.flatMap_eq_nil_iff.mpr fun t ht => by
    obtain ⟨job, stage⟩ := t
    have hstage : stage = .finished := hquiescent.2 _ ht
    subst hstage
    cases job <;> rfl
  rw [held, hnone, List.nil_append]

/-- The next tick hands a commit over to the workers, or it asks for a reload. -/
def Responds (s : State) : Prop :=
  Enabled s .tick ∧ (Tantivy.step s .tick = s.dispatch .commit ∨
    Machine.Along Tantivy.step Enabled s [.tick, .check] ∧
      (Machine.run Tantivy.step s [.tick, .check]).requested)

/-- The next tick sees to the guards that are still held. -/
theorem Quiescent.responds (hquiescent : s.Quiescent) (hcreated : s.created) (hheld : s.held ≠ []) :
    s.Responds := by
  have hunlocked : s.Unlocked := fun t ht hlocks => by
    obtain ⟨job, opstamp, rfl⟩ := exists_of_locksWriter hlocks
    cases hquiescent.2 _ ht
  have hticks : Enabled s .tick := ⟨hquiescent.1, fun _ => hunlocked⟩
  refine ⟨hticks, ?_⟩
  by_cases huncommitted : s.writer.uncommittedDocsInProgressGuards = []
  · right
    have htick : Tantivy.step s .tick = { s with phase := .check } := by
      simp only [Tantivy.step, tick, hcreated, Writer.hasUncommittedDocs, huncommitted]
      rfl
    have hneeds : s.reloadState.needsReload := by
      rw [hquiescent.held_eq, huncommitted, List.nil_append] at hheld
      obtain ⟨g, hg⟩ := List.exists_mem_of_ne_nil _ hheld
      obtain ⟨e, he, -⟩ := List.mem_flatMap.mp hg
      have hkeys : s.reloadState.unsearchableDocs.keys ≠ [] :=
        List.ne_nil_of_mem (List.mem_map_of_mem he)
      unfold ReloadState.needsReload
      rw [Bool.or_eq_true, Bool.not_eq_true', List.isEmpty_eq_false_iff]
      exact Or.inr hkeys
    refine ⟨⟨hticks, ?_, trivial⟩, ?_⟩
    · rw [htick]
      rfl
    · rw [Machine.run_cons, htick]
      change (s.requested || s.reloadState.needsReload) = true
      rw [hneeds, Bool.or_true]
  · left
    have hsome : s.writer.hasUncommittedDocs := by
      unfold Writer.hasUncommittedDocs
      rw [Bool.not_eq_true', List.isEmpty_eq_false_iff]
      exact huncommitted
    simp only [Tantivy.step, tick, hcreated, hsome, if_true]

/-- Nothing happens to a guard that should not. -/
structure GuardsKept (s : State) : Prop where
  /-- A guard that is held by nobody was refused, or a reload serves its commit. -/
  released : ∀ g < s.guards, g ∉ s.held → s.Released g
  /-- A guard is held in one place. -/
  once : s.held.Nodup
  /-- The reader overwrites no guards when it takes those of a commit. -/
  handed : ∀ i c gs, s.stageOf i = some (.running (.handing c gs)) →
    s.reloadState.unsearchableDocs.lookup c = none
  /-- A failed commit or reload leaves every guard where it is. -/
  failed : ∀ a, Enabled s a → s.Fails a → (Tantivy.step s a).held.Perm s.held
  /-- With nothing on its way and a guard still held, the next tick sees to it. -/
  responds : s.Quiescent → s.held ≠ [] → s.Responds

theorem Sound.guardsKept (hs : s.Sound) (hunborn : s.Unborn) : s.GuardsKept where
  released := hs.guarded.released
  once := hs.guarded.once
  handed i c gs hstage := by
    obtain ⟨job, hget⟩ := exists_of_stageOf hstage
    exact hs.ordered.lookup_eq_none hget
  failed a ha hfails := List.perm_iff_count.mpr fun g =>
    (hs.failed (State.effect ha) hfails).1.count g
  responds hquiescent hheld := hquiescent.responds (hunborn.created hheld) hheld

end State

/-- In every run of the full-text actor the guards are kept. -/
theorem guards_kept (runtime : Runtime) (commitThreshold : ℕ) {as : List Action}
    (has : Machine.Along step Enabled (.init runtime commitThreshold) as) :
    (Machine.run step (.init runtime commitThreshold) as).GuardsKept := by
  have hsound : (Machine.run step (.init runtime commitThreshold) as).Sound :=
    Machine.run_invariant_of_along (fun s a hs ha => hs.step ha)
      (State.sound_init runtime commitThreshold) has
  have hunborn : (Machine.run step (.init runtime commitThreshold) as).Unborn :=
    Machine.run_invariant_of_along (fun s a hs ha => hs.step (State.effect ha))
      (fun _ => ⟨rfl, rfl, rfl, rfl, (by rintro ⟨⟩)⟩) has
  exact hsound.guardsKept hunborn

namespace Sample

/-- The identifier of the first row. -/
def row : PrimaryId := PrimaryId.mk' 0 .new

/-- A document is added and committed by a tick; the reader is reloaded. -/
def committed : List Action :=
  [.receive (.addDocument row "a") ⟨.can, true⟩, .send 0, .take 0, .operate 0 true, .finish 0, .tick,
    .send 1, .take 1, .save 1 1, .notify, .respond, .commit 1 true, .handOver 1, .finish 1, .send 2,
    .take 2, .load 2 true, .reload 2 true, .store 2, .finish 2, .resume]

end Sample

theorem guards_kept_committed :
    (Machine.run step (.init Sample.runtime 2) Sample.committed).GuardsKept :=
  guards_kept Sample.runtime 2 (by decide +kernel)

end Tantivy

end VectorStore
