import VectorStore.FtsIndex.Tantivy

/-!
# The steps of the full-text actor

`Effect` lists what a step can do, with the closure that takes it.
-/

namespace VectorStore

namespace Tantivy

/-- The changes of the state by a step. -/
inductive Effect (s : State) : Action → State → Prop where
  | dispatched {message environment} :
      Effect s (.receive message environment)
        ({ s with created := true, guards := s.guards + 1 }.dispatch (.operate s.guards message))
  /-- The state of the index cannot be created, or there is no memory for a document. -/
  | refused {message environment} {created : Bool}
      (hrefused : environment.created = false ∨
        message.isRemoval = false ∧ environment.allocate = .cannot)
      (hcreated : s.created → created) :
      Effect s (.receive message environment) { s with created }.refuse
  | ticked (huncommitted : s.writer.uncommittedDocsInProgressGuards ≠ []) :
      Effect s .tick (s.dispatch .commit)
  | checking (hcreated : s.created) (hcommitted : s.writer.uncommittedDocsInProgressGuards = []) :
      Effect s .tick { s with phase := .check }
  | missing (hcreated : s.created = false) : Effect s .tick s
  | checked (hphase : s.phase = .check) : Effect s .check
      { s with requested := s.requested || s.reloadState.needsReload, phase := .idle }
  | notified (hcreated : s.created) : Effect s .notify { s with requested := true }
  | responded (hrequested : s.requested) : Effect s .respond s.respond
  | resumed : Effect s .resume { s with reloader := .waiting }
  | sent {i job} (hget : s.tasks[i]? = some ⟨job, .sending⟩) : Effect s (.send i) (s.send i)
  | taken {i job} (hget : s.tasks[i]? = some ⟨job, .queued⟩) :
      Effect s (.take i) (s.move i (.running job.start))
  | operated {i guard message} {ok : Bool}
      (hget : s.tasks[i]? = some ⟨.operate guard message, .running .operating⟩)
      (hunlocked : s.Unlocked) (hok : ok ∨ message.isRemoval) :
      Effect s (.operate i ok)
        ({ s with
          writer := ⟨s.writer.documents.apply message,
            s.writer.uncommittedDocsInProgressGuards ++ [guard]⟩
          history := { s.history with operated := s.history.operated ++ [guard] } }.move i
          (.running (s.afterOperation ⟨s.writer.documents.apply message,
            s.writer.uncommittedDocsInProgressGuards ++ [guard]⟩)))
  /-- A document cannot be added. -/
  | unoperated {i guard message}
      (hget : s.tasks[i]? = some ⟨.operate guard message, .running .operating⟩)
      (hadds : message.isRemoval = false) :
      Effect s (.operate i false)
        ({ s with history := { s.history with refused := guard :: s.history.refused } }.move i
          (.running (s.afterOperation s.writer)))
  | saved {i job opstamp} (hget : s.tasks[i]? = some ⟨job, .running .committing⟩)
      (hunlocked : s.Unlocked) (hopstamp : s.metas.opstamp < opstamp) :
      Effect s (.save i opstamp) (s.save i opstamp)
  | committed {i job opstamp} (hget : s.tasks[i]? = some ⟨job, .running (.saved opstamp)⟩) :
      Effect s (.commit i true)
        ({ s with
          writer := { s.writer with uncommittedDocsInProgressGuards := [] }
          history := { s.history with
            operated := []
            committed := s.history.committed ++
              s.history.operated.map fun guard => (guard, opstamp) } }.move i
          (.running (.handing opstamp s.writer.uncommittedDocsInProgressGuards)))
  /-- A commit fails, after it has saved the metas or before. -/
  | uncommitted {i job progress} (hget : s.tasks[i]? = some ⟨job, .running progress⟩)
      (hprogress : progress = .committing ∨ ∃ opstamp, progress = .saved opstamp) :
      Effect s (.commit i false) (s.move i (.running .done))
  | handed {i job opstamp guards}
      (hget : s.tasks[i]? = some ⟨job, .running (.handing opstamp guards)⟩) :
      Effect s (.handOver i)
        ({ s with reloadState := s.reloadState.dropGuardsWhenSearchable opstamp guards }.move i
          (.running .done))
  | loaded {i job} (hget : s.tasks[i]? = some ⟨job, .running .loading⟩) :
      Effect s (.load i true) (s.move i (.running (.reloading s.metas.opstamp)))
  | unloaded {i job} (hget : s.tasks[i]? = some ⟨job, .running .loading⟩) :
      Effect s (.load i false) (s.move i (.running (.reloaded none)))
  | reloaded {i job opstamp} (hget : s.tasks[i]? = some ⟨job, .running (.reloading opstamp)⟩) :
      Effect s (.reload i true)
        ({ s with
          searcher := s.metas
          history := { s.history with reloads := opstamp :: s.history.reloads } }.move i
          (.running (.reloaded (some opstamp))))
  | unreloaded {i job opstamp} (hget : s.tasks[i]? = some ⟨job, .running (.reloading opstamp)⟩) :
      Effect s (.reload i false) (s.move i (.running (.reloaded none)))
  | stored {i job result} (hget : s.tasks[i]? = some ⟨job, .running (.reloaded result)⟩) :
      Effect s (.store i)
        ({ s with reloadState := s.reloadState.store result }.move i (.running .done))
  | finished {i job} (hget : s.tasks[i]? = some ⟨job, .running .done⟩) :
      Effect s (.finish i) (s.move i .finished)

/-! ## Closures at a stage -/

theorem exists_of_operates {t : Task Job Progress} (h : operates t) :
    ∃ guard message, t = ⟨.operate guard message, .running .operating⟩ := by
  unfold operates at h
  split at h
  · exact ⟨_, _, rfl⟩
  · cases h

theorem exists_of_locksWriter {t : Task Job Progress} (h : locksWriter t) :
    ∃ job opstamp, t = ⟨job, .running (.saved opstamp)⟩ := by
  unfold locksWriter at h
  split at h
  · exact ⟨_, _, rfl⟩
  · cases h

theorem exists_of_hands {t : Task Job Progress} (h : hands t) :
    ∃ job opstamp guards, t = ⟨job, .running (.handing opstamp guards)⟩ := by
  unfold hands at h
  split at h
  · exact ⟨_, _, _, rfl⟩
  · cases h

theorem exists_of_reloads {t : Task Job Progress} (h : reloads t) :
    ∃ job opstamp, t = ⟨job, .running (.reloading opstamp)⟩ := by
  unfold reloads at h
  split at h
  · exact ⟨_, _, rfl⟩
  · cases h

theorem exists_of_stores {t : Task Job Progress} (h : stores t) :
    ∃ job result, t = ⟨job, .running (.reloaded result)⟩ := by
  unfold stores at h
  split at h
  · exact ⟨_, _, rfl⟩
  · cases h

namespace State

variable {s : State} {i : ℕ}

theorem Has.exists {p : Task Job Progress → Bool} (h : s.Has i p) :
    ∃ t, s.tasks[i]? = some t ∧ p t := by
  unfold Has at h
  cases hget : s.tasks[i]? with
  | none =>
    rw [hget] at h
    cases h
  | some t =>
    rw [hget] at h
    exact ⟨t, rfl, h⟩

theorem exists_of_stageOf {stage : Stage Progress} (h : s.stageOf i = some stage) :
    ∃ job, s.tasks[i]? = some ⟨job, stage⟩ := by
  obtain ⟨⟨job, stage'⟩, hget, rfl⟩ := Option.map_eq_some_iff.mp h
  exact ⟨job, hget⟩

theorem stageOf_eq {job : Job} {stage : Stage Progress} (hget : s.tasks[i]? = some ⟨job, stage⟩) :
    s.stageOf i = some stage := by
  rw [stageOf, hget, Option.map_some]

theorem afterOperation_eq (s : State) (writer : Writer) :
    s.afterOperation writer = .committing ∨ s.afterOperation writer = .done := by
  unfold afterOperation
  split
  · exact Or.inl rfl
  · exact Or.inr rfl

/-- Every step has one of the effects. -/
theorem effect {a : Action} (ha : Enabled s a) : Effect s a (step s a) := by
  cases a with
  | receive message environment =>
    change Effect s _ (s.receive message environment)
    unfold receive
    split
    case isFalse hcreated =>
      obtain ⟨hmissing, hfails⟩ := not_or.mp hcreated
      exact .refused (Or.inl (Bool.eq_false_of_not_eq_true hfails)) id
    case isTrue =>
      split
      case isTrue => exact .dispatched
      case isFalse hmemory =>
        obtain ⟨hadds, hcannot⟩ := not_or.mp hmemory
        refine .refused (Or.inr ⟨Bool.eq_false_of_not_eq_true hadds, ?_⟩) fun _ => rfl
        cases hallocate : environment.allocate with
        | can => exact absurd hallocate hcannot
        | cannot => rfl
  | tick =>
    change Effect s _ s.tick
    unfold tick
    split
    case isFalse hcreated => exact .missing (Bool.eq_false_of_not_eq_true hcreated)
    case isTrue hcreated =>
      unfold Writer.hasUncommittedDocs
      cases hguards : s.writer.uncommittedDocsInProgressGuards with
      | nil => exact .checking hcreated hguards
      | cons guard guards => exact .ticked (by rw [hguards]; exact List.cons_ne_nil _ _)
  | check => exact .checked ha
  | notify => exact .notified ha
  | respond => exact .responded ha.1
  | resume => exact .resumed
  | send i =>
    obtain ⟨job, hget⟩ := exists_of_stageOf ha.1
    exact .sent hget
  | take i =>
    obtain ⟨job, hget⟩ := exists_of_stageOf ha.1
    simp only [step, take, hget]
    exact .taken hget
  | operate i ok =>
    obtain ⟨t, hget, hoperates⟩ := ha.1.exists
    obtain ⟨guard, message, rfl⟩ := exists_of_operates hoperates
    simp only [step, operate, hget, Option.map_some, Writer.operate, History.operate]
    by_cases hok : ok = true ∨ message.isRemoval = true
    · simp only [if_pos hok]
      exact .operated hget ha.2 hok
    · simp only [if_neg hok]
      obtain ⟨hfails, hadds⟩ := not_or.mp hok
      rw [Bool.eq_false_of_not_eq_true hfails]
      exact .unoperated hget (Bool.eq_false_of_not_eq_true hadds)
  | save i opstamp =>
    obtain ⟨job, hget⟩ := exists_of_stageOf ha.1
    exact .saved hget ha.2.1 ha.2.2
  | commit i ok =>
    rcases ha with hlocks | ⟨rfl, hstage, -⟩
    · obtain ⟨t, hget, hlocks⟩ := hlocks.exists
      obtain ⟨job, opstamp, rfl⟩ := exists_of_locksWriter hlocks
      simp only [step, commit, hget, Option.map_some]
      cases ok with
      | true => exact .committed hget
      | false => exact .uncommitted hget (Or.inr ⟨_, rfl⟩)
    · obtain ⟨job, hget⟩ := exists_of_stageOf hstage
      simp only [step, commit, hget, Option.map_some]
      exact .uncommitted hget (Or.inl rfl)
  | handOver i =>
    obtain ⟨t, hget, hhands⟩ := Has.exists ha
    obtain ⟨job, opstamp, guards, rfl⟩ := exists_of_hands hhands
    simp only [step, handOver, hget, Option.map_some]
    exact .handed hget
  | load i ok =>
    obtain ⟨job, hget⟩ := exists_of_stageOf ha
    cases ok with
    | true => exact .loaded hget
    | false => exact .unloaded hget
  | reload i ok =>
    obtain ⟨t, hget, hreloads⟩ := Has.exists ha
    obtain ⟨job, opstamp, rfl⟩ := exists_of_reloads hreloads
    simp only [step, reload, hget, Option.map_some]
    cases ok with
    | true => exact .reloaded hget
    | false => exact .unreloaded hget
  | store i =>
    obtain ⟨t, hget, hstores⟩ := Has.exists ha
    obtain ⟨job, result, rfl⟩ := exists_of_stores hstores
    simp only [step, store, hget, Option.map_some]
    exact .stored hget
  | finish i =>
    obtain ⟨job, hget⟩ := exists_of_stageOf ha
    exact .finished hget

end State

end Tantivy

end VectorStore
