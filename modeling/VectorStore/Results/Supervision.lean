import VectorStore.Cdc.Supervision

/-!
# Supervision of a CDC reader

At most one handler runs, no handler sees a shutdown that was meant for an earlier one, and an
actor that waits with a session after a failure has something pending that leads to a restart.
-/

namespace VectorStore

namespace CdcActor

/-- The actor waits or will wait without a restart. -/
def Phase.waits : Phase → Bool
  | select _ | stop .select | join _ .select => true
  | drainError | stop .restart | stop .cleanup | join _ .restart | join _ .cleanup
  | drainShutdown | create | failed | finished => false

namespace State

/-! ## Shutdown notifications -/

/-- The permit of the shutdown notification is younger than every handler that runs, and there is
none while a reader is created. -/
structure Addressed (s : State) : Prop where
  spawned : ∀ h ∈ s.handlers, h.spawned ≤ s.stops
  stopped : s.shutdownPermit → ∀ h ∈ s.handlers, h.phase.isDone = false → h.spawned < s.stops
  drained : s.phase = .create → s.shutdownPermit = false

theorem addressed_new (now : ℤ) (session : Bool) : (new now session).Addressed where
  spawned _ h := by cases h
  stopped _ _ h := by cases h
  drained _ := rfl

/-- A step that neither spawns a handler nor stores a permit keeps the invariant. -/
theorem Addressed.frame {s t : State} (hs : s.Addressed)
    (hhandlers : ∀ h' ∈ t.handlers, ∃ h ∈ s.handlers, h'.spawned = h.spawned ∧
      (h'.phase.isDone = false → h.phase.isDone = false))
    (hpermit : t.shutdownPermit → s.shutdownPermit) (hstops : s.stops ≤ t.stops)
    (hphase : t.phase = .create → t.shutdownPermit = false) : t.Addressed where
  spawned h' hmem' := by
    obtain ⟨h, hmem, hspawned, -⟩ := hhandlers h' hmem'
    have hle : h.spawned ≤ s.stops := hs.spawned h hmem
    omega
  stopped ht h' hmem' hrunning := by
    obtain ⟨h, hmem, hspawned, hdone⟩ := hhandlers h' hmem'
    have hlt : h.spawned < s.stops := hs.stopped (hpermit ht) h hmem (hdone hrunning)
    omega
  drained := hphase

theorem Addressed.congr {s t : State} (hs : s.Addressed) (hhandlers : t.handlers = s.handlers)
    (hpermit : t.shutdownPermit → s.shutdownPermit) (hstops : s.stops ≤ t.stops)
    (hphase : t.phase = .create → t.shutdownPermit = false) : t.Addressed :=
  hs.frame (fun h hmem => ⟨h, hhandlers ▸ hmem, rfl, id⟩) hpermit hstops hphase

/-- A step of a handler that is not done keeps the invariant. -/
theorem Addressed.modify {s t : State} {i : ℕ} {handler : Handler} {f : Handler → Handler}
    (hs : s.Addressed) (hget : s.handlers[i]? = some handler)
    (hrunning : handler.phase.isDone = false) (hhandlers : t.handlers = s.handlers.modify i f)
    (hphase : t.phase = s.phase) (hpermit : t.shutdownPermit → s.shutdownPermit)
    (hstops : t.stops = s.stops) (hf : ∀ h, (f h).spawned = h.spawned) : t.Addressed := by
  refine hs.frame (fun h' hmem' => ?_) hpermit hstops.ge fun hcreate => ?_
  · rw [hhandlers] at hmem'
    obtain ⟨j, hj⟩ := List.mem_iff_getElem?.mp hmem'
    rcases eq_or_ne i j with rfl | hne
    · rw [List.getElem?_modify_eq, hget] at hj
      cases hj
      exact ⟨handler, List.mem_of_getElem? hget, hf handler, fun _ => hrunning⟩
    · rw [List.getElem?_modify_ne f _ hne] at hj
      exact ⟨h', List.mem_of_getElem? hj, rfl, id⟩
  · have hnone : s.shutdownPermit = false := hs.drained (hphase ▸ hcreate)
    cases ht : t.shutdownPermit with
    | false => rfl
    | true =>
      rw [hpermit ht] at hnone
      cases hnone

/-- `stop` stores a permit that is younger than every handler. -/
theorem Addressed.stop {s : State} (hs : s.Addressed) {next : Next} (hphase : s.phase = .stop next) :
    (step s .stop).Addressed := by
  have hnext : next.phase ≠ .create := by cases next <;> simp [Next.phase]
  cases htask : s.handlerTask with
  | none =>
    refine hs.congr ?_ ?_ ?_ ?_ <;> simp only [CdcActor.step, hphase, htask]
    · exact id
    · exact Nat.le_succ _
    · exact fun hcreate => absurd hcreate hnext
  | some i =>
    have hstep : step s .stop = { s with
      stops := s.stops + 1, shutdownPermit := true, handlerTask := none
      phase := .join i next } := by simp only [CdcActor.step, hphase, htask]
    rw [hstep]
    refine ⟨fun h hmem => ?_, fun _ h hmem _ => ?_, fun hcreate => by cases hcreate⟩
    · exact (hs.spawned h hmem).trans (Nat.le_succ _)
    · exact Nat.lt_succ_of_le (hs.spawned h hmem)

/-- A handler is spawned when there is no permit. -/
theorem Addressed.create {s : State} (hs : s.Addressed) (hphase : s.phase = .create) :
    (step s (.create true)).Addressed := by
  have hpermit : (step s (.create true)).shutdownPermit = false := hs.drained hphase
  refine ⟨fun h hmem => ?_, fun hstored => ?_, fun _ => hpermit⟩
  · rcases List.mem_append.mp hmem with hmem | hmem
    · exact hs.spawned h hmem
    · rw [List.mem_singleton.mp hmem]
      exact le_rfl
  · rw [hpermit] at hstored
    cases hstored

/-- Every step keeps the invariant. -/
theorem Addressed.step {s : State} (hs : s.Addressed) (a : Action) (ha : Enabled s a) :
    (step s a).Addressed := by
  cases a with
  | elapse _ | change _ | drop | close => exact hs.congr rfl id le_rfl hs.drained
  | seeEnd | seeError | drainError | notifyFailed =>
    exact hs.congr rfl id le_rfl fun hcreate => by cases hcreate
  | seeSession =>
    refine hs.congr rfl id le_rfl fun hcreate => ?_
    cases hsession : s.session <;> simp [CdcActor.step, hsession] at hcreate
  | seeBackoff =>
    refine hs.congr rfl id le_rfl fun hcreate => ?_
    cases halive : s.alive <;> cases hsession : s.session <;>
      simp [CdcActor.step, halive, hsession] at hcreate
  | stop =>
    obtain ⟨next, hphase⟩ := ha
    exact hs.stop hphase
  | join =>
    obtain ⟨i, next, hjoin, -⟩ := ha
    refine hs.congr ?_ ?_ ?_ ?_ <;> simp only [CdcActor.step, hjoin]
    · exact id
    · exact le_rfl
    · cases next <;> simp [Next.phase]
  | drainShutdown => exact hs.congr rfl (fun hstored => by cases hstored) le_rfl fun _ => rfl
  | create ok =>
    cases ok with
    | true => exact hs.create ha
    | false => exact hs.congr rfl id le_rfl fun hcreate => by cases hcreate
  | run i =>
    obtain ⟨handler, hget, hphase⟩ := phaseOf_eq_some ha
    exact hs.modify hget (by rw [hphase]; rfl) rfl rfl id rfl fun _ => rfl
  | deliver i position =>
    obtain ⟨handler, hget, hphase | hphase, -⟩ := ha <;>
      exact hs.modify hget (by rw [hphase]; rfl) rfl rfl id rfl fun _ => rfl
  | complete i ok =>
    obtain ⟨handler, hget, hphase⟩ := phaseOf_eq_some ha
    exact hs.modify hget (by rw [hphase]; rfl) rfl rfl id rfl fun _ => rfl
  | shutdown i =>
    obtain ⟨handler, hget, hphase⟩ := phaseOf_eq_some ha.1
    exact hs.modify hget (by rw [hphase]; rfl) rfl rfl
      (fun hstored => by cases hstored) rfl fun _ => rfl
  | notifyError i =>
    obtain ⟨handler, hget, hphase⟩ := phaseOf_eq_some ha
    exact hs.modify hget (by rw [hphase]; rfl) rfl rfl id rfl fun _ => rfl
  | finish i =>
    obtain ⟨outcome, hclosing⟩ := ha
    obtain ⟨handler, hget, hphase⟩ := phaseOf_eq_some hclosing
    simp only [CdcActor.step, hclosing]
    exact hs.modify hget (by rw [hphase]; rfl) rfl rfl id rfl fun _ => rfl
  | panic i =>
    obtain ⟨phase, hsome, hdone⟩ := ha
    obtain ⟨handler, hget, hphase⟩ := phaseOf_eq_some hsome
    exact hs.modify hget (by rw [hphase]; simpa using hdone) rfl rfl id rfl fun _ => rfl

/-! ## Restarts after a failure -/

/-- The last handler ended with an error or the last creation failed. -/
def Failed (s : State) : Prop :=
  s.creationFailed ∨ ∃ h ∈ s.handlers.getLast?, h.phase.outcome = some .error

/-- After a failure something is pending, and a reader that was stopped for want of a session
waits for the next one. -/
structure Watched (s : State) : Prop where
  waiting : ∀ armed, s.phase = .select armed → s.session → s.Failed →
    s.errorPermit ∨ armed ∨ s.unseen
  stopping : (s.phase = .stop .select ∨ ∃ i, s.phase = .join i .select) → s.session → s.unseen

theorem watched_new (now : ℤ) (session : Bool) : (new now session).Watched where
  waiting _ _ _ _ := .inr (.inr rfl)
  stopping _ _ := rfl

/-- A handler step after which the last handler ended with an error only when it had before. -/
theorem failed_modify {s t : State} {i : ℕ} {handler : Handler} {f : Handler → Handler}
    (hget : s.handlers[i]? = some handler) (hhandlers : t.handlers = s.handlers.modify i f)
    (hcreation : t.creationFailed = s.creationFailed)
    (hf : (f handler).phase.outcome = some .error → handler.phase.outcome = some .error) :
    t.Failed → s.Failed := by
  rintro (hfailed | ⟨last, hlast, houtcome⟩)
  · exact .inl (hcreation ▸ hfailed)
  · refine .inr ?_
    rw [hhandlers, List.getLast?_eq_getElem?, List.length_modify] at hlast
    rw [List.getLast?_eq_getElem?]
    rcases eq_or_ne i (s.handlers.length - 1) with heq | hne
    · rw [← heq, List.getElem?_modify_eq, hget] at hlast
      cases hlast
      rw [← heq]
      exact ⟨handler, hget, hf houtcome⟩
    · rw [List.getElem?_modify_ne f _ hne] at hlast
      exact ⟨last, hlast, houtcome⟩

/-- A step of a handler keeps the invariant when it stores no error. -/
theorem Watched.modify {s t : State} {i : ℕ} {handler : Handler} {f : Handler → Handler}
    (hs : s.Watched) (hget : s.handlers[i]? = some handler)
    (hhandlers : t.handlers = s.handlers.modify i f)
    (hcreation : t.creationFailed = s.creationFailed) (hphase : t.phase = s.phase)
    (hsession : t.session = s.session) (hpermit : t.errorPermit = s.errorPermit)
    (hunseen : t.unseen = s.unseen)
    (hf : (f handler).phase.outcome = some .error → handler.phase.outcome = some .error) :
    t.Watched where
  waiting := by
    rw [hphase, hsession, hpermit, hunseen]
    exact fun armed hselect hsome hfailed =>
      hs.waiting armed hselect hsome (failed_modify hget hhandlers hcreation hf hfailed)
  stopping := by
    rw [hphase, hsession, hunseen]
    exact hs.stopping

/-- While the actor restarts a reader or ends there is nothing to show. -/
theorem watched_of_phase {s : State} (hphase : s.phase.waits = false) : s.Watched where
  waiting armed h := by
    rw [h] at hphase
    cases hphase
  stopping h := by
    rcases h with h | ⟨i, h⟩ <;> rw [h] at hphase <;> cases hphase

/-- In `select!` with an unseen session or with none the actor will be woken by the watch. -/
theorem watched_of_select {s : State} {armed : Bool} (hphase : s.phase = .select armed)
    (hpending : s.session → s.errorPermit ∨ armed ∨ s.unseen) : s.Watched where
  waiting armed' h hsession _ := by
    rw [hphase] at h
    cases h
    exact hpending hsession
  stopping h := by
    rw [hphase] at h
    rcases h with h | ⟨i, h⟩ <;> cases h

/-- What follows a `stop` or its `join`. -/
theorem watched_next {s : State} {next : Next} (hphase : s.phase = next.phase)
    (hunseen : next = .select → s.session → s.unseen) : s.Watched := by
  cases next with
  | select => exact watched_of_select hphase fun hsession => .inr (.inr (hunseen rfl hsession))
  | restart => exact watched_of_phase (by rw [hphase]; rfl)
  | cleanup => exact watched_of_phase (by rw [hphase]; rfl)

/-- The creation of a reader leaves no failure behind. -/
theorem not_failed_create (s : State) : ¬(CdcActor.step s (.create true)).Failed := by
  rintro (hfailed | ⟨last, hlast, houtcome⟩)
  · cases hfailed
  · simp only [CdcActor.step, List.getLast?_append, List.getLast?_singleton] at hlast
    cases hlast
    cases houtcome

/-- Every step keeps the invariant. -/
theorem Watched.step {s : State} (hs : s.Watched) (a : Action) (ha : Enabled s a) :
    (step s a).Watched := by
  cases a with
  | elapse _ | drop | close => exact ⟨hs.waiting, hs.stopping⟩
  | change _ => exact ⟨fun _ _ _ _ => .inr (.inr rfl), fun _ _ => rfl⟩
  | seeEnd => exact watched_of_phase rfl
  | seeSession =>
    cases hsession : s.session with
    | true =>
      refine watched_of_phase ?_
      simp only [CdcActor.step, hsession, if_true, Phase.waits]
    | false =>
      refine ⟨fun armed h => ?_, fun _ hsome => ?_⟩
      · simp [CdcActor.step, hsession] at h
      · simp [CdcActor.step, hsession] at hsome
  | seeError => exact watched_of_select rfl fun _ => .inr (.inl rfl)
  | seeBackoff =>
    cases halive : s.alive with
    | false =>
      refine watched_of_phase ?_
      simp only [CdcActor.step, halive, Bool.false_eq_true, if_false, Phase.waits]
    | true =>
      cases hsession : s.session with
      | true =>
        refine watched_of_phase ?_
        simp only [CdcActor.step, halive, hsession, if_true, Phase.waits]
      | false =>
        -- the backoff is lost, and the watch will change before there is a session
        have hphase : (CdcActor.step s .seeBackoff).phase = .select false := by
          simp [CdcActor.step, halive, hsession]
        refine watched_of_select hphase fun hsome => ?_
        simp [CdcActor.step, hsession] at hsome
  | drainError => exact watched_of_phase rfl
  | stop =>
    obtain ⟨next, hphase⟩ := ha
    have hunseen : next = .select → s.session → s.unseen := by
      rintro rfl
      exact hs.stopping (.inl hphase)
    cases htask : s.handlerTask with
    | none =>
      refine @watched_next _ next ?_ ?_ <;> simp only [CdcActor.step, hphase, htask]
      exact hunseen
    | some i =>
      have hstep : CdcActor.step s .stop = { s with
        stops := s.stops + 1, shutdownPermit := true, handlerTask := none
        phase := .join i next } := by simp only [CdcActor.step, hphase, htask]
      rw [hstep]
      refine ⟨fun armed h => by (cases h), ?_⟩
      rintro (h | ⟨j, h⟩) <;> cases h
      exact hunseen rfl
  | join =>
    obtain ⟨i, next, hjoin, -⟩ := ha
    refine @watched_next _ next ?_ ?_ <;> simp only [CdcActor.step, hjoin]
    rintro rfl
    exact hs.stopping (.inr ⟨i, hjoin⟩)
  | drainShutdown => exact watched_of_phase rfl
  | create ok =>
    cases ok with
    | true =>
      refine ⟨fun _ _ _ hfailed => absurd hfailed (not_failed_create s), ?_⟩
      rintro (h | ⟨i, h⟩) <;> cases h
    | false => exact watched_of_phase rfl
  | notifyFailed => exact watched_of_select rfl fun _ => .inl rfl
  | run i =>
    obtain ⟨handler, hget, -⟩ := phaseOf_eq_some ha
    exact hs.modify hget rfl rfl rfl rfl rfl rfl fun h => by cases h
  | deliver i position =>
    obtain ⟨handler, hget, -⟩ := ha
    exact hs.modify hget rfl rfl rfl rfl rfl rfl id
  | complete i ok =>
    obtain ⟨handler, hget, -⟩ := phaseOf_eq_some ha
    exact hs.modify hget rfl rfl rfl rfl rfl rfl fun h => by cases ok <;> cases h
  | shutdown i =>
    obtain ⟨handler, hget, -⟩ := phaseOf_eq_some ha.1
    exact hs.modify hget rfl rfl rfl rfl rfl rfl fun h => by cases h
  | notifyError i =>
    exact ⟨fun _ _ _ _ => .inl rfl, hs.stopping⟩
  | finish i =>
    obtain ⟨outcome, hclosing⟩ := ha
    obtain ⟨handler, hget, hphase⟩ := phaseOf_eq_some hclosing
    simp only [CdcActor.step, hclosing]
    exact hs.modify hget rfl rfl rfl rfl rfl rfl fun h => by rw [hphase]; exact h
  | panic i =>
    obtain ⟨phase, hsome, -⟩ := ha
    obtain ⟨handler, hget, -⟩ := phaseOf_eq_some hsome
    exact hs.modify hget rfl rfl rfl rfl rfl rfl fun h => by cases h

/-- From a pending wake-up the actor goes on to a restart. -/
theorem leads_to_restart {s : State} {armed : Bool} (hphase : s.phase = .select armed)
    (halive : s.alive) (hsession : s.session) (hpending : s.errorPermit ∨ armed ∨ s.unseen) :
    ∃ as ⊆ [Action.seeSession, .seeError, .seeBackoff], Machine.Along step Enabled s as ∧
      ((Machine.run step s as).phase = .drainError ∨
        (Machine.run step s as).phase = .stop .restart) := by
  rcases hpending with hpermit | harmed | hunseen
  · refine ⟨[.seeError, .seeBackoff], by simp, ⟨⟨⟨armed, hphase⟩, hpermit⟩, rfl, trivial⟩, .inr ?_⟩
    simp [CdcActor.step, halive, hsession]
  · subst harmed
    refine ⟨[.seeBackoff], by simp, ⟨hphase, trivial⟩, .inr ?_⟩
    simp [CdcActor.step, halive, hsession]
  · refine ⟨[.seeSession], by simp, ⟨⟨⟨armed, hphase⟩, halive, hunseen⟩, trivial⟩, .inl ?_⟩
    simp [CdcActor.step, hsession]

end State

/-- Along every run of the actor at most one handler is not done, a handler is shut down only by a
`stop` after it was spawned, and an actor that waits with a session after a failure has an error
notification, a backoff or a change of the session pending, which leads to a restart. -/
theorem supervision {now : ℤ} {session : Bool} {as : List Action}
    (has : Machine.Along step Enabled (.new now session) as) :
    let s : State := Machine.run step (.new now session) as
    (∀ (i j : ℕ) (h k : Handler), s.handlers[i]? = some h → s.handlers[j]? = some k →
        h.phase.isDone = false → k.phase.isDone = false → i = j) ∧
      (∀ i, Enabled s (.shutdown i) → ∀ h ∈ s.handlers[i]?, h.spawned < s.stops) ∧
      (∀ armed, s.phase = .select armed → s.session → s.Failed →
        (s.errorPermit ∨ armed ∨ s.unseen) ∧
          (s.alive → ∃ bs ⊆ [Action.seeSession, .seeError, .seeBackoff],
            Machine.Along step Enabled s bs ∧
              ((Machine.run step s bs).phase = .drainError ∨
                (Machine.run step s bs).phase = .stop .restart))) := by
  intro s
  have hsupervised : s.Supervised := @Machine.run_invariant_of_along _ _ step State.Supervised Enabled
    (fun _ a hs ha => hs.step a ha) _ (State.supervised_new now session) as has
  have haddressed : s.Addressed := @Machine.run_invariant_of_along _ _ step State.Addressed Enabled
    (fun _ a hs ha => hs.step a ha) _ (State.addressed_new now session) as has
  have hwatched : s.Watched := @Machine.run_invariant_of_along _ _ step State.Watched Enabled
    (fun _ a hs ha => hs.step a ha) _ (State.watched_new now session) as has
  refine ⟨?_, ?_, ?_⟩
  · intro i j h k hi hj hrunning hrunning'
    have howned : s.owned = some i := hsupervised.running i h hi hrunning
    rw [hsupervised.running j k hj hrunning'] at howned
    exact (Option.some.inj howned).symm
  · rintro i ⟨hphaseOf, hpermit⟩ h hget
    obtain ⟨handler, hhandler, hphase⟩ := State.phaseOf_eq_some hphaseOf
    cases hget.symm.trans hhandler
    exact haddressed.stopped hpermit h (List.mem_of_getElem? hget) (by rw [hphase]; rfl)
  · intro armed hphase hsession hfailed
    have hpending := hwatched.waiting armed hphase hsession hfailed
    exact ⟨hpending, fun halive => State.leads_to_restart hphase halive hsession hpending⟩

/-- The reader that stalled has failed, and the actor waits. -/
theorem supervision_stalled :
    let s : State :=
      Machine.run step (.new 1700000000000000000 true) ((Sample.stalled 60000000000).take 11)
    (∀ (i j : ℕ) (h k : Handler), s.handlers[i]? = some h → s.handlers[j]? = some k →
        h.phase.isDone = false → k.phase.isDone = false → i = j) ∧
      (∀ i, Enabled s (.shutdown i) → ∀ h ∈ s.handlers[i]?, h.spawned < s.stops) ∧
      (s.errorPermit ∨ false = true ∨ s.unseen) ∧
        ∃ bs ⊆ [Action.seeSession, .seeError, .seeBackoff],
          Machine.Along step Enabled s bs ∧
            ((Machine.run step s bs).phase = .drainError ∨
              (Machine.run step s bs).phase = .stop .restart) := by
  obtain ⟨hone, hstopped, hwaits⟩ := @supervision 1700000000000000000 true
    ((Sample.stalled 60000000000).take 11) (by decide +kernel)
  obtain ⟨hpending, hrestarts⟩ :=
    hwaits false (by decide +kernel) (by decide +kernel) (Or.inr ⟨_, rfl, rfl⟩)
  exact ⟨hone, hstopped, hpending, hrestarts (by decide +kernel)⟩

end CdcActor

end VectorStore
