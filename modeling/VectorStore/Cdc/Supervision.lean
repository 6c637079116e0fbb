import VectorStore.Cdc.Actor

/-!
# The handlers of a CDC actor

The actor holds the task of one handler at most, and that handler is the last one.  Every other
handler is done, and a task that was given up was awaited: the next reader starts from the time at
which the last handler ended.
-/

namespace VectorStore

namespace CdcActor

/-- A `stop` can still find a task in this phase. -/
def Phase.holds : Phase → Bool
  | select _ | drainError | stop _ => true
  | join _ _ | drainShutdown | create | failed | finished => false

namespace State

/-- The handler whose task the actor holds or awaits. -/
def owned (s : State) : Option ℕ :=
  match s.phase with
  | .join handler _ => some handler
  | _ => s.handlerTask

/-- The actor holds the task of the last handler or of none, every other handler is done, and the
start timestamp is the end of a handler whose task was awaited. -/
structure Supervised (s : State) : Prop where
  released : s.phase.holds = false → s.handlerTask = none
  last : ∀ i, s.owned = some i → i + 1 = s.handlers.length
  running : ∀ i h, s.handlers[i]? = some h → h.phase.isDone = false → s.owned = some i
  ended : s.owned = none → ∀ h ∈ s.handlers.getLast?, ∀ outcome time,
    h.phase = .finished outcome time → s.start = time

theorem owned_of_holds {s : State} (h : s.phase.holds) : s.owned = s.handlerTask := by
  unfold owned
  cases hphase : s.phase <;> simp_all [Phase.holds]

/-- Nothing is owned while a reader is created. -/
theorem Supervised.owned_create {s : State} (hs : s.Supervised) (hphase : s.phase = .create) :
    s.owned = none := by
  unfold owned
  rw [hphase]
  exact hs.released (by rw [hphase]; rfl)

theorem supervised_new (now : ℤ) (session : Bool) : (new now session).Supervised where
  released _ := rfl
  last _ h := by cases h
  running _ _ h := by cases h
  ended _ _ h := by cases h

theorem phaseOf_eq_some {s : State} {i : ℕ} {phase : HandlerPhase} (h : s.phaseOf i = some phase) :
    ∃ handler, s.handlers[i]? = some handler ∧ handler.phase = phase :=
  Option.map_eq_some_iff.mp h

/-- The handlers, what is owned and the start timestamp make up the invariant. -/
theorem Supervised.congr {s t : State} (hs : s.Supervised) (hhandlers : t.handlers = s.handlers)
    (howned : t.owned = s.owned) (hstart : t.start = s.start)
    (hreleased : t.phase.holds = false → t.handlerTask = none) : t.Supervised where
  released := hreleased
  last := by
    rw [howned, hhandlers]
    exact hs.last
  running := by
    rw [howned, hhandlers]
    exact hs.running
  ended := by
    rw [howned, hhandlers, hstart]
    exact hs.ended

/-- A step of a handler that is not done keeps the invariant. -/
theorem Supervised.modify {s t : State} {i : ℕ} {handler : Handler} {f : Handler → Handler}
    (hs : s.Supervised) (hget : s.handlers[i]? = some handler)
    (hrunning : handler.phase.isDone = false) (hhandlers : t.handlers = s.handlers.modify i f)
    (hphase : t.phase = s.phase) (htask : t.handlerTask = s.handlerTask) : t.Supervised := by
  have howned : t.owned = s.owned := by
    unfold owned
    rw [hphase, htask]
  have hself : s.owned = some i := hs.running i handler hget hrunning
  refine ⟨?_, ?_, ?_, ?_⟩
  · rw [hphase, htask]
    exact hs.released
  · intro j hj
    rw [hhandlers, List.length_modify]
    exact hs.last j (howned ▸ hj)
  · intro j h hj hdone
    rw [howned]
    rcases eq_or_ne i j with rfl | hne
    · exact hself
    · rw [hhandlers, List.getElem?_modify_ne f _ hne] at hj
      exact hs.running j h hj hdone
  · intro hnone
    rw [howned, hself] at hnone
    cases hnone

/-- The task of the last handler is awaited: its end is the next start timestamp. -/
theorem Supervised.join {s : State} {i : ℕ} {next : Next} {phase : HandlerPhase}
    (hs : s.Supervised) (hjoin : s.phase = .join i next) (hget : s.phaseOf i = some phase)
    (hdone : phase.isDone) : (step s .join).Supervised := by
  have howned : s.owned = some i := by
    unfold owned
    rw [hjoin]
  have htask : s.handlerTask = none := hs.released (by rw [hjoin]; rfl)
  have hnext : (step s .join).owned = none := by
    simp only [step, hjoin]
    cases next <;> simp [owned, Next.phase, htask]
  obtain ⟨handler, hhandler, hphase⟩ := phaseOf_eq_some hget
  refine ⟨?_, ?_, ?_, ?_⟩
  · intro _
    simpa only [step, hjoin] using htask
  · rw [hnext]
    intro j hj
    cases hj
  · intro j h hj hrunning
    have hj : s.handlers[j]? = some h := by simpa only [step, hjoin] using hj
    have hji : some i = some j := howned.symm.trans (hs.running j h hj hrunning)
    cases hji
    rw [hhandler] at hj
    cases hj
    rw [hphase, hdone] at hrunning
    cases hrunning
  · intro _ h hlast outcome time hfinished
    have hlast : h ∈ s.handlers.getLast? := by simpa only [step, hjoin] using hlast
    rw [List.getLast?_eq_getElem?, ← hs.last i howned, Nat.add_sub_cancel, hhandler] at hlast
    cases hlast
    simp only [step, hjoin, joined, hget]
    rw [← hphase, hfinished]

/-- A reader is created when no task is held. -/
theorem Supervised.create {s : State} (hs : s.Supervised) (hphase : s.phase = .create) :
    (step s (.create true)).Supervised := by
  have hnone : s.owned = none := hs.owned_create hphase
  have howned : (step s (.create true)).owned = some s.handlers.length := rfl
  refine ⟨fun h => (by cases h), ?_, ?_, ?_⟩
  · intro i hi
    rw [howned] at hi
    cases hi
    simp [step]
  · intro i h hi hrunning
    rw [howned]
    simp only [step, List.getElem?_append] at hi
    split at hi
    · have := hs.running i h hi hrunning
      rw [hnone] at this
      cases this
    · next hlt =>
      obtain ⟨hlt', -⟩ := List.getElem?_eq_some_iff.mp hi
      simp only [List.length_singleton] at hlt'
      exact congrArg some (by omega)
  · rw [howned]
    intro h
    cases h

/-- Every step keeps the invariant. -/
theorem Supervised.step {s : State} (hs : s.Supervised) (a : Action) (ha : Enabled s a) :
    (step s a).Supervised := by
  have hselect : ∀ {armed}, s.phase = .select armed → s.phase.holds := fun h => by rw [h]; rfl
  cases a with
  | elapse duration => exact hs.congr rfl rfl rfl hs.released
  | change session => exact hs.congr rfl rfl rfl hs.released
  | drop => exact hs.congr rfl rfl rfl hs.released
  | close => exact hs.congr rfl rfl rfl hs.released
  | seeEnd =>
    obtain ⟨⟨armed, hphase⟩, -⟩ := ha
    exact hs.congr rfl (owned_of_holds (hselect hphase)).symm rfl fun h => by cases h
  | seeSession =>
    obtain ⟨⟨armed, hphase⟩, -⟩ := ha
    refine hs.congr rfl ?_ rfl ?_
    · rw [owned_of_holds (hselect hphase)]
      cases hsession : s.session <;> simp [CdcActor.step, hsession, owned]
    · cases hsession : s.session <;> simp [CdcActor.step, hsession, Phase.holds]
  | seeError =>
    obtain ⟨⟨armed, hphase⟩, -⟩ := ha
    exact hs.congr rfl (owned_of_holds (hselect hphase)).symm rfl fun h => by cases h
  | seeBackoff =>
    refine hs.congr rfl ?_ rfl ?_
    · rw [owned_of_holds (hselect ha)]
      cases halive : s.alive <;> cases hsession : s.session <;>
        simp [CdcActor.step, halive, hsession, owned]
    · cases halive : s.alive <;> cases hsession : s.session <;>
        simp [CdcActor.step, halive, hsession, Phase.holds]
  | drainError =>
    exact hs.congr rfl (owned_of_holds (by rw [ha]; rfl)).symm rfl fun h => by cases h
  | stop =>
    obtain ⟨next, hphase⟩ := ha
    have howned : s.owned = s.handlerTask := owned_of_holds (by rw [hphase]; rfl)
    cases htask : s.handlerTask with
    | none =>
      rw [htask] at howned
      refine hs.congr ?_ ?_ ?_ ?_ <;> simp only [CdcActor.step, hphase, htask]
      · rw [howned]
        cases next <;> simp [owned, Next.phase]
      · exact fun _ => trivial
    | some i =>
      rw [htask] at howned
      refine hs.congr ?_ ?_ ?_ ?_ <;> simp only [CdcActor.step, hphase, htask]
      · rw [howned]
        rfl
      · exact fun _ => trivial
  | join =>
    obtain ⟨i, next, hjoin, phase, hget, hdone⟩ := ha
    exact hs.join hjoin hget hdone
  | drainShutdown =>
    have hphase : s.phase = .drainShutdown := ha
    refine hs.congr rfl ?_ rfl fun _ => hs.released (by rw [hphase]; rfl)
    simp only [CdcActor.step, owned, hphase]
  | create ok =>
    cases ok with
    | true => exact hs.create ha
    | false =>
      have hphase : s.phase = .create := ha
      refine hs.congr rfl ?_ rfl fun _ => hs.released (by rw [hphase]; rfl)
      simp only [CdcActor.step, owned, hphase]
  | notifyFailed =>
    have hphase : s.phase = .failed := ha
    refine hs.congr rfl ?_ rfl fun h => by cases h
    simp only [CdcActor.step, owned, hphase]
  | run i =>
    obtain ⟨handler, hget, hphase⟩ := phaseOf_eq_some ha
    exact hs.modify hget (by rw [hphase]; rfl) rfl rfl rfl
  | deliver i position =>
    obtain ⟨handler, hget, hphase | hphase, -⟩ := ha <;>
      exact hs.modify hget (by rw [hphase]; rfl) rfl rfl rfl
  | complete i ok =>
    obtain ⟨handler, hget, hphase⟩ := phaseOf_eq_some ha
    exact hs.modify hget (by rw [hphase]; rfl) rfl rfl rfl
  | shutdown i =>
    obtain ⟨handler, hget, hphase⟩ := phaseOf_eq_some ha.1
    exact hs.modify hget (by rw [hphase]; rfl) rfl rfl rfl
  | notifyError i =>
    obtain ⟨handler, hget, hphase⟩ := phaseOf_eq_some ha
    exact hs.modify hget (by rw [hphase]; rfl) rfl rfl rfl
  | finish i =>
    obtain ⟨outcome, hclosing⟩ := ha
    obtain ⟨handler, hget, hphase⟩ := phaseOf_eq_some hclosing
    simp only [CdcActor.step, hclosing]
    exact hs.modify hget (by rw [hphase]; rfl) rfl rfl rfl
  | panic i =>
    obtain ⟨phase, hsome, hdone⟩ := ha
    obtain ⟨handler, hget, hphase⟩ := phaseOf_eq_some hsome
    exact hs.modify hget (by rw [hphase]; simpa using hdone) rfl rfl rfl

end State

end CdcActor

namespace Sample

/-- The first reader delivers the log up to `now`, stalls for a time and fails. -/
def stalled (stall : ℕ) : List CdcActor.Action :=
  [.seeSession, .drainError, .stop, .drainShutdown, .create true, .run 0,
    .deliver 0 1700000000000000000, .elapse stall, .complete 0 false, .notifyError 0, .finish 0,
    .seeError, .elapse 5000000000, .seeBackoff, .stop, .join, .drainShutdown]

end Sample

end VectorStore
