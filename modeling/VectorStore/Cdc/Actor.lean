import VectorStore.Foundation.Run

/-!
# The actor that supervises a CDC reader

The actor waits for a change of the session, an error of the handler and the end of a backoff, and
starts and stops the reader.  Its steps are cut at the points where it waits and where it uses a
notification, so that the task of a handler, the watch of the session and the clock can move in
between.  A `Notify` holds at most one permit; a handler and its reader are one incarnation, which
has delivered the log from its start timestamp up to a position.
-/

namespace VectorStore

namespace CdcActor

/-- `CHECKPOINT_TIMESTAMP_OFFSET`, in nanoseconds. -/
def checkpointTimestampOffset : ℤ := 10 * 60 * 1000000000

/-! ## Handlers -/

/-- How a handler ends. -/
inductive Outcome where
  | ok
  | error
  | shutdown
deriving DecidableEq

instance : Fintype Outcome :=
  ⟨{.ok, .error, .shutdown}, fun outcome => by cases outcome <;> decide⟩

/-- Where the task of a handler is: before its `select!`, inside of it, after an error that is not
notified yet, after the `select!`, or done. -/
inductive HandlerPhase where
  | starting
  | running
  | failed
  | closing (outcome : Outcome)
  | finished (outcome : Outcome) (time : ℤ)
  | panicked
deriving DecidableEq

/-- The task is done. -/
def HandlerPhase.isDone : HandlerPhase → Bool
  | finished _ _ | panicked => true
  | starting | running | failed | closing _ => false

/-- The outcome of a handler that left its `select!` and notified the actor of an error. -/
def HandlerPhase.outcome : HandlerPhase → Option Outcome
  | closing outcome => some outcome
  | finished outcome _ => some outcome
  | starting | running | failed | panicked => none

/-- An incarnation of the reader. -/
structure Handler where
  phase : HandlerPhase
  /-- The start timestamp of the reader. -/
  cdcStart : ℤ
  /-- The log is delivered from the start up to here. -/
  position : ℤ
  /-- The number of calls of `stop` before the handler was spawned. -/
  spawned : ℕ
deriving DecidableEq

/-! ## The actor -/

/-- What follows a `stop`: a restart, the next `select!` or the end of the actor. -/
inductive Next where
  | restart
  | select
  | cleanup
deriving DecidableEq

instance : Fintype Next :=
  ⟨{.restart, .select, .cleanup}, fun next => by cases next <;> decide⟩

/-- Where the actor is. -/
inductive Phase where
  /-- In `select!`; the backoff, when it is armed, was moved into the sleep. -/
  | select (armed : Bool)
  | drainError
  | stop (next : Next)
  | join (handler : ℕ) (next : Next)
  | drainShutdown
  | create
  | failed
  | finished
deriving DecidableEq

/-- The phase after a `stop`. -/
def Next.phase : Next → Phase
  | restart => .drainShutdown
  | select => .select false
  | cleanup => .finished

/-- The actor, its handlers and what they share. -/
structure State where
  now : ℤ
  /-- The timestamp for the next reader. -/
  start : ℤ
  /-- A session is available, as the watch has it. -/
  session : Bool
  /-- The actor has not seen the last value of the watch. -/
  unseen : Bool
  alive : Bool
  closed : Bool
  errorPermit : Bool
  shutdownPermit : Bool
  phase : Phase
  handlerTask : Option ℕ
  /-- All handlers, in the order in which they were spawned. -/
  handlers : List Handler
  /-- The number of calls of `stop`. -/
  stops : ℕ
  /-- The last creation of a reader failed. -/
  creationFailed : Bool
deriving DecidableEq

/-- A new actor: the session is marked as changed. -/
def State.new (now : ℤ) (session : Bool) : State where
  now := now
  start := now
  session := session
  unseen := true
  alive := true
  closed := false
  errorPermit := false
  shutdownPermit := false
  phase := .select false
  handlerTask := none
  handlers := []
  stops := 0
  creationFailed := false

/-- The steps of the actor, of the tasks of its handlers and of what is around them. -/
inductive Action where
  /-- Time passes. -/
  | elapse (duration : ℕ)
  /-- The watch of the session gets a value. -/
  | change (session : Bool)
  /-- The index is dropped. -/
  | drop
  /-- The senders of the actor are dropped. -/
  | close
  /-- The branches of `select!`. -/
  | seeEnd
  | seeSession
  | seeError
  | seeBackoff
  /-- The steps of `handle_session_change`, `stop` and `restart`. -/
  | drainError
  | stop
  | join
  | drainShutdown
  | create (ok : Bool)
  | notifyFailed
  /-- The steps of the task of a handler. -/
  | run (handler : ℕ)
  | deliver (handler : ℕ) (position : ℤ)
  | complete (handler : ℕ) (ok : Bool)
  | shutdown (handler : ℕ)
  | notifyError (handler : ℕ)
  | finish (handler : ℕ)
  | panic (handler : ℕ)
deriving DecidableEq

namespace State

/-- The state with one handler in another phase. -/
def setPhase (s : State) (handler : ℕ) (phase : HandlerPhase) : State :=
  { s with handlers := s.handlers.modify handler fun h => { h with phase } }

/-- The phase of a handler. -/
def phaseOf (s : State) (handler : ℕ) : Option HandlerPhase :=
  s.handlers[handler]?.map Handler.phase

/-- What `task.await.unwrap_or(cdc_now())` returns for a task that is done. -/
def joined (s : State) (handler : ℕ) : ℤ :=
  match s.phaseOf handler with
  | some (.finished _ time) => time
  | _ => s.now

end State

/-- The state after a step. -/
def step (s : State) : Action → State
  | .elapse duration => { s with now := s.now + duration }
  | .change session => { s with session, unseen := true }
  | .drop => { s with alive := false }
  | .close => { s with closed := true }
  | .seeEnd => { s with phase := .stop .cleanup }
  | .seeSession =>
    { s with unseen := false, phase := if s.session then .drainError else .stop .select }
  | .seeError => { s with errorPermit := false, phase := .select true }
  | .seeBackoff =>
    { s with
      phase :=
        if s.alive then if s.session then .stop .restart else .select false else .stop .cleanup }
  | .drainError => { s with errorPermit := false, phase := .stop .restart }
  | .stop =>
    match s.phase with
    | .stop next =>
      match s.handlerTask with
      | some handler =>
        { s with
          stops := s.stops + 1, shutdownPermit := true, handlerTask := none
          phase := .join handler next }
      | none => { s with stops := s.stops + 1, phase := next.phase }
    | _ => s
  | .join =>
    match s.phase with
    | .join handler next => { s with start := s.joined handler, phase := next.phase }
    | _ => s
  | .drainShutdown => { s with shutdownPermit := false, phase := .create }
  | .create true =>
    let cdcStart := s.start - checkpointTimestampOffset
    { s with
      handlers := s.handlers ++ [⟨.starting, cdcStart, cdcStart, s.stops⟩]
      handlerTask := some s.handlers.length
      creationFailed := false
      phase := .select false }
  | .create false => { s with creationFailed := true, phase := .failed }
  | .notifyFailed => { s with errorPermit := true, phase := .select false }
  | .run handler => s.setPhase handler .running
  | .deliver handler position =>
    { s with handlers := s.handlers.modify handler fun h => { h with position } }
  | .complete handler ok => s.setPhase handler (if ok then .closing .ok else .failed)
  | .shutdown handler =>
    { s.setPhase handler (.closing .shutdown) with shutdownPermit := false }
  | .notifyError handler => { s.setPhase handler (.closing .error) with errorPermit := true }
  | .finish handler =>
    match s.phaseOf handler with
    | some (.closing outcome) => s.setPhase handler (.finished outcome s.now)
    | _ => s
  | .panic handler => s.setPhase handler .panicked

/-- The step can be taken. -/
def Enabled (s : State) : Action → Prop
  | .elapse _ | .change _ | .drop | .close => True
  | .seeEnd => (∃ armed, s.phase = .select armed) ∧ (s.closed ∨ !s.alive)
  | .seeSession => (∃ armed, s.phase = .select armed) ∧ s.alive ∧ s.unseen
  | .seeError => (∃ armed, s.phase = .select armed) ∧ s.errorPermit
  | .seeBackoff => s.phase = .select true
  | .drainError => s.phase = .drainError
  | .stop => ∃ next, s.phase = .stop next
  | .join => ∃ handler next, s.phase = .join handler next ∧
      ∃ phase, s.phaseOf handler = some phase ∧ phase.isDone
  | .drainShutdown => s.phase = .drainShutdown
  | .create _ => s.phase = .create
  | .notifyFailed => s.phase = .failed
  | .run handler => s.phaseOf handler = some .starting
  | .deliver handler position => ∃ h, s.handlers[handler]? = some h ∧
      (h.phase = .starting ∨ h.phase = .running) ∧ h.position ≤ position ∧ position ≤ s.now
  | .complete handler _ => s.phaseOf handler = some .running
  | .shutdown handler => s.phaseOf handler = some .running ∧ s.shutdownPermit
  | .notifyError handler => s.phaseOf handler = some .failed
  | .finish handler => ∃ outcome, s.phaseOf handler = some (.closing outcome)
  | .panic handler => ∃ phase, s.phaseOf handler = some phase ∧ !phase.isDone

instance (s : State) : Decidable (∃ handler next, s.phase = .join handler next ∧
    ∃ phase, s.phaseOf handler = some phase ∧ phase.isDone) :=
  match hphase : s.phase with
  | .join handler next =>
    decidable_of_iff (∃ phase ∈ s.phaseOf handler, phase.isDone) (by
      constructor
      · exact fun hdone => ⟨handler, next, rfl, hdone⟩
      · rintro ⟨_, _, hjoin, hdone⟩
        cases hjoin
        exact hdone)
  | .select _ | .drainError | .stop _ | .drainShutdown | .create | .failed | .finished =>
    isFalse (by simp)

instance (s : State) : (action : Action) → Decidable (Enabled s action)
  | .elapse _ | .change _ | .drop | .close => isTrue trivial
  | .seeEnd => inferInstanceAs
      (Decidable ((∃ armed, s.phase = .select armed) ∧ (s.closed ∨ !s.alive)))
  | .seeSession => inferInstanceAs
      (Decidable ((∃ armed, s.phase = .select armed) ∧ s.alive ∧ s.unseen))
  | .seeError => inferInstanceAs (Decidable ((∃ armed, s.phase = .select armed) ∧ s.errorPermit))
  | .seeBackoff => inferInstanceAs (Decidable (s.phase = .select true))
  | .drainError => inferInstanceAs (Decidable (s.phase = .drainError))
  | .stop => inferInstanceAs (Decidable (∃ next, s.phase = .stop next))
  | .join => inferInstanceAs (Decidable (∃ handler next, s.phase = .join handler next ∧
      ∃ phase, s.phaseOf handler = some phase ∧ phase.isDone))
  | .drainShutdown => inferInstanceAs (Decidable (s.phase = .drainShutdown))
  | .create _ => inferInstanceAs (Decidable (s.phase = .create))
  | .notifyFailed => inferInstanceAs (Decidable (s.phase = .failed))
  | .run handler => inferInstanceAs (Decidable (s.phaseOf handler = some .starting))
  | .deliver handler position => inferInstanceAs (Decidable (∃ h ∈ s.handlers[handler]?,
      (h.phase = .starting ∨ h.phase = .running) ∧ h.position ≤ position ∧ position ≤ s.now))
  | .complete handler _ => inferInstanceAs (Decidable (s.phaseOf handler = some .running))
  | .shutdown handler => inferInstanceAs
      (Decidable (s.phaseOf handler = some .running ∧ s.shutdownPermit))
  | .notifyError handler => inferInstanceAs (Decidable (s.phaseOf handler = some .failed))
  | .finish handler => inferInstanceAs
      (Decidable (∃ outcome, s.phaseOf handler = some (.closing outcome)))
  | .panic handler => inferInstanceAs
      (Decidable (∃ phase ∈ s.phaseOf handler, !phase.isDone))

end CdcActor

end VectorStore
