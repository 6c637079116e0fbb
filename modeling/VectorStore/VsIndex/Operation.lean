import VectorStore.Foundation.ModeLock
import VectorStore.Foundation.Run

/-!
# Operation permits

`Operation::permit` hands out the permits under which the closures of a usearch index run.  The
actor that calls it and the holders that drop their permits are cut at the points where they touch
the counter or the notification, so a drop can fall between any two of them.
-/

namespace VectorStore

namespace Usearch

/-- The family of an operation. -/
inductive Mode where
  | reserve
  | insert
  | remove
  | search
deriving DecidableEq

/-- Removing and reserving are not safe next to other operations. -/
def Mode.isExclusive : Mode → Bool
  | insert | search => false
  | reserve | remove => true

/-- The mode and the counter of `Operation`. -/
abbrev Operation := ModeLock Mode

/-- `Operation::new`. -/
def Operation.new : Operation := ⟨.insert, 0⟩

namespace Permits

/-- Where the actor is in `permit`. -/
inductive Pc where
  | idle
  /-- `while self.mode != mode`: the counter is about to be read. -/
  | switch (mode : Mode)
  | switchWait (mode : Mode)
  /-- `while self.counter.load() != 0` of an exclusive mode. -/
  | drain (mode : Mode)
  | drainWait (mode : Mode)
  /-- The counter is about to be incremented. -/
  | acquire (mode : Mode)
deriving DecidableEq

/-- An operation with its permits. -/
structure State where
  operation : Operation
  /-- The notification stored by `Notify`: one at most. -/
  notified : Bool
  pc : Pc
  /-- The outstanding permits, with the mode each was issued for. -/
  permits : List Mode
  /-- The dropped permits that found the counter at one and are about to notify. -/
  notifiers : ℕ
deriving DecidableEq

/-- A step of the actor or of a holder. -/
inductive Action where
  /-- The actor calls `permit`. -/
  | call (mode : Mode)
  /-- The actor goes on to its next access of the counter or the notification. -/
  | advance
  /-- A holder drops its permit: the counter is decremented. -/
  | drop (permit : ℕ)
  /-- A holder that took the counter to zero notifies. -/
  | notify
deriving DecidableEq

/-- A new operation. -/
def State.init : State := ⟨.new, false, .idle, [], 0⟩

/-- What follows the first loop. -/
def Pc.switched (mode : Mode) : Pc := if mode.isExclusive then .drain mode else .acquire mode

/-- The actor waits inside `permit`. -/
def State.Waiting (s : State) : Prop :=
  ∃ mode, s.pc = .switchWait mode ∨ s.pc = .drainWait mode

instance (s : State) : Decidable s.Waiting :=
  match h : s.pc with
  | .idle | .switch _ | .drain _ | .acquire _ => .isFalse (by simp [State.Waiting, h])
  | .switchWait mode => .isTrue ⟨mode, Or.inl h⟩
  | .drainWait mode => .isTrue ⟨mode, Or.inr h⟩

/-- The next step of the actor. -/
def State.advance (s : State) : State :=
  match s.pc with
  | .idle => s
  | .switch mode =>
    if s.operation.mode = mode then { s with pc := .switched mode }
    else if s.operation.counter = 0 then
      { s with operation := { s.operation with mode := mode }, pc := .switched mode }
    else { s with pc := .switchWait mode }
  | .switchWait mode => { s with notified := false, pc := .switch mode }
  | .drain mode =>
    if s.operation.counter = 0 then { s with pc := .acquire mode }
    else { s with pc := .drainWait mode }
  | .drainWait mode => { s with notified := false, pc := .drain mode }
  | .acquire mode =>
    { s with
      operation := { s.operation with counter := s.operation.counter + 1 }
      permits := mode :: s.permits
      pc := .idle }

/-- The state after a step. -/
def step (s : State) : Action → State
  | .call mode => { s with pc := .switch mode }
  | .advance => s.advance
  | .drop permit =>
    { s with
      operation := s.operation.release
      permits := s.permits.eraseIdx permit
      notifiers := if s.operation.counter = 1 then s.notifiers + 1 else s.notifiers }
  | .notify => { s with notified := true, notifiers := s.notifiers - 1 }

/-- When a step can be taken.  An actor that waits goes on when a notification is stored. -/
def Enabled (s : State) : Action → Prop
  | .call _ => s.pc = .idle
  | .advance => s.pc ≠ .idle ∧ (s.Waiting → s.notified)
  | .drop permit => permit < s.permits.length
  | .notify => 0 < s.notifiers

instance (s : State) (a : Action) : Decidable (Enabled s a) := by
  cases a <;> unfold Enabled <;> infer_instance

end Permits

end Usearch

end VectorStore
