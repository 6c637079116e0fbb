import Mathlib.Tactic

/-!
# Runs of a deterministic machine

A machine is a step function on states and actions.  `run` folds it over a list of actions, and
`Along` says that a relation between state and action holds at every step of a run.  Three rules
carry the proofs about runs: an invariant kept by every step holds at the end of every run, two
relations that agree at every step from which the run can go on hold along the same runs, and an
action may go before actions that it commutes with.
-/

namespace VectorStore

namespace Machine

variable {σ α : Type*} (step : σ → α → σ)

/-- The state after a list of actions. -/
def run (s : σ) (as : List α) : σ :=
  as.foldl step s

/-- `P` holds of the state and the action at every step of the run. -/
def Along (P : σ → α → Prop) : σ → List α → Prop
  | _, [] => True
  | s, a :: as => P s a ∧ Along P (step s a) as

variable {step}

@[simp] theorem run_nil (s : σ) : run step s [] = s := rfl

@[simp] theorem run_cons (s : σ) (a : α) (as : List α) :
    run step s (a :: as) = run step (step s a) as := rfl

/-- A run of two batches of actions is the run of the second from the end of the first. -/
theorem run_append (s : σ) (as bs : List α) :
    run step s (as ++ bs) = run step (run step s as) bs :=
  List.foldl_append

@[simp] theorem along_nil {P : σ → α → Prop} {s : σ} : Along step P s [] := trivial

@[simp] theorem along_cons {P : σ → α → Prop} {s : σ} {a : α} {as : List α} :
    Along step P s (a :: as) ↔ P s a ∧ Along step P (step s a) as := Iff.rfl

instance decidableAlong {P : σ → α → Prop} [∀ s a, Decidable (P s a)] :
    (s : σ) → (as : List α) → Decidable (Along step P s as)
  | _, [] => isTrue trivial
  | s, a :: as =>
    have : Decidable (Along step P (step s a) as) := decidableAlong (step s a) as
    inferInstanceAs (Decidable (P s a ∧ Along step P (step s a) as))

/-- An action goes before actions that it commutes with. -/
theorem run_hoist {a : α} {as : List α}
    (hcomm : ∀ b ∈ as, ∀ s, step (step s b) a = step (step s a) b) (s : σ) (bs : List α) :
    run step s (as ++ a :: bs) = run step (step s a) (as ++ bs) := by
  induction as generalizing s with
  | nil => rfl
  | cons b as ih =>
    rw [List.cons_append, List.cons_append, run_cons, run_cons,
      ih fun c hc => hcomm c (List.mem_cons_of_mem b hc), hcomm b List.mem_cons_self]

/-- `P` holds along two batches of actions when it holds along each of them. -/
theorem along_append {P : σ → α → Prop} {s : σ} {as bs : List α} :
    Along step P s (as ++ bs) ↔ Along step P s as ∧ Along step P (run step s as) bs := by
  induction as generalizing s with
  | nil => simp
  | cons a as ih => rw [List.cons_append, along_cons, along_cons, ih, run_cons, and_assoc]

/-- Two relations hold along a run when each of them does. -/
theorem along_and {P Q : σ → α → Prop} {s : σ} {as : List α} :
    Along step (fun s a => P s a ∧ Q s a) s as ↔ Along step P s as ∧ Along step Q s as := by
  induction as generalizing s with
  | nil => simp
  | cons a as ih => rw [along_cons, along_cons, along_cons, ih, and_and_and_comm]

/-- What holds of every action holds along every run of them. -/
theorem along_of_forall {P : α → Prop} {as : List α} (h : ∀ a ∈ as, P a) (s : σ) :
    Along step (fun _ a => P a) s as := by
  induction as generalizing s with
  | nil => trivial
  | cons a as ih =>
    obtain ⟨ha, has⟩ := List.forall_mem_cons.mp h
    exact ⟨ha, ih has _⟩

/-- An invariant kept by every step holds at the end of every run. -/
theorem run_invariant {Inv : σ → Prop} (hstep : ∀ s a, Inv s → Inv (step s a)) {s : σ}
    (hs : Inv s) (as : List α) : Inv (run step s as) := by
  induction as generalizing s with
  | nil => exact hs
  | cons a as ih => exact ih (hstep s a hs)

/-- An invariant kept by the steps at which `P` holds holds at the end of a run along which `P`
holds. -/
theorem run_invariant_of_along {Inv : σ → Prop} {P : σ → α → Prop}
    (hstep : ∀ s a, Inv s → P s a → Inv (step s a)) {s : σ} (hs : Inv s) {as : List α}
    (has : Along step P s as) : Inv (run step s as) := by
  induction as generalizing s with
  | nil => exact hs
  | cons a as ih => exact ih (hstep s a hs has.1) has.2

/-- What follows from an invariant at one step follows along every run. -/
theorem along_of_invariant {Inv : σ → Prop} {P : σ → α → Prop}
    (hstep : ∀ s a, Inv s → Inv (step s a)) (hP : ∀ s a, Inv s → P s a) {s : σ} (hs : Inv s)
    (as : List α) : Along step P s as := by
  induction as generalizing s with
  | nil => trivial
  | cons a as ih => exact ⟨hP s a hs, ih (hstep s a hs)⟩

/-- What follows from an invariant and from `P` at one step follows along a run along which `P`
holds. -/
theorem along_of_along {Inv : σ → Prop} {P Q : σ → α → Prop}
    (hstep : ∀ s a, Inv s → P s a → Inv (step s a)) (hQ : ∀ s a, Inv s → P s a → Q s a) {s : σ}
    (hs : Inv s) {as : List α} (has : Along step P s as) : Along step Q s as := by
  induction as generalizing s with
  | nil => trivial
  | cons a as ih => exact ⟨hQ s a hs has.1, ih (hstep s a hs has.1) has.2⟩

/-- Two relations hold along the same runs when they agree wherever the invariant holds and
either of them carries the invariant over the step. -/
theorem along_congr {Inv : σ → Prop} {P Q : σ → α → Prop}
    (hiff : ∀ s a, Inv s → (P s a ↔ Q s a)) (hstep : ∀ s a, Inv s → P s a → Inv (step s a))
    {s : σ} (hs : Inv s) (as : List α) : Along step P s as ↔ Along step Q s as := by
  induction as generalizing s with
  | nil => exact Iff.rfl
  | cons a as ih =>
    rw [along_cons, along_cons, ← hiff s a hs]
    exact and_congr_right fun hP => ih (hstep s a hs hP)

end Machine

end VectorStore
