import Mathlib.Data.Multiset.Basic
import Mathlib.Tactic

/-!
# Mode locks

A mode lock lets any number of holders in, as long as all of them work in one mode; a holder in an
exclusive mode is alone.  The lock itself is a current mode and a counter.  `Guards` relates it to
the modes of the holders, and there is one rule for each of its operations.
-/

namespace VectorStore

/-- The current mode and the number of holders. -/
structure ModeLock (μ : Type*) where
  mode : μ
  counter : ℕ
deriving DecidableEq

namespace ModeLock

variable {μ : Type*} {exclusive : μ → Bool} {lock : ModeLock μ} {mode : μ} {held : Multiset μ}

/-- A holder may come in: the lock is free, or the mode is the current one and can be shared. -/
def Admits (exclusive : μ → Bool) (lock : ModeLock μ) (mode : μ) : Prop :=
  lock.counter = 0 ∨ lock.mode = mode ∧ exclusive mode = false

instance [DecidableEq μ] (lock : ModeLock μ) (mode : μ) :
    Decidable (lock.Admits exclusive mode) := by
  unfold Admits
  infer_instance

/-- A holder comes in. -/
def acquire (lock : ModeLock μ) (mode : μ) : ModeLock μ := ⟨mode, lock.counter + 1⟩

/-- A holder leaves. -/
def release (lock : ModeLock μ) : ModeLock μ := { lock with counter := lock.counter - 1 }

/-- The lock counts the holders, each of them works in its mode, and in an exclusive mode there is
at most one. -/
structure Guards (exclusive : μ → Bool) (lock : ModeLock μ) (held : Multiset μ) : Prop where
  counter : lock.counter = held.card
  issued : ∀ m ∈ held, m = lock.mode
  alone : exclusive lock.mode → held.card ≤ 1

/-- A free lock. -/
theorem guards_zero (h : lock.counter = 0) : lock.Guards exclusive 0 where
  counter := h
  issued _ hm := absurd hm (Multiset.notMem_zero _)
  alone _ := Nat.zero_le _

/-- Nobody holds a lock with the counter at zero. -/
theorem Guards.eq_zero (h : lock.Guards exclusive held) (hcounter : lock.counter = 0) :
    held = 0 :=
  Multiset.card_eq_zero.mp (h.counter ▸ hcounter)

/-- A holder that the lock admits comes in. -/
theorem Guards.acquire (h : lock.Guards exclusive held) (hadmits : lock.Admits exclusive mode) :
    (lock.acquire mode).Guards exclusive (mode ::ₘ held) := by
  refine ⟨?_, ?_, ?_⟩
  · rw [Multiset.card_cons, ← h.counter]
    rfl
  · intro m hm
    rcases Multiset.mem_cons.mp hm with rfl | hm
    · rfl
    · rcases hadmits with hzero | ⟨hmode, -⟩
      · rw [h.eq_zero hzero] at hm
        exact absurd hm (Multiset.notMem_zero _)
      · exact (h.issued m hm).trans hmode
  · intro hexclusive
    rcases hadmits with hzero | ⟨-, hshared⟩
    · rw [h.eq_zero hzero]
      simp
    · rw [show exclusive mode = true from hexclusive] at hshared
      cases hshared

/-- A holder leaves. -/
theorem Guards.release (h : lock.Guards exclusive (mode ::ₘ held)) :
    lock.release.Guards exclusive held := by
  refine ⟨?_, ?_, ?_⟩
  · change lock.counter - 1 = held.card
    rw [h.counter, Multiset.card_cons, Nat.add_sub_cancel]
  · exact fun m hm => h.issued m (Multiset.mem_cons_of_mem hm)
  · intro hexclusive
    have := h.alone hexclusive
    rw [Multiset.card_cons] at this
    omega

/-- Next to a holder in an exclusive mode there is no other. -/
theorem Guards.eq_zero_of_exclusive (h : lock.Guards exclusive (mode ::ₘ held))
    (hexclusive : exclusive mode) : held = 0 := by
  have hmode : mode = lock.mode := h.issued mode (Multiset.mem_cons_self _ _)
  have := h.alone (hmode ▸ hexclusive)
  rw [Multiset.card_cons] at this
  exact Multiset.card_eq_zero.mp (by omega)

/-- A holder that is about to come in meets only holders of its mode, and nobody when its mode is
exclusive. -/
theorem Guards.mode_eq_of_admits (h : lock.Guards exclusive held)
    (hadmits : lock.Admits exclusive mode) : ∀ m ∈ held, m = mode ∧ exclusive mode = false := by
  intro m hm
  rcases hadmits with hzero | ⟨hmode, hshared⟩
  · rw [h.eq_zero hzero] at hm
    exact absurd hm (Multiset.notMem_zero _)
  · exact ⟨(h.issued m hm).trans hmode, hshared⟩

end ModeLock

end VectorStore
