import VectorStore.VsIndex.Operation

/-!
# Permits are exclusive and lose no wake-up

The counter of an operation counts the outstanding permits, all of them issued for its mode, and an
exclusive permit is alone.  An actor that waits for the counter to reach zero is woken: the drop
that takes the counter there notifies after the actor has begun to wait, or has left a stored
notification.  To whoever only sees when permits are handed out and dropped, the protocol is a mode
lock.
-/

namespace VectorStore

namespace Usearch

namespace Permits

/-! ## The invariant -/

/-- What holds at a place of the actor: past the first loop the mode is the requested one, and a
permit that is about to be handed out is one the lock admits. -/
def Pc.Fits (operation : Operation) : Pc → Prop
  | .idle | .switch _ | .switchWait _ => True
  | .drain mode | .drainWait mode => operation.mode = mode
  | .acquire mode => operation.mode = mode ∧ operation.Admits Mode.isExclusive mode

/-- The lock guards the outstanding permits, and an actor that waits with the counter at zero has a
notification coming. -/
structure Inv (s : State) : Prop where
  guards : s.operation.Guards Mode.isExclusive s.permits
  fits : s.pc.Fits s.operation
  awake : s.Waiting → s.operation.counter = 0 → s.notified = true ∨ 0 < s.notifiers

theorem inv_init : Inv .init where
  guards := ModeLock.guards_zero rfl
  fits := trivial
  awake := by
    rintro ⟨mode, h | h⟩ <;> cases h

/-- The place after the first loop fits a lock with the requested mode. -/
theorem fits_switched {operation : Operation} {mode : Mode} (h : operation.mode = mode) :
    (Pc.switched mode).Fits operation := by
  unfold Pc.switched
  cases hexclusive : mode.isExclusive
  · exact ⟨h, Or.inr ⟨h, hexclusive⟩⟩
  · exact h

theorem not_waiting_switched {s : State} {mode : Mode} (h : s.pc = .switched mode) :
    ¬s.Waiting := by
  rintro ⟨m, hm⟩
  rw [h, Pc.switched] at hm
  cases mode <;> simp [Mode.isExclusive] at hm

/-- A step of the actor keeps the invariant. -/
theorem Inv.advance {s : State} (hs : Inv s) : Inv s.advance := by
  have hfits := hs.fits
  unfold State.advance
  cases hpc : s.pc with
  | idle => exact hs
  | switch mode =>
    dsimp only
    split
    · next hmode =>
      exact ⟨hs.guards, fits_switched hmode, fun h => absurd h (not_waiting_switched rfl)⟩
    · split
      · next hzero =>
        have hnone := hs.guards.eq_zero hzero
        refine ⟨?_, fits_switched rfl, fun h => absurd h (not_waiting_switched rfl)⟩
        rw [hnone]
        exact ModeLock.guards_zero hzero
      · next hpos => exact ⟨hs.guards, trivial, fun _ hzero => absurd hzero hpos⟩
  | switchWait mode =>
    refine ⟨hs.guards, trivial, ?_⟩
    rintro ⟨m, h | h⟩ <;> cases h
  | drain mode =>
    rw [hpc] at hfits
    dsimp only
    split
    · next hzero =>
      refine ⟨hs.guards, ⟨hfits, Or.inl hzero⟩, ?_⟩
      rintro ⟨m, h | h⟩ <;> cases h
    · next hpos => exact ⟨hs.guards, hfits, fun _ hzero => absurd hzero hpos⟩
  | drainWait mode =>
    rw [hpc] at hfits
    refine ⟨hs.guards, hfits, ?_⟩
    rintro ⟨m, h | h⟩ <;> cases h
  | acquire mode =>
    rw [hpc] at hfits
    obtain ⟨rfl, hadmits⟩ := hfits
    refine ⟨hs.guards.acquire hadmits, trivial, ?_⟩
    rintro ⟨m, h | h⟩ <;> cases h

/-- A permit that is dropped leaves the lock and, when it was the last one, notifies. -/
theorem Inv.drop {s : State} (hs : Inv s) {permit : ℕ} (hlt : permit < s.permits.length) :
    Inv (step s (.drop permit)) := by
  have hperm : (s.permits : Multiset Mode) = s.permits[permit] ::ₘ ↑(s.permits.eraseIdx permit) :=
    Multiset.coe_eq_coe.mpr (List.getElem_cons_eraseIdx_perm hlt).symm
  have hguards := hs.guards
  rw [hperm] at hguards
  refine ⟨hguards.release, ?_, ?_⟩
  · have hfits := hs.fits
    change s.pc.Fits s.operation.release
    cases hpc : s.pc <;> rw [hpc] at hfits
    case acquire mode =>
      obtain ⟨hmode, hzero | hshared⟩ := hfits
      · have := hs.guards.counter
        rw [hzero, Multiset.coe_card] at this
        omega
      · exact ⟨hmode, Or.inr hshared⟩
    all_goals exact hfits
  · intro hwaiting hzero
    right
    have hcounter := hs.guards.counter
    rw [Multiset.coe_card] at hcounter
    have hone : s.operation.counter = 1 := by
      have : s.operation.counter - 1 = 0 := hzero
      omega
    simp only [step, if_pos hone]
    exact Nat.succ_pos _

/-- Every step keeps the invariant. -/
theorem Inv.step {s : State} (hs : Inv s) (a : Action) (ha : Enabled s a) : Inv (step s a) := by
  cases a with
  | call mode =>
    refine ⟨hs.guards, trivial, ?_⟩
    rintro ⟨m, h | h⟩ <;> cases h
  | advance => exact hs.advance
  | drop permit => exact hs.drop ha
  | notify => exact ⟨hs.guards, hs.fits, fun _ _ => Or.inl rfl⟩

/-- What the holders see of a step is a step of the mode lock: it hands out a permit that the lock
admits, takes one back, or leaves the permits and the counter alone. -/
def LockStep (s t : State) : Prop :=
  (∃ mode, s.operation.Admits Mode.isExclusive mode ∧ t.operation = s.operation.acquire mode ∧
      t.permits = mode :: s.permits) ∨
    (∃ permit < s.permits.length, t.operation = s.operation.release ∧
      t.permits = s.permits.eraseIdx permit) ∨
    t.operation.counter = s.operation.counter ∧ t.permits = s.permits

theorem Inv.step_lock {s : State} (hs : Inv s) {a : Action} (ha : Enabled s a) :
    LockStep s (Permits.step s a) := by
  cases a with
  | call mode => exact Or.inr (Or.inr ⟨rfl, rfl⟩)
  | drop permit => exact Or.inr (Or.inl ⟨permit, ha, rfl, rfl⟩)
  | notify => exact Or.inr (Or.inr ⟨rfl, rfl⟩)
  | advance =>
    have hfits := hs.fits
    simp only [LockStep, Permits.step, State.advance]
    cases hpc : s.pc with
    | acquire mode =>
      rw [hpc] at hfits
      obtain ⟨rfl, hadmits⟩ := hfits
      exact Or.inl ⟨_, hadmits, rfl, rfl⟩
    | switch mode =>
      right
      right
      dsimp only
      split
      · exact ⟨rfl, rfl⟩
      · split <;> exact ⟨rfl, rfl⟩
    | drain mode =>
      right
      right
      dsimp only
      split <;> exact ⟨rfl, rfl⟩
    | idle => exact Or.inr (Or.inr ⟨rfl, rfl⟩)
    | switchWait mode => exact Or.inr (Or.inr ⟨rfl, rfl⟩)
    | drainWait mode => exact Or.inr (Or.inr ⟨rfl, rfl⟩)

/-! ## The result -/

/-- What the permit protocol promises. -/
structure Sound (s : State) : Prop where
  /-- To the holders the protocol is the mode lock. -/
  lock : ∀ a, Enabled s a → LockStep s (step s a)
  /-- Every outstanding permit was issued for the current mode. -/
  issued : ∀ mode ∈ s.permits, mode = s.operation.mode
  /-- An exclusive permit is the only one. -/
  alone : ∀ mode ∈ s.permits, mode.isExclusive → s.permits = [mode]
  /-- The counter is the number of outstanding permits. -/
  counter : s.operation.counter = s.permits.length
  /-- An actor that waits with the counter at zero has a notification pending: it is stored, or the
  holder that took the counter to zero is about to send it. -/
  awake : s.Waiting → s.operation.counter = 0 → s.notified = true ∨ 0 < s.notifiers
  /-- An actor that waits has somebody left to wake it. -/
  live : s.Waiting → s.notified = true ∨ 0 < s.notifiers ∨ s.permits ≠ []

theorem Inv.sound {s : State} (hs : Inv s) : Sound s := by
  have hcounter : s.operation.counter = s.permits.length := by
    rw [hs.guards.counter, Multiset.coe_card]
  refine ⟨fun a ha => hs.step_lock ha, fun mode h => hs.guards.issued mode (Multiset.mem_coe.mpr h),
    ?_, hcounter, hs.awake, ?_⟩
  · intro mode hmem hexclusive
    have hmode : mode = s.operation.mode := hs.guards.issued mode (Multiset.mem_coe.mpr hmem)
    have hle := hs.guards.alone (hmode ▸ hexclusive)
    rw [Multiset.coe_card] at hle
    obtain ⟨m, hm⟩ := List.length_eq_one_iff.mp
      (le_antisymm hle (List.length_pos_of_mem hmem))
    rw [hm] at hmem ⊢
    rw [List.mem_singleton.mp hmem]
  · intro hwaiting
    by_cases hnil : s.permits = []
    · have hzero : s.operation.counter = 0 := by rw [hcounter, hnil, List.length_nil]
      exact (hs.awake hwaiting hzero).imp_right Or.inl
    · exact Or.inr (Or.inr hnil)

/-- In every run the permits are sound. -/
theorem permits_sound {as : List Action} (has : Machine.Along step Enabled .init as) :
    Sound (Machine.run step .init as) :=
  (@Machine.run_invariant_of_along _ _ step Inv Enabled (fun _ a hs ha => hs.step a ha) _ inv_init
    as has).sound

/-- A removal waits for an insertion, and the drop of the insertion's permit wakes it up. -/
theorem permits_sound_wakeUp :
    Sound (Machine.run step .init
      [.call .insert, .advance, .advance, .call .remove, .advance, .drop 0, .notify]) :=
  permits_sound (by decide)

end Permits

end Usearch

end VectorStore
