import Mathlib.Algebra.BigOperators.Group.List.Basic
import Mathlib.Algebra.Order.BigOperators.Group.List
import Mathlib.Tactic

/-!
# Partitions of an interval of integers

A strictly increasing list of cuts splits an interval: every part goes from one cut to just before
the next one, the last part to the end of the interval.  The lengths of the parts add up to the
length of the interval, and those of fewer parts to less.
-/

namespace VectorStore

namespace Intervals

/-- An integer of a closed interval. -/
def Mem (x : ℤ) (range : ℤ × ℤ) : Prop := range.1 ≤ x ∧ x ≤ range.2

/-- The number of integers of a closed interval. -/
def length (range : ℤ × ℤ) : ℕ := (range.2 - range.1 + 1).toNat

/-- A list of intervals partitions the integers from `lo` to `hi`. -/
structure Partition (lo hi : ℤ) (ranges : List (ℤ × ℤ)) : Prop where
  nonempty : ∀ range ∈ ranges, range.1 ≤ range.2
  disjoint : ranges.Pairwise fun range range' => ∀ x, Mem x range → ¬Mem x range'
  cover : ∀ x, (∃ range ∈ ranges, Mem x range) ↔ Mem x (lo, hi)

/-- The intervals between cuts; the last one ends at `top`. -/
def ofCuts (top : ℤ) : List ℤ → List (ℤ × ℤ)
  | [] => []
  | [cut] => [(cut, top)]
  | cut :: next :: cuts => (cut, next - 1) :: ofCuts top (next :: cuts)

/-- No cut is above the top, and no cut is before the first one. -/
theorem ofCuts_partition {top cut : ℤ} {cuts : List ℤ} (hsorted : (cut :: cuts).Pairwise (· < ·))
    (htop : ∀ c ∈ cut :: cuts, c ≤ top) : Partition cut top (ofCuts top (cut :: cuts)) := by
  induction cuts generalizing cut with
  | nil =>
    have hle : cut ≤ top := htop cut List.mem_cons_self
    exact ⟨by simpa [ofCuts] using hle, by simp [ofCuts], by simp [ofCuts]⟩
  | cons next cuts ih =>
    obtain ⟨hlt, hsorted'⟩ := List.pairwise_cons.mp hsorted
    obtain ⟨hnonempty, hdisjoint, hcover⟩ := ih hsorted' fun c hc => htop c (List.mem_cons_of_mem _ hc)
    have hnext : cut < next := hlt next List.mem_cons_self
    have hnextTop : next ≤ top := htop next (by simp)
    -- Everything in the later parts is at or above the next cut.
    have hlater : ∀ range ∈ ofCuts top (next :: cuts), ∀ x, Mem x range → next ≤ x :=
      fun range hrange x hx => ((hcover x).mp ⟨range, hrange, hx⟩).1
    constructor
    · intro range hrange
      rcases List.mem_cons.mp hrange with rfl | hrange
      · dsimp only
        omega
      · exact hnonempty range hrange
    · refine List.pairwise_cons.mpr ⟨fun range hrange x hx hx' => ?_, hdisjoint⟩
      have := hlater range hrange x hx'
      unfold Mem at hx
      omega
    · intro x
      rw [ofCuts, List.exists_mem_cons_iff, hcover x]
      unfold Mem
      dsimp only
      omega

/-- The lengths of the intervals between cuts add up. -/
theorem sum_length_ofCuts {top cut : ℤ} {cuts : List ℤ}
    (hsorted : (cut :: cuts).Pairwise (· < ·)) (htop : ∀ c ∈ cut :: cuts, c ≤ top) :
    ((ofCuts top (cut :: cuts)).map length).sum = length (cut, top) := by
  induction cuts generalizing cut with
  | nil => simp [ofCuts]
  | cons next cuts ih =>
    obtain ⟨hlt, hsorted'⟩ := List.pairwise_cons.mp hsorted
    have hnext : cut < next := hlt next List.mem_cons_self
    have hnextTop : next ≤ top := htop next (by simp)
    rw [ofCuts, List.map_cons, List.sum_cons,
      ih hsorted' fun c hc => htop c (List.mem_cons_of_mem _ hc)]
    unfold length
    dsimp only
    omega

/-- Positive weights of fewer items add up to less. -/
theorem sum_eq_sum_iff_of_sublist {α : Type*} {weight : α → ℕ} {xs ys : List α}
    (hpos : ∀ y ∈ ys, 0 < weight y) (h : xs.Sublist ys) :
    (xs.map weight).sum ≤ (ys.map weight).sum ∧
      ((xs.map weight).sum = (ys.map weight).sum ↔ xs = ys) := by
  have hle := (h.map weight).sum_le_sum fun _ _ => Nat.zero_le _
  refine ⟨hle, fun heq => ?_, fun heq => by rw [heq]⟩
  induction h with
  | slnil => rfl
  | cons y h ih =>
    obtain ⟨hy, hpos⟩ := List.forall_mem_cons.mp hpos
    have hle' := (h.map weight).sum_le_sum fun _ _ => Nat.zero_le _
    rw [List.map_cons, List.sum_cons] at heq
    omega
  | cons_cons y h ih =>
    obtain ⟨hy, hpos⟩ := List.forall_mem_cons.mp hpos
    rw [List.map_cons, List.map_cons, List.sum_cons, List.sum_cons] at heq
    have heq' := Nat.add_left_cancel heq
    rw [ih hpos heq'.le heq']

end Intervals

end VectorStore
