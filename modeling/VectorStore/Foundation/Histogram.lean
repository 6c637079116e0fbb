import Mathlib.Data.Set.Card
import Mathlib.Data.List.MinMax
import VectorStore.Foundation.FiniteMap

/-!
# Histograms

A partial function has a histogram: for each value the number of points that it is at.  Moving a
point takes one from the value that it leaves and adds one at the value that it goes to.  A finite
map that holds the positive counts of a histogram has the values of the function as its keys, and
its first key is the least of them.
-/

namespace VectorStore

namespace Histogram

variable {α β : Type*}

/-- The points at a value. -/
def level (f : α → Option β) (b : β) : Set α := {a | f a = some b}

/-- The number of points at a value. -/
noncomputable def count (f : α → Option β) (b : β) : ℕ := (level f b).ncard

/-- The values that points are at. -/
def values (f : α → Option β) : Set β := {b | ∃ a, f a = some b}

/-- Counts as a map holds them: without zeros. -/
def positive (n : ℕ) : Option ℕ := if n = 0 then none else some n

@[simp] theorem positive_zero : positive 0 = none := rfl

@[simp] theorem positive_succ (n : ℕ) : positive (n + 1) = some (n + 1) := rfl

/-- A count that is not held is zero. -/
@[simp] theorem getD_positive (n : ℕ) : (positive n).getD 0 = n := by
  cases n <;> rfl

/-- The map holds the positive counts of the histogram. -/
def Holds [DecidableEq β] (f : α → Option β) (counts : AList fun _ : β => ℕ) : Prop :=
  ∀ b, counts.lookup b = positive (count f b)

theorem count_pos_iff {f : α → Option β} {b : β} (hfin : (level f b).Finite) :
    0 < count f b ↔ b ∈ values f :=
  Set.ncard_pos hfin

section Move

variable [DecidableEq α] [DecidableEq β]

/-- The points at a value after one point was moved. -/
theorem level_update (f : α → Option β) (a : α) (v b : β) :
    level (Function.update f a (some v)) b =
      if v = b then insert a (level f b) else level f b \ {a} := by
  ext a'
  by_cases ha : a' = a
  · subst ha
    by_cases hv : v = b
    · simp [level, hv]
    · simp [level, hv]
  · by_cases hv : v = b
    · simp [level, hv, ha]
    · simp [level, hv, ha]

/-- Moving a point takes one from the value that it leaves and adds one at the value that it goes
to. -/
theorem count_update {f : α → Option β} (hfin : ∀ b, (level f b).Finite) (a : α) (v b : β) :
    count (Function.update f a (some v)) b + (if f a = some b then 1 else 0) =
      count f b + if v = b then 1 else 0 := by
  unfold count
  rw [level_update]
  by_cases hv : v = b
  · rw [if_pos hv, if_pos hv]
    by_cases ha : f a = some b
    · have hmem : a ∈ level f b := ha
      rw [if_pos ha, Set.insert_eq_of_mem hmem]
    · have hmem : a ∉ level f b := ha
      rw [if_neg ha, Set.ncard_insert_of_notMem hmem (hfin b)]
  · rw [if_neg hv, if_neg hv]
    by_cases ha : f a = some b
    · have hmem : a ∈ level f b := ha
      rw [if_pos ha, Set.ncard_sdiff_singleton_add_one hmem (hfin b), Nat.add_zero]
    · have hmem : a ∉ level f b := ha
      rw [if_neg ha, Set.sdiff_singleton_eq_self hmem]

end Move

variable [DecidableEq β]

/-- The keys of the map are the values of the function. -/
theorem Holds.mem_keys_iff {f : α → Option β} {counts : AList fun _ : β => ℕ}
    (h : Holds f counts) (hfin : ∀ b, (level f b).Finite) {b : β} :
    b ∈ counts.keys ↔ b ∈ values f := by
  rw [FiniteMap.mem_keys_iff, h b, ← count_pos_iff (hfin b)]
  cases count f b with
  | zero => simp
  | succ n => simp

/-- The first key of the map is the least value of the function. -/
theorem Holds.isLeast_min? [LinearOrder β] {f : α → Option β} {counts : AList fun _ : β => ℕ}
    (h : Holds f counts) (hfin : ∀ b, (level f b).Finite) {a : α} {b : β} (ha : f a = some b) :
    ∃ least, counts.keys.min? = some least ∧ IsLeast (values f) least := by
  have hmem : b ∈ counts.keys := (h.mem_keys_iff hfin).mpr ⟨a, ha⟩
  obtain ⟨least, hleast⟩ := Option.isSome_iff_exists.mp (List.isSome_min?_of_mem hmem)
  refine ⟨least, hleast, ?_⟩
  obtain ⟨hleastMem, hle⟩ := List.min?_eq_some_iff.mp hleast
  exact ⟨(h.mem_keys_iff hfin).mp hleastMem, fun c hc => hle c ((h.mem_keys_iff hfin).mpr hc)⟩

end Histogram

end VectorStore
