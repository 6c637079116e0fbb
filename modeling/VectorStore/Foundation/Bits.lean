import Mathlib.Algebra.BigOperators.Group.List.Basic
import Mathlib.Tactic

/-!
# Lists in chunks and bits in bytes

A list is cut into chunks of one size and a shorter remainder, and proofs follow the cut by
`chunk_induction`.  Words count their bits from the most significant one, and a list of bytes counts
the bits of its first byte first.
-/

namespace VectorStore

/-! ## Chunks -/

section Chunks

variable {α : Type*} {size : ℕ} {xs chunk : List α}

/-- The chunks of exactly one size. -/
def chunksExact (size : ℕ) (xs : List α) : List (List α) :=
  (List.range (xs.length / size)).map fun i => (xs.drop (i * size)).take size

/-- The elements after the last chunk. -/
def remainder (size : ℕ) (xs : List α) : List α := xs.drop (xs.length / size * size)

theorem chunksExact_short (h : xs.length < size) : chunksExact size xs = [] := by
  rw [chunksExact, Nat.div_eq_of_lt h]
  rfl

theorem remainder_short (h : xs.length < size) : remainder size xs = xs := by
  rw [remainder, Nat.div_eq_of_lt h, Nat.zero_mul, List.drop_zero]

/-- A chunk in front of a list makes one more chunk. -/
theorem length_append_div (hsize : 0 < size) (h : chunk.length = size) :
    (chunk ++ xs).length / size = xs.length / size + 1 := by
  rw [List.length_append, h, Nat.add_comm, Nat.add_div_right _ hsize]

theorem chunksExact_append (hsize : 0 < size) (h : chunk.length = size) :
    chunksExact size (chunk ++ xs) = chunk :: chunksExact size xs := by
  have hdrop : ∀ i, (chunk ++ xs).drop ((i + 1) * size) = xs.drop (i * size) := by
    intro i
    have hmul : (i + 1) * size = chunk.length + i * size := by rw [h]; ring
    rw [hmul, List.drop_length_add_append]
  unfold chunksExact
  rw [length_append_div hsize h, List.range_succ_eq_map, List.map_cons, List.map_map, Nat.zero_mul,
    List.drop_zero, ← h, List.take_left, h]
  refine congrArg (chunk :: ·) (List.map_congr_left fun i _ => ?_)
  exact congrArg (List.take size) (hdrop i)

theorem remainder_append (hsize : 0 < size) (h : chunk.length = size) :
    remainder size (chunk ++ xs) = remainder size xs := by
  have hmul : (xs.length / size + 1) * size = chunk.length + xs.length / size * size := by
    rw [h]
    ring
  rw [remainder, length_append_div hsize h, hmul, List.drop_length_add_append, remainder]

/-- What holds of short lists and of a chunk in front of a list where it holds, holds of all
lists. -/
theorem chunk_induction {P : List α → Prop} (hsize : 0 < size)
    (short : ∀ xs, xs.length < size → P xs)
    (append : ∀ chunk xs, chunk.length = size → P xs → P (chunk ++ xs)) (xs : List α) : P xs := by
  induction hn : xs.length using Nat.strong_induction_on generalizing xs with
  | _ n ih =>
    by_cases hlen : xs.length < size
    · exact short xs hlen
    · have htake : (xs.take size).length = size := by
        rw [List.length_take]
        omega
      have hdrop : (xs.drop size).length < n := by
        rw [List.length_drop]
        omega
      rw [← List.take_append_drop size xs]
      exact append _ _ htake (ih _ hdrop _ rfl)

end Chunks

/-! ## Bits -/

/-- The bit of a list of bytes, from the most significant bit of the first byte on. -/
def bitAt (bytes : List (BitVec 8)) (i : ℕ) : Bool :=
  (bytes[i / 8]?).any fun byte => byte.getMsbD (i % 8)

/-- The number of bits that are set in a word. -/
def popcount {w : ℕ} (word : BitVec w) : ℕ := (List.range w).countP word.getMsbD

/-- The number of bits in which the words of two lists differ. -/
def bitDistance {w : ℕ} (xs ys : List (BitVec w)) : ℕ :=
  (List.zipWith (fun x y => popcount (x ^^^ y)) xs ys).sum

theorem bitAt_cons_of_lt (byte : BitVec 8) (bytes : List (BitVec 8)) {i : ℕ} (h : i < 8) :
    bitAt (byte :: bytes) i = byte.getMsbD i := by
  rw [bitAt, Nat.div_eq_of_lt h, Nat.mod_eq_of_lt h]
  rfl

theorem bitAt_cons_add (byte : BitVec 8) (bytes : List (BitVec 8)) (i : ℕ) :
    bitAt (byte :: bytes) (8 + i) = bitAt bytes i := by
  rw [bitAt, Nat.add_div_left _ (by decide), Nat.add_mod_left, List.getElem?_cons_succ, bitAt]

theorem bitAt_nil (i : ℕ) : bitAt [] i = false := rfl

@[simp] theorem bitDistance_cons {w : ℕ} (x y : BitVec w) (xs ys : List (BitVec w)) :
    bitDistance (x :: xs) (y :: ys) = popcount (x ^^^ y) + bitDistance xs ys := by
  rw [bitDistance, List.zipWith_cons_cons, List.sum_cons, bitDistance]

/-- Two words differ in the bits that are set in one of them only. -/
theorem popcount_xor {w : ℕ} (x y : BitVec w) :
    popcount (x ^^^ y) = (List.range w).countP fun i => x.getMsbD i != y.getMsbD i := by
  refine List.countP_congr fun i _ => ?_
  rw [BitVec.getMsbD_xor]

/-- The elements of a list with a property, counted by position. -/
theorem countP_range_getElem? {α : Type*} (p : α → Bool) {xs : List α} {n : ℕ}
    (h : xs.length ≤ n) : ((List.range n).countP fun i => (xs[i]?).any p) = xs.countP p := by
  induction xs generalizing n with
  | nil =>
    refine List.countP_eq_zero.mpr fun i _ => ?_
    rw [List.getElem?_nil]
    exact Bool.false_ne_true
  | cons x xs ih =>
    obtain ⟨n, rfl⟩ : ∃ m, n = m + 1 := ⟨n - 1, by rw [List.length_cons] at h; omega⟩
    rw [List.range_succ_eq_map, List.countP_cons, List.countP_map, List.countP_cons,
      ← ih (Nat.le_of_succ_le_succ h)]
    rfl

end VectorStore
