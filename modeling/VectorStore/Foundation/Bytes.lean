import Mathlib.Tactic

/-!
# Words as bytes and records in flat lists

A word is written with its least or with its most significant byte first, or in the order of the
platform.  Records of one size lie behind each other in a flat list: a record is read by cutting its
range out, and written by copying over its range.
-/

namespace VectorStore

/-! ## Words -/

/-- The lowest bytes of a number, the least significant one first. -/
def leBytes : ℕ → ℕ → List UInt8
  | 0, _ => []
  | size + 1, n => UInt8.ofNat n :: leBytes size (n / 256)

/-- The number that bytes stand for, the least significant one first. -/
def ofLeBytes : List UInt8 → ℕ
  | [] => 0
  | byte :: bytes => byte.toNat + 256 * ofLeBytes bytes

/-- The lowest bytes of a number, the most significant one first. -/
def beBytes (size n : ℕ) : List UInt8 := (leBytes size n).reverse

/-- The number that bytes stand for, the most significant one first. -/
def ofBeBytes (bytes : List UInt8) : ℕ := ofLeBytes bytes.reverse

@[simp] theorem length_leBytes (size n : ℕ) : (leBytes size n).length = size := by
  induction size generalizing n with
  | zero => rfl
  | succ size ih => rw [leBytes, List.length_cons, ih]

theorem ofLeBytes_leBytes (size n : ℕ) : ofLeBytes (leBytes size n) = n % 256 ^ size := by
  induction size generalizing n with
  | zero => rw [Nat.pow_zero, Nat.mod_one]; rfl
  | succ size ih =>
    have hbyte : (UInt8.ofNat n).toNat = n % 256 := UInt8.toNat_ofNat'
    rw [leBytes, ofLeBytes, ih, hbyte, Nat.pow_succ, Nat.mul_comm (256 ^ size), Nat.mod_mul]

/-- The most significant byte comes last. -/
theorem leBytes_succ_last (size n : ℕ) :
    leBytes (size + 1) n = leBytes size n ++ [UInt8.ofNat (n / 256 ^ size)] := by
  induction size generalizing n with
  | zero => rw [leBytes, leBytes, leBytes, Nat.pow_zero, Nat.div_one]; rfl
  | succ size ih =>
    rw [leBytes, ih, leBytes, Nat.div_div_eq_div_mul, ← Nat.pow_succ']
    rfl

@[simp] theorem length_beBytes (size n : ℕ) : (beBytes size n).length = size := by
  rw [beBytes, List.length_reverse, length_leBytes]

/-- The most significant byte comes first. -/
theorem beBytes_succ (size n : ℕ) :
    beBytes (size + 1) n = UInt8.ofNat (n / 256 ^ size) :: beBytes size n := by
  rw [beBytes, leBytes_succ_last, List.reverse_append]
  rfl

/-- The number that bytes stand for, read byte by byte from the front. -/
theorem foldl_eq_ofBeBytes (bytes : List UInt8) :
    bytes.foldl (fun acc byte => acc * 256 + byte.toNat) 0 = ofBeBytes bytes := by
  rw [ofBeBytes, ← List.foldr_reverse]
  induction bytes.reverse with
  | nil => rfl
  | cons byte bytes ih =>
    rw [List.foldr_cons, ih, ofLeBytes]
    ring

theorem ofBeBytes_beBytes (size n : ℕ) : ofBeBytes (beBytes size n) = n % 256 ^ size := by
  rw [ofBeBytes, beBytes, List.reverse_reverse, ofLeBytes_leBytes]

/-- The bytes of a word, the least significant one first: `to_le_bytes`. -/
def toLeBytes {w : ℕ} (word : BitVec w) : List UInt8 := leBytes (w / 8) word.toNat

/-- The word of bytes, the least significant one first: `from_le_bytes`. -/
def ofWordLe (w : ℕ) (bytes : List UInt8) : BitVec w := .ofNat w (ofLeBytes bytes)

/-- The bytes of a word, the most significant one first: `to_be_bytes`. -/
def toBeBytes {w : ℕ} (word : BitVec w) : List UInt8 := beBytes (w / 8) word.toNat

/-- The word of bytes, the most significant one first: `from_be_bytes`. -/
def ofWordBe (w : ℕ) (bytes : List UInt8) : BitVec w := .ofNat w (ofBeBytes bytes)

@[simp] theorem length_toLeBytes {w : ℕ} (word : BitVec w) : (toLeBytes word).length = w / 8 :=
  length_leBytes ..

@[simp] theorem length_toBeBytes {w : ℕ} (word : BitVec w) : (toBeBytes word).length = w / 8 :=
  length_beBytes ..

theorem toNat_mod_bytes {w : ℕ} (h : 8 ∣ w) (word : BitVec w) :
    word.toNat % 256 ^ (w / 8) = word.toNat := by
  refine Nat.mod_eq_of_lt ?_
  have hpow : 256 ^ (w / 8) = 2 ^ w := by
    rw [show 256 = 2 ^ 8 from rfl, ← Nat.pow_mul, Nat.mul_div_cancel' h]
  rw [hpow]
  exact word.isLt

theorem ofWordLe_toLeBytes {w : ℕ} (h : 8 ∣ w) (word : BitVec w) :
    ofWordLe w (toLeBytes word) = word := by
  rw [ofWordLe, toLeBytes, ofLeBytes_leBytes, toNat_mod_bytes h, BitVec.ofNat_toNat,
    BitVec.setWidth_eq]

theorem ofWordBe_toBeBytes {w : ℕ} (h : 8 ∣ w) (word : BitVec w) :
    ofWordBe w (toBeBytes word) = word := by
  rw [ofWordBe, toBeBytes, ofBeBytes_beBytes, toNat_mod_bytes h, BitVec.ofNat_toNat,
    BitVec.setWidth_eq]

/-- The byte order of the platform. -/
class ByteOrder where
  bigEndian : Bool

/-- The lowest bytes of a number in the order of the platform. -/
def neBytes [ByteOrder] (size n : ℕ) : List UInt8 :=
  if ByteOrder.bigEndian then beBytes size n else leBytes size n

/-- The number that bytes stand for in the order of the platform. -/
def ofNeBytes [ByteOrder] (bytes : List UInt8) : ℕ :=
  if ByteOrder.bigEndian then ofBeBytes bytes else ofLeBytes bytes

@[simp] theorem length_neBytes [ByteOrder] (size n : ℕ) : (neBytes size n).length = size := by
  rw [neBytes, apply_ite List.length, length_beBytes, length_leBytes, ite_self]

theorem ofNeBytes_neBytes [ByteOrder] (size n : ℕ) :
    ofNeBytes (neBytes size n) = n % 256 ^ size := by
  unfold ofNeBytes neBytes
  split
  · exact ofBeBytes_beBytes size n
  · exact ofLeBytes_leBytes size n

theorem leBytes_zero (size : ℕ) : leBytes size 0 = List.replicate size 0 := by
  induction size with
  | zero => rfl
  | succ size ih => rw [leBytes, Nat.zero_div, ih]; rfl

theorem neBytes_zero [ByteOrder] (size : ℕ) : neBytes size 0 = List.replicate size 0 := by
  rw [neBytes, beBytes, leBytes_zero, List.reverse_replicate, ite_self]

/-! ## Ranges -/

section Ranges

variable {α β : Type*}

/-- The elements of a range: `&xs[start..stop]`. -/
def slice (start stop : ℕ) (xs : List α) : List α := (xs.drop start).take (stop - start)

/-- Elements copied over those from a position on: `xs[start..].copy_from_slice`. -/
def splice (start : ℕ) (ys xs : List α) : List α :=
  xs.take start ++ ys ++ xs.drop (start + ys.length)

/-- A range behind a list. -/
theorem slice_append (xs ys : List α) (start stop : ℕ) :
    slice (xs.length + start) (xs.length + stop) (xs ++ ys) = slice start stop ys := by
  rw [slice, List.drop_length_add_append, Nat.add_sub_add_left, slice]

theorem splice_append (xs ys zs : List α) (start : ℕ) :
    splice (xs.length + start) zs (xs ++ ys) = xs ++ splice start zs ys := by
  unfold splice
  rw [List.take_length_add_append, Nat.add_assoc, List.drop_length_add_append]
  simp only [List.append_assoc]

/-- The range at the front of a list. -/
theorem slice_front (xs ys : List α) : slice 0 xs.length (xs ++ ys) = xs := by
  rw [slice, List.drop_zero, Nat.sub_zero, List.take_left]

theorem splice_front {xs zs : List α} (h : zs.length = xs.length) (ys : List α) :
    splice 0 zs (xs ++ ys) = zs ++ ys := by
  rw [splice, List.take_zero, List.nil_append, Nat.zero_add, h, List.drop_left]

/-! ## Records -/

variable {encode : α → List β} {size : ℕ} {xs : List α}

theorem length_flatMap (h : ∀ x ∈ xs, (encode x).length = size) :
    (xs.flatMap encode).length = xs.length * size := by
  induction xs with
  | nil => simp
  | cons x xs ih =>
    obtain ⟨hx, hxs⟩ := List.forall_mem_cons.mp h
    rw [List.flatMap_cons, List.length_append, hx, ih hxs, List.length_cons]
    ring

/-- The first records of a flat list. -/
theorem take_flatMap (h : ∀ x ∈ xs, (encode x).length = size) (n : ℕ) :
    (xs.flatMap encode).take (n * size) = (xs.take n).flatMap encode := by
  induction n generalizing xs with
  | zero => simp
  | succ n ih =>
    cases xs with
    | nil => simp
    | cons x xs =>
      obtain ⟨hx, hxs⟩ := List.forall_mem_cons.mp h
      have hmul : (n + 1) * size = (encode x).length + n * size := by rw [hx]; ring
      rw [List.flatMap_cons, hmul, List.take_length_add_append, ih hxs, List.take_succ_cons,
        List.flatMap_cons]

/-- The records of a flat list but the first ones. -/
theorem drop_flatMap (h : ∀ x ∈ xs, (encode x).length = size) (n : ℕ) :
    (xs.flatMap encode).drop (n * size) = (xs.drop n).flatMap encode := by
  induction n generalizing xs with
  | zero => simp
  | succ n ih =>
    cases xs with
    | nil => simp
    | cons x xs =>
      obtain ⟨hx, hxs⟩ := List.forall_mem_cons.mp h
      have hmul : (n + 1) * size = (encode x).length + n * size := by rw [hx]; ring
      rw [List.flatMap_cons, hmul, List.drop_length_add_append, ih hxs, List.drop_succ_cons]

/-- The range of a record is the record. -/
theorem slice_flatMap (h : ∀ x ∈ xs, (encode x).length = size) {i : ℕ} {x : α}
    (hget : xs[i]? = some x) :
    slice (i * size) ((i + 1) * size) (xs.flatMap encode) = encode x := by
  obtain ⟨hlt, rfl⟩ := List.getElem?_eq_some_iff.mp hget
  have hsize : (encode xs[i]).length = size := h _ (List.getElem_mem hlt)
  have hrange : (i + 1) * size - i * size = (encode xs[i]).length := by
    rw [hsize, Nat.succ_mul, Nat.add_sub_cancel_left]
  rw [slice, drop_flatMap h, List.drop_eq_getElem_cons hlt, List.flatMap_cons, hrange,
    List.take_left]

/-- Copying a record over the range of another one replaces it. -/
theorem splice_flatMap (h : ∀ x ∈ xs, (encode x).length = size) {i : ℕ} (hlt : i < xs.length)
    {x : α} (hx : (encode x).length = size) :
    splice (i * size) (encode x) (xs.flatMap encode) = (xs.set i x).flatMap encode := by
  have hnext : i * size + (encode x).length = (i + 1) * size := by rw [hx]; ring
  rw [splice, hnext, take_flatMap h, drop_flatMap h, List.set_eq_take_cons_drop x hlt,
    List.flatMap_append, List.flatMap_cons, List.append_assoc]

/-- Where a record starts in a flat list. -/
def recordOffset (encode : α → List β) (xs : List α) (i : ℕ) : ℕ :=
  ((xs.take i).flatMap encode).length

/-- A record ends where the next one starts. -/
theorem recordOffset_succ (encode : α → List β) {i : ℕ} {x : α} (hget : xs[i]? = some x) :
    recordOffset encode xs (i + 1) = recordOffset encode xs i + (encode x).length := by
  rw [recordOffset, List.take_add_one, hget, List.flatMap_append, List.length_append]
  simp [recordOffset]

/-- The flat list from the start of a record on. -/
theorem drop_recordOffset (encode : α → List β) (xs : List α) (i : ℕ) :
    (xs.flatMap encode).drop (recordOffset encode xs i) = (xs.drop i).flatMap encode := by
  have hsplit : xs.flatMap encode = (xs.take i).flatMap encode ++ (xs.drop i).flatMap encode := by
    rw [← List.flatMap_append, List.take_append_drop]
  rw [hsplit, recordOffset, List.drop_left]

theorem recordOffset_le (encode : α → List β) (xs : List α) (i : ℕ) :
    recordOffset encode xs i ≤ (xs.flatMap encode).length := by
  rw [recordOffset, ← List.take_append_drop i xs, List.flatMap_append, List.length_append,
    List.take_append_drop]
  exact Nat.le_add_right ..

theorem modify_eq_set {i : ℕ} {x : α} {xs : List α} (hget : xs[i]? = some x) (f : α → α) :
    xs.modify i f = xs.set i (f x) := by
  rw [List.modify_eq_set_getElem?, hget]
  rfl

theorem modify_eq_self {i : ℕ} {xs : List α} (hget : xs[i]? = none) (f : α → α) :
    xs.modify i f = xs := by
  rw [List.modify_eq_set_getElem?, hget]
  rfl

/-- The elements after some positions were overwritten. -/
theorem getElem?_foldl_set (x : α) (positions : List ℕ) (xs : List α) (i : ℕ) :
    (positions.foldl (fun xs pos => xs.set pos x) xs)[i]? =
      if i ∈ positions then xs[i]?.map fun _ => x else xs[i]? := by
  induction positions generalizing xs with
  | nil => simp
  | cons pos positions ih =>
    rw [List.foldl_cons, ih, List.getElem?_set]
    by_cases hpos : pos = i
    · subst hpos
      by_cases hlt : pos < xs.length <;> simp [hlt]
    · simp [hpos, Ne.symm hpos]

end Ranges

end VectorStore
