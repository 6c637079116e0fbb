import Mathlib.Data.Nat.Bitwise
import Mathlib.Tactic

/-!
# Timestamps and timestamped values

A `Timestamp` counts units of 100 nanoseconds since the UNIX epoch.  Its most significant bit is
reserved: a `Timestamped` value packs the timestamp and a tombstone flag into one 64-bit word.
The bound on the timestamp and the link between the flag and the presence of a value are fields
of the two structures, so that neither has to be assumed again.
-/

namespace VectorStore

/-- The greatest number of 100-nanosecond units a timestamp can hold. -/
def maxHundredNanos : Nat := 2 ^ 63 - 1

/-- The greatest number of microseconds that fits. -/
def maxMicros : Nat := maxHundredNanos / 10

/-- The greatest number of seconds that fits. -/
def maxSeconds : Nat := maxMicros / 1000 / 1000

/-- The number of 100-nanosecond units since the UNIX epoch, without the reserved bit. -/
@[ext] structure Timestamp where
  /-- The number of units. -/
  val : Nat
  /-- The reserved bit is clear. -/
  le_max : val ≤ maxHundredNanos
deriving DecidableEq

namespace Timestamp

instance : LinearOrder Timestamp :=
  LinearOrder.lift' val fun _ _ => Timestamp.ext

theorem le_iff {a b : Timestamp} : a ≤ b ↔ a.val ≤ b.val := Iff.rfl

theorem lt_iff {a b : Timestamp} : a < b ↔ a.val < b.val := Iff.rfl

/-- `Timestamp::MIN`. -/
def min : Timestamp := ⟨0, Nat.zero_le _⟩

/-- Nothing is before `Timestamp::MIN`. -/
theorem min_le (t : Timestamp) : min ≤ t := Nat.zero_le _

/-- Creates a timestamp from a number of 100-nanoseconds; larger numbers are clamped. -/
def from100Nanos (timestamp : Nat) : Timestamp :=
  ⟨if timestamp > maxHundredNanos then maxHundredNanos else timestamp, by split <;> omega⟩

/-- Creates a timestamp from a number of microseconds; larger numbers are clamped. -/
def fromMicros (timestamp : Nat) : Timestamp :=
  ⟨(if timestamp > maxMicros then maxMicros else timestamp) * 10, by
    split <;> simp only [maxMicros, maxHundredNanos] at * <;> omega⟩

/-- Creates a timestamp from a number of seconds; larger numbers are clamped. -/
def fromSeconds (timestamp : Nat) : Timestamp :=
  ⟨(if timestamp > maxSeconds then maxSeconds else timestamp) * 10000000, by
    split <;> simp only [maxSeconds, maxMicros, maxHundredNanos] at * <;> omega⟩

/-- `Timestamp::try_from` for the time of a UUID: the seconds and nanoseconds since the UNIX epoch,
for a UUID that has them. -/
def tryFrom : Option (Nat × Nat) → Except String Timestamp
  | some (seconds, nanos) => .ok (.from100Nanos ((fromSeconds seconds).val + nanos / 100))
  | none => .error "UUID has no timestamp"

/-- Below the clamp the conversion from microseconds is strictly increasing. -/
theorem fromMicros_lt_fromMicros {a b : Nat} :
    fromMicros a < fromMicros b ↔ a < b ∧ a < maxMicros := by
  rw [lt_iff]
  simp only [fromMicros]
  split <;> split <;> omega

theorem fromMicros_mono {a b : Nat} (h : a ≤ b) : fromMicros a ≤ fromMicros b := by
  rw [le_iff]
  simp only [fromMicros]
  split <;> split <;> omega

end Timestamp

/-! ## Values with a timestamp and a tombstone flag -/

/-- `Timestamped::DELETED_FLAG`, the most significant bit. -/
def deletedFlag : BitVec 64 := 1#64 <<< 63

/-- `Timestamped::TIMESTAMP_MASK`. -/
def timestampMask : BitVec 64 := ~~~deletedFlag

/-- The number a word holds below the flag. -/
theorem toNat_and_timestampMask (w : BitVec 64) :
    (w &&& timestampMask).toNat = w.toNat % 2 ^ 63 := by
  have hmask : timestampMask.toNat = 2 ^ 63 - 1 := by decide
  rw [BitVec.toNat_and, hmask, Nat.and_two_pow_sub_one_eq_mod]

/-- The flag is clear exactly when the word is below `2 ^ 63`. -/
theorem and_deletedFlag_eq_zero_iff (w : BitVec 64) :
    w &&& deletedFlag = 0 ↔ w.toNat < 2 ^ 63 := by
  have hflag : deletedFlag.toNat = 2 ^ 63 := by decide
  have hw : w.toNat < 2 ^ 64 := w.isLt
  rw [← BitVec.toNat_inj, BitVec.toNat_and, hflag, Nat.and_two_pow,
    Nat.testBit_eq_decide_div_mod_eq]
  have hbit : w.toNat / 2 ^ 63 % 2 = 0 ↔ w.toNat < 2 ^ 63 := by omega
  simpa using hbit

/-- Setting the flag of a word. -/
theorem toNat_or_deletedFlag (w : BitVec 64) :
    (w ||| deletedFlag).toNat = w.toNat % 2 ^ 63 + 2 ^ 63 := by
  have hflag : deletedFlag.toNat = 2 ^ 63 := by decide
  have hw : w.toNat < 2 ^ 64 := w.isLt
  have hsplit : 2 ^ 63 ||| w.toNat % 2 ^ 63 = 2 ^ 63 + w.toNat % 2 ^ 63 := by
    have := Nat.two_pow_add_eq_or_of_lt (Nat.mod_lt w.toNat (by decide : 0 < 2 ^ 63)) 1
    rw [mul_one] at this
    exact this.symm
  rw [BitVec.toNat_or, hflag]
  rcases lt_or_ge w.toNat (2 ^ 63) with h | h
  · rw [Nat.mod_eq_of_lt h] at hsplit ⊢
    rw [Nat.or_comm, hsplit, add_comm]
  · have hw' : w.toNat = 2 ^ 63 ||| w.toNat % 2 ^ 63 := by omega
    calc w.toNat ||| 2 ^ 63 = (2 ^ 63 ||| w.toNat % 2 ^ 63) ||| 2 ^ 63 := by rw [← hw']
      _ = 2 ^ 63 ||| w.toNat % 2 ^ 63 := by
        rw [Nat.or_comm, ← Nat.or_assoc, Nat.or_self]
      _ = w.toNat % 2 ^ 63 + 2 ^ 63 := by rw [hsplit, add_comm]

/-- A value with a timestamp.  `word` packs the timestamp and the tombstone flag; the value is
initialised if and only if the flag is not set. -/
structure Timestamped (α : Type*) where
  /-- The packed timestamp and flag. -/
  word : BitVec 64
  /-- The value, when it is initialised. -/
  value : Option α
  /-- The flag says whether the value is initialised. -/
  isSome_iff : value.isSome ↔ word &&& deletedFlag = 0
deriving DecidableEq

namespace Timestamped

variable {α : Type*}

/-- The bits of a timestamp with the flag clear. -/
def packValid (timestamp : Timestamp) : BitVec 64 :=
  BitVec.ofNat 64 timestamp.val &&& timestampMask

/-- The bits of a timestamp with the flag set. -/
def packTombstone (timestamp : Timestamp) : BitVec 64 :=
  BitVec.ofNat 64 timestamp.val ||| deletedFlag

theorem toNat_packValid (t : Timestamp) : (packValid t).toNat = t.val := by
  have hle : t.val ≤ 2 ^ 63 - 1 := t.le_max
  rw [packValid, toNat_and_timestampMask, BitVec.toNat_ofNat]
  omega

theorem toNat_packTombstone (t : Timestamp) : (packTombstone t).toNat = t.val + 2 ^ 63 := by
  have hle : t.val ≤ 2 ^ 63 - 1 := t.le_max
  rw [packTombstone, toNat_or_deletedFlag, BitVec.toNat_ofNat]
  omega

theorem isSome_iff_packValid (timestamp : Timestamp) (value : α) :
    (some value).isSome ↔ packValid timestamp &&& deletedFlag = 0 := by
  have hle : timestamp.val ≤ 2 ^ 63 - 1 := timestamp.le_max
  rw [and_deletedFlag_eq_zero_iff, toNat_packValid]
  simp only [Option.isSome_some, true_iff]
  omega

variable (α) in
theorem isSome_iff_packTombstone (timestamp : Timestamp) :
    (none : Option α).isSome ↔ packTombstone timestamp &&& deletedFlag = 0 := by
  rw [and_deletedFlag_eq_zero_iff, toNat_packTombstone]
  simp

/-- Creates a value with the given timestamp and optional value. -/
def new (timestamp : Timestamp) : Option α → Timestamped α
  | some value =>
    { word := packValid timestamp
      value := some value
      isSome_iff := isSome_iff_packValid timestamp value }
  | none =>
    { word := packTombstone timestamp
      value := none
      isSome_iff := isSome_iff_packTombstone α timestamp }

/-- Creates a value without content and with the flag clear. -/
def newValid (timestamp : Timestamp) : Timestamped Unit := new timestamp (some ())

/-- Creates a value without content and with the flag set. -/
def newTombstone (timestamp : Timestamp) : Timestamped Unit := new timestamp none

/-- The value is not a tombstone. -/
def isValid (t : Timestamped α) : Bool := t.word &&& deletedFlag == 0

/-- The value is a tombstone. -/
def isTombstone (t : Timestamped α) : Bool := !t.isValid

/-- The timestamp of the value. -/
def timestamp (t : Timestamped α) : Timestamp :=
  ⟨(t.word &&& timestampMask).toNat, by
    rw [toNat_and_timestampMask]
    exact Nat.le_sub_one_of_lt (Nat.mod_lt _ (by decide))⟩

/-- Removes the value and sets the flag. -/
def setTombstone (t : Timestamped α) : Timestamped α where
  word := t.word ||| deletedFlag
  value := none
  isSome_iff := by
    rw [and_deletedFlag_eq_zero_iff, toNat_or_deletedFlag]
    simp

/-- The flag is clear exactly when there is a value. -/
theorem isValid_eq (t : Timestamped α) : t.isValid = t.value.isSome := by
  rw [Bool.eq_iff_iff, t.isSome_iff, isValid, beq_iff_eq]

@[simp] theorem isTombstone_eq (t : Timestamped α) : t.isTombstone = t.value.isNone := by
  rw [isTombstone, isValid_eq, Option.not_isSome]

@[simp] theorem value_new (ts : Timestamp) (v : Option α) : (new ts v).value = v := by
  cases v <;> rfl

@[simp] theorem timestamp_new (ts : Timestamp) (v : Option α) : (new ts v).timestamp = ts := by
  have hle : ts.val ≤ 2 ^ 63 - 1 := ts.le_max
  refine Timestamp.ext ?_
  cases v with
  | none =>
    change (packTombstone ts &&& timestampMask).toNat = ts.val
    rw [toNat_and_timestampMask, toNat_packTombstone]
    omega
  | some v =>
    change (packValid ts &&& timestampMask).toNat = ts.val
    rw [toNat_and_timestampMask, toNat_packValid]
    omega

/-- The timestamp and the value determine the word: nothing else is stored. -/
theorem ext_iff {a b : Timestamped α} : a = b ↔ a.timestamp = b.timestamp ∧ a.value = b.value := by
  refine ⟨fun h => h ▸ ⟨rfl, rfl⟩, fun ⟨ht, hv⟩ => ?_⟩
  obtain ⟨w, v, hw⟩ := a
  obtain ⟨w', v', hw'⟩ := b
  obtain rfl : v = v' := hv
  have hmod : w.toNat % 2 ^ 63 = w'.toNat % 2 ^ 63 := by
    rw [← toNat_and_timestampMask, ← toNat_and_timestampMask]
    exact congrArg Timestamp.val ht
  have hflag : w.toNat < 2 ^ 63 ↔ w'.toNat < 2 ^ 63 := by
    rw [← and_deletedFlag_eq_zero_iff, ← and_deletedFlag_eq_zero_iff, ← hw, ← hw']
  have hword : w = w' := by
    have h1 := w.isLt
    have h2 := w'.isLt
    refine BitVec.eq_of_toNat_eq ?_
    by_cases h : w.toNat < 2 ^ 63
    · have h' := hflag.mp h
      omega
    · have h' := mt hflag.mpr h
      omega
  subst hword
  rfl

/-- Setting the flag keeps the timestamp. -/
@[simp] theorem setTombstone_eq (t : Timestamped α) : t.setTombstone = new t.timestamp none := by
  refine ext_iff.mpr ⟨?_, (value_new _ _).symm⟩
  rw [timestamp_new]
  refine Timestamp.ext ?_
  change ((t.word ||| deletedFlag) &&& timestampMask).toNat = (t.word &&& timestampMask).toNat
  rw [toNat_and_timestampMask, toNat_and_timestampMask, toNat_or_deletedFlag]
  omega

end Timestamped

end VectorStore
