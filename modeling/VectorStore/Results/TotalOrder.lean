import Mathlib.Algebra.Order.Ring.Rat
import VectorStore.Foundation.Comparison
import VectorStore.Search.Compare

/-!
# The comparator is a total order

On the values of one type the comparator compares keys: numbers, texts, or the bytes of a value in
some order.  Two identifiers have the same key only if they have the same bytes, and two addresses
only if they are the same.
-/

namespace VectorStore

/-! ## Floats -/

/-- The number that orders a float, given the sign bit. -/
def floatKey (sign bits : ℕ) : ℤ := if bits < sign then bits else -(bits - sign : ℕ)

/-- The pattern is one of a NaN, given the sign bit and the pattern of infinity. -/
def floatIsNaN (sign infinity bits : ℕ) : Bool := bits % sign > infinity

theorem floatPartialCmp_eq {sign infinity a b : ℕ} (ha : floatIsNaN sign infinity a = false)
    (hb : floatIsNaN sign infinity b = false) :
    floatPartialCmp sign infinity a b = some (compare (floatKey sign a) (floatKey sign b)) := by
  have hnot : (floatIsNaN sign infinity a || floatIsNaN sign infinity b) = false := by
    rw [ha, hb]
    rfl
  exact if_neg (by rw [← Bool.not_eq_true] at hnot; exact hnot)

/-! ## Bytes -/

theorem bytesBe_succ (size bits : ℕ) :
    bytesBe (size + 1) bits = bits / 256 ^ size % 256 :: bytesBe size bits := by
  unfold bytesBe
  rw [List.range_succ_eq_map, List.map_cons, List.map_map]
  refine congrArg₂ List.cons rfl (List.map_congr_left fun i _ => ?_)
  have hexp : size + 1 - 1 - (i + 1) = size - 1 - i := by omega
  exact congrArg (fun exp => bits / 256 ^ exp % 256) hexp

theorem length_bytesBe (size bits : ℕ) : (bytesBe size bits).length = size := by
  rw [bytesBe, List.length_map, List.length_range]

theorem lt_of_mem_bytesBe {size bits byte : ℕ} (h : byte ∈ bytesBe size bits) : byte < 256 := by
  obtain ⟨i, -, rfl⟩ := List.mem_map.mp h
  exact Nat.mod_lt _ (by decide)

/-- The bytes determine the number below the size of the word. -/
theorem bytesBe_inj {size a b : ℕ} (h : bytesBe size a = bytesBe size b) :
    a % 256 ^ size = b % 256 ^ size := by
  induction size with
  | zero => rw [Nat.pow_zero, Nat.mod_one, Nat.mod_one]
  | succ size ih =>
    rw [bytesBe_succ, bytesBe_succ] at h
    obtain ⟨hfirst, hrest⟩ := List.cons.inj h
    rw [Nat.pow_succ, Nat.mod_mul, Nat.mod_mul, ih hrest, hfirst]

theorem bytesBe_toNat_inj {width size : ℕ} {a b : BitVec width} (hsize : 2 ^ width = 256 ^ size)
    (h : bytesBe size a.toNat = bytesBe size b.toNat) : a = b := by
  have hmod := bytesBe_inj h
  rw [← hsize, Nat.mod_eq_of_lt a.isLt, Nat.mod_eq_of_lt b.isLt] at hmod
  exact BitVec.eq_of_toNat_eq hmod

/-! ## Addresses -/

/-- Addresses with the same octets are the same. -/
theorem octets_inj {a b : IpAddr} (h : a.octets = b.octets) : a = b := by
  cases a with
  | v4 a =>
    cases b with
    | v4 b => rw [bytesBe_toNat_inj (by decide) h]
    | v6 b =>
      have hlen := congrArg List.length h
      rw [IpAddr.octets, IpAddr.octets, length_bytesBe, length_bytesBe] at hlen
      cases hlen
  | v6 a =>
    cases b with
    | v4 b =>
      have hlen := congrArg List.length h
      rw [IpAddr.octets, IpAddr.octets, length_bytesBe, length_bytesBe] at hlen
      cases hlen
    | v6 b => rw [bytesBe_toNat_inj (by norm_num) h]

theorem inetCmp_eq_eq_iff {a b : IpAddr} : inetCmp a b = .eq ↔ a = b := by
  rw [inetCmp, Std.LawfulEqOrd.compare_eq_iff_eq]
  exact ⟨octets_inj, congrArg _⟩

/-! ## Identifiers -/

/-- The key of an identifier: the version, and what identifiers of this version compare by. -/
def uuidKey (uuid : BitVec 128) : List ℕ :=
  let bytes := bytesBe 16 uuid.toNat
  let version := bytes.getD 6 0 / 16
  version :: if version = 1 then uuidTimeuuidMsb bytes :: bytes.drop 8 else bytes

theorem compare_cons (x y : ℕ) (xs ys : List ℕ) :
    compare (x :: xs) (y :: ys) = (compare x y).then (compare xs ys) :=
  List.compareLex_cons_cons

/-- Identifiers compare as their keys. -/
theorem uuidCmp_eq (a b : BitVec 128) : uuidCmp a b = compare (uuidKey a) (uuidKey b) := by
  unfold uuidCmp uuidKey
  dsimp only
  rw [compare_cons]
  by_cases hversion : (bytesBe 16 a.toNat).getD 6 0 / 16 = (bytesBe 16 b.toNat).getD 6 0 / 16
  · rw [if_neg (not_not.mpr hversion), hversion, @Std.ReflCmp.compare_self _ compare _,
      Ordering.eq_then]
    split
    · rw [compare_cons]
    · rfl
  · rw [if_pos hversion]
    cases hord : compare ((bytesBe 16 a.toNat).getD 6 0 / 16) ((bytesBe 16 b.toNat).getD 6 0 / 16)
      with
    | eq => exact absurd (Std.LawfulEqOrd.compare_eq_iff_eq.mp hord) hversion
    | lt | gt => rfl

/-- The bytes that the time of an identifier is made of, from the greatest. -/
def timeuuidBytes (bytes : List ℕ) : List ℕ :=
  [bytes.getD 6 0 % 16, bytes.getD 7 0, bytes.getD 4 0, bytes.getD 5 0, bytes.getD 0 0,
    bytes.getD 1 0, bytes.getD 2 0, bytes.getD 3 0]

theorem lt_of_mem_timeuuidBytes {bytes : List ℕ} (h : ∀ byte ∈ bytes, byte < 256) :
    ∀ byte ∈ timeuuidBytes bytes, byte < 256 := by
  have hbyte : ∀ i, bytes.getD i 0 < 256 := by
    intro i
    rw [List.getD_eq_getElem?_getD]
    cases hget : bytes[i]? with
    | none => exact Nat.zero_lt_succ _
    | some byte => exact h byte (List.mem_of_getElem? hget)
  intro byte hmem
  simp only [timeuuidBytes, List.mem_cons, List.not_mem_nil, or_false] at hmem
  rcases hmem with rfl | rfl | rfl | rfl | rfl | rfl | rfl | rfl
  · exact (Nat.mod_le _ _).trans_lt (hbyte 6)
  all_goals exact hbyte _

theorem uuidTimeuuidMsb_eq (bytes : List ℕ) :
    uuidTimeuuidMsb bytes = (timeuuidBytes bytes).foldl (fun acc byte => acc * 256 + byte) 0 :=
  rfl

/-- The time determines its bytes. -/
theorem uuidTimeuuidMsb_inj {a b : List ℕ} (ha : ∀ byte ∈ a, byte < 256)
    (hb : ∀ byte ∈ b, byte < 256) (h : uuidTimeuuidMsb a = uuidTimeuuidMsb b) :
    timeuuidBytes a = timeuuidBytes b := by
  have hlen : (timeuuidBytes a).length = (timeuuidBytes b).length := rfl
  rw [uuidTimeuuidMsb_eq, uuidTimeuuidMsb_eq] at h
  exact (foldl_digits_inj hlen (lt_of_mem_timeuuidBytes ha) (lt_of_mem_timeuuidBytes hb) h).2

/-- The version, the bytes of the time and the rest of the bytes are all of the bytes. -/
theorem bytes_eq_of_timeuuidBytes {a b : List ℕ} (hlen : a.length = b.length)
    (hversion : a.getD 6 0 / 16 = b.getD 6 0 / 16) (htime : timeuuidBytes a = timeuuidBytes b)
    (hdrop : a.drop 8 = b.drop 8) : a = b := by
  simp only [timeuuidBytes, List.cons.injEq, and_true] at htime
  obtain ⟨h6, h7, h4, h5, h0, h1, h2, h3⟩ := htime
  have hsix : a.getD 6 0 = b.getD 6 0 := by omega
  have hall : ∀ i, a.getD i 0 = b.getD i 0 := by
    intro i
    by_cases hi : i < 8
    · interval_cases i <;> assumption
    · obtain ⟨j, rfl⟩ := Nat.exists_eq_add_of_le (not_lt.mp hi)
      have hdrop' := congrArg (fun xs => xs.getD j 0) hdrop
      simpa only [List.getD_eq_getElem?_getD, List.getElem?_drop] using hdrop'
  refine List.ext_getElem hlen fun i hia hib => ?_
  have hi := hall i
  rwa [List.getD_eq_getElem?_getD, List.getD_eq_getElem?_getD, List.getElem?_eq_getElem hia,
    List.getElem?_eq_getElem hib] at hi

/-- Identifiers with the same key are the same. -/
theorem uuidKey_inj {a b : BitVec 128} (h : uuidKey a = uuidKey b) : a = b := by
  refine bytesBe_toNat_inj (by norm_num : 2 ^ 128 = 256 ^ 16) ?_
  unfold uuidKey at h
  dsimp only at h
  obtain ⟨hversion, hrest⟩ := List.cons.inj h
  rw [hversion] at hrest
  split at hrest
  · obtain ⟨hmsb, hdrop⟩ := List.cons.inj hrest
    have hlen : (bytesBe 16 a.toNat).length = (bytesBe 16 b.toNat).length := by
      rw [length_bytesBe, length_bytesBe]
    have htime := uuidTimeuuidMsb_inj (fun _ => lt_of_mem_bytesBe) (fun _ => lt_of_mem_bytesBe) hmsb
    exact bytes_eq_of_timeuuidBytes hlen hversion htime hdrop
  · exact hrest

theorem uuidCmp_eq_eq_iff {a b : BitVec 128} : uuidCmp a b = .eq ↔ a = b := by
  rw [uuidCmp_eq, Std.LawfulEqOrd.compare_eq_iff_eq]
  exact ⟨uuidKey_inj, congrArg _⟩

/-! ## Decimals -/

/-- The number that a decimal stands for. -/
def CqlDecimal.value (d : CqlDecimal) : ℚ := signedBytesBe d.digits * (10 : ℚ) ^ (-d.scale.toInt)

/-- The digits of a decimal at a greater scale are its value at this scale. -/
theorem CqlDecimal.digits_eq (d : CqlDecimal) {scale : ℤ} (h : d.scale.toInt ≤ scale) :
    ((signedBytesBe d.digits * 10 ^ (scale - d.scale.toInt).toNat : ℤ) : ℚ) =
      d.value * (10 : ℚ) ^ scale := by
  have hexp : ((scale - d.scale.toInt).toNat : ℤ) = -d.scale.toInt + scale := by omega
  have hpow : (10 : ℚ) ^ (scale - d.scale.toInt).toNat =
      (10 : ℚ) ^ (-d.scale.toInt) * (10 : ℚ) ^ scale := by
    rw [← zpow_natCast, hexp, zpow_add₀ (by norm_num)]
  rw [Int.cast_mul, Int.cast_pow, value, mul_assoc, ← hpow]
  rfl

theorem compare_congr {α β : Type*} [LinearOrder α] [LinearOrder β] {f : α → β}
    (hf : StrictMono f) (a b : α) : compare (f a) (f b) = compare a b := by
  rw [← cmp_eq_compare, ← cmp_eq_compare, hf.cmp_map_eq]

/-- Decimals compare as their values. -/
theorem CqlDecimal.cmp_eq (a b : CqlDecimal) : a.cmp b = compare a.value b.value := by
  have hcast : StrictMono (fun n : ℤ => (n : ℚ)) := Int.cast_strictMono
  have hscale : StrictMono fun x : ℚ => x * (10 : ℚ) ^ max a.scale.toInt b.scale.toInt :=
    fun x y h => mul_lt_mul_of_pos_right h (zpow_pos (by norm_num) _)
  unfold CqlDecimal.cmp
  dsimp only
  rw [← compare_congr hcast, a.digits_eq (le_max_left _ _), b.digits_eq (le_max_right _ _)]
  exact compare_congr hscale _ _

/-! ## Values of one type -/

/-- The native type of a value, counters included. -/
def CqlValue.comparedType : CqlValue → Option NativeType
  | counter _ => some .counter
  | value => value.nativeType

/-- The value is a float that is not a number. -/
def CqlValue.isNaN : CqlValue → Bool
  | float bits => floatIsNaN (2 ^ 31) 0x7f800000 bits.toNat
  | double bits => floatIsNaN (2 ^ 63) 0x7ff0000000000000 bits.toNat
  | _ => false

/-- A value of a type, other than a NaN. -/
def CqlValue.Comparable (type : NativeType) (value : CqlValue) : Prop :=
  value.comparedType = some type ∧ value.isNaN = false

/-- A value made by the constructor of a type. -/
def CqlValue.Made : NativeType → CqlValue → Prop
  | .ascii, value => ∃ x, value = .ascii x
  | .boolean, value => ∃ x, value = .boolean x
  | .blob, value => ∃ x, value = .blob x
  | .counter, value => ∃ x, value = .counter x
  | .date, value => ∃ x, value = .date x
  | .decimal, value => ∃ x, value = .decimal x
  | .double, value => ∃ x, value = .double x
  | .duration, _ => False
  | .float, value => ∃ x, value = .float x
  | .int, value => ∃ x, value = .int x
  | .bigInt, value => ∃ x, value = .bigInt x
  | .text, value => ∃ x, value = .text x
  | .timestamp, value => ∃ x, value = .timestamp x
  | .inet, value => ∃ x, value = .inet x
  | .smallInt, value => ∃ x, value = .smallInt x
  | .tinyInt, value => ∃ x, value = .tinyInt x
  | .time, value => ∃ x, value = .time x
  | .timeuuid, value => ∃ x, value = .timeuuid x
  | .uuid, value => ∃ x, value = .uuid x
  | .varint, value => ∃ x, value = .varint x

theorem CqlValue.made_of_type {type : NativeType} {value : CqlValue}
    (h : value.comparedType = some type) : Made type value := by
  cases value with
  | empty | vector | nested => cases h
  | _ =>
    obtain rfl := Option.some_inj.mp h
    exact ⟨_, rfl⟩

/-- The equality of the values of a type: the two zeros of a float are equal, and so are the
varints and the decimals that stand for one number. -/
def CqlValue.SameValue [TimeuuidOrd] : CqlValue → CqlValue → Prop
  | float a, float b => a = b ∨ a.toNat % 2 ^ 31 = 0 ∧ b.toNat % 2 ^ 31 = 0
  | double a, double b => a = b ∨ a.toNat % 2 ^ 63 = 0 ∧ b.toNat % 2 ^ 63 = 0
  | varint a, varint b => signedBytesBe a = signedBytesBe b
  | decimal a, decimal b => a.value = b.value
  | timeuuid a, timeuuid b => TimeuuidOrd.cmp a b = .eq
  | a, b => a = b

/-- Patterns with one key are the same, or both are zeros. -/
theorem floatKey_eq_iff {sign a b : ℕ} (ha : a < 2 * sign) (hb : b < 2 * sign) :
    floatKey sign a = floatKey sign b ↔ a = b ∨ a % sign = 0 ∧ b % sign = 0 := by
  have hmod : ∀ {bits}, bits < 2 * sign →
      bits % sign = if bits < sign then bits else bits - sign := by
    intro bits hbits
    by_cases h : bits < sign
    · rw [if_pos h, Nat.mod_eq_of_lt h]
    · rw [if_neg h, Nat.mod_eq_sub_mod (not_lt.mp h), Nat.mod_eq_of_lt (by omega)]
  rw [hmod ha, hmod hb]
  unfold floatKey
  split <;> split <;> omega

section Comparator

variable [TimeuuidOrd]

/-- The comparator orders the values of a type as what they are made from. -/
def CqlValue.Ordered (type : NativeType) : Prop :=
  ∃ (β : Type) (c : β → β → Ordering) (f : β → CqlValue),
    MadeFrom CqlValue.cmp (CqlValue.Comparable type) CqlValue.SameValue c f

/-- A type whose values compare as their keys. -/
theorem CqlValue.ordered_of_key {type : NativeType} {β κ : Type} [Ord κ] [Std.TransOrd κ]
    [Std.LawfulEqOrd κ] (f : β → CqlValue) (key : β → κ)
    (made : ∀ a, CqlValue.comparedType a = some type → ∃ x, a = f x)
    (compared : ∀ x y, (f x).cmp (f y) = some (compare (key x) (key y)))
    (same : ∀ x y, key x = key y ↔ (f x).SameValue (f y)) : CqlValue.Ordered type :=
  ⟨β, _, f, .of_key key (fun a ha => made a ha.1) (fun x y _ _ => compared x y)
    fun x y _ _ => same x y⟩

theorem CqlValue.ordered_float : CqlValue.Ordered .float := by
  have hmade : ∀ a, a.Comparable .float → ∃ x, a = CqlValue.float x := fun a ha =>
    made_of_type ha.1
  refine ⟨_, _, _, .of_key (fun bits : UInt32 => floatKey (2 ^ 31) bits.toNat) hmade
    (fun x y hx hy => floatPartialCmp_eq hx.2 hy.2) fun x y _ _ => ?_⟩
  rw [floatKey_eq_iff x.toNat_lt y.toNat_lt, UInt32.toNat_inj]
  rfl

theorem CqlValue.ordered_double : CqlValue.Ordered .double := by
  have hmade : ∀ a, a.Comparable .double → ∃ x, a = CqlValue.double x := fun a ha =>
    made_of_type ha.1
  refine ⟨_, _, _, .of_key (fun bits : UInt64 => floatKey (2 ^ 63) bits.toNat) hmade
    (fun x y hx hy => floatPartialCmp_eq hx.2 hy.2) fun x y _ _ => ?_⟩
  rw [floatKey_eq_iff x.toNat_lt y.toNat_lt, UInt64.toNat_inj]
  rfl

/-- The comparator orders every type. -/
theorem CqlValue.ordered [Std.TransCmp (α := BitVec 128) TimeuuidOrd.cmp] (type : NativeType) :
    CqlValue.Ordered type := by
  cases type with
  | ascii =>
    refine ordered_of_key .ascii id (fun a => made_of_type)
      (fun _ _ => rfl) fun x y => ?_
    simp [SameValue]
  | boolean =>
    refine ordered_of_key .boolean id (fun a => made_of_type)
      (fun _ _ => rfl) fun x y => ?_
    simp [SameValue]
  | blob =>
    refine ordered_of_key .blob (fun bytes => bytes.map UInt8.toNat) (fun a => made_of_type)
      (fun _ _ => rfl) fun x y => ?_
    exact (List.map_injective_iff.mpr fun _ _ => UInt8.toNat_inj.mp).eq_iff.trans
      (CqlValue.blob.injEq x y ▸ Iff.rfl)
  | counter =>
    refine ordered_of_key .counter Int64.toInt (fun a => made_of_type)
      (fun _ _ => rfl) fun x y => ?_
    simp [SameValue, Int64.toInt_inj]
  | date =>
    refine ordered_of_key .date UInt32.toNat (fun a => made_of_type)
      (fun _ _ => rfl) fun x y => ?_
    simp [SameValue, UInt32.toNat_inj]
  | decimal =>
    refine ordered_of_key .decimal CqlDecimal.value (fun a => made_of_type)
      (fun x y => congrArg some (x.cmp_eq y)) fun x y => ?_
    exact Iff.rfl
  | int =>
    refine ordered_of_key .int Int32.toInt (fun a => made_of_type)
      (fun _ _ => rfl) fun x y => ?_
    simp [SameValue, Int32.toInt_inj]
  | bigInt =>
    refine ordered_of_key .bigInt Int64.toInt (fun a => made_of_type)
      (fun _ _ => rfl) fun x y => ?_
    simp [SameValue, Int64.toInt_inj]
  | text =>
    refine ordered_of_key .text id (fun a => made_of_type)
      (fun _ _ => rfl) fun x y => ?_
    simp [SameValue]
  | timestamp =>
    refine ordered_of_key .timestamp Int64.toInt (fun a => made_of_type)
      (fun _ _ => rfl) fun x y => ?_
    simp [SameValue, Int64.toInt_inj]
  | inet =>
    refine ordered_of_key .inet IpAddr.octets (fun a => made_of_type)
      (fun _ _ => rfl) fun x y => ?_
    exact ⟨fun h => congrArg _ (octets_inj h), fun h => congrArg _ (CqlValue.inet.inj h)⟩
  | smallInt =>
    refine ordered_of_key .smallInt Int16.toInt (fun a => made_of_type)
      (fun _ _ => rfl) fun x y => ?_
    simp [SameValue, Int16.toInt_inj]
  | tinyInt =>
    refine ordered_of_key .tinyInt Int8.toInt (fun a => made_of_type)
      (fun _ _ => rfl) fun x y => ?_
    simp [SameValue, Int8.toInt_inj]
  | time =>
    refine ordered_of_key .time Int64.toInt (fun a => made_of_type)
      (fun _ _ => rfl) fun x y => ?_
    simp [SameValue, Int64.toInt_inj]
  | uuid =>
    refine ordered_of_key .uuid uuidKey (fun a => made_of_type)
      (fun x y => congrArg some (uuidCmp_eq x y)) fun x y => ?_
    exact ⟨fun h => congrArg _ (uuidKey_inj h), fun h => congrArg _ (CqlValue.uuid.inj h)⟩
  | varint =>
    refine ordered_of_key .varint signedBytesBe (fun a => made_of_type)
      (fun _ _ => rfl) fun x y => ?_
    exact Iff.rfl
  | duration =>
    exact ⟨ℕ, compare, fun _ => .empty, inferInstance, fun a ha => (made_of_type ha.1 : False).elim,
      fun _ _ hx => (made_of_type hx.1 : False).elim, fun _ _ hx => (made_of_type hx.1 : False).elim⟩
  | float => exact ordered_float
  | double => exact ordered_double
  | timeuuid =>
    exact ⟨_, TimeuuidOrd.cmp, .timeuuid, inferInstance, fun a ha => made_of_type ha.1,
      fun _ _ _ _ => rfl, fun _ _ _ _ => Iff.rfl⟩

/-- Only values of one type compare. -/
theorem CqlValue.cmp_of_types_ne {a b : CqlValue} (h : a.comparedType ≠ b.comparedType) :
    a.cmp b = none := by
  revert h
  fun_cases CqlValue.cmp a b
  case case20 => exact fun _ => rfl
  all_goals exact fun h => absurd rfl h

/-- The comparator orders the values of every type totally, equal where they are the same, and
compares no others. -/
structure CqlValue.TotallyOrdered : Prop where
  total : ∀ type, TotalOn CqlValue.cmp (CqlValue.Comparable type)
  same : ∀ type (a b : CqlValue), a.Comparable type → b.Comparable type →
    (a.cmp b = some .eq ↔ a.SameValue b)
  different : ∀ a b : CqlValue, a.comparedType ≠ b.comparedType → a.cmp b = none
  uuid : ∀ a b : BitVec 128, (CqlValue.uuid a).cmp (.uuid b) = some .eq ↔
    bytesBe 16 a.toNat = bytesBe 16 b.toNat
  inet : ∀ a b : IpAddr, (CqlValue.inet a).cmp (.inet b) = some .eq ↔ a = b

/-- The comparator is a total order on every type, if the order of timeuuids is one. -/
theorem CqlValue.cmp_totally_ordered [Std.TransCmp (α := BitVec 128) TimeuuidOrd.cmp] :
    CqlValue.TotallyOrdered where
  total type := by
    obtain ⟨β, c, f, h⟩ := ordered type
    exact h.totalOn
  same type a b ha hb := by
    obtain ⟨β, c, f, h⟩ := ordered type
    exact h.eq_iff ha hb
  different a b := cmp_of_types_ne
  uuid a b := by
    rw [cmp, Option.some_inj, uuidCmp_eq_eq_iff]
    exact ⟨congrArg fun a : BitVec 128 => bytesBe 16 a.toNat, bytesBe_toNat_inj (by norm_num)⟩
  inet a b := by rw [cmp, Option.some_inj, inetCmp_eq_eq_iff]

end Comparator

attribute [local instance] Sample.timeuuids in
/-- The documented order of timeuuids is a total one. -/
theorem CqlValue.cmp_totally_ordered_timeuuids : CqlValue.TotallyOrdered := by
  have horder : Std.TransCmp (α := BitVec 128) TimeuuidOrd.cmp :=
    { eq_swap {a b} := @Std.OrientedCmp.eq_swap (List ℕ) compare _
        (Sample.timeuuidKey a) (Sample.timeuuidKey b)
      isLE_trans {a b c} := @Std.TransCmp.isLE_trans (List ℕ) compare _
        (Sample.timeuuidKey a) (Sample.timeuuidKey b) (Sample.timeuuidKey c) }
  exact CqlValue.cmp_totally_ordered

end VectorStore
