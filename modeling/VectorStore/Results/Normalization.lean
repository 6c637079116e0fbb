import Mathlib.Data.Nat.Size
import VectorStore.Foundation.Bytes
import VectorStore.Foundation.Decimal
import VectorStore.Results.TotalOrder
import VectorStore.Rows.Identity
import VectorStore.Rows.StoredKeys
import VectorStore.Search.TableSearch

/-!
# Primary keys up to the equality of decimals

A table looks its rows up by normalized keys: the decimals among the clustering columns are without
their trailing zeros, everything else is as it came.  So two keys lead to one row exactly when they
have the same partition columns and equal clustering columns.
-/

namespace VectorStore

/-! ## Decimals -/

/-- The digits of a decimal as a number, and its scale. -/
def CqlDecimal.scaled (d : CqlDecimal) : Scaled := ⟨signedBytesBe d.digits, d.scale.toInt⟩

/-- The scale fits `i32`. -/
def Scaled.Fits (d : Scaled) : Prop := -2 ^ 31 ≤ d.scale ∧ d.scale < 2 ^ 31

instance (d : Scaled) : Decidable d.Fits :=
  inferInstanceAs (Decidable (-2 ^ 31 ≤ d.scale ∧ d.scale < 2 ^ 31))

/-- `CqlDecimal::try_from(BigDecimal)`, given how the crate writes the digits. -/
def Scaled.toCqlDecimal (toBytes : ℤ → List UInt8) (d : Scaled) : Option CqlDecimal :=
  if d.Fits then some ⟨toBytes d.digits, .ofInt d.scale⟩ else none

/-- What the code relies on of the crate: it strips all trailing zeros, makes every zero one of the
scale 0, and writes a number in one way. -/
structure StripsZeros [DecimalNormalizer] (toBytes : ℤ → List UInt8) : Prop where
  bytes : ∀ n, signedBytesBe (toBytes n) = n
  normalized : ∀ d : CqlDecimal,
    DecimalNormalizer.normalized d = d.scaled.normalized.toCqlDecimal toBytes

section Decimals

variable {toBytes : ℤ → List UInt8} {a b a' b' : CqlDecimal}

/-- A scale that fits survives its conversion. -/
theorem Scaled.scaled_of_toCqlDecimal (hbytes : ∀ n, signedBytesBe (toBytes n) = n) {d : Scaled}
    (h : d.toCqlDecimal toBytes = some a) : a.scaled = d := by
  unfold toCqlDecimal at h
  split at h
  · next hfits =>
    obtain rfl := Option.some.inj h
    exact Scaled.ext (hbytes _) (Int32.toInt_ofInt_of_le hfits.1 hfits.2)
  · cases h

variable [DecimalNormalizer]

/-- The normalized decimal stands for the normal form. -/
theorem StripsZeros.scaled_eq (h : StripsZeros toBytes)
    (ha : DecimalNormalizer.normalized a = some a') : a'.scaled = a.scaled.normalized :=
  Scaled.scaled_of_toCqlDecimal h.bytes ((h.normalized a).symm.trans ha)

/-- Decimals have the same normal form exactly when they compare equal. -/
theorem StripsZeros.normalized_eq_iff (h : StripsZeros toBytes)
    (ha : DecimalNormalizer.normalized a = some a') (hb : DecimalNormalizer.normalized b = some b') :
    a' = b' ↔ a.cmp b = .eq := by
  rw [CqlDecimal.cmp_eq, Std.LawfulEqOrd.compare_eq_iff_eq]
  change _ ↔ a.scaled.value = b.scaled.value
  rw [← Scaled.normalized_eq_iff]
  constructor
  · rintro rfl
    rw [← h.scaled_eq ha, ← h.scaled_eq hb]
  · intro heq
    rw [h.normalized, heq, ← h.normalized, hb] at ha
    exact (Option.some.inj ha).symm

/-- A normalized decimal is its own normal form. -/
theorem StripsZeros.normalized_idem (h : StripsZeros toBytes)
    (ha : DecimalNormalizer.normalized a = some a') :
    DecimalNormalizer.normalized a' = some a' := by
  rw [h.normalized, h.scaled_eq ha, Scaled.normalized_normalized, ← h.normalized, ha]

end Decimals

/-! ## Clustering columns -/

/-- The equality of clustering columns: decimals are equal when they compare equal, other values
when they are the same bytes. -/
def CqlValue.SameClustering [TimeuuidOrd] : CqlValue → CqlValue → Prop
  | .decimal a, .decimal b => (CqlValue.decimal a).cmp (.decimal b) = some .eq
  | a, b => a = b

section SameClustering

variable [TimeuuidOrd]

theorem CqlValue.sameClustering_decimal {a b : CqlDecimal} :
    (CqlValue.decimal a).SameClustering (.decimal b) ↔ a.cmp b = .eq :=
  Option.some_inj

/-- Only decimals are equal without being the same. -/
theorem CqlValue.sameClustering_iff {a b : CqlValue}
    (h : (∀ d, a ≠ .decimal d) ∨ ∀ d, b ≠ .decimal d) : a.SameClustering b ↔ a = b := by
  unfold SameClustering
  split
  · next d e =>
    rcases h with h | h
    · exact absurd rfl (h d)
    · exact absurd rfl (h e)
  · rfl

end SameClustering

section Values

variable [DecimalNormalizer] {toBytes : ℤ → List UInt8} {a b a' b' : CqlValue}

/-- Normalizing replaces a decimal by a decimal and keeps any other value. -/
theorem normalize_cases (h : normalize a = .ok a') :
    (∃ d d', a = .decimal d ∧ a' = .decimal d' ∧ DecimalNormalizer.normalized d = some d') ∨
      (a' = a ∧ ∀ d, a ≠ .decimal d) := by
  cases a with
  | decimal d =>
    left
    simp only [normalize] at h
    cases hd : DecimalNormalizer.normalized d with
    | none =>
      rw [hd] at h
      cases h
    | some d' =>
      rw [hd] at h
      exact ⟨d, d', rfl, (Except.ok.inj h).symm, hd⟩
  | _ =>
    right
    exact ⟨(Except.ok.inj h).symm, fun _ heq => by cases heq⟩

/-- Values have the same normal form exactly when they are equal as clustering columns. -/
theorem StripsZeros.normalize_eq_iff [TimeuuidOrd] (h : StripsZeros toBytes)
    (ha : normalize a = .ok a') (hb : normalize b = .ok b') : a' = b' ↔ a.SameClustering b := by
  rcases normalize_cases ha with ⟨d, d', rfl, rfl, hd⟩ | ⟨rfl, hnot⟩
  · rcases normalize_cases hb with ⟨e, e', rfl, rfl, he⟩ | ⟨rfl, hnot⟩
    · rw [CqlValue.sameClustering_decimal, ← h.normalized_eq_iff hd he]
      exact ⟨CqlValue.decimal.inj, congrArg _⟩
    · rw [CqlValue.sameClustering_iff (Or.inr hnot)]
      exact ⟨fun heq => absurd heq.symm (hnot d'), fun heq => absurd heq.symm (hnot d)⟩
  · rw [CqlValue.sameClustering_iff (Or.inl hnot)]
    rcases normalize_cases hb with ⟨e, e', rfl, rfl, he⟩ | ⟨rfl, -⟩
    · exact ⟨fun heq => absurd heq (hnot e'), fun heq => absurd heq (hnot e)⟩
    · rfl

/-- A normalized value is its own normal form. -/
theorem StripsZeros.normalize_idem (h : StripsZeros toBytes) (ha : normalize a = .ok a') :
    normalize a' = .ok a' := by
  rcases normalize_cases ha with ⟨d, d', rfl, rfl, hd⟩ | ⟨rfl, -⟩
  · simp only [normalize, h.normalized_idem hd]
  · exact ha

end Values

/-! ## Keys -/

section Keys

/-- Traversing a list with positions leaves a number of first elements and normalizes the others. -/
theorem mapM_zipIdx_from_iff {ε α : Type} {f : α → Except ε α} {count : ℕ} (start : ℕ)
    {xs ys : List α} :
    ((xs.zipIdx start).mapM fun (x, idx) => if idx ≥ count then f x else .ok x) = .ok ys ↔
      ys.take (count - start) = xs.take (count - start) ∧
        List.Forall₂ (fun x y => f x = .ok y) (xs.drop (count - start))
          (ys.drop (count - start)) := by
  induction xs generalizing start ys with
  | nil =>
    rw [List.take_nil, List.drop_nil, List.forall₂_nil_left_iff]
    constructor
    · intro h
      obtain rfl := Except.ok.inj h
      exact ⟨List.take_nil, List.drop_nil⟩
    · rintro ⟨htake, hdrop⟩
      have hys : ys = [] := by rw [← List.take_append_drop (count - start) ys, htake, hdrop]; rfl
      rw [hys]
      rfl
  | cons x xs ih =>
    rw [List.zipIdx_cons, mapM_cons_eq_ok]
    simp only [ih]
    by_cases hle : count ≤ start
    · have hzero : count - start = 0 := Nat.sub_eq_zero_of_le hle
      have hzero' : count - (start + 1) = 0 := by omega
      simp only [hzero, hzero', List.take_zero, List.drop_zero, true_and, ge_iff_le, if_pos hle,
        List.forall₂_cons_left_iff]
    · obtain ⟨n, hn⟩ : ∃ n, count - start = n + 1 := ⟨count - start - 1, by omega⟩
      have hn' : count - (start + 1) = n := by omega
      simp only [hn, hn', List.take_succ_cons, List.drop_succ_cons, ge_iff_le, if_neg hle]
      constructor
      · rintro ⟨y, ys', hy, ⟨htake, hdrop⟩, rfl⟩
        obtain rfl := Except.ok.inj hy
        exact ⟨by rw [List.take_succ_cons, htake], hdrop⟩
      · rintro ⟨htake, hdrop⟩
        cases ys with
        | nil => cases htake
        | cons y ys =>
          rw [List.take_succ_cons] at htake
          obtain ⟨hfirst, hrest⟩ := List.cons.inj htake
          exact ⟨y, ys, by rw [hfirst], ⟨hrest, hdrop⟩, rfl⟩

theorem mapM_zipIdx_iff {ε α : Type} {f : α → Except ε α} {count : ℕ} {xs ys : List α} :
    (xs.zipIdx.mapM fun (x, idx) => if idx ≥ count then f x else .ok x) = .ok ys ↔
      ys.take count = xs.take count ∧
        List.Forall₂ (fun x y => f x = .ok y) (xs.drop count) (ys.drop count) :=
  mapM_zipIdx_from_iff 0

/-- Two lists of images are the same exactly when the lists are related, if this holds of their
elements. -/
theorem forall₂_eq_iff {α β : Type} {R : α → β → Prop} {S : α → α → Prop}
    (h : ∀ x x' y y', R x x' → R y y' → (x' = y' ↔ S x y)) {xs ys : List α} {xs' ys' : List β}
    (hxs : List.Forall₂ R xs xs') (hys : List.Forall₂ R ys ys') :
    xs' = ys' ↔ List.Forall₂ S xs ys := by
  induction hxs generalizing ys ys' with
  | nil =>
    cases hys with
    | nil => exact ⟨fun _ => .nil, fun _ => rfl⟩
    | cons hy hys => exact iff_of_false (by simp) (by simp)
  | cons hx hxs ih =>
    cases hys with
    | nil => exact iff_of_false (by simp) (by simp)
    | cons hy hys => rw [List.cons_eq_cons, List.forall₂_cons, h _ _ _ _ hx hy, ih hys]

/-- A list of images is related to itself, if its elements are. -/
theorem forall₂_refl_right {α : Type} {R : α → α → Prop} (h : ∀ x y, R x y → R y y)
    {xs ys : List α} (hxs : List.Forall₂ R xs ys) : List.Forall₂ R ys ys := by
  induction hxs with
  | nil => exact .nil
  | cons hx _ ih => exact .cons (h _ _ hx) ih

/-- The normal form of a key keeps the partition columns and normalizes the clustering columns. -/
structure IsNormalForm [DecimalNormalizer] (count : ℕ) (key key' : PrimaryKey) : Prop where
  partition : key'.key.values.take count = key.key.values.take count
  clustering : List.Forall₂ (fun value value' => normalize value = .ok value')
    (key.key.values.drop count) (key'.key.values.drop count)

/-- Keys are equal for a table: they have the same partition columns and equal clustering columns. -/
structure SameKey [TimeuuidOrd] (count : ℕ) (key key' : PrimaryKey) : Prop where
  partition : key.key.values.take count = key'.key.values.take count
  clustering : List.Forall₂ CqlValue.SameClustering (key.key.values.drop count)
    (key'.key.values.drop count)

theorem PrimaryKey.ext_values {key key' : PrimaryKey} (h : key.key.values = key'.key.values) :
    key = key' := by
  obtain ⟨⟨values, hlen⟩⟩ := key
  obtain ⟨⟨values', hlen'⟩⟩ := key'
  obtain rfl : values = values' := h
  rfl

variable [DecimalNormalizer] {toBytes : ℤ → List UInt8} {table : Table}
  {key key' raw raw' : PrimaryKey}

/-- `normalize_primary_key` computes the normal form, in a table that has decimals to normalize. -/
theorem Table.normalizePrimaryKey_iff :
    table.normalizePrimaryKey raw = .ok key ↔
      if table.needsCkNormalization then IsNormalForm table.partitionPrimaryKeyCount raw key
      else raw = key := by
  unfold normalizePrimaryKey
  by_cases hneeds : table.needsCkNormalization = true
  · rw [if_pos hneeds, hneeds, if_neg (by decide)]
    constructor
    · intro h
      obtain ⟨values, hvalues, h⟩ := bind_eq_ok h
      have hlen : values.length ≤ 255 := by
        have heq := (forall₂_of_mapM hvalues).length_eq
        rw [List.length_zipIdx] at heq
        exact heq ▸ raw.key.length_le
      have hkey : key.key.values = values := by
        have hnew : key = .fromIter values := by
          have hif := Except.ok.inj h
          split at hif
          · next heq => rw [← hif, heq]
          · exact hif.symm
        rw [hnew]
        exact List.take_of_length_le hlen
      rw [← hkey] at hvalues
      obtain ⟨htake, hdrop⟩ := mapM_zipIdx_iff.mp hvalues
      exact ⟨htake, hdrop⟩
    · rintro ⟨htake, hdrop⟩
      have hvalues := mapM_zipIdx_iff.mpr ⟨htake, hdrop⟩
      have hkey : PrimaryKey.fromIter key.key.values = key :=
        PrimaryKey.ext_values (List.take_of_length_le key.key.length_le)
      rw [hvalues]
      change Except.ok (if PrimaryKey.fromIter key.key.values = raw then raw
        else PrimaryKey.fromIter key.key.values) = .ok key
      rw [hkey]
      split
      · next heq => rw [heq]
      · rfl
  · rw [Bool.not_eq_true] at hneeds
    rw [hneeds]
    simp

/-- Without decimals to normalize, keys are their own normal forms. -/
theorem Table.eq_of_not_needs (hneeds : table.needsCkNormalization = false)
    (hkey : table.normalizePrimaryKey raw = .ok key) : raw = key := by
  rwa [normalizePrimaryKey_iff, hneeds, if_neg Bool.false_ne_true] at hkey

/-- A key that normalizes is its own normal form afterwards. -/
theorem StripsZeros.normalizePrimaryKey_idem (h : StripsZeros toBytes)
    (hkey : table.normalizePrimaryKey raw = .ok key) :
    table.normalizePrimaryKey key = .ok key := by
  rw [Table.normalizePrimaryKey_iff] at hkey ⊢
  split at hkey
  · next hneeds =>
    have hidem : ∀ a a', normalize a = .ok a' → normalize a' = .ok a' :=
      fun _ _ => h.normalize_idem
    rw [if_pos hneeds]
    exact ⟨rfl, forall₂_refl_right hidem hkey.clustering⟩
  · next hneeds => rw [if_neg hneeds]

/-- With decimals to normalize, keys have the same normal form exactly when they are equal for the
table. -/
theorem StripsZeros.normalizePrimaryKey_eq_iff [TimeuuidOrd] (h : StripsZeros toBytes)
    (hneeds : table.needsCkNormalization = true) (hkey : table.normalizePrimaryKey raw = .ok key)
    (hkey' : table.normalizePrimaryKey raw' = .ok key') :
    key = key' ↔ SameKey table.partitionPrimaryKeyCount raw raw' := by
  rw [Table.normalizePrimaryKey_iff, if_pos hneeds] at hkey hkey'
  have hvalue : ∀ a a' b b', normalize a = .ok a' → normalize b = .ok b' →
      (a' = b' ↔ a.SameClustering b) := fun _ _ _ _ => h.normalize_eq_iff
  have hclustering := forall₂_eq_iff hvalue hkey.clustering hkey'.clustering
  constructor
  · rintro rfl
    exact ⟨hkey.partition.symm.trans hkey'.partition, hclustering.mp rfl⟩
  · rintro ⟨htake, hdrop⟩
    refine PrimaryKey.ext_values ?_
    rw [← List.take_append_drop table.partitionPrimaryKeyCount key.key.values,
      ← List.take_append_drop table.partitionPrimaryKeyCount key'.key.values, hkey.partition,
      hkey'.partition, htake, hclustering.mpr hdrop]

omit [DecimalNormalizer] in
/-- Without decimals among the clustering columns, keys are equal when they are the same. -/
theorem sameKey_iff_eq [TimeuuidOrd] {count : ℕ}
    (hnot : ∀ value ∈ raw.key.values.drop count, ∀ d, value ≠ .decimal d) :
    SameKey count raw raw' ↔ raw = raw' := by
  have hvalues : ∀ xs ys : List CqlValue, (∀ x ∈ xs, ∀ d, x ≠ .decimal d) →
      (List.Forall₂ CqlValue.SameClustering xs ys ↔ xs = ys) := by
    intro xs ys hxs
    constructor
    · intro h
      rw [← List.forall₂_eq_eq_eq]
      exact ((List.forall₂_and_left _ _).mpr ⟨hxs, h⟩).imp fun x y hxy =>
        (CqlValue.sameClustering_iff (Or.inl hxy.1)).mp hxy.2
    · rintro rfl
      exact List.forall₂_same.mpr fun x hx =>
        (CqlValue.sameClustering_iff (Or.inl (hxs x hx))).mpr rfl
  constructor
  · rintro ⟨htake, hdrop⟩
    refine PrimaryKey.ext_values ?_
    rw [← List.take_append_drop count raw.key.values,
      ← List.take_append_drop count raw'.key.values, htake, (hvalues _ _ hnot).mp hdrop]
  · rintro rfl
    exact ⟨rfl, (hvalues _ _ hnot).mpr rfl⟩

end Keys

/-! ## Tables -/

namespace Table

variable [DecimalNormalizer] {table table' : Table} {raw raw' : PrimaryKey} {id id' : PrimaryId}

/-- The table maps the key to the identifier. -/
def MapsTo (table : Table) (raw : PrimaryKey) (id : PrimaryId) : Prop :=
  ∃ key, table.normalizePrimaryKey raw = .ok key ∧ table.primaryIds.lookup key = some id

omit [DecimalNormalizer] in
/-- A key of the table has a decimal among its clustering columns only if the table has a clustering
column of this type. -/
def IsKey (table : Table) (raw : PrimaryKey) : Prop :=
  table.needsCkNormalization = false →
    ∀ value ∈ raw.key.values.drop table.partitionPrimaryKeyCount, ∀ d, value ≠ .decimal d

/-- Keys normalize as before when an identifier was found. -/
theorem normalizePrimaryKey_addPrimaryKey (table : Table) (raw raw' : PrimaryKey) :
    (table.addPrimaryKey raw).2.normalizePrimaryKey raw' = table.normalizePrimaryKey raw' := by
  unfold addPrimaryKey
  split
  · rfl
  · split
    · rfl
    · rfl
    · dsimp only
      split <;> rfl

/-- `add_primary_key` returns the identifier that the table maps the key to from then on. -/
theorem mapsTo_of_addPrimaryKey (h : table.addPrimaryKey raw = (.ok id, table')) :
    table'.MapsTo raw id := by
  have hnormalize : table'.normalizePrimaryKey raw = table.normalizePrimaryKey raw := by
    rw [← table.normalizePrimaryKey_addPrimaryKey raw raw, h]
  cases hkey : table.normalizePrimaryKey raw with
  | error e =>
    unfold addPrimaryKey at h
    rw [hkey] at h
    cases h
  | ok key =>
    refine ⟨key, hnormalize.trans hkey, lookup_addPrimaryKey (fun key' hkey' => ?_) h⟩
    exact Except.ok.inj (hkey'.symm.trans hkey)

/-- Keys lead to one identifier exactly when they have one normal form. -/
theorem MapsTo.eq_iff {store : Store} {shelf : Shelf} {key key' : PrimaryKey}
    (hw : table.Consistent store shelf) (h : table.MapsTo raw id) (h' : table.MapsTo raw' id')
    (hkey : table.normalizePrimaryKey raw = .ok key)
    (hkey' : table.normalizePrimaryKey raw' = .ok key') : id = id' ↔ key = key' := by
  obtain ⟨first, hfirst, hid⟩ := h
  obtain ⟨second, hsecond, hid'⟩ := h'
  obtain rfl := Except.ok.inj (hfirst.symm.trans hkey)
  obtain rfl := Except.ok.inj (hsecond.symm.trans hkey')
  constructor
  · rintro rfl
    exact hw.ids_inj _ _ _ _ hid hid' rfl
  · rintro rfl
    exact Option.some.inj (hid.symm.trans hid')

end Table

namespace World

variable [DecimalNormalizer] {w : World} {call : Call} {key : PrimaryKey}

/-- A key that became known was not known before some call that reached it. -/
theorem exists_first (h : w.Consistent) (hno : ¬w.Knows key) {calls : List Call}
    (hknows : (Machine.run step w calls).Knows key) :
    ∃ before call after, calls = before ++ call :: after ∧
      (Machine.run step w before).Reaches call key ∧ ¬(Machine.run step w before).Knows key := by
  induction calls generalizing w with
  | nil => exact absurd hknows hno
  | cons call calls ih =>
    rw [Machine.run_cons] at hknows
    by_cases hstep : (w.step call).Knows key
    · refine ⟨[], call, calls, rfl, ?_, hno⟩
      by_contra hreach
      by_cases hother : ∃ key', w.Reaches call key'
      · obtain ⟨key', hother⟩ := hother
        rcases ((step_stepped h hother).knows key).mp hstep with hbefore | rfl
        · exact hno hbefore
        · exact hreach hother
      · push Not at hother
        exact hno (((step_refused h hother).knows key).mp hstep)
    · obtain ⟨before, call', after, rfl, hreach, hbefore⟩ :=
        ih (step_consistent h call) hstep hknows
      exact ⟨call :: before, call', after, rfl, hreach, hbefore⟩

end World

/-- The world after calls on a new table. -/
abbrev World.after [DecimalNormalizer] (table : Table) (calls : List Call) : World :=
  Machine.run World.step (World.init table) calls

/-- The table identifies the keys that are equal. -/
structure Table.Canonical [DecimalNormalizer] [TimeuuidOrd] (table : Table) : Prop where
  /-- The keys of the table that are equal have one identifier. -/
  same : ∀ raw raw' id id', table.MapsTo raw id → table.MapsTo raw' id' →
    table.IsKey raw → (id = id' ↔ SameKey table.partitionPrimaryKeyCount raw raw')
  /-- Without a clustering column of decimals, keys are looked up as they are. -/
  plain : ∀ raw raw' id id', table.MapsTo raw id → table.MapsTo raw' id' →
    table.needsCkNormalization = false → (id = id' ↔ raw = raw')
  added : ∀ raw id table', table.addPrimaryKey raw = (.ok id, table') → table'.MapsTo raw id
  idempotent : ∀ raw key, table.normalizePrimaryKey raw = .ok key →
    table.normalizePrimaryKey key = .ok key

/-- After calls on a new table, a row has the primary key of the call that introduced it. -/
def World.KeepsFirstKeys [DecimalNormalizer] (table : Table) (calls : List Call) : Prop :=
  ∀ raw id, (after table calls).table.MapsTo raw id →
    ∃ before call rest, calls = before ++ call :: rest ∧
      (∀ id', ¬(after table before).table.MapsTo raw id') ∧
      (after table (before ++ [call])).table.MapsTo raw id ∧
      (after table (before ++ [call])).table.MapsTo call.primaryKey id ∧
      ∀ p id', Idx.idx id' = Idx.idx id →
        (after table calls).table.isValidPrimaryId p id' = true →
        (after table calls).table.primaryKey p id' = some call.primaryKey

namespace World

variable [DecimalNormalizer] {table : Table}

theorem after_append (table : Table) (before rest : List Call) :
    after table (before ++ rest) = Machine.run step (after table before) rest :=
  Machine.run_append ..

/-- Keys normalize after a run as in the new table. -/
theorem normalizePrimaryKey_after (h : table.IsNew) (calls : List Call) (raw : PrimaryKey) :
    (after table calls).table.normalizePrimaryKey raw = table.normalizePrimaryKey raw :=
  Table.normalizePrimaryKey_congr (run_schema (consistent_init h) calls) raw

/-- A row has the primary key of the call that introduced it. -/
theorem keepsFirstKeys (h : table.IsNew) (calls : List Call) : KeepsFirstKeys table calls := by
  rintro raw id ⟨key, hkey, hid⟩
  rw [normalizePrimaryKey_after h] at hkey
  have hknows : (after table calls).Knows key := Option.isSome_iff_exists.mpr ⟨id, hid⟩
  obtain ⟨before, call, rest, rfl, hreach, hbefore⟩ :=
    exists_first (consistent_init h) (not_knows_init h key) hknows
  have hw : (after table before).Consistent := run_consistent (consistent_init h) before
  have hw' : ((after table before).step call).Consistent := step_consistent hw call
  have hone : after table (before ++ [call]) = (after table before).step call :=
    after_append table before [call]
  have hend : after table (before ++ call :: rest) =
      Machine.run step ((after table before).step call) rest :=
    after_append table before (call :: rest)
  obtain ⟨id', hid'⟩ := Option.isSome_iff_exists.mp
    (((step_stepped hw hreach).knows key).mpr (Or.inr rfl))
  have hkept := run_kept hw' rest hid'
  rw [← hend] at hkept
  obtain rfl := Option.some.inj (hkept.symm.trans hid)
  have hcall : table.normalizePrimaryKey call.primaryKey = .ok key := by
    rw [← normalizePrimaryKey_after h before]
    exact hreach.keyOf_eq
  have hraw : (((after table before).step call).row key).key = some call.primaryKey := by
    rw [key_of_reaches hw hreach, row_of_not_knows hbefore]
    rfl
  have hstored := run_key hw' rest hraw
  rw [← hend] at hstored
  refine ⟨before, call, rest, rfl, ?_, ?_, ?_, ?_⟩
  · rintro id' ⟨key', hkey', hid''⟩
    rw [normalizePrimaryKey_after h] at hkey'
    obtain rfl := Except.ok.inj (hkey'.symm.trans hkey)
    exact hbefore (Option.isSome_iff_exists.mpr ⟨id', hid''⟩)
  · exact ⟨key, (normalizePrimaryKey_after h _ raw).trans hkey, hone ▸ hid'⟩
  · exact ⟨key, (normalizePrimaryKey_after h _ _).trans hcall, hone ▸ hid'⟩
  · intro p id'' hidx hvalid
    have hget : (after table (before ++ call :: rest)).table.primaryKeys.get id'' =
        (after table (before ++ call :: rest)).table.primaryKeys.get id' := by
      unfold ColumnVec.get
      rw [hidx]
    unfold Table.primaryKey
    rw [hvalid, hget, primaryKeys_get hid]
    exact hstored

end World

/-- Normalization is canonical: it identifies the keys that are equal, is idempotent, and a row keeps
the primary key that introduced it. -/
theorem normalization_canonical [DecimalNormalizer] [TimeuuidOrd] {toBytes : ℤ → List UInt8}
    (hzeros : StripsZeros toBytes) {table : Table} (hnew : table.IsNew) (calls : List Call) :
    (World.after table calls).table.Canonical ∧ World.KeepsFirstKeys table calls := by
  have hw : (World.after table calls).Consistent :=
    World.run_consistent (World.consistent_init hnew) calls
  refine ⟨?_, World.keepsFirstKeys hnew calls⟩
  constructor
  case same =>
    intro raw raw' i i' h h' hisKey
    have ⟨key, hkey, _⟩ := h
    have ⟨key', hkey', _⟩ := h'
    rw [h.eq_iff hw h' hkey hkey']
    by_cases hneeds : (World.after table calls).table.needsCkNormalization = true
    · exact hzeros.normalizePrimaryKey_eq_iff hneeds hkey hkey'
    · rw [Bool.not_eq_true] at hneeds
      rw [sameKey_iff_eq (hisKey hneeds), Table.eq_of_not_needs hneeds hkey,
        Table.eq_of_not_needs hneeds hkey']
  case plain =>
    intro raw raw' i i' h h' hneeds
    have ⟨key, hkey, _⟩ := h
    have ⟨key', hkey', _⟩ := h'
    rw [h.eq_iff hw h' hkey hkey', Table.eq_of_not_needs hneeds hkey,
      Table.eq_of_not_needs hneeds hkey']
  case added => exact fun raw id after' h => Table.mapsTo_of_addPrimaryKey h
  case idempotent => exact fun raw key h => hzeros.normalizePrimaryKey_idem h

/-! ## A table with decimals -/

/-- The two's complement number that the bytes of a word stand for. -/
theorem signedBytesBe_beBytes {size m : ℕ} (hm : m < 256 ^ (size + 1)) :
    signedBytesBe (beBytes (size + 1) m) =
      if m < 128 * 256 ^ size then (m : ℤ) else m - 256 ^ (size + 1) := by
  have hlast : m / 256 ^ size < 256 := Nat.div_lt_of_lt_mul (by rwa [← Nat.pow_succ])
  have hfirst : UInt8.ofNat (m / 256 ^ size) < 128 ↔ m < 128 * 256 ^ size := by
    rw [UInt8.lt_iff_toNat_lt, UInt8.toNat_ofNat_of_lt' hlast,
      ← Nat.div_lt_iff_lt_mul (by positivity)]
    rfl
  have hnum := ofBeBytes_beBytes (size + 1) m
  rw [Nat.mod_eq_of_lt hm, ← foldl_eq_ofBeBytes] at hnum
  have hlen := length_beBytes (size + 1) m
  rw [beBytes_succ] at hnum hlen ⊢
  unfold signedBytesBe
  dsimp only
  rw [hnum, hlen]
  simp only [hfirst]

namespace Sample

/-- `BigInt::to_signed_bytes_be`: as few bytes as hold the number and its sign. -/
def toSignedBytesBe (n : ℤ) : List UInt8 :=
  let size := (if n < 0 then -n - 1 else n).toNat.size / 8 + 1
  beBytes size (n % 256 ^ size).toNat

theorem signedBytesBe_toSignedBytesBe (n : ℤ) :
    signedBytesBe (toSignedBytesBe n) = n := by
  unfold toSignedBytesBe
  dsimp only
  generalize hk : (if n < 0 then -n - 1 else n).toNat.size / 8 = k
  have hbits : (if n < 0 then -n - 1 else n).toNat < 128 * 256 ^ k := by
    refine Nat.lt_size_self _ |>.trans_le ?_
    have hpow : 128 * 256 ^ k = 2 ^ (8 * k + 7) := by
      rw [Nat.pow_add, Nat.pow_mul]
      ring
    rw [hpow]
    exact Nat.pow_le_pow_right (by decide) (by omega)
  have hword : (256 : ℤ) ^ (k + 1) = 2 * ((128 * 256 ^ k : ℕ) : ℤ) := by
    push_cast
    ring
  have hmod : n % 256 ^ (k + 1) = if n < 0 then n + 256 ^ (k + 1) else n := by
    split at hbits
    · next hneg =>
      rw [if_pos hneg, ← Int.add_emod_right, Int.emod_eq_of_lt (by omega) (by omega)]
    · next hpos => rw [if_neg hpos, Int.emod_eq_of_lt (by omega) (by omega)]
  have hcast : (((n % 256 ^ (k + 1)).toNat : ℕ) : ℤ) = n % 256 ^ (k + 1) := by
    rw [hmod]
    split at hbits <;> omega
  have hlt : (n % 256 ^ (k + 1)).toNat < 256 ^ (k + 1) := by
    zify
    rw [hcast]
    exact Int.emod_lt_of_pos n (by positivity)
  rw [signedBytesBe_beBytes hlt, hcast, hmod]
  generalize (256 : ℤ) ^ (k + 1) = word at hword hmod hcast ⊢
  generalize 128 * 256 ^ k = half at hbits hword ⊢
  split at hbits <;> split <;> omega

/-- The crate's function. -/
@[reducible] def stripping : DecimalNormalizer :=
  ⟨fun d => d.scaled.normalized.toCqlDecimal toSignedBytesBe⟩

attribute [local instance] stripping in
theorem stripsZeros_stripping : StripsZeros toSignedBytesBe :=
  ⟨signedBytesBe_toSignedBytesBe, fun _ => rfl⟩

/-- A table whose clustering column is a decimal. -/
def newDecimals : Except Failure Table :=
  Table.new (.new "ks" "idx") ⟨⟨"pk"⟩, [⟨"ck"⟩]⟩ (Nat.toPNat' 1) none ⟨⟨"v"⟩, []⟩ [] (AList.singleton ⟨"ck"⟩ .decimal)

def decimalTable : Table := newDecimals.toOption.get (by decide +kernel)

theorem isNew_decimalTable : decimalTable.IsNew :=
  ⟨_, _, _, _, _, _, _, eq_ok_of_toOption newDecimals _⟩

/-- A key with a decimal. -/
def decimalKey (digits : List UInt8) (scale : Int32) : PrimaryKey :=
  .fromIter [.int 0, .decimal ⟨digits, scale⟩]

/-- An upsert of a row with a decimal in its key. -/
def upsertDecimal (digits : List UInt8) (scale : Int32) (time : ℕ) : Call :=
  .upsert (.new "ks" "idx") (decimalKey digits scale)
    ⟨.new (Sample.time time) (some (vector 0)), []⟩

end Sample

attribute [local instance] Sample.stripping Sample.timeuuids in
/-- Two upserts of one row, which write its decimal with one and with two zeros. -/
theorem normalization_canonical_decimalTable :
    (World.after Sample.decimalTable
        [Sample.upsertDecimal [10] 1 0, Sample.upsertDecimal [100] 2 1]).table.Canonical ∧
      World.KeepsFirstKeys Sample.decimalTable
        [Sample.upsertDecimal [10] 1 0, Sample.upsertDecimal [100] 2 1] :=
  normalization_canonical Sample.stripsZeros_stripping Sample.isNew_decimalTable _

end VectorStore
