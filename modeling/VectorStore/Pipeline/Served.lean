import Mathlib.Combinatorics.Enumerative.DoubleCounting
import VectorStore.Results.Identifiers
import VectorStore.VsIndex.Actor

/-!
# Serving the rows of a table

What an external index should hold in the end is said by the rows of the table alone: the value of
every row that holds one, in the partition of the row, under an identifier that answers for the row.
The store of the operations, replayed in order, holds just that.
-/

namespace VectorStore

/-- The value is a vector. -/
def SplittingValues.isVector : SplittingValues → Bool
  | vector _ => true
  | document _ => false

/-- The value is a document. -/
def SplittingValues.isDocument : SplittingValues → Bool
  | vector _ => false
  | document _ => true

namespace World

/-- The rows that hold a value of a kind. -/
def rowsOf (w : World) (kind : SplittingValues → Bool) : List PrimaryKey :=
  w.table.primaryIds.keys.filter fun key =>
    (w.row key).target.held.any fun entry => kind entry.2

/-- The partition that the index has for a key. -/
def locate (w : World) (pkey : PartitionKey) : Option PartitionId :=
  w.table.index.data.locate w.table.index.indexId pkey

variable {w : World} {key : PrimaryKey} {pkey : PartitionKey} {p q : PartitionId}
  {id jd : PrimaryId} {value : SplittingValues}

section

variable [TimeuuidOrd] [DecimalNormalizer]

/-- A value stored under an identifier that answers for the row of a key. -/
def StoredFor {α : Type} (w : World) (stored : PartitionId → PrimaryId → Option α)
    (key : PrimaryKey) (a : α) : Prop :=
  ∃ p id, stored p id = some a ∧ w.ResolvesTo key p id

/-- Everything stored is the value that a row holds. -/
def Sound {α : Type} (w : World) (wrap : α → SplittingValues)
    (stored : PartitionId → PrimaryId → Option α) : Prop :=
  ∀ p id a, stored p id = some a → ∃ key pkey,
    (w.row key).target.held = some (pkey, wrap a) ∧ w.locate pkey = some p ∧ w.ResolvesTo key p id

/-- An index holds the values of the rows, each of them once, in the partition of the row and under
an identifier that answers for the row. -/
structure Serves {α : Type} (w : World) (wrap : α → SplittingValues)
    (stored : PartitionId → PrimaryId → Option α) : Prop where
  sound : w.Sound wrap stored
  complete : ∀ key pkey a, (w.row key).target.held = some (pkey, wrap a) → ∃ p id,
    w.locate pkey = some p ∧ stored p id = some a ∧ w.ResolvesTo key p id
  unique : ∀ key p id q jd, (stored p id).isSome → (stored q jd).isSome →
    w.ResolvesTo key p id → w.ResolvesTo key q jd → p = q ∧ id = jd

/-- The store of the operations holds the values of the rows. -/
abbrev ServesStore (w : World) : Prop :=
  w.Serves (fun value => value) fun p id => w.store.lookup (p, id)

/-! ## The store of the operations -/

/-- An identifier answers for one row. -/
theorem ResolvesTo.key_eq {key' : PrimaryKey} (h : w.ResolvesTo key p id)
    (h' : w.ResolvesTo key' p id) : key = key' := by
  obtain ⟨raw, hraw, hkey⟩ := h.primaryKey
  obtain ⟨raw', hraw', hkey'⟩ := h'.primaryKey
  obtain rfl : raw = raw' := Option.some.inj (hraw.symm.trans hraw')
  exact Except.ok.inj (hkey.symm.trans hkey')

/-- An entry of the store is that of a row. -/
structure EntryOf (w : World) (key : PrimaryKey) (p : PartitionId) (id : PrimaryId)
    (value : SplittingValues) : Prop where
  known : ∃ own, w.table.primaryIds.lookup key = some own ∧ Idx.idx id = Idx.idx own
  held : ∃ pkey, (w.row key).target.held = some (pkey, value) ∧ w.locate pkey = some p
  resolves : w.ResolvesTo key p id

omit [TimeuuidOrd] [DecimalNormalizer] in
/-- What a row holds is what the shelf has at its index. -/
theorem held_row {own : PrimaryId} (hown : w.table.primaryIds.lookup key = some own) :
    (w.row key).target.held = w.held (Idx.idx own) :=
  congrArg (fun row => row.target.held) (Table.Consistent.rows_eq hown)

/-- Every entry of the store is that of a row. -/
theorem Consistent.exists_entryOf (h : w.Consistent) (hstores : w.StoresKeys)
    (hvalue : w.store.lookup (p, id) = some value) : ∃ key, w.EntryOf key p id value := by
  have htracks : w.table.index.Tracks w.store w.held w.table.primaryKeys.size := h.index
  obtain ⟨hplace, hepoch⟩ := (htracks.data.holds p id value).mp hvalue
  obtain ⟨pkey, hheld, hp⟩ := Shelf.place_eq_some_iff.mp hplace
  obtain ⟨key, own, hown, hidx⟩ := Table.Consistent.exists_key h hheld
  have hroom : Idx.idx id < w.table.index.valuesTimestamps.size := by
    rw [← hidx]
    exact (Table.Consistent.hasRoom h hown).valuesTimestamps
  have hvalid := (Table.isValidPrimaryId_iff (p := p) hroom).mpr
    ⟨htracks.data.indexId_eq hp, hepoch.symm⟩
  refine ⟨key, ⟨own, hown, hidx.symm⟩, ⟨pkey, ?_, hp⟩, ?_⟩
  · rw [held_row hown, hidx]
    exact hheld
  · exact resolvesTo_of_valid hstores hown hidx.symm hvalid

omit [TimeuuidOrd] [DecimalNormalizer] in
/-- A row that holds a value has an entry in the store. -/
theorem Consistent.exists_lookup (h : w.Consistent)
    (hheld : (w.row key).target.held = some (pkey, value)) :
    ∃ p id, w.locate pkey = some p ∧ w.store.lookup (p, id) = some value ∧
      ∃ own, w.table.primaryIds.lookup key = some own ∧ Idx.idx id = Idx.idx own := by
  have htracks : w.table.index.Tracks w.store w.held w.table.primaryKeys.size := h.index
  cases hown : w.table.primaryIds.lookup key with
  | none =>
    have hfresh : w.row key = .fresh := Table.Consistent.rows_eq_fresh hown
    rw [hfresh] at hheld
    cases hheld
  | some own =>
    rw [held_row hown] at hheld
    obtain ⟨p, hp⟩ := htracks.data.exists_locate hheld
    have hlt : Idx.idx own < PrimaryId.reserved :=
      (htracks.data.lt_size hheld).trans_le htracks.data.size_le
    exact ⟨p, _, hp, htracks.data.holds.lookup_mk' (Shelf.place_eq_some hheld hp) hlt, own, rfl,
      PrimaryId.idx_mk' hlt _⟩

/-- The store of the operations serves the rows. -/
theorem Consistent.serves_store (h : w.Consistent) (hstores : w.StoresKeys) :
    w.ServesStore := by
  constructor
  case sound =>
    intro p id value hvalue
    obtain ⟨key, hentry⟩ := h.exists_entryOf hstores hvalue
    obtain ⟨pkey, hheld, hp⟩ := hentry.held
    exact ⟨key, pkey, hheld, hp, hentry.resolves⟩
  case complete =>
    intro key pkey value hheld
    obtain ⟨p, id, hp, hvalue, own, hown, hidx⟩ := h.exists_lookup hheld
    obtain ⟨key', hentry⟩ := h.exists_entryOf hstores hvalue
    obtain ⟨own', hown', hidx'⟩ := hentry.known
    obtain rfl := Table.Consistent.ids_inj h key key' own own' hown hown' (hidx.symm.trans hidx')
    exact ⟨p, id, hp, hvalue, hentry.resolves⟩
  case unique =>
    intro key p id q jd hp hq hkey hkey'
    obtain ⟨value, hvalue⟩ := Option.isSome_iff_exists.mp hp
    obtain ⟨value', hvalue'⟩ := Option.isSome_iff_exists.mp hq
    obtain ⟨k, hk⟩ := h.exists_entryOf hstores hvalue
    obtain ⟨k', hk'⟩ := h.exists_entryOf hstores hvalue'
    obtain rfl := hk.resolves.key_eq hkey
    obtain rfl := hk'.resolves.key_eq hkey'
    obtain ⟨own, hown, hidx⟩ := hk.known
    obtain ⟨own', hown', hidx'⟩ := hk'.known
    obtain rfl : own = own' := Option.some.inj (hown.symm.trans hown')
    exact (World.Consistent.agrees h).unique p q id jd value value' hvalue hvalue' (hidx.trans hidx'.symm)

/-! ## Values of one kind -/

section Kind

variable {α : Type} {wrap : α → SplittingValues} {stored : PartitionId → PrimaryId → Option α}

/-- An index of values that the store has is sound. -/
theorem Serves.sound_of_le (h : w.ServesStore)
    (hstored : ∀ p id a, stored p id = some a → w.store.lookup (p, id) = some (wrap a)) :
    w.Sound wrap stored := fun p id a ha => h.sound p id (wrap a) (hstored p id a ha)

/-- An index of all values of a kind that the store has serves these values. -/
theorem Serves.of_iff (h : w.ServesStore)
    (hstored : ∀ p id a, stored p id = some a ↔ w.store.lookup (p, id) = some (wrap a)) :
    w.Serves wrap stored := by
  have hsome : ∀ p id, (stored p id).isSome → (w.store.lookup (p, id)).isSome := by
    intro p id hp
    obtain ⟨a, ha⟩ := Option.isSome_iff_exists.mp hp
    exact Option.isSome_iff_exists.mpr ⟨wrap a, (hstored p id a).mp ha⟩
  constructor
  case sound => exact h.sound_of_le fun p id a => (hstored p id a).mp
  case complete =>
    intro key pkey a hheld
    obtain ⟨p, id, hp, hvalue, hkey⟩ := h.complete key pkey (wrap a) hheld
    exact ⟨p, id, hp, (hstored p id a).mpr hvalue, hkey⟩
  case unique =>
    exact fun key p id q jd hp hq => h.unique key p id q jd (hsome p id hp) (hsome q jd hq)

/-- What is stored for a key is what its row holds. -/
theorem Serves.storedFor_iff (h : w.Serves wrap stored) (a : α) :
    w.StoredFor stored key a ↔
      (w.row key).target.held.map Prod.snd = some (wrap a) := by
  rw [Option.map_eq_some_iff]
  constructor
  · rintro ⟨p, id, ha, hkey⟩
    obtain ⟨key', pkey, hheld, -, hkey'⟩ := h.sound p id a ha
    obtain rfl := hkey.key_eq hkey'
    exact ⟨_, hheld, rfl⟩
  · rintro ⟨⟨pkey, value⟩, hheld, rfl⟩
    obtain ⟨p, id, -, ha, hkey⟩ := h.complete key pkey a hheld
    exact ⟨p, id, ha, hkey⟩

end Kind

end

end World

/-! ## The vectors of the messages -/

namespace Vectors

/-- Every vector of the store is there. -/
def Covers (vectors : Vectors) (store : Store) : Prop :=
  ∀ key v, store.lookup key = some (.vector v) → vectors.lookup key = some v

variable {vectors : Vectors} {store start : Store} {op : Operation}

theorem covers_empty (vectors : Vectors) : Covers vectors ∅ := fun _ _ h => by
  rw [AList.lookup_empty] at h
  cases h

/-- The message of an accepted operation keeps the vectors of the store. -/
theorem Covers.operation (h : Covers vectors store) (hin : InStore vectors store)
    (haccepts : Store.Accepts start store op) :
    Covers (replay vectors (VsIndexModify.ofOperation op).toList) (store.apply op) := by
  have herase : ∀ p id, Covers (vectors.erase (p, id)) (store.erase (p, id)) := by
    intro p id key v
    rw [FiniteMap.lookup_erase_eq, FiniteMap.lookup_erase_eq]
    split
    · exact fun hv => by cases hv
    · exact h key v
  cases op with
  | addVector id p v isUpdate =>
    intro key w hw
    simp only [Store.apply, FiniteMap.lookup_insert_eq] at hw
    change (AList.insert (p, id) v vectors).lookup key = some w
    rw [FiniteMap.lookup_insert_eq]
    split
    · next hkey =>
      rw [if_pos hkey, Option.some.injEq, SplittingValues.vector.injEq] at hw
      rw [hw]
    · next hkey =>
      rw [if_neg hkey] at hw
      exact h key w hw
  | addDocument id p document isUpdate =>
    intro key w hw
    simp only [Store.apply, FiniteMap.lookup_insert_eq] at hw
    split at hw
    · cases hw
    · exact h key w hw
  | removeBeforeAddValue id p => exact herase p id
  | removeValue id p => exact herase p id
  | removePartition p =>
    have hadmits : vectors.Admits (.removePartition p) := fun id =>
      hin.eq_none (Store.count_eq_zero_iff.mp haccepts.2 id)
    rw [Store.apply_removePartition_of_count haccepts.2]
    change Covers (vectors.apply (.removePartition p)) store
    rw [apply_removePartition hadmits]
    exact h

/-- The messages of accepted operations keep the vectors of the store. -/
theorem Covers.operations (h : Covers vectors store) (hin : InStore vectors store)
    {operations : List Operation} (haccepts : Store.AcceptsAll start store operations) :
    Covers (vectors.replay (processOperations operations)) (store.replay operations) := by
  induction operations generalizing vectors store with
  | nil => exact h
  | cons operation operations ih =>
    obtain ⟨hfirst, hrest⟩ := haccepts
    rw [processOperations_cons, replay, Machine.run_append]
    exact ih (h.operation hin hfirst) (hin.operation hfirst).2 hrest

end Vectors

namespace World

variable [DecimalNormalizer] {w : World}

/-- The messages of a run keep the vectors of the store. -/
theorem Consistent.covers (hw : w.Consistent) (calls : List Call) {vectors : Vectors}
    (h : vectors.Covers w.store) (hin : vectors.InStore w.store) :
    (vectors.replay (w.messages calls)).Covers (Machine.run step w calls).store := by
  induction calls generalizing w vectors with
  | nil => exact h
  | cons call calls ih =>
    have haccepts := step_accepts hw call
    rw [World.messages, Vectors.replay, Machine.run_append]
    exact ih (step_consistent hw call) (h.operations hin haccepts)
      (hin.operations haccepts).2

omit [DecimalNormalizer] in
theorem mem_rowsOf {kind : SplittingValues → Bool} {key : PrimaryKey} :
    key ∈ w.rowsOf kind ↔
      ∃ pkey value, (w.row key).target.held = some (pkey, value) ∧ kind value = true := by
  unfold rowsOf
  rw [List.mem_filter, Option.any_eq_true]
  constructor
  · rintro ⟨-, ⟨pkey, value⟩, hheld, hkind⟩
    exact ⟨pkey, value, hheld, hkind⟩
  · rintro ⟨pkey, value, hheld, hkind⟩
    refine ⟨?_, (pkey, value), hheld, hkind⟩
    cases hown : w.table.primaryIds.lookup key with
    | some own => exact FiniteMap.mem_keys_iff.mpr ⟨own, hown⟩
    | none =>
      have hfresh : w.row key = .fresh := Table.Consistent.rows_eq_fresh hown
      rw [hfresh] at hheld
      cases hheld

omit [DecimalNormalizer] in
/-- Entries that are matched one to one with the rows of a kind are as many as these rows. -/
theorem card_eq_length_rowsOf {ε : Type} {entries : Finset ε} {kind : SplittingValues → Bool}
    (r : ε → PrimaryKey → Prop) (hrow : ∀ e ∈ entries, ∃ key ∈ w.rowsOf kind, r e key)
    (hentry : ∀ key ∈ w.rowsOf kind, ∃ e ∈ entries, r e key)
    (hentries : ∀ key, ∀ e ∈ entries, ∀ e' ∈ entries, r e key → r e' key → e = e')
    (hrows : ∀ e key key', r e key → r e key' → key = key') :
    entries.card = (w.rowsOf kind).length := by
  have hnodup : (w.rowsOf kind).Nodup := w.table.primaryIds.keys_nodup.filter _
  rw [← List.toFinset_card_of_nodup hnodup]
  refine le_antisymm (Finset.card_le_card_of_forall_subsingleton r (fun e he => ?_)
    fun key _ => ?_) (Finset.card_le_card_of_forall_subsingleton' r (fun key hkey => ?_)
      fun e _ => ?_)
  · obtain ⟨key, hkey, hr⟩ := hrow e he
    exact ⟨key, List.mem_toFinset.mpr hkey, hr⟩
  · rintro e ⟨he, hr⟩ e' ⟨he', hr'⟩
    exact hentries key e he e' he' hr hr'
  · exact hentry key (List.mem_toFinset.mp hkey)
  · rintro key ⟨-, hr⟩ key' ⟨-, hr'⟩
    exact hrows e key key' hr hr'

/-- As many values of a kind are stored as there are rows that hold one. -/
theorem Serves.length_keys [TimeuuidOrd] {α : Type} {wrap : α → SplittingValues}
    {kind : SplittingValues → Bool} (hkind : ∀ value, kind value = true ↔ ∃ a, wrap a = value)
    {entries : AList fun _ : PartitionId × PrimaryId => α}
    (h : w.Serves wrap fun p id => entries.lookup (p, id)) :
    entries.keys.length = (w.rowsOf kind).length := by
  have hmem : ∀ entry ∈ entries.keys.toFinset, (entries.lookup entry).isSome := fun entry he =>
    Option.isSome_iff_exists.mpr (FiniteMap.mem_keys_iff.mp (List.mem_toFinset.mp he))
  rw [← List.toFinset_card_of_nodup entries.keys_nodup]
  refine card_eq_length_rowsOf (fun entry key => w.ResolvesTo key entry.1 entry.2) ?_ ?_ ?_
    fun entry key key' hkey hkey' => hkey.key_eq hkey'
  · rintro ⟨p, id⟩ he
    obtain ⟨a, ha⟩ := Option.isSome_iff_exists.mp (hmem _ he)
    obtain ⟨key, pkey, hheld, -, hkey⟩ := h.sound p id a ha
    exact ⟨key, mem_rowsOf.mpr ⟨pkey, _, hheld, (hkind _).mpr ⟨a, rfl⟩⟩, hkey⟩
  · intro key hkey
    obtain ⟨pkey, value, hheld, hvalue⟩ := mem_rowsOf.mp hkey
    obtain ⟨a, rfl⟩ := (hkind value).mp hvalue
    obtain ⟨p, id, -, ha, hresolves⟩ := h.complete key pkey a hheld
    exact ⟨(p, id), List.mem_toFinset.mpr (FiniteMap.mem_keys_iff.mpr ⟨a, ha⟩), hresolves⟩
  · rintro key ⟨p, id⟩ he ⟨q, jd⟩ he' hkey hkey'
    obtain ⟨rfl, rfl⟩ := h.unique key p id q jd (hmem _ he) (hmem _ he') hkey hkey'
    rfl

omit [DecimalNormalizer] in
theorem isVector_iff (value : SplittingValues) : value.isVector = true ↔ ∃ v, .vector v = value := by
  cases value with
  | vector v => exact ⟨fun _ => ⟨v, rfl⟩, fun _ => rfl⟩
  | document d =>
    refine ⟨fun h => ?_, fun h => ?_⟩
    · cases h
    · obtain ⟨_, h⟩ := h
      cases h

/-- All of them belong to the index of the table. -/
theorem Serves.count_eq [TimeuuidOrd] (hw : w.Consistent) {vectors : Vectors}
    (h : w.Serves .vector fun p id => vectors.lookup (p, id)) :
    vectors.count w.table.index.indexId = (w.rowsOf SplittingValues.isVector).length := by
  rw [← h.length_keys isVector_iff]
  refine List.countP_eq_length.mpr ?_
  rintro ⟨p, id⟩ hentry
  obtain ⟨v, hv⟩ := FiniteMap.mem_keys_iff.mp hentry
  obtain ⟨key, pkey, -, hp, -⟩ := h.sound p id v hv
  have htracks : w.table.index.Tracks w.store w.held w.table.primaryKeys.size := hw.index
  exact decide_eq_true (htracks.data.indexId_eq hp)

variable {table : Table}

/-- The vectors that all messages of a run lead to, in order. -/
def vectorsOf (table : Table) (calls : List Call) : Vectors :=
  Vectors.replay ∅ ((init table).messages calls)

/-- They are the vectors of the store. -/
theorem lookup_vectorsOf (hnew : table.IsNew) (calls : List Call) (p : PartitionId)
    (id : PrimaryId) (v : Vector) : (vectorsOf table calls).lookup (p, id) = some v ↔
      (Machine.run step (init table) calls).store.lookup (p, id) = some (.vector v) := by
  have hw := consistent_init hnew
  exact ⟨(hw.messages calls Vectors.inStore_empty).2 (p, id) v,
    hw.covers calls (Vectors.covers_empty ∅) Vectors.inStore_empty (p, id) v⟩

end World

end VectorStore
