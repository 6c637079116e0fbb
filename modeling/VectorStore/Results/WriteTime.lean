import VectorStore.Read.ParseValues
import VectorStore.Rows.Global

/-!
# Write times

The database orders the writes of a cell by their write times, numbers of microseconds.  A
`Timestamp` keeps this order up to the greatest number of microseconds it can hold; write times
from there on become one timestamp, and the write that is delivered first stays.
-/

namespace VectorStore

/-! ## Deliveries -/

/-- The upsert of a row that the full scan or the consumer of an event read.  The columns after the
first pair and the default timestamp are arbitrary. -/
structure Delivery [Driver] where
  indexKey : IndexKey
  primaryKey : PrimaryKey
  target : Option DbValue
  writetime : Int64
  columns : List (Option DbValue)
  defaultTimestamp : Option Timestamp
  targetColumnsLen : ℕ+
  kind : IndexKind
  alternatorDecodeTypes : List (Option NativeType)
  values : NonemptyBox (Timestamped DbIndexedValue)
  /-- The values are those of the columns. -/
  parsed : parseValues (target :: some (.value (.bigInt writetime)) :: columns) defaultTimestamp
    targetColumnsLen kind alternatorDecodeTypes = .ok values

namespace Delivery

variable [Driver]

/-- The call that a delivery makes. -/
def call (delivery : Delivery) : Call :=
  .upsert delivery.indexKey delivery.primaryKey delivery.values

/-- What an index stores of the target of a delivery. -/
def content (delivery : Delivery) : Option SplittingValues :=
  (columnContent delivery.kind delivery.targetColumnsLen delivery.alternatorDecodeTypes 0
    delivery.target).bind DbIndexedValue.indexed

/-- The timestamp of a delivery. -/
def stamp (delivery : Delivery) : Timestamp := .fromMicros delivery.writetime.toUInt64.toNat

/-- A delivery writes the target with its timestamp. -/
theorem target_call (delivery : Delivery) :
    delivery.call.target = ⟨delivery.stamp, delivery.content⟩ := by
  have hparsed := parseValues_eq_ok delivery.parsed
  unfold chunks at hparsed
  rw [List.zipIdx_cons] at hparsed
  obtain ⟨hfirst, -⟩ := List.forall₂_cons.mp hparsed
  obtain ⟨hvalue, -, hstamp⟩ := parseChunk_eq_ok hfirst
  refine Stamped.ext (Except.ok.inj hstamp).symm ?_
  change delivery.values.first.value.bind DbIndexedValue.indexed = delivery.content
  rw [hvalue]
  rfl

end Delivery

/-! ## The order of write times -/

/-- Below the greatest number of microseconds, the timestamps of write times that are not negative
are ordered as the write times are. -/
theorem Delivery.stamp_lt_iff [Driver] {a b : Delivery} (hnonneg : 0 ≤ a.writetime)
    (hlt : a.writetime < b.writetime) : a.stamp < b.stamp ↔ a.writetime.toInt < maxMicros := by
  have hb : 0 ≤ b.writetime := Int64.le_trans hnonneg (Int64.le_of_lt hlt)
  unfold stamp
  rw [Timestamp.fromMicros_lt_fromMicros, Int64.toNat_toUInt64_of_le hnonneg,
    Int64.toNat_toUInt64_of_le hb]
  rw [Int64.lt_iff_toInt_lt] at hlt
  rw [Int64.le_iff_toInt_le] at hnonneg
  have hzero : (0 : Int64).toInt = 0 := rfl
  unfold Int64.toNatClampNeg
  omega

/-- From the greatest number of microseconds on there is one timestamp. -/
theorem Delivery.val_stamp_of_le [Driver] {a : Delivery} (h : maxMicros ≤ a.writetime.toInt) :
    a.stamp.val = maxMicros * 10 := by
  have hnonneg : 0 ≤ a.writetime := by
    rw [Int64.le_iff_toInt_le]
    exact (Int.natCast_nonneg maxMicros).trans h
  unfold stamp Timestamp.fromMicros
  rw [Int64.toNat_toUInt64_of_le hnonneg]
  unfold Int64.toNatClampNeg
  dsimp only
  split <;> omega

/-! ## Two writes -/

namespace World

variable [DecimalNormalizer] [Driver]

/-- Two writes of the target of a row of a global index, with write times that are not negative,
delivered in any order and any number of times among calls on other rows.  When the earlier write
time is below the greatest number of microseconds, the row ends with the later write; otherwise
the two have one timestamp and the row keeps what was delivered first. -/
theorem newer_write_wins {table : Table} (hnew : table.IsNew)
    (hglobal : table.schema.partitionColumns = none) {key : PrimaryKey} {a b : Delivery}
    (hnonneg : 0 ≤ a.writetime) (hlt : a.writetime < b.writetime) {calls : List Call}
    (ha : a.call ∈ (init table).eventsOf key calls) (hb : b.call ∈ (init table).eventsOf key calls)
    (hall : ∀ event ∈ (init table).eventsOf key calls, event = a.call ∨ event = b.call)
    (hok : Machine.Along step (SucceedsAt key) (init table) calls) :
    let row := (Machine.run step (init table) calls).row key
    (a.writetime.toInt < maxMicros → row.target.held.map Prod.snd = b.content) ∧
      (maxMicros ≤ a.writetime.toInt → ∀ first ∈ [a, b],
        ((init table).eventsOf key calls).head? = some first.call →
          row.target.held.map Prod.snd = first.content) := by
  have hrun := value_run_of_global (consistent_init hnew) hglobal hok
  rw [row_init hnew key] at hrun
  have hvalue : ((Machine.run step (init table) calls).row key).target.held.map Prod.snd =
      ((Target.value .fresh).absorbAll
        (((init table).eventsOf key calls).map Call.target)).content :=
    congrArg Stamped.content hrun
  dsimp only
  rw [hvalue]
  constructor
  · intro hbelow
    have hstamps : a.stamp < b.stamp := (Delivery.stamp_lt_iff hnonneg hlt).mpr hbelow
    have hstamp_le : ∀ write ∈ ((init table).eventsOf key calls).map Call.target,
        write = b.call.target ∨ write.stamp < b.call.target.stamp := by
      intro write hwrite
      obtain ⟨event, hevent, rfl⟩ := List.mem_map.mp hwrite
      rcases hall event hevent with rfl | rfl
      · right
        rw [a.target_call, b.target_call]
        exact hstamps
      · exact Or.inl rfl
    have hlatest : Stamped.IsLatest b.call.target
        (((init table).eventsOf key calls).map Call.target) :=
      ⟨List.mem_map_of_mem hb, fun write hwrite =>
        (hstamp_le write hwrite).elim (fun heq => heq ▸ le_rfl) le_of_lt⟩
    rw [Stamped.absorbAll_eq_of_isLatest hlatest, b.target_call]
    · rw [b.target_call]
      exact (Timestamp.min_le a.stamp).trans_lt hstamps
    · exact fun write hwrite heq => (hstamp_le write hwrite).resolve_right heq.not_lt
  · intro hclamp first hfirst hhead
    have hclamps : ∀ delivery ∈ [a, b], delivery.stamp.val = maxMicros * 10 := by
      intro delivery hdelivery
      refine Delivery.val_stamp_of_le ?_
      rcases List.mem_pair.mp hdelivery with rfl | rfl
      · exact hclamp
      · exact hclamp.trans (Int64.lt_iff_toInt_lt.mp hlt).le
    have hstamp : ∀ event ∈ (init table).eventsOf key calls,
        event.target.stamp = first.stamp := by
      intro event hevent
      refine Timestamp.ext ((?_ : event.target.stamp.val = _).trans (hclamps first hfirst).symm)
      rcases hall event hevent with rfl | rfl
      · rw [a.target_call]
        exact hclamps a (by simp)
      · rw [b.target_call]
        exact hclamps b (by simp)
    obtain ⟨rest, hrest⟩ := List.head?_eq_some_iff.mp hhead
    have hpos : Timestamp.min < first.stamp := by
      rw [Timestamp.lt_iff, hclamps first hfirst]
      decide
    rw [hrest, List.map_cons, Stamped.absorbAll_cons, first.target_call,
      Stamped.absorb_of_lt hpos, Stamped.absorbAll_eq_self]
    intro write hwrite
    obtain ⟨event, hevent, rfl⟩ := List.mem_map.mp hwrite
    rw [hrest] at hstamp
    exact (hstamp event (List.mem_cons_of_mem _ hevent)).le

end World

/-! ## At the greatest number of microseconds -/

namespace Sample

attribute [local instance] driver

/-- What the full scan reads of a row whose vector and filtering column were written at one
time. -/
def delivery (bits : UInt32) (writetime : Int64) : Delivery where
  indexKey := .new "ks" "idx"
  primaryKey := key 0
  target := some (.vector ⟨[bits]⟩)
  writetime := writetime
  columns := [some (.value (.int 0)), some (.value (.bigInt writetime))]
  defaultTimestamp := none
  targetColumnsLen := Nat.toPNat' 1
  kind := .vs
  alternatorDecodeTypes := [none]
  values := ⟨.new (.fromMicros writetime.toUInt64.toNat) (some (.vector ⟨[bits]⟩)),
    [.new (.fromMicros writetime.toUInt64.toNat) (some (.filtering (.int 0)))]⟩
  parsed := rfl

end Sample

attribute [local instance] Sample.decimals Sample.driver

theorem newer_write_wins_reversed :
    let calls := [(Sample.delivery 2 9).call, (Sample.delivery 1 5).call]
    let row := (Machine.run World.step (World.init Sample.globalTable) calls).row (Sample.key 0)
    ((Sample.delivery 1 5).writetime.toInt < maxMicros →
        row.target.held.map Prod.snd = (Sample.delivery 2 9).content) ∧
      (maxMicros ≤ (Sample.delivery 1 5).writetime.toInt →
        ∀ first ∈ [Sample.delivery 1 5, Sample.delivery 2 9],
          ((World.init Sample.globalTable).eventsOf (Sample.key 0) calls).head? =
            some first.call → row.target.held.map Prod.snd = first.content) :=
  World.newer_write_wins Sample.isNew_globalTable (by decide +kernel) (by decide) (by decide)
    (by decide +kernel) (by decide +kernel) (by decide +kernel) (by decide +kernel)

/-- A newer write does not always win: at the greatest number of microseconds it ties. -/
theorem newer_write_not_always_wins :
    ¬∀ (a b : Delivery) (key : PrimaryKey), a.writetime < b.writetime →
      Machine.Along World.step World.Succeeds (World.init Sample.globalTable) [a.call, b.call] →
      (World.init Sample.globalTable).eventsOf key [a.call, b.call] = [a.call, b.call] →
      ((Machine.run World.step (World.init Sample.globalTable)
        [a.call, b.call]).row key).target.held.map Prod.snd = b.content := by
  intro h
  have hlast := h (Sample.delivery 1 922337203685477580) (Sample.delivery 2 922337203685477581)
    (Sample.key 0) (by decide) (by decide +kernel) (by decide +kernel)
  revert hlast
  decide +kernel

end VectorStore
