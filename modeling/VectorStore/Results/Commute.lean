import VectorStore.Rows.Global

/-!
# Calls on different rows

Two calls on different rows should lead to the same rows in either order.  A row learns one thing
from the others, whether the partition it comes back to exists, so the order matters exactly when
one call brings a row back, with the timestamp it had, to a partition that the other call opens or
closes.
-/

namespace VectorStore

/-! ## What one row does to the partitions -/

namespace Target

variable {present present' : PartitionKey → Bool} {dest : Option PartitionKey}
  {timestamp : Timestamp} {value : Option SplittingValues} {target : Target} {pkey : PartitionKey}

/-- The target comes back to a partition with the timestamp it had. -/
def ComesBack (dest : Option PartitionKey) (timestamp : Timestamp)
    (value : Option SplittingValues) (target : Target) (pkey : PartitionKey) : Prop :=
  target.held = none ∧ target.stamp = timestamp ∧ value.isSome ∧ dest = some pkey

/-- The target enters a partition it was not in, unless it is newer. -/
def Enters (dest : Option PartitionKey) (timestamp : Timestamp) (value : Option SplittingValues)
    (target : Target) (pkey : PartitionKey) : Prop :=
  target.stamp ≤ timestamp ∧ value.isSome ∧ dest = some pkey

/-- The target leaves its partition: for another one or none, or because its value is removed. -/
def Leaves (dest : Option PartitionKey) (timestamp : Timestamp) (value : Option SplittingValues)
    (target : Target) (pkey : PartitionKey) : Prop :=
  target.key = some pkey ∧
    (dest ≠ some pkey ∧ target.stamp ≤ timestamp ∨
      dest = some pkey ∧ target.stamp < timestamp ∧ value = none)

/-- The partitions matter only to a target that comes back. -/
theorem process_congr
    (h : ∀ pkey, target.ComesBack dest timestamp value pkey → present pkey = present' pkey) :
    target.process present dest timestamp value = target.process present' dest timestamp value := by
  rcases lt_trichotomy target.stamp timestamp with hlt | heq | hgt
  · rw [process_of_lt hlt, process_of_lt hlt]
  · rw [process_of_eq heq, process_of_eq heq]
    unfold Target.key
    cases hheld : target.held with
    | some entry => cases dest <;> rfl
    | none =>
      cases dest with
      | none => rfl
      | some pkey =>
        cases value with
        | none =>
          -- Without a value the target is the same, admitted or not.
          have hsame : target = ⟨timestamp, none⟩ := Target.ext heq hheld
          rw [hsame]
          simp
        | some value =>
          have hpresent := h pkey ⟨hheld, heq, rfl, rfl⟩
          simp [changesPartition, hpresent]
  · rw [process_of_gt hgt, process_of_gt hgt]

/-- A target that comes back to a partition is held if and only if the partition does not exist. -/
theorem held_process_of_comesBack (h : target.ComesBack dest timestamp value pkey) :
    (target.process present dest timestamp value).held.isSome = !present pkey := by
  obtain ⟨hheld, hstamp, hvalue, rfl⟩ := h
  obtain ⟨v, rfl⟩ := Option.isSome_iff_exists.mp hvalue
  rw [process_of_eq hstamp]
  unfold Target.key
  cases hpresent : present pkey <;> simp [changesPartition, hheld, hpresent]

/-- Entering a partition that does not exist. -/
theorem key_process_of_absent (hkey : target.key ≠ some pkey) (habsent : present pkey = false) :
    (target.process present dest timestamp value).key = some pkey ↔
      target.Enters dest timestamp value pkey := by
  unfold Enters
  rcases lt_trichotomy target.stamp timestamp with hlt | heq | hgt
  · unfold Target.key
    rw [held_process_of_lt hlt]
    cases dest <;> cases value <;> simp [hlt.le]
  · have hchanges : dest = some pkey → changesPartition present target.key dest = true := by
      rintro rfl
      cases htarget : target.key with
      | none => simp [changesPartition, habsent]
      | some cur => simpa [changesPartition, htarget] using hkey
    rw [process_of_eq heq]
    by_cases hdest : dest = some pkey
    · rw [if_pos (hchanges hdest), hdest]
      cases value <;> simp [Target.key, heq.le]
    · refine iff_of_false (fun hnew => ?_) fun henters => hdest henters.2.2
      split at hnew
      · unfold Target.key at hnew
        cases dest with
        | none => simp at hnew
        | some new => cases value <;> simp_all
      · exact hkey hnew
  · rw [process_of_gt hgt]
    exact iff_of_false hkey fun henters => hgt.not_ge henters.1

/-- Leaving a partition. -/
theorem key_process_of_held (hkey : target.key = some pkey) :
    (target.process present dest timestamp value).key ≠ some pkey ↔
      target.Leaves dest timestamp value pkey := by
  unfold Leaves
  rw [and_iff_right hkey]
  rcases lt_trichotomy target.stamp timestamp with hlt | heq | hgt
  · unfold Target.key
    rw [held_process_of_lt hlt]
    cases dest with
    | none => simp [hlt.le]
    | some new => cases value <;> simp [hlt, hlt.le, em']
  · rw [process_of_eq heq, hkey]
    by_cases hdest : dest = some pkey
    · have hstay : changesPartition present (some pkey) dest = false := by
        simp [changesPartition, hdest]
      rw [hstay, if_neg Bool.false_ne_true, hkey]
      simp [hdest, heq]
    · have hchanges : changesPartition present (some pkey) dest = true := by
        cases dest with
        | none => rfl
        | some new => exact decide_eq_true fun hsame => hdest (congrArg some hsame.symm)
      rw [if_pos hchanges]
      refine iff_of_true (fun hnew => ?_) (Or.inl ⟨hdest, heq.le⟩)
      unfold Target.key at hnew
      cases dest with
      | none => simp at hnew
      | some new => cases value <;> simp_all
  · rw [process_of_gt hgt]
    refine iff_of_false (not_not.mpr hkey) ?_
    rintro (⟨-, hle⟩ | ⟨-, hlt, -⟩)
    · exact hgt.not_ge hle
    · exact hgt.not_gt hlt

end Target

/-! ## Two calls -/

namespace World

/-- A live row, with all that the table and the index store of it. -/
def live (w : World) (key : PrimaryKey) : Option Row :=
  if (w.row key).target.held.isSome then some (w.row key) else none

/-- The same live rows, each with the same partition key, value, timestamps and columns. -/
def SameContent (w w' : World) : Prop := ∀ key, w.live key = w'.live key

/-- The call brings its row back to a partition with the timestamp it had. -/
def ComesBack (w : World) (key : PrimaryKey) (call : Call) (pkey : PartitionKey) : Prop :=
  (w.row key).target.ComesBack (w.due key call) call.target.stamp call.target.content pkey

/-- The call puts the first row into a partition. -/
def Opens (w : World) (key : PrimaryKey) (call : Call) (pkey : PartitionKey) : Prop :=
  w.present pkey = false ∧
    (w.row key).target.Enters (w.due key call) call.target.stamp call.target.content pkey

/-- The call takes the last row out of a partition of a local index. -/
def Closes (w : World) (key : PrimaryKey) (call : Call) (pkey : PartitionKey) : Prop :=
  w.schema.partitionColumns.isSome ∧
    (w.row key).target.Leaves (w.due key call) call.target.stamp call.target.content pkey ∧
    ∀ key', key' ≠ key → (w.row key').target.key ≠ some pkey

/-- One call brings its row back to a partition that the other one opens or closes. -/
def Interferes (w : World) (key : PrimaryKey) (call : Call) (key' : PrimaryKey) (call' : Call) :
    Prop :=
  ∃ pkey, w.ComesBack key call pkey ∧ (w.Opens key' call' pkey ∨ w.Closes key' call' pkey)

variable [DecimalNormalizer] {w : World} {a b : Call} {k k' : PrimaryKey}

/-- A call changes which partitions exist by opening one or by closing one. -/
theorem present_step_ne_iff (hw : w.Consistent) (hok : w.Succeeds a) (hk : w.keyOf a = .ok k)
    (pkey : PartitionKey) :
    w.present pkey ≠ (w.step a).present pkey ↔ w.Opens k a pkey ∨ w.Closes k a pkey := by
  have hschema := step_schema hw a
  by_cases hkind : w.schema.partitionColumns.isSome
  · -- In a local index a partition exists when some row is held in it.
    have hbefore := hw.present_iff hkind pkey
    have hafter := (step_consistent hw a).present_iff (by rwa [hschema]) pkey
    have hrow : ∀ key', key' ≠ k → (w.step a).row key' = w.row key' := fun key' hne =>
      step_row_of_ne hw fun heq => hne (Except.ok.inj (heq.symm.trans hk))
    have htarget := target_step hw hok hk
    by_cases hothers : ∃ key', key' ≠ k ∧ (w.row key').target.key = some pkey
    · obtain ⟨key', hne, hkey'⟩ := hothers
      have hpresent : w.present pkey = true := hbefore.mpr ⟨key', hkey'⟩
      have hpresent' : (w.step a).present pkey = true :=
        hafter.mpr ⟨key', by rw [hrow key' hne, hkey']⟩
      rw [hpresent, hpresent']
      refine iff_of_false (not_not.mpr rfl) ?_
      rintro (⟨habsent, -⟩ | ⟨-, -, honly⟩)
      · rw [hpresent] at habsent
        cases habsent
      · exact honly key' hne hkey'
    · push Not at hothers
      have hbefore' : w.present pkey = true ↔ (w.row k).target.key = some pkey := by
        refine hbefore.trans ⟨fun ⟨key', hkey'⟩ => ?_, fun hkey => ⟨k, hkey⟩⟩
        by_cases hne : key' = k
        · rwa [← hne]
        · exact absurd hkey' (hothers key' hne)
      have hafter' : (w.step a).present pkey = true ↔
          ((w.step a).row k).target.key = some pkey := by
        refine hafter.trans ⟨fun ⟨key', hkey'⟩ => ?_, fun hkey => ⟨k, hkey⟩⟩
        by_cases hne : key' = k
        · rwa [← hne]
        · rw [hrow key' hne] at hkey'
          exact absurd hkey' (hothers key' hne)
      rw [htarget] at hafter'
      by_cases hheld : (w.row k).target.key = some pkey
      · have hpresent := hbefore'.mpr hheld
        rw [hpresent, ne_comm, Ne, hafter', ← Ne, Target.key_process_of_held hheld]
        refine ⟨fun hleaves => Or.inr ⟨hkind, hleaves, hothers⟩, ?_⟩
        rintro (⟨habsent, -⟩ | ⟨-, hleaves, -⟩)
        · rw [hpresent] at habsent
          cases habsent
        · exact hleaves
      · have habsent : w.present pkey = false := Bool.eq_false_iff.mpr (mt hbefore'.mp hheld)
        rw [habsent, ne_comm, Ne, Bool.not_eq_false, hafter',
          Target.key_process_of_absent hheld habsent]
        refine ⟨fun henters => Or.inl ⟨habsent, henters⟩, ?_⟩
        rintro (⟨-, henters⟩ | ⟨-, ⟨hkey, -⟩, -⟩)
        · exact henters
        · exact absurd hkey hheld
  · have hnone : w.schema.partitionColumns = none := by simpa using hkind
    have hnone' : (w.step a).schema.partitionColumns = none := by rw [hschema, hnone]
    rw [present_of_global hnone, present_of_global hnone']
    refine iff_of_false (not_not.mpr rfl) ?_
    rintro (⟨habsent, -, -, hdue⟩ | ⟨hsome, -⟩)
    · have hpresent : w.present pkey = true := by
        unfold due Row.destination at hdue
        split at hdue
        · exact hw.present_of_held hdue
        · unfold Row.partitionKey at hdue
          rw [hnone] at hdue
          obtain rfl := Option.some.inj hdue
          rw [present_of_global hnone]
          exact decide_eq_true rfl
      rw [hpresent] at habsent
      cases habsent
    · exact hkind hsome

/-- A row after a call that comes second: the first one matters by the partitions it leaves. -/
theorem row_second (hw : w.Consistent) (hne : k ≠ k') (hk : w.keyOf a = .ok k)
    (hk' : w.keyOf b = .ok k') (hab : (w.step a).Succeeds b) :
    b.WellFormed w.schema ∧ ((w.step a).step b).row k' =
      (w.row k').call w.schema (w.step a).present b := by
  have hw' := step_consistent hw a
  have hkey : (w.step a).keyOf b = .ok k' := (step_keyOf hw a b).trans hk'
  have hwf := (step_stepped hw' (hab.reaches_of_keyOf hw' hkey)).succeeds_iff.mp hab
  have hrow : (w.step a).row k' = w.row k' :=
    step_row_of_ne hw fun heq => hne (Except.ok.inj (hk.symm.trans heq))
  rw [step_schema hw a] at hwf
  rw [step_row_of_succeeds hw' hab hkey, hrow, step_schema hw a]
  exact ⟨hwf, rfl⟩

/-- Unless the first call interferes, the second one does to its row what it does without it. -/
theorem row_second_eq (hw : w.Consistent) (hne : k ≠ k') (hk : w.keyOf a = .ok k)
    (hk' : w.keyOf b = .ok k') (ha : w.Succeeds a) (hb : w.Succeeds b)
    (hab : (w.step a).Succeeds b) (hfree : ¬w.Interferes k' b k a) :
    ((w.step a).step b).row k' = (w.step b).row k' := by
  obtain ⟨hwf, hrow⟩ := row_second hw hne hk hk' hab
  rw [hrow, step_row_of_succeeds hw hb hk', Row.call_of_wellFormed hwf,
    Row.call_of_wellFormed hwf]
  unfold Row.process
  congr 1
  refine Target.process_congr fun pkey hback => ?_
  by_contra hdiff
  exact hfree ⟨pkey, hback, (present_step_ne_iff hw ha hk pkey).mp (Ne.symm hdiff)⟩

/-- If the first call interferes, the row of the second one is live in one of the two cases. -/
theorem live_second_ne (hw : w.Consistent) (hne : k ≠ k') (hk : w.keyOf a = .ok k)
    (hk' : w.keyOf b = .ok k') (ha : w.Succeeds a) (hb : w.Succeeds b)
    (hab : (w.step a).Succeeds b) (hinter : w.Interferes k' b k a) :
    ((w.step a).step b).live k' ≠ (w.step b).live k' := by
  obtain ⟨pkey, hback, hchange⟩ := hinter
  have hdiff := (present_step_ne_iff hw ha hk pkey).mpr hchange
  obtain ⟨hwf, hrow⟩ := row_second hw hne hk hk' hab
  have hfirst : ((w.step b).row k').target.held.isSome = !w.present pkey := by
    rw [target_step hw hb hk']
    exact Target.held_process_of_comesBack hback
  have hsecond : (((w.step a).step b).row k').target.held.isSome = !(w.step a).present pkey := by
    rw [hrow, Row.call_of_wellFormed hwf]
    exact Target.held_process_of_comesBack hback
  unfold live
  rw [hfirst, hsecond]
  cases hpresent : w.present pkey <;> cases hpresent' : (w.step a).present pkey
  · rw [hpresent, hpresent'] at hdiff
    exact absurd rfl hdiff
  · simp
  · simp
  · rw [hpresent, hpresent'] at hdiff
    exact absurd rfl hdiff

/-- The second row does not see the call that comes after it. -/
theorem row_third (hw : w.Consistent) (hne : k ≠ k') (hk : w.keyOf a = .ok k) :
    ((w.step b).step a).row k' = (w.step b).row k' := by
  refine step_row_of_ne (step_consistent hw b) fun heq => hne ?_
  rw [step_keyOf hw b a] at heq
  exact Except.ok.inj (hk.symm.trans heq)

/-- Two calls on different rows lead to the same live rows in either order if and only if neither
brings its row back to a partition that the other opens or closes. -/
theorem commute_iff (hw : w.Reachable) (hk : w.keyOf a = .ok k) (hk' : w.keyOf b = .ok k')
    (hne : k ≠ k') (ha : w.Succeeds a) (hab : (w.step a).Succeeds b) (hb : w.Succeeds b)
    (hba : (w.step b).Succeeds a) :
    ((w.step a).step b).SameContent ((w.step b).step a) ↔
      ¬w.Interferes k a k' b ∧ ¬w.Interferes k' b k a := by
  have hw' := hw.consistent
  constructor
  · intro hsame
    refine ⟨fun hinter => ?_, fun hinter => ?_⟩
    · refine live_second_ne hw' hne.symm hk' hk hb ha hba hinter ?_
      rw [← hsame k]
      unfold live
      rw [row_third hw' hne.symm hk']
    · refine live_second_ne hw' hne hk hk' ha hb hab hinter ?_
      rw [hsame k']
      unfold live
      rw [row_third hw' hne hk]
  · rintro ⟨hfree, hfree'⟩ key
    have hrow : ((w.step a).step b).row key = ((w.step b).step a).row key := by
      by_cases hkey' : key = k'
      · rw [hkey', row_third hw' hne hk]
        exact row_second_eq hw' hne hk hk' ha hb hab hfree'
      by_cases hkey : key = k
      · rw [hkey, row_third hw' hne.symm hk']
        exact (row_second_eq hw' hne.symm hk' hk hb ha hba hfree).symm
      · have hother : w.keyOf a ≠ .ok key := fun heq =>
          hkey (Except.ok.inj (heq.symm.trans hk))
        have hother' : w.keyOf b ≠ .ok key := fun heq =>
          hkey' (Except.ok.inj (heq.symm.trans hk'))
        rw [step_row_of_ne (step_consistent hw' a) (by rwa [step_keyOf hw' a]),
          step_row_of_ne hw' hother, step_row_of_ne (step_consistent hw' b)
            (by rwa [step_keyOf hw' b]), step_row_of_ne hw' hother']
    unfold live
    rw [hrow]

end World

namespace Sample

/-- A row that left its partition, which closed after it. -/
def left : List Call :=
  [upsert 0 0 (some (vector 1)) 0 (some 1), upsert 0 0 (some (vector 1)) 1 none]

/-- A new row for the partition. -/
def arrives : Call := upsert 1 0 (some (vector 2)) 0 (some 1)

/-- The row that left comes back. -/
def returns : Call := upsert 0 0 (some (vector 1)) 2 (some 1)

end Sample

attribute [local instance] Sample.decimals

/-- The world that `Sample.left` leads to. -/
def Sample.leftWorld : World := Machine.run World.step (World.init columnTable) left

theorem Sample.reachable_leftWorld : leftWorld.Reachable :=
  ⟨columnTable, left, isNew_columnTable, rfl⟩

theorem commute_iff_leftWorld :
    ((Sample.leftWorld.step Sample.arrives).step Sample.returns).SameContent
        ((Sample.leftWorld.step Sample.returns).step Sample.arrives) ↔
      ¬Sample.leftWorld.Interferes (Sample.key 1) Sample.arrives (Sample.key 0) Sample.returns ∧
        ¬Sample.leftWorld.Interferes (Sample.key 0) Sample.returns (Sample.key 1)
          Sample.arrives :=
  World.commute_iff Sample.reachable_leftWorld (by decide +kernel) (by decide +kernel) (by decide)
    (by decide +kernel) (by decide +kernel) (by decide +kernel) (by decide +kernel)

/-- Not all calls on different rows commute: a row that comes back to its partition is live only
when it comes before the other row. -/
theorem calls_not_always_commute :
    ¬∀ (w : World) (a b : Call) (k k' : PrimaryKey), w.Reachable → w.keyOf a = .ok k →
      w.keyOf b = .ok k' → k ≠ k' → w.Succeeds a → (w.step a).Succeeds b → w.Succeeds b →
      (w.step b).Succeeds a →
      ((w.step a).step b).SameContent ((w.step b).step a) := by
  intro h
  have hsame := h Sample.leftWorld Sample.arrives Sample.returns (Sample.key 1) (Sample.key 0)
    Sample.reachable_leftWorld (by decide +kernel) (by decide +kernel) (by decide)
    (by decide +kernel) (by decide +kernel) (by decide +kernel) (by decide +kernel)
  have hlive := congrArg Option.isSome (hsame (Sample.key 0))
  unfold World.live at hlive
  revert hlive
  decide +kernel

end VectorStore
