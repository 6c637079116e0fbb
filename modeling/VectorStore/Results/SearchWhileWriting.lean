import VectorStore.Pipeline.Additions
import VectorStore.Results.AnswersAtRest
import VectorStore.VsIndex.Ann

/-!
# Searching while the table is written

A search is given its partition once, when it is routed, and looks at the table again for every row
that it checks and when its answer is made.  In between rows are written, partitions end, and their
identifiers are used again for other partitions.  Still every row that is reported is at that moment a
row of the partition that was asked for, with the vector that was found.
-/

namespace VectorStore

namespace Table

/-- Only an identifier with an index of a row is valid. -/
theorem lt_size_of_valid {table : Table} {p : PartitionId} {id : PrimaryId}
    (h : table.isValidPrimaryId p id = true) : Idx.idx id < table.index.valuesTimestamps.size := by
  unfold isValidPrimaryId at h
  split at h
  · cases h
  · obtain ⟨chunk, hchunk, -⟩ := (Option.any_eq_true ..).mp h
    exact ColumnVec.get_isSome_iff.mp (Option.isSome_iff_exists.mpr ⟨chunk, hchunk⟩)

/-- The key of the partition that a query asks for. -/
def queriedKey (table : Table) (restrictions : Option (List Restriction)) : Option PartitionKey :=
  match table.index.data with
  | .globalIndex => some .whole
  | .localIndex data => (restrictions.bind
      (partitionKeyFromRestrictions data.partitionKeyColumns.toList)).map Prod.fst

/-- A query goes to the partition of its key. -/
theorem locate_of_partitionId {table : Table} {indexKey : IndexKey} {restrictions : Option (List Restriction)}
    {p : PartitionId} {residual : Option (List Restriction)}
    (h : table.partitionId indexKey restrictions = some (p, residual)) :
    ∃ pkey, table.queriedKey restrictions = some pkey ∧
      table.index.data.locate table.index.indexId pkey = some p := by
  unfold partitionId at h
  split at h
  · cases h
  · unfold queriedKey
    cases hdata : table.index.data with
    | globalIndex =>
      rw [hdata] at h
      obtain ⟨rfl, -⟩ := Prod.mk.inj (Option.some.inj h)
      exact ⟨.whole, rfl, IndexData.locate_globalIndex_eq_some.mpr ⟨rfl, rfl⟩⟩
    | localIndex data =>
      rw [hdata] at h
      obtain ⟨found, hfound, hp⟩ := Option.bind_eq_some_iff.mp h
      obtain ⟨q, hq, heq⟩ := Option.map_eq_some_iff.mp hp
      obtain ⟨rfl, -⟩ := Prod.mk.inj heq
      refine ⟨found.1, ?_, hq⟩
      dsimp only
      rw [hfound, Option.map_some]

end Table

namespace Usearch

/-- The vector was in the partition at some time during the later actions. -/
def Finds (runtime : Runtime) (as as' : List Action) (a : ℕ) (id : PrimaryId) (v : Vector) : Prop :=
  ∃ as'', as'' <+: as' ∧ (Machine.run step (.init runtime) (as ++ as'')).contents (a, id) = some v

variable [DecimalNormalizer]

/-- A search in a run of the table and the actor.  It is routed after the calls `before` and the actions
`as`; its answer is made after the calls `during`, and the last of its vectors is read after the calls
`later` and the actions `as'`.  The actor lags behind the table.  The epoch of a row wraps around: no
row is bumped so often during the search, or since a vector was added that is still there. -/
structure Spans (table : Table) (runtime : Runtime) (before during later : List Call)
    (as as' : List Action) : Prop where
  enabled : Machine.Along step Enabled (.init runtime) (as ++ as')
  routed : received as <+: (World.init table).messages before
  delivered : received (as ++ as') <+: (World.init table).messages (before ++ during ++ later)
  brief : ∀ i, (Machine.run World.step (World.init table) before).bumps i (during ++ later) ≤ 65535
  recent : ∀ calls call calls' p a id v, before ++ during ++ later = calls ++ call :: calls' →
    (Machine.run World.step (World.init table) calls).AddedBy call p id v →
    Finds runtime as as' a id v →
    (Machine.run World.step (World.init table) (calls ++ [call])).bumps (Idx.idx id) calls' ≤ 65535

variable {table : Table} {runtime : Runtime} {before during later : List Call}
  {as as' : List Action} {pkey : PartitionKey} {p : PartitionId} {a : ℕ} {id : PrimaryId} {v : Vector}

namespace Spans

/-- A search after the actor has come to rest, while further calls are made. -/
theorem of_carries (h : Carries table before runtime as)
    (hshort : before.length + during.length < 2 ^ 16) :
    Spans table runtime before during [] as [] where
  enabled := by
    rw [List.append_nil]
    exact (Machine.along_and.mp h.along).1
  routed := by rw [h.received]
  delivered := by
    rw [List.append_nil, List.append_nil, h.received, World.messages_append]
    exact List.prefix_append ..
  brief i := by
    rw [List.append_nil]
    exact (World.bumps_le_length ..).trans (by omega)
  recent calls call calls' p a id v hcalls _ _ := by
    have hlength := congrArg List.length hcalls
    rw [List.append_nil, List.length_append, List.length_append, List.length_cons] at hlength
    exact (World.bumps_le_length ..).trans (by omega)

/-- The answer may as well be made earlier. -/
theorem earlier {front back : List Call} (h : Spans table runtime before (front ++ back) later as as') :
    Spans table runtime before front (back ++ later) as as' := by
  have hcalls : before ++ front ++ (back ++ later) = before ++ (front ++ back) ++ later := by
    simp only [List.append_assoc]
  obtain ⟨henabled, hrouted, hdelivered, hbrief, hrecent⟩ := h
  rw [← hcalls] at hdelivered hrecent
  refine ⟨henabled, hrouted, hdelivered, fun i => ?_, hrecent⟩
  rw [← List.append_assoc]
  exact hbrief i

/-- What is found was added by a call. -/
theorem exists_addedBy (h : Spans table runtime before during later as as')
    (ha : (Machine.run step (.init runtime) as).partitions.lookup p = some a)
    (hfinds : Finds runtime as as' a id v) :
    ∃ calls call calls', before ++ during ++ later = calls ++ call :: calls' ∧
      (Machine.run World.step (World.init table) calls).AddedBy call p id v ∧
      ends p ((World.init table).messages (calls ++ [call])) = ends p (received as) := by
  obtain ⟨as'', ⟨rest, rfl⟩, hv⟩ := hfinds
  have henabled := h.enabled
  rw [← List.append_assoc, Machine.along_append] at henabled
  obtain ⟨front, back, hreceived, hends⟩ := State.generation_of_run henabled.1 ha hv
  obtain ⟨tail, htail⟩ := h.delivered
  have hsplit : received (as ++ (as'' ++ rest)) = received (as ++ as'') ++ received rest := by
    rw [← List.append_assoc, received, List.flatMap_append]
    rfl
  rw [hsplit, hreceived, List.append_assoc, List.append_assoc, List.cons_append] at htail
  obtain ⟨calls, call, calls', hcalls, hadded, hmessages⟩ :=
    World.exists_call_of_messages htail.symm
  have hzero : ends p [.addVector p id v] = 0 := ends_eq_zero_iff.mpr (by simp)
  exact ⟨calls, call, calls', hcalls, hadded,
    by rw [hmessages, ends_append, hends, hzero, Nat.add_zero]⟩

/-- A partition that was asked for is the one that a vector found in it was added to. -/
theorem locate_eq (hnew : table.IsNew) (h : Spans table runtime before during later as as')
    {calls rest : List Call} (hcalls : calls = before ++ rest)
    (hp : (Machine.run World.step (World.init table) before).locate pkey = some p)
    (hends : ends p ((World.init table).messages calls) = ends p (received as)) :
    (Machine.run World.step (World.init table) calls).locate pkey = some p := by
  obtain ⟨behind, hbehind⟩ := h.routed
  have hzero : ends p ((Machine.run World.step (World.init table) before).messages rest) = 0 := by
    rw [hcalls, World.messages_append, ends_append, ← hbehind, ends_append] at hends
    omega
  rw [hcalls, Machine.run_append]
  exact World.locate_run (World.run_consistent (World.consistent_init hnew) before) hp
    (World.ends_messages_eq_zero_iff.mp hzero)

/-- An identifier that was found and is valid when the answer is made is that of a row of the partition
that was asked for, with the vector that was found. -/
theorem places_of_valid (hnew : table.IsNew) (h : Spans table runtime before during later as as')
    (hp : (Machine.run World.step (World.init table) before).locate pkey = some p)
    (ha : (Machine.run step (.init runtime) as).partitions.lookup p = some a)
    (hfinds : Finds runtime as as' a id v)
    (hvalid : (Machine.run World.step (World.init table)
      (before ++ during)).table.isValidPrimaryId p id = true) :
    (Machine.run World.step (World.init table) (before ++ during)).Places id pkey p (.vector v) := by
  have hcons : ∀ calls, (Machine.run World.step (World.init table) calls).Consistent :=
    World.run_consistent (World.consistent_init hnew)
  have hepoch : (Machine.run World.step (World.init table) (before ++ during)).epoch (Idx.idx id) =
      id.epoch := ((Table.isValidPrimaryId_iff (Table.lt_size_of_valid hvalid)).mp hvalid).2
  obtain ⟨calls, call, calls', hcalls, hadded, hends⟩ := h.exists_addedBy ha hfinds
  obtain ⟨pkey', hadds⟩ := hadded.exists_places (hcons calls)
  rw [show (Machine.run World.step (World.init table) calls).step call =
    Machine.run World.step (World.init table) (calls ++ [call]) by rw [Machine.run_append]; rfl] at hadds
  -- the vector was added before the answer is made, or the row would have had another epoch
  obtain ⟨rest, hrest, hcalls'⟩ : ∃ rest, before ++ during = calls ++ [call] ++ rest ∧
      calls' = rest ++ later := by
    have hboth : before ++ during ++ later = calls ++ [call] ++ calls' := by
      rw [hcalls, List.append_assoc, List.singleton_append]
    rcases List.append_eq_append_iff.mp hboth with ⟨rest, hlong, hlater⟩ | ⟨rest, hrest, hcalls'⟩
    · rcases rest.eq_nil_or_concat with rfl | ⟨front, last, rfl⟩
      · exact ⟨[], by rw [hlong, List.append_nil, List.append_nil], hlater.symm⟩
      · exfalso
        rw [List.concat_eq_append, ← List.append_assoc] at hlong
        obtain ⟨hfront, hlast⟩ := List.append_inj' hlong rfl
        obtain rfl := List.singleton_inj.mp hlast
        have hle := h.brief (Idx.idx id)
        rw [hlater, ← List.append_assoc, World.bumps_append, World.bumps_append, ← Machine.run_append]
          at hle
        have hzero : (Machine.run World.step (World.init table) (before ++ during)).bumps
            (Idx.idx id) (front ++ [call]) = 0 := by
          refine World.bumps_eq_zero_of_epoch (hcons _) ?_ ?_
          · rw [List.concat_eq_append] at hle
            omega
          · rw [← Machine.run_append, ← List.append_assoc, ← hlong, ← hadds.epoch, hepoch]
        rw [World.bumps_append, ← Machine.run_append, ← hfront, World.bumps,
          if_neg (hadded.epoch_ne (hcons calls))] at hzero
        omega
    · exact ⟨rest, hrest, hcalls'⟩
  -- and not since then
  have hle := h.recent calls call calls' p a id v hcalls hadded hfinds
  have hzero : (Machine.run World.step (World.init table) (calls ++ [call])).bumps (Idx.idx id) rest =
      0 := by
    rw [hcalls', World.bumps_append] at hle
    refine World.bumps_eq_zero_of_epoch (hcons _) (by omega) ?_
    rw [← Machine.run_append, ← hrest, hepoch, hadds.epoch]
  have hend := (hadds.run (hcons _) hzero).1
  rw [← Machine.run_append, ← hrest] at hend
  -- the partition is the one that was asked for, whether it was routed before the addition or later
  have hkey : pkey' = pkey := by
    rcases List.append_eq_append_iff.mp hrest with ⟨gap, hgap, -⟩ | ⟨gap, hgap, hduring⟩
    · exact (hcons _).index.data.key_inj hadds.locate (h.locate_eq hnew hgap hp hends)
    · rw [hduring, World.bumps_append, Nat.add_eq_zero_iff] at hzero
      have hplaces := (hadds.run (hcons _) hzero.1).1
      rw [← Machine.run_append, ← hgap] at hplaces
      exact (hcons _).index.data.key_inj hplaces.locate hp
  rw [← hkey]
  exact hend

end Spans

section

variable [TimeuuidOrd]

/-- A row that is there is known by its key. -/
theorem exists_row_of_places {w : World} (hw : w.Reachable) {value : SplittingValues}
    (hplaces : w.Places id pkey p value) (hvalid : w.table.isValidPrimaryId p id = true) :
    ∃ key own, w.table.primaryIds.lookup key = some own ∧ Idx.idx id = Idx.idx own ∧
      (w.row key).target.held = some (pkey, value) ∧ w.ResolvesTo key p id := by
  obtain ⟨key, own, hown, hidx⟩ := Table.Consistent.exists_key hw.consistent hplaces.held
  refine ⟨key, own, hown, hidx.symm, ?_, World.resolvesTo_of_valid hw.storesKeys hown hidx.symm hvalid⟩
  rw [World.held_row hown, hidx]
  exact hplaces.held

/-! ## Answers -/

/-- What the index of a partition returns: vectors that are found there.  A match of a filtered search
was accepted by the filter. -/
structure SearchIndex.Returns (index : SearchIndex) (finds : PrimaryId → Vector → Prop) : Prop where
  search : ∀ embedding limit found, index.search embedding limit = .ok found →
    ∀ id distance, .ok (id, distance) ∈ found → ∃ v, finds id v
  filteredSearch : ∀ embedding limit filter found,
    index.filteredSearch embedding limit filter = .ok found →
    ∀ id distance, .ok (id, distance) ∈ found →
      (∃ v, finds id v) ∧ ∃ time, filter time id = true
  getVector : ∀ call id components, index.getVector call id = .ok (some components) →
    ∃ v, finds id v ∧ v.components = components

/-- A match that an index returned to a search, with a vector that is found under its identifier. -/
structure SearchIndex.Matched (index : SearchIndex) (embedding : Vector) (limit : ℕ+)
    (finds : PrimaryId → Vector → Prop) (id : PrimaryId) (distance : Distance) (v : Vector) :
    Prop where
  returned : ∃ found, (index.search embedding limit = .ok found ∨
    ∃ filter, index.filteredSearch embedding limit filter = .ok found) ∧ .ok (id, distance) ∈ found
  found : finds id v

/-- The tables that a search sees. -/
structure Tables.Sees (tables : Tables) (table : Table) (before during : List Call) : Prop where
  routed : tables.routed = (Machine.run World.step (World.init table) before).table
  checked : ∀ time, ∃ front, front <+: during ∧
    tables.checked time = (Machine.run World.step (World.init table) (before ++ front)).table
  collected : tables.collected =
    (Machine.run World.step (World.init table) (before ++ during)).table

/-- The row of a key passes the restrictions. -/
def Passes (w : World) (key : PrimaryKey) (restrictions : List Restriction) : Prop :=
  ∃ own, w.table.primaryIds.lookup key = some own ∧
    ∀ restriction ∈ restrictions, w.table.satisfies own restriction = true

omit [DecimalNormalizer] in
/-- An answer is empty, or made of the matches of a search in the partition of the query. -/
theorem answerAnn_eq_ok {partitions : PartitionId → Option SearchIndex} {dimensions : ℕ+}
    {tables : Tables} {indexKey : IndexKey} {embedding : Vector} {filter : Option Filter} {limit : ℕ+}
    {returnColumns : List ColumnName} {answer : Answer}
    (h : answerAnn partitions dimensions tables indexKey embedding filter limit returnColumns =
      .ok answer) :
    answer = .empty returnColumns ∨ ∃ p residual index found,
      tables.routed.partitionId indexKey (filter.map Filter.restrictions) = some (p, residual) ∧
      partitions p = some index ∧
      collectResults index.getVector tables.collected p returnColumns found = .ok answer ∧
      (((filter.bind fun _ => residual) = none ∧ index.search embedding limit = .ok found) ∨
        ∃ restrictions, (filter.bind fun _ => residual) = some restrictions ∧
          index.filteredSearch embedding limit (fun time primaryId =>
            restrictions.all ((tables.checked time).isValidFor p primaryId)) = .ok found) := by
  unfold answerAnn at h
  cases hroute : tables.routed.partitionId indexKey (filter.map Filter.restrictions) with
  | none =>
    rw [hroute] at h
    exact Or.inl (Except.ok.inj h).symm
  | some route =>
    obtain ⟨p, residual⟩ := route
    rw [hroute] at h
    dsimp only at h
    cases hindex : partitions p with
    | none =>
      rw [hindex] at h
      exact Or.inl (Except.ok.inj h).symm
    | some index =>
      rw [hindex] at h
      dsimp only at h
      right
      cases hdim : embeddingDimensions embedding dimensions with
      | error e =>
        rw [hdim] at h
        cases h
      | ok u =>
        rw [hdim] at h
        dsimp only at h
        cases hfilter : filter.bind fun _ => residual with
        | none =>
          rw [hfilter] at h
          dsimp only at h
          cases hfound : index.search embedding limit with
          | error err =>
            rw [hfound] at h
            cases h
          | ok found =>
            rw [hfound] at h
            refine ⟨p, residual, index, found, rfl, hindex, ?_, Or.inl ⟨hfilter, hfound⟩⟩
            dsimp only at h
            cases hok : collectResults index.getVector tables.collected p returnColumns found with
            | error e =>
              rw [hok] at h
              cases e <;> cases h
            | ok answer' =>
              rw [hok] at h
              rw [Except.ok.inj h]
        | some restrictions =>
          rw [hfilter] at h
          dsimp only at h
          cases hfound : index.filteredSearch embedding limit (fun time primaryId =>
              restrictions.all ((tables.checked time).isValidFor p primaryId)) with
          | error err =>
            rw [hfound] at h
            cases h
          | ok found =>
            rw [hfound] at h
            refine ⟨p, residual, index, found, rfl, hindex, ?_,
              Or.inr ⟨restrictions, hfilter, hfound⟩⟩
            dsimp only at h
            cases hok : collectResults index.getVector tables.collected p returnColumns found with
            | error e =>
              rw [hok] at h
              cases e <;> cases h
            | ok answer' =>
              rw [hok] at h
              rw [Except.ok.inj h]

omit [DecimalNormalizer] [TimeuuidOrd] in
/-- A hit is a match with a valid identifier. -/
theorem mem_of_hits {table : Table} {hit : PrimaryId × Distance} {found : Matches}
    (h : hit ∈ hits table p found) : .ok hit ∈ found := by
  obtain ⟨result, hmem, hvalid⟩ := List.mem_filterMap.mp h
  unfold validHit at hvalid
  cases result with
  | error e => cases hvalid
  | ok hit' =>
    dsimp only at hvalid
    split at hvalid
    · rwa [← Option.some.inj hvalid]
    · cases hvalid

omit [DecimalNormalizer] [TimeuuidOrd] in
theorem valid_of_primaryKey {table : Table} {raw : PrimaryKey}
    (h : table.primaryKey p id = some raw) : table.isValidPrimaryId p id = true := by
  unfold Table.primaryKey at h
  split at h
  · cases h
  · next hvalid => simpa using hvalid

omit [DecimalNormalizer] [TimeuuidOrd] in
/-- Without a filter no restrictions remain. -/
theorem residual_eq_none {table : Table} {indexKey : IndexKey}
    {residual : Option (List Restriction)} (h : table.partitionId indexKey none = some (p, residual)) :
    residual = none := by
  unfold Table.partitionId at h
  split at h
  · cases h
  · cases hdata : table.index.data with
    | globalIndex =>
      rw [hdata] at h
      exact (Prod.mk.inj (Option.some.inj h)).2.symm
    | localIndex data =>
      rw [hdata] at h
      cases h

/-- What an answer has at a position is of a row: the row holds a vector in the partition, the values of
the columns are those of the row, and a vector that is read back is that of the row. -/
structure Answer.ReportsRow (answer : Answer) (i : ℕ) (w : World) (key : PrimaryKey)
    (pkey : PartitionKey) (v : Vector) : Prop where
  held : (w.row key).target.held = some (pkey, .vector v)
  vectors : ∀ values,
    answer.columnValues.lookup w.table.index.targetColumns.first = some values →
      values[i]? = some none ∨ values[i]? = some (vectorValue (some v.components))
  columns : ∀ column values, column ≠ w.table.index.targetColumns.first →
    answer.columnValues.lookup column = some values →
      values[i]? = some ((w.row key).column w.schema column)

/-- The hits of a search are reported as the rows that they are when the answer is made. -/
theorem Spans.reportsRow (hnew : table.IsNew)
    (h : Spans table runtime before during later as as')
    (hp : (Machine.run World.step (World.init table) before).locate pkey = some p)
    (ha : (Machine.run step (.init runtime) as).partitions.lookup p = some a)
    {index : SearchIndex} (hreturns : index.Returns (Finds runtime as as' a))
    {returnColumns : List ColumnName} {found : Matches} {answer : Answer}
    (hcollect : collectResults index.getVector
      (Machine.run World.step (World.init table) (before ++ during)).table p returnColumns found =
        .ok answer)
    {i : ℕ} {hit : PrimaryId × Distance} (hhit : (hits
      (Machine.run World.step (World.init table) (before ++ during)).table p found)[i]? = some hit)
    (hvalid : (Machine.run World.step (World.init table)
      (before ++ during)).table.isValidPrimaryId p hit.1 = true)
    (hfinds : Finds runtime as as' a hit.1 v) {key : PrimaryKey}
    (hheld : ((Machine.run World.step (World.init table) (before ++ during)).row
      key).target.held = some (pkey, .vector v))
    (hresolves : (Machine.run World.step (World.init table) (before ++ during)).ResolvesTo key p
      hit.1) :
    answer.ReportsRow i (Machine.run World.step (World.init table) (before ++ during)) key pkey v := by
  obtain ⟨-, -, -, hvalues⟩ := aligned_of_ok hcollect
  obtain ⟨hindexId, -⟩ :=
    (Table.isValidPrimaryId_iff (Table.lt_size_of_valid hvalid)).mp hvalid
  have htarget : (Machine.run World.step (World.init table)
      (before ++ during)).table.targetColumn p.indexId =
        some (Machine.run World.step (World.init table)
          (before ++ during)).table.index.targetColumns.first := if_pos hindexId
  refine ⟨hheld, fun values hlookup => ?_, fun column values hne hlookup => ?_⟩
  · obtain ⟨-, -, hall⟩ := hvalues _ values hlookup
    have hvalue := hall i hit hhit
    rw [if_pos htarget] at hvalue
    obtain ⟨vector, hvector, hvalue⟩ := hvalue
    cases vector with
    | none => exact Or.inl hvalue
    | some components =>
      -- what is read back is a vector of the same row
      obtain ⟨v', hfinds', rfl⟩ := hreturns.getVector i hit.1 components hvector
      have hplaces := h.places_of_valid hnew hp ha hfinds hvalid
      have hplaces' := h.places_of_valid hnew hp ha hfinds' hvalid
      obtain ⟨-, hsame⟩ := Prod.mk.inj (Option.some.inj (hplaces'.held.symm.trans hplaces.held))
      rw [← SplittingValues.vector.inj hsame]
      exact Or.inr hvalue
  · obtain ⟨-, -, hall⟩ := hvalues column values hlookup
    have hvalue := hall i hit hhit
    rw [if_neg fun heq => hne (Option.some.inj (heq.symm.trans htarget))] at hvalue
    obtain ⟨raw, hraw, -⟩ := hresolves.primaryKey
    rw [hvalue, ← Table.columnValueFor_of_primaryKey hraw, hresolves.columnValueFor column]

/-- A row that the filter accepted passed the restrictions at that time, with the vector that was
found. -/
theorem Spans.passes (hnew : table.IsNew) (h : Spans table runtime before during later as as')
    (hp : (Machine.run World.step (World.init table) before).locate pkey = some p)
    (ha : (Machine.run step (.init runtime) as).partitions.lookup p = some a)
    (hfinds : Finds runtime as as' a id v) {key : PrimaryKey} {own : PrimaryId}
    (hown : (Machine.run World.step (World.init table)
      (before ++ during)).table.primaryIds.lookup key = some own) (hidx : Idx.idx id = Idx.idx own)
    (hheld : ((Machine.run World.step (World.init table) (before ++ during)).row
      key).target.held = some (pkey, .vector v))
    {tables : Tables} (hsees : tables.Sees table before during) {restrictions : List Restriction}
    {time : ℕ}
    (haccepted : restrictions.all ((tables.checked time).isValidFor p id) = true) :
    ∃ front, front <+: during ∧
      ((Machine.run World.step (World.init table) (before ++ front)).row key).target.held =
        some (pkey, .vector v) ∧
      Passes (Machine.run World.step (World.init table) (before ++ front)) key restrictions := by
  cases restrictions with
  | nil => exact ⟨during, List.prefix_refl _, hheld, own, hown, fun _ hmem => by cases hmem⟩
  | cons restriction restrictions =>
    obtain ⟨front, ⟨back, hback⟩, hchecked⟩ := hsees.checked time
    rw [hchecked, List.all_eq_true] at haccepted
    have hvalid : (Machine.run World.step (World.init table)
        (before ++ front)).table.isValidPrimaryId p id = true := by
      have hfirst := haccepted restriction List.mem_cons_self
      unfold Table.isValidFor at hfirst
      split at hfirst
      · cases hfirst
      · next hvalid => simpa using hvalid
    subst hback
    have hreach : (Machine.run World.step (World.init table) (before ++ front)).Reachable :=
      ⟨table, _, hnew, rfl⟩
    have hplaces := h.earlier.places_of_valid hnew hp ha hfinds hvalid
    obtain ⟨key', own', hown', hidx', hheld', -⟩ := exists_row_of_places hreach hplaces hvalid
    -- the row is the same one when the answer is made
    have hkept := World.run_kept hreach.consistent back hown'
    rw [← Machine.run_append, List.append_assoc] at hkept
    have hcons := World.run_consistent (World.consistent_init hnew) (before ++ (front ++ back))
    obtain rfl := Table.Consistent.ids_inj hcons key' key own' own hkept hown
      (hidx'.symm.trans hidx)
    refine ⟨front, List.prefix_append .., hheld', own', hown', fun restriction hmem => ?_⟩
    have hvalidFor := haccepted restriction hmem
    unfold Table.isValidFor at hvalidFor
    rw [hvalid, Table.satisfies_congr hidx'] at hvalidFor
    exact hvalidFor

/-- While rows are written and removed, and the actor lags behind, every row that an answer reports is
that of a match, with its distance: a row of the partition that was asked for, which has the vector that
was found when the answer is made, and whose key, columns and vector are those of the answer.  With a
filter the row passed the restrictions that remained at some time during the search, with the same
vector. -/
theorem answers_while_writing (hnew : table.IsNew)
    (h : Spans table runtime before during later as as')
    {tables : Tables} (hsees : tables.Sees table before during)
    {partitions : PartitionId → Option SearchIndex}
    (hpartitions : ∀ p index, partitions p = some index → ∃ a,
      (Machine.run step (.init runtime) as).partitions.lookup p = some a ∧
        index.Returns (Finds runtime as as' a))
    {dimensions : ℕ+} {indexKey : IndexKey} {embedding : Vector} {filter : Option Filter}
    {limit : ℕ+} {returnColumns : List ColumnName} {answer : Answer}
    (hanswer : answerAnn partitions dimensions tables indexKey embedding filter limit
      returnColumns = .ok answer) :
    let w := Machine.run World.step (World.init table) before
    let w' := Machine.run World.step (World.init table) (before ++ during)
    ∀ (i : ℕ) (raw : PrimaryKey), answer.primaryKeys[i]? = some raw →
      ∃ p residual index a id distance v key pkey,
        w.table.partitionId indexKey (filter.map Filter.restrictions) = some (p, residual) ∧
        partitions p = some index ∧
        (Machine.run step (.init runtime) as).partitions.lookup p = some a ∧
        index.Matched embedding limit (Finds runtime as as' a) id distance v ∧
        answer.distances[i]? = some distance ∧
        w'.table.primaryKey p id = some raw ∧
        w'.table.normalizePrimaryKey raw = .ok key ∧
        w.table.queriedKey (filter.map Filter.restrictions) = some pkey ∧
        answer.ReportsRow i w' key pkey v ∧
        ∀ restrictions, residual = some restrictions → ∃ front, front <+: during ∧
          ((Machine.run World.step (World.init table) (before ++ front)).row key).target.held =
            some (pkey, .vector v) ∧
          Passes (Machine.run World.step (World.init table) (before ++ front)) key restrictions := by
  intro w w' i raw hraw
  rcases answerAnn_eq_ok hanswer with rfl | ⟨p, residual, index, found, hroute, hindex, hcollect, hfound⟩
  · simp [Answer.empty] at hraw
  obtain ⟨a, ha, hreturns⟩ := hpartitions p index hindex
  rw [hsees.routed] at hroute
  rw [hsees.collected] at hcollect
  obtain ⟨pkey, hqueried, hp⟩ := Table.locate_of_partitionId hroute
  obtain ⟨hkeys, hdistances, -, -⟩ := aligned_of_ok hcollect
  -- the key at the position is that of a hit
  have hposition := congrArg (fun keys => keys[i]?) hkeys
  rw [List.getElem?_map, List.getElem?_map, hraw, Option.map_some] at hposition
  obtain ⟨hit, hhit, hprimary⟩ := Option.map_eq_some_iff.mp hposition.symm
  have hmem : .ok (hit.1, hit.2) ∈ found := mem_of_hits (List.mem_of_getElem? hhit)
  have hvalid := valid_of_primaryKey hprimary
  obtain ⟨⟨v, hfinds⟩, hfilter⟩ : (∃ v, Finds runtime as as' a hit.1 v) ∧
      ∀ restrictions, (filter.bind fun _ => residual) = some restrictions →
        ∃ time, restrictions.all ((tables.checked time).isValidFor p hit.1) = true := by
    rcases hfound with ⟨hnone, hsearch⟩ | ⟨restrictions, hsome, hsearch⟩
    · refine ⟨hreturns.search _ _ found hsearch hit.1 hit.2 hmem, fun restrictions hsome => ?_⟩
      rw [hnone] at hsome
      cases hsome
    · obtain ⟨hfinds, time, haccepted⟩ :=
        hreturns.filteredSearch _ _ _ found hsearch hit.1 hit.2 hmem
      refine ⟨hfinds, fun restrictions' hsome' => ⟨time, ?_⟩⟩
      rw [← Option.some.inj (hsome.symm.trans hsome')]
      exact haccepted
  have hplaces := h.places_of_valid hnew hp ha hfinds hvalid
  have hreach : w'.Reachable := ⟨table, _, hnew, rfl⟩
  obtain ⟨key, own, hown, hidx, hheld, hresolves⟩ := exists_row_of_places hreach hplaces hvalid
  have hreports := h.reportsRow hnew hp ha hreturns hcollect hhit hvalid hfinds hheld hresolves
  have hdistance : answer.distances[i]? = some hit.2 := by
    rw [hdistances, List.getElem?_map, hhit, Option.map_some]
  refine ⟨p, residual, index, a, hit.1, hit.2, v, key, pkey, hroute, hindex, ha,
    ⟨⟨found, ?_, hmem⟩, hfinds⟩, hdistance, hprimary, ?_, hqueried, hreports, ?_⟩
  · rcases hfound with ⟨-, hsearch⟩ | ⟨_, -, hsearch⟩
    · exact Or.inl hsearch
    · exact Or.inr ⟨_, hsearch⟩
  · obtain ⟨raw', hraw', hkey⟩ := hresolves.primaryKey
    obtain rfl : raw = raw' := Option.some.inj (hprimary.symm.trans hraw')
    exact hkey
  · rintro restrictions rfl
    cases filter with
    | none => cases residual_eq_none hroute
    | some filter =>
      obtain ⟨time, haccepted⟩ := hfilter restrictions rfl
      exact h.passes hnew hp ha hfinds hown hidx hheld hsees haccepted

end

end Usearch

namespace Usearch

attribute [local instance] VectorStore.Sample.decimals VectorStore.Sample.timeuuids

/-- Another row is written while the answer is made. -/
def Sample.meanwhile : List Call :=
  [VectorStore.Sample.upsert 1 8 (some (VectorStore.Sample.vector 2)) 4 (some 1)]

/-- The index of the partition finds its vector, and reads it back. -/
def Sample.serving (p : PartitionId) : Option SearchIndex :=
  if p = Sample.entry.1 then
    some
      { search := fun _ _ => .ok [.ok (Sample.entry.2, .cosine 0)]
        filteredSearch := fun _ _ filter =>
          .ok (if filter 0 Sample.entry.2 then [.ok (Sample.entry.2, .cosine 0)] else [])
        getVector := fun _ id => .ok (if id = Sample.entry.2 then some [1] else none) }
  else none

/-- The tables before and after the other row was written. -/
def Sample.seen : Tables :=
  let before := (Machine.run World.step (World.init VectorStore.Sample.keyTable)
    VectorStore.Sample.outOfOrder).table
  { routed := before
    checked := fun _ => before
    collected := (Machine.run World.step (World.init VectorStore.Sample.keyTable)
      (VectorStore.Sample.outOfOrder ++ Sample.meanwhile)).table }

theorem Sample.spans_meanwhile : Spans VectorStore.Sample.keyTable Sample.runtime
    VectorStore.Sample.outOfOrder Sample.meanwhile [] Sample.latestRow [] :=
  .of_carries Sample.carries_latestRow (by decide)

theorem Sample.sees_seen : Sample.seen.Sees VectorStore.Sample.keyTable
    VectorStore.Sample.outOfOrder Sample.meanwhile where
  routed := by dsimp only [Sample.seen]
  checked time := by
    refine ⟨[], List.nil_prefix, ?_⟩
    dsimp only [Sample.seen]
    rw [List.append_nil]
  collected := by dsimp only [Sample.seen]

theorem Sample.finds_entry : Finds Sample.runtime Sample.latestRow [] 0 Sample.entry.2 ⟨[1]⟩ :=
  ⟨[], List.prefix_refl _, by decide +kernel⟩

/-- The query is for the partition of a row, with a restriction that remains. -/
def Sample.filter : Filter := ⟨[.eq ⟨"pk"⟩ (.int 0), .lte ⟨"pk"⟩ (.int 5)], true⟩

theorem Sample.primaryKeys_answer : (answerAnn Sample.serving 1 Sample.seen
    VectorStore.Sample.keyTable.indexKey ⟨[0]⟩ (some Sample.filter) 1 []).toOption.map
      Answer.primaryKeys = some [VectorStore.Sample.key 0] := by
  decide +kernel

theorem eq_ok_of_toOption_eq {ε α : Type} {x : Except ε α} {a : α} (h : x.toOption = some a) :
    x = .ok a := by
  cases x with
  | error e => cases h
  | ok b => exact congrArg Except.ok (Option.some.inj h)

/-- The row is reported at the distance of its match, with the vector that it still has, which passed
the restriction that remained. -/
theorem answers_while_writing_latestRow :
    let w := Machine.run World.step (World.init VectorStore.Sample.keyTable)
      VectorStore.Sample.outOfOrder
    let w' := Machine.run World.step (World.init VectorStore.Sample.keyTable)
      (VectorStore.Sample.outOfOrder ++ Sample.meanwhile)
    ∃ answer, answerAnn Sample.serving 1 Sample.seen VectorStore.Sample.keyTable.indexKey ⟨[0]⟩
        (some Sample.filter) 1 [] = .ok answer ∧
      ∃ p residual index a id distance v key pkey,
        w.table.partitionId VectorStore.Sample.keyTable.indexKey (some Sample.filter.restrictions) =
          some (p, residual) ∧
        Sample.serving p = some index ∧
        (Machine.run step (.init Sample.runtime) Sample.latestRow).partitions.lookup p = some a ∧
        index.Matched ⟨[0]⟩ 1 (Finds Sample.runtime Sample.latestRow [] a) id distance v ∧
        answer.distances[0]? = some distance ∧
        w'.table.primaryKey p id = some (VectorStore.Sample.key 0) ∧
        w'.table.normalizePrimaryKey (VectorStore.Sample.key 0) = .ok key ∧
        w.table.queriedKey (some Sample.filter.restrictions) = some pkey ∧
        answer.ReportsRow 0 w' key pkey v ∧
        ∀ restrictions, residual = some restrictions → ∃ front, front <+: Sample.meanwhile ∧
          ((Machine.run World.step (World.init VectorStore.Sample.keyTable)
            (VectorStore.Sample.outOfOrder ++ front)).row key).target.held = some (pkey, .vector v) ∧
          Passes (Machine.run World.step (World.init VectorStore.Sample.keyTable)
            (VectorStore.Sample.outOfOrder ++ front)) key restrictions := by
  obtain ⟨answer, hanswer, hkeys⟩ := Option.map_eq_some_iff.mp Sample.primaryKeys_answer
  have hanswer := eq_ok_of_toOption_eq hanswer
  refine ⟨answer, hanswer, answers_while_writing VectorStore.Sample.isNew_keyTable
    Sample.spans_meanwhile Sample.sees_seen ?hpartitions hanswer 0 (VectorStore.Sample.key 0)
    (by rw [hkeys]; rfl)⟩
  case hpartitions =>
    intro p index hindex
    unfold Sample.serving at hindex
    split at hindex
    · next hp =>
      subst hp
      obtain rfl := Option.some.inj hindex
      refine ⟨0, by decide +kernel, ?_, ?_, ?_⟩
      · rintro embedding limit found hfound id distance hmem
        obtain rfl := Except.ok.inj hfound
        obtain ⟨rfl, -⟩ := Prod.mk.inj (Except.ok.inj (List.mem_singleton.mp hmem))
        exact ⟨_, Sample.finds_entry⟩
      · rintro embedding limit filter found hfound id distance hmem
        obtain rfl := Except.ok.inj hfound
        split at hmem
        · next haccepted =>
          obtain ⟨rfl, -⟩ := Prod.mk.inj (Except.ok.inj (List.mem_singleton.mp hmem))
          exact ⟨⟨_, Sample.finds_entry⟩, 0, haccepted⟩
        · cases hmem
      · rintro call id components hvector
        have hread := Except.ok.inj hvector
        split at hread
        · next hid =>
          subst hid
          obtain rfl := Option.some.inj hread
          exact ⟨_, Sample.finds_entry, rfl⟩
        · cases hread
    · cases hindex

end Usearch

end VectorStore
