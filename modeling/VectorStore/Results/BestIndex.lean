import Mathlib.Data.Prod.Lex
import Mathlib.Order.WithBot
import VectorStore.Search.BestIndex

/-!
# Routing picks the best serving index

In every reachable state the group of an index holds exactly the keys of the entries of that group,
so the routing never fails.  It picks a serving candidate with the best score and the newest version
when there is one, and otherwise says whether any candidate serves.
-/

namespace VectorStore

/-! ## Scores -/

namespace NeedsFiltering

/-- The rank of a score: the fewer columns are left, the higher. -/
def rank : NeedsFiltering → WithTop ℕᵒᵈ
  | no => ⊤
  | yes uncovered => WithTop.some (OrderDual.toDual uncovered.toNat)

/-- Scores are compared by their ranks. -/
theorem cmp_eq (a b : NeedsFiltering) : a.cmp b = compare a.rank b.rank := by
  cases a with
  | no =>
    cases b with
    | no => exact (compare_eq_iff_eq.mpr rfl).symm
    | yes b => exact (compare_gt_iff_gt.mpr (WithTop.coe_lt_top _)).symm
  | yes a =>
    cases b with
    | no => exact (compare_lt_iff_lt.mpr (WithTop.coe_lt_top _)).symm
    | yes b =>
      change compare b a = _
      rw [compare_toNat]
      rcases lt_trichotomy b.toNat a.toNat with hlt | heq | hlt
      · rw [compare_lt_iff_lt.mpr hlt]
        exact (compare_lt_iff_lt.mpr (WithTop.coe_lt_coe.mpr (OrderDual.toDual_lt_toDual.mpr hlt))).symm
      · rw [rank, rank, heq, compare_eq_iff_eq.mpr rfl, compare_eq_iff_eq.mpr rfl]
      · rw [compare_gt_iff_gt.mpr hlt]
        exact (compare_gt_iff_gt.mpr (WithTop.coe_lt_coe.mpr (OrderDual.toDual_lt_toDual.mpr hlt))).symm

end NeedsFiltering

namespace VsIndexEntry

/-- The restricted columns that the partition key of the index does not cover. -/
def uncovered (entry : VsIndexEntry) (equalityColumns rangeColumns : List ColumnName) : ℕ :=
  match entry.partitioning with
  | .global => equalityColumns.length + rangeColumns.length
  | .local pkColumns => equalityColumns.length - pkColumns.length + rangeColumns.length

variable {entry entry' : VsIndexEntry} {equality range : List ColumnName}
  {score score' : NeedsFiltering}

/-- The partition columns of an index that has a score are among the equality columns, so their
number is not larger when they are distinct. -/
theorem length_le_of_scoreIndex {pkColumns : NonemptyBox ColumnName}
    (hlocal : entry.partitioning = .local pkColumns) (hnodup : pkColumns.toList.Nodup)
    (hscore : entry.scoreIndex equality range = some score) :
    pkColumns.length ≤ equality.length := by
  unfold scoreIndex at hscore
  rw [hlocal] at hscore
  split at hscore
  · cases hscore
  · dsimp only at hscore
    split at hscore
    · cases hscore
    · next hall =>
      have hsubset : ∀ column ∈ pkColumns.toList, column ∈ equality := by simpa using hall
      exact (hnodup.subperm hsubset).length_le

/-- The score for a number of columns that are not covered. -/
theorem ite_ofNat_eq {n : ℕ} (hn : n < 2 ^ 64) :
    (if UInt64.ofNat n = 0 then NeedsFiltering.no else .yes (UInt64.ofNat n)) =
      if n = 0 then .no else .yes (UInt64.ofNat n) := by
  have hzero : UInt64.ofNat n = 0 ↔ n = 0 := by
    rw [← UInt64.toNat_inj, UInt64.toNat_ofNat', Nat.mod_eq_of_lt hn]
    rfl
  simp only [hzero]

/-- The score counts the columns that are not covered. -/
theorem scoreIndex_eq (hsize : equality.length + range.length < 2 ^ 64)
    (hdistinct : ∀ pkColumns, entry.partitioning = .local pkColumns → pkColumns.toList.Nodup)
    (hscore : entry.scoreIndex equality range = some score) :
    score = if entry.uncovered equality range = 0 then .no
      else .yes (UInt64.ofNat (entry.uncovered equality range)) := by
  have hle := fun pkColumns hlocal =>
    length_le_of_scoreIndex hlocal (hdistinct pkColumns hlocal) hscore
  unfold scoreIndex at hscore
  unfold uncovered
  split at hscore
  · cases hscore
  · cases hpart : entry.partitioning with
    | global =>
      rw [hpart] at hscore
      dsimp only at hscore ⊢
      rw [← UInt64.ofNat_add, ite_ofNat_eq hsize] at hscore
      exact (Option.some_inj.mp hscore).symm
    | «local» pkColumns =>
      have hpk := hle pkColumns hpart
      rw [hpart] at hscore
      dsimp only at hscore ⊢
      split at hscore
      · cases hscore
      · have hsub : UInt64.ofNat equality.length - UInt64.ofNat pkColumns.length +
            UInt64.ofNat range.length =
              UInt64.ofNat (equality.length - pkColumns.length + range.length) := by
          rw [UInt64.ofNat_add, UInt64.ofNat_sub hpk]
        rw [hsub, ite_ofNat_eq (by omega)] at hscore
        exact (Option.some_inj.mp hscore).symm

/-- The fewer columns are not covered, the better the score. -/
theorem rank_lt_rank_iff (hsize : equality.length + range.length < 2 ^ 64)
    (hdistinct : ∀ pkColumns, entry.partitioning = .local pkColumns → pkColumns.toList.Nodup)
    (hdistinct' : ∀ pkColumns, entry'.partitioning = .local pkColumns → pkColumns.toList.Nodup)
    (hscore : entry.scoreIndex equality range = some score)
    (hscore' : entry'.scoreIndex equality range = some score') :
    score.rank < score'.rank ↔
      entry'.uncovered equality range < entry.uncovered equality range := by
  have hlt : ∀ entry : VsIndexEntry, entry.uncovered equality range < 2 ^ 64 := by
    intro entry
    unfold uncovered
    split <;> omega
  rw [scoreIndex_eq hsize hdistinct hscore, scoreIndex_eq hsize hdistinct' hscore']
  have hn := hlt entry
  have hn' := hlt entry'
  generalize entry.uncovered equality range = n at hn
  generalize entry'.uncovered equality range = n' at hn'
  have hrank : ∀ m < 2 ^ 64, (NeedsFiltering.yes (UInt64.ofNat m)).rank =
      WithTop.some (OrderDual.toDual m) := by
    intro m hm
    rw [NeedsFiltering.rank, UInt64.toNat_ofNat', Nat.mod_eq_of_lt hm]
  split
  · next hzero =>
    rw [hzero]
    exact iff_of_false not_top_lt (Nat.not_lt_zero _)
  · next hzero =>
    rw [hrank n hn]
    split
    · next hzero' =>
      rw [hzero']
      exact iff_of_true (WithTop.coe_lt_top _) (Nat.pos_of_ne_zero hzero)
    · rw [hrank n' hn', WithTop.coe_lt_coe, OrderDual.toDual_lt_toDual]

end VsIndexEntry

namespace RoutedIndexes

/-! ## Reachable states -/

/-- The states that are reached by inserting entries of absent keys, removing entries and updating
their status. -/
inductive Reachable : RoutedIndexes → Prop where
  | new : Reachable new
  | insertVs {s : RoutedIndexes} {key : IndexKey} (entry : RoutedEntry) (h : Reachable s)
      (habsent : s.containsKey key = false) : Reachable (s.insertVs key entry)
  | insertFts {s : RoutedIndexes} {key : IndexKey} (entry : IndexEntry) (h : Reachable s)
      (habsent : s.containsKey key = false) : Reachable (s.insertFts key entry)
  | insertPattern {s : RoutedIndexes} {key : IndexKey} (entry : IndexEntry) (h : Reachable s)
      (habsent : s.containsKey key = false) : Reachable (s.insertPattern key entry)
  | remove {s : RoutedIndexes} (key : IndexKey) (h : Reachable s) : Reachable (s.remove key).1
  | update {s : RoutedIndexes} (key : IndexKey) (progress : Progress) (status : IndexStatus)
      (h : Reachable s) : Reachable (s.update key progress status)

/-- The keys of a group, in the order in which their entries were inserted. -/
def group (s : RoutedIndexes) (group : RoutingGroupKey) : List IndexKey :=
  (s.vsRouting.lookup group).getD []

/-- Every group holds the keys of the entries of that group. -/
def Grouped (s : RoutedIndexes) : Prop :=
  ∀ group key, key ∈ s.group group ↔
    ∃ entry, s.vsEntries.lookup key = some entry ∧ entry.routingGroup = group

variable {s : RoutedIndexes}

theorem grouped_new : new.Grouped := by
  intro group key
  refine iff_of_false List.not_mem_nil ?_
  rintro ⟨entry, hentry, -⟩
  cases hentry

/-- Inserting the entry of an absent key adds the key to its group. -/
theorem Grouped.insertVs (h : s.Grouped) {key : IndexKey} (entry : RoutedEntry)
    (habsent : s.vsEntries.lookup key = none) : (s.insertVs key entry).Grouped := by
  intro group key'
  have hgroup : (s.insertVs key entry).group group =
      if group = entry.routingGroup then s.group group ++ [key] else s.group group := by
    unfold RoutedIndexes.group RoutedIndexes.insertVs
    dsimp only
    rw [FiniteMap.lookup_insert_eq]
    split
    · next heq => rw [heq, Option.getD_some]
    · rfl
  have hentries : (s.insertVs key entry).vsEntries.lookup key' =
      if key' = key then some entry else s.vsEntries.lookup key' :=
    FiniteMap.lookup_insert_eq ..
  rw [hgroup, hentries]
  by_cases hkey : key' = key
  · subst hkey
    have hnot : key' ∉ s.group group := fun hmem => by
      obtain ⟨entry', hentry', -⟩ := (h group key').mp hmem
      rw [habsent] at hentry'
      cases hentry'
    rw [if_pos rfl]
    split
    · next heq => exact iff_of_true (by simp) ⟨entry, rfl, heq.symm⟩
    · next hne =>
      refine iff_of_false hnot ?_
      rintro ⟨entry', hentry', hgroup'⟩
      obtain rfl := Option.some_inj.mp hentry'
      exact hne hgroup'.symm
  · rw [if_neg hkey, ← h group key']
    split
    · rw [List.mem_append, List.mem_singleton, or_iff_left hkey]
    · rfl

/-- Removing an entry takes its key out of every group. -/
theorem Grouped.group_remove (h : s.Grouped) {key : IndexKey} {entry : RoutedEntry}
    (hentry : s.vsEntries.lookup key = some entry) (group : RoutingGroupKey) :
    (s.remove key).1.group group = (s.group group).filter (· ≠ key) := by
  unfold RoutedIndexes.remove
  rw [hentry]
  by_cases hgroup : group = entry.routingGroup
  · subst hgroup
    unfold RoutedIndexes.group
    dsimp only
    cases hkeys : s.vsRouting.lookup entry.routingGroup with
    | none => rw [hkeys, Option.getD_none, List.filter_nil]
    | some keys =>
      dsimp only
      rw [FiniteMap.lookup_ite_erase_insert, if_pos rfl, Option.getD_some]
      split
      · next hnil => rw [hnil, Option.getD_none]
      · rfl
  · have hnot : ∀ key' ∈ s.group group, key' ≠ key := by
      rintro key' hmem rfl
      obtain ⟨entry', hentry', hgroup'⟩ := (h group key').mp hmem
      rw [hentry] at hentry'
      obtain rfl := Option.some_inj.mp hentry'
      exact hgroup hgroup'.symm
    rw [List.filter_eq_self.mpr fun key' hmem => by simpa using hnot key' hmem]
    unfold RoutedIndexes.group
    dsimp only
    split
    · rw [FiniteMap.lookup_ite_erase_insert, if_neg hgroup]
    · rfl

/-- Removing a key removes it from its group. -/
theorem Grouped.remove (h : s.Grouped) (key : IndexKey) : (s.remove key).1.Grouped := by
  cases hentry : s.vsEntries.lookup key with
  | none =>
    unfold RoutedIndexes.remove
    rw [hentry]
    dsimp only
    split <;> exact h
  | some entry =>
    intro group key'
    have hentries : (s.remove key).1.vsEntries = s.vsEntries.erase key := by
      unfold RoutedIndexes.remove
      rw [hentry]
    rw [h.group_remove hentry, hentries, FiniteMap.lookup_erase_eq, List.mem_filter, h group key']
    by_cases hkey : key' = key
    · simp [hkey]
    · simp [hkey]

/-- Updating an entry keeps it in its group. -/
theorem Grouped.update (h : s.Grouped) (key : IndexKey) (progress : Progress)
    (status : IndexStatus) : (s.update key progress status).Grouped := by
  unfold RoutedIndexes.update
  split
  · intro group key'
    dsimp only
    rw [FiniteMap.lookup_modify]
    refine (h group key').trans ?_
    split
    · next heq =>
      constructor
      · rintro ⟨entry, hentry, hgroup⟩
        exact ⟨{ entry with progress, status }, by rw [hentry]; rfl, hgroup⟩
      · rintro ⟨entry', hentry', hgroup⟩
        obtain ⟨entry, hentry, rfl⟩ := Option.map_eq_some_iff.mp hentry'
        exact ⟨entry, hentry, hgroup⟩
    · rfl
  · split <;> exact h

theorem lookup_vsEntries_of_absent {key : IndexKey} (h : s.containsKey key = false) :
    s.vsEntries.lookup key = none := by
  unfold containsKey at h
  rw [Bool.or_eq_false_iff, Bool.or_eq_false_iff] at h
  simpa using h.1.1

theorem Reachable.grouped (h : s.Reachable) : s.Grouped := by
  induction h with
  | new => exact grouped_new
  | insertVs entry _ habsent ih => exact ih.insertVs entry (lookup_vsEntries_of_absent habsent)
  | insertFts entry _ _ ih => exact ih
  | insertPattern entry _ _ ih => exact ih
  | remove key _ ih => exact ih.remove key
  | update key progress status _ ih => exact ih.update key progress status

/-! ## Candidates -/

variable {key : IndexKey} {equality range : List ColumnName} {routing : Bool}

/-- An entry that a query for a key can go to: with routing, one of the same group. -/
def Candidate (s : RoutedIndexes) (key : IndexKey) (routing : Bool) (key' : IndexKey)
    (entry : RoutedEntry) : Prop :=
  s.vsEntries.lookup key' = some entry ∧
    if routing then
      ∃ requested, s.vsEntries.lookup key = some requested ∧
        entry.routingGroup = requested.routingGroup
    else key' = key

/-- A candidate that is serving and has a score. -/
def Serves (s : RoutedIndexes) (key : IndexKey) (equality range : List ColumnName) (routing : Bool)
    (c : Scored) : Prop :=
  s.Candidate key routing c.key c.entry ∧ c.entry.status = .serving ∧
    c.entry.scoreIndex equality range = some c.score

/-- In a grouped state the candidates are found. -/
theorem Grouped.candidates_eq (h : s.Grouped) {requested : RoutedEntry}
    (hrequested : s.vsEntries.lookup key = some requested) (routing : Bool) :
    ∃ keys, s.candidates key requested routing = .ok keys ∧ ∀ key' entry,
      s.Candidate key routing key' entry ↔ key' ∈ keys ∧ s.vsEntries.lookup key' = some entry := by
  unfold candidates Candidate
  cases routing with
  | false =>
    refine ⟨[key], rfl, fun key' entry => ?_⟩
    rw [List.mem_singleton, and_comm]
    rfl
  | true =>
    have hmem : key ∈ s.group requested.routingGroup := (h _ key).mpr ⟨requested, hrequested, rfl⟩
    cases hkeys : s.vsRouting.lookup requested.routingGroup with
    | none =>
      rw [group, hkeys] at hmem
      cases hmem
    | some keys =>
      have hgroup : s.group requested.routingGroup = keys := by rw [group, hkeys, Option.getD_some]
      refine ⟨keys, rfl, fun key' entry => ?_⟩
      rw [← hgroup, h requested.routingGroup key', hrequested, if_pos rfl]
      constructor
      · rintro ⟨hentry, requested', heq, hsame⟩
        obtain rfl := Option.some_inj.mp heq
        exact ⟨⟨entry, hentry, hsame⟩, hentry⟩
      · rintro ⟨⟨entry', hentry', hsame⟩, hentry⟩
        rw [hentry] at hentry'
        obtain rfl := Option.some_inj.mp hentry'
        exact ⟨hentry, requested, rfl, hsame⟩

theorem mem_scored {keys : List IndexKey} {c : Scored} :
    c ∈ s.scored equality range keys ↔ c.key ∈ keys ∧ s.vsEntries.lookup c.key = some c.entry ∧
      c.entry.status = .serving ∧ c.entry.scoreIndex equality range = some c.score := by
  obtain ⟨key, score, entry⟩ := c
  unfold scored
  simp only [List.mem_filterMap, List.mem_filter, Option.map_eq_some_iff, decide_eq_true_eq,
    Scored.mk.injEq, Prod.exists, Prod.mk.injEq]
  constructor
  · rintro ⟨key', entry', ⟨⟨_, hmem, _, hlookup, rfl, rfl⟩, hstatus⟩, _, hscore, rfl, rfl, rfl⟩
    exact ⟨hmem, hlookup, hstatus, hscore⟩
  · rintro ⟨hmem, hlookup, hstatus, hscore⟩
    exact ⟨key, entry, ⟨⟨key, hmem, entry, hlookup, rfl, rfl⟩, hstatus⟩, score, hscore, rfl, rfl, rfl⟩

variable [VersionTicks]

/-- What candidates are ranked by: the score and then the version. -/
def Scored.rank (c : Scored) : Lex (WithTop ℕᵒᵈ × ℕ) :=
  toLex (c.score.rank, (VersionTicks.gregorianTicks c.entry.version).toNat)

theorem Scored.cmp_eq (a b : Scored) : a.cmp b = compare a.rank b.rank := by
  rw [Scored.cmp, NeedsFiltering.cmp_eq, compare_toNat, compare_then_compare]
  rfl

/-- What the verdict of the routing says. -/
structure Verdict (s : RoutedIndexes) (key : IndexKey) (equality range : List ColumnName)
    (routing : Bool) (state : BestIndexState) : Prop where
  notFound : state = .notFound ↔ s.vsEntries.lookup key = none
  serving : (∃ key' index primaryKeyColumns filteringColumns tableColumns needsFiltering,
      state = .serving key' index primaryKeyColumns filteringColumns tableColumns needsFiltering) ↔
    ∃ c, s.Serves key equality range routing c
  /-- The index is a serving candidate of the highest rank, and the answer is about it. -/
  best : ∀ key' index primaryKeyColumns filteringColumns tableColumns needsFiltering,
    state = .serving key' index primaryKeyColumns filteringColumns tableColumns needsFiltering →
    ∃ entry, s.Serves key equality range routing ⟨key', needsFiltering, entry⟩ ∧
      (∀ c, s.Serves key equality range routing c →
        c.rank ≤ Scored.rank ⟨key', needsFiltering, entry⟩) ∧
      index = entry.index ∧ primaryKeyColumns = entry.primaryKeyColumns ∧
      filteringColumns = entry.filteringColumns ∧ tableColumns = entry.tableColumns
  noGlobalIndex : state = .noGlobalIndex ↔
    (∃ key' entry, s.Candidate key routing key' entry ∧ entry.status = .serving) ∧
      ¬∃ c, s.Serves key equality range routing c
  notServing : ∀ progress, state = .notServing progress ↔
    (∃ requested, s.vsEntries.lookup key = some requested ∧ requested.progress = progress) ∧
      ¬∃ key' entry, s.Candidate key routing key' entry ∧ entry.status = .serving

/-- In a grouped state the routing gives a verdict. -/
theorem Grouped.bestIndex (h : s.Grouped) (key : IndexKey) (equality range : List ColumnName)
    (routing : Bool) : ∃ state, s.bestIndex key equality range routing = .ok state ∧
      s.Verdict key equality range routing state := by
  cases hrequested : s.vsEntries.lookup key with
  | none =>
    have hno : ∀ key' entry, ¬s.Candidate key routing key' entry := by
      rintro key' entry ⟨hentry, hsame⟩
      cases routing with
      | false =>
        obtain rfl : key' = key := hsame
        rw [hrequested] at hentry
        cases hentry
      | true =>
        obtain ⟨requested, hfound, -⟩ := hsame
        rw [hrequested] at hfound
        cases hfound
    refine ⟨.notFound, by rw [RoutedIndexes.bestIndex, hrequested], ?_⟩
    exact {
      notFound := iff_of_true rfl hrequested
      serving := iff_of_false (by rintro ⟨_, _, _, _, _, _, ⟨⟩⟩) fun ⟨_, hc⟩ => hno _ _ hc.1
      best := by rintro _ _ _ _ _ _ ⟨⟩
      noGlobalIndex := iff_of_false (by rintro ⟨⟩) fun ⟨⟨_, _, hc, _⟩, _⟩ => hno _ _ hc
      notServing := fun progress => iff_of_false (by rintro ⟨⟩) fun ⟨⟨_, hfound, _⟩, _⟩ => by
        rw [hrequested] at hfound
        cases hfound }
  | some requested =>
    obtain ⟨keys, hkeys, hcandidate⟩ := h.candidates_eq hrequested routing
    have hserves : ∀ c, s.Serves key equality range routing c ↔
        c ∈ s.scored equality range keys := by
      intro c
      rw [mem_scored, Serves, hcandidate, and_assoc]
    have hroute : s.bestIndex key equality range routing =
        s.route requested equality range keys := by
      unfold RoutedIndexes.bestIndex
      rw [hrequested]
      dsimp only
      rw [hkeys]
      rfl
    rw [hroute]
    unfold route
    cases hmax : maxBy Scored.cmp (s.scored equality range keys) with
    | some routed =>
      obtain ⟨hmem, hbest⟩ := maxBy_spec Scored.cmp_eq hmax
      have hrouted := (hserves routed).mpr hmem
      have hlookup : s.vsEntries.lookup routed.key = some routed.entry := hrouted.1.1
      refine ⟨_, by dsimp only; rw [hlookup], ?_⟩
      exact {
        notFound := iff_of_false (by rintro ⟨⟩) (by rw [hrequested]; rintro ⟨⟩)
        serving := iff_of_true ⟨_, _, _, _, _, _, rfl⟩ ⟨routed, hrouted⟩
        best := by
          rintro _ _ _ _ _ _ ⟨⟩
          exact ⟨routed.entry, hrouted, fun c hc => hbest c ((hserves c).mp hc), rfl, rfl, rfl, rfl⟩
        noGlobalIndex := iff_of_false (by rintro ⟨⟩) fun h => h.2 ⟨routed, hrouted⟩
        notServing := fun progress => iff_of_false (by rintro ⟨⟩) fun h =>
          h.2 ⟨routed.key, routed.entry, hrouted.1, hrouted.2.1⟩ }
    | none =>
      have hnone : ¬∃ c, s.Serves key equality range routing c := by
        rintro ⟨c, hc⟩
        have hmem := (hserves c).mp hc
        rw [maxBy_eq_none_iff.mp hmax] at hmem
        cases hmem
      have hany : ((keys.filterMap s.vsEntries.lookup).any fun entry => entry.status = .serving) ↔
          ∃ key' entry, s.Candidate key routing key' entry ∧ entry.status = .serving := by
        simp only [List.any_eq_true, List.mem_filterMap, decide_eq_true_eq, hcandidate]
        constructor
        · rintro ⟨entry, ⟨key', hmem, hlookup⟩, hstatus⟩
          exact ⟨key', entry, ⟨hmem, hlookup⟩, hstatus⟩
        · rintro ⟨key', entry, ⟨hmem, hlookup⟩, hstatus⟩
          exact ⟨entry, ⟨key', hmem, hlookup⟩, hstatus⟩
      dsimp only
      split
      · next hserving =>
        refine ⟨_, rfl, ?_⟩
        exact {
          notFound := iff_of_false (by rintro ⟨⟩) (by rw [hrequested]; rintro ⟨⟩)
          serving := iff_of_false (by rintro ⟨_, _, _, _, _, _, ⟨⟩⟩) hnone
          best := by rintro _ _ _ _ _ _ ⟨⟩
          noGlobalIndex := iff_of_true rfl ⟨hany.mp hserving, hnone⟩
          notServing := fun progress => iff_of_false (by rintro ⟨⟩) fun h => h.2 (hany.mp hserving) }
      · next hserving =>
        refine ⟨_, rfl, ?_⟩
        exact {
          notFound := iff_of_false (by rintro ⟨⟩) (by rw [hrequested]; rintro ⟨⟩)
          serving := iff_of_false (by rintro ⟨_, _, _, _, _, _, ⟨⟩⟩) hnone
          best := by rintro _ _ _ _ _ _ ⟨⟩
          noGlobalIndex := iff_of_false (by rintro ⟨⟩) fun h => hserving (hany.mpr h.1)
          notServing := fun progress => by
            rw [and_iff_left (fun h => hserving (hany.mpr h)), hrequested]
            constructor
            · rintro ⟨⟩
              exact ⟨requested, rfl, rfl⟩
            · rintro ⟨requested', heq, rfl⟩
              rw [Option.some_inj.mp heq] }

/-- Grouped states with the same entries route queries alike when the candidates that can serve have
different versions. -/
theorem Grouped.bestIndex_congr (h : s.Grouped) {s' : RoutedIndexes} (h' : s'.Grouped)
    (hsame : ∀ key, s'.vsEntries.lookup key = s.vsEntries.lookup key) (key : IndexKey)
    (equality range : List ColumnName) (routing : Bool)
    (hdistinct : ∀ c c', s.Serves key equality range routing c →
      s.Serves key equality range routing c' →
      VersionTicks.gregorianTicks c.entry.version = VersionTicks.gregorianTicks c'.entry.version →
      c.key = c'.key) :
    s'.bestIndex key equality range routing = s.bestIndex key equality range routing := by
  cases hrequested : s.vsEntries.lookup key with
  | none => rw [RoutedIndexes.bestIndex, RoutedIndexes.bestIndex, hsame, hrequested]
  | some requested =>
    obtain ⟨keys, hkeys, hcandidate⟩ := h.candidates_eq hrequested routing
    obtain ⟨keys', hkeys', hcandidate'⟩ := h'.candidates_eq ((hsame key).trans hrequested) routing
    have hmem : ∀ key' entry, key' ∈ keys' ∧ s.vsEntries.lookup key' = some entry ↔
        key' ∈ keys ∧ s.vsEntries.lookup key' = some entry := by
      intro key' entry
      rw [← hcandidate, ← hsame key', ← hcandidate']
      unfold Candidate
      rw [hsame key', hsame key]
    have hscored : ∀ c, c ∈ s'.scored equality range keys' ↔ c ∈ s.scored equality range keys := by
      intro c
      rw [mem_scored, mem_scored, hsame, ← and_assoc, hmem, and_assoc]
    have hserves : ∀ c, c ∈ s.scored equality range keys → s.Serves key equality range routing c := by
      intro c hc
      rw [mem_scored, ← and_assoc, ← hcandidate] at hc
      exact hc
    have hmax : maxBy Scored.cmp (s'.scored equality range keys') =
        maxBy Scored.cmp (s.scored equality range keys) := by
      refine maxBy_congr Scored.cmp_eq hscored fun c hc c' hc' hrank => ?_
      obtain ⟨⟨hentry, -⟩, -, hscore⟩ := hserves c ((hscored c).mp hc)
      obtain ⟨⟨hentry', -⟩, -, hscore'⟩ := hserves c' ((hscored c').mp hc')
      have hticks : VersionTicks.gregorianTicks c.entry.version =
          VersionTicks.gregorianTicks c'.entry.version :=
        UInt64.toNat_inj.mp (congrArg (fun r => (ofLex r).2) hrank)
      have hkey := hdistinct c c' (hserves c ((hscored c).mp hc))
        (hserves c' ((hscored c').mp hc')) hticks
      obtain ⟨key₁, score₁, entry₁⟩ := c
      obtain ⟨key₂, score₂, entry₂⟩ := c'
      obtain rfl : key₁ = key₂ := hkey
      obtain rfl := Option.some_inj.mp (hentry.symm.trans hentry')
      obtain rfl := Option.some_inj.mp (hscore.symm.trans hscore')
      rfl
    have hroute : s'.route requested equality range keys' =
        s.route requested equality range keys := by
      have hany : ((keys'.filterMap s'.vsEntries.lookup).any fun entry =>
          decide (entry.status = .serving)) =
            (keys.filterMap s.vsEntries.lookup).any fun entry =>
              decide (entry.status = .serving) := by
        rw [Bool.eq_iff_iff, List.any_eq_true, List.any_eq_true]
        refine exists_congr fun entry => and_congr_left fun _ => ?_
        rw [List.mem_filterMap, List.mem_filterMap]
        refine exists_congr fun key' => ?_
        rw [hsame]
        exact hmem key' entry
      unfold route
      rw [hmax, hany]
      cases maxBy Scored.cmp (s.scored equality range keys) with
      | none => rfl
      | some routed =>
        dsimp only
        rw [hsame]
    rw [RoutedIndexes.bestIndex, RoutedIndexes.bestIndex, hsame, hrequested]
    dsimp only
    rw [hkeys, hkeys']
    exact hroute

end RoutedIndexes

/-! ## The main result -/

open RoutedIndexes in
/-- In every reachable state a query gets a verdict, which does not depend on the order of the
insertions when the candidates that can serve have different versions.  A score does not underflow
when the partition columns are distinct, and is better with fewer uncovered columns. -/
theorem best_index_serves [VersionTicks] {s : RoutedIndexes} (h : s.Reachable) (key : IndexKey)
    (equality range : List ColumnName) (routing : Bool) :
    (∃ state, s.bestIndex key equality range routing = .ok state ∧
      s.Verdict key equality range routing state) ∧
    (∀ s' : RoutedIndexes, s'.Reachable →
      (∀ key', s'.vsEntries.lookup key' = s.vsEntries.lookup key') →
      (∀ c c', s.Serves key equality range routing c → s.Serves key equality range routing c' →
        VersionTicks.gregorianTicks c.entry.version =
          VersionTicks.gregorianTicks c'.entry.version → c.key = c'.key) →
      s'.bestIndex key equality range routing = s.bestIndex key equality range routing) ∧
    (∀ (entry : VsIndexEntry) (pkColumns : NonemptyBox ColumnName) (score : NeedsFiltering),
      entry.partitioning = .local pkColumns → pkColumns.toList.Nodup →
      entry.scoreIndex equality range = some score → pkColumns.length ≤ equality.length) ∧
    ∀ (entry entry' : VsIndexEntry) (score score' : NeedsFiltering),
      equality.length + range.length < 2 ^ 64 →
      (∀ pkColumns, entry.partitioning = .local pkColumns → pkColumns.toList.Nodup) →
      (∀ pkColumns, entry'.partitioning = .local pkColumns → pkColumns.toList.Nodup) →
      entry.scoreIndex equality range = some score →
      entry'.scoreIndex equality range = some score' →
      (score.cmp score' = .lt ↔
        entry'.uncovered equality range < entry.uncovered equality range) := by
  refine ⟨h.grouped.bestIndex key equality range routing, fun s' h' hsame hdistinct => ?_,
    fun _ _ _ hlocal hnodup hscore => VsIndexEntry.length_le_of_scoreIndex hlocal hnodup hscore,
    fun _ _ _ _ hsize hpk hpk' hscore hscore' => ?_⟩
  · exact h.grouped.bestIndex_congr h'.grouped hsame key equality range routing hdistinct
  · rw [NeedsFiltering.cmp_eq, compare_lt_iff_lt]
    exact VsIndexEntry.rank_lt_rank_iff hsize hpk hpk' hscore hscore'

namespace Sample

/-- The timestamp of a version that is made from one. -/
@[reducible] def versionTicks : VersionTicks where
  gregorianTicks version :=
    if version.extractLsb' 76 4 = 1#4 then
      UInt64.ofNat ((version.extractLsb' 64 12).toNat * 2 ^ 48 +
        (version.extractLsb' 80 16).toNat * 2 ^ 32 + (version.extractLsb' 96 32).toNat)
    else 0

/-- An entry of an index over one column, partitioned by its key column or not. -/
def routedEntry (partitioning : DbIndexPartitioning) (version : Uuid) : RoutedEntry where
  primaryKeyColumns := ⟨⟨"pk"⟩, []⟩
  partitioning
  filteringColumns := [⟨"pk"⟩]
  tableColumns := ∅
  index := 0
  status := .initializing
  progress := .done
  routingGroup := ⟨"ks", "table", ⟨⟨"v"⟩, []⟩⟩
  version

/-- An index is registered and begins to serve. -/
def served (s : RoutedIndexes) (key : IndexKey) (entry : RoutedEntry) : RoutedIndexes :=
  (s.insertVs key entry).update key .done .serving

theorem served_reachable {s : RoutedIndexes} (h : s.Reachable) {key : IndexKey}
    (entry : RoutedEntry) (habsent : s.containsKey key = false) : (served s key entry).Reachable :=
  .update _ _ _ (.insertVs _ h habsent)

theorem lookup_served (s : RoutedIndexes) (key key' : IndexKey) (entry : RoutedEntry) :
    (served s key entry).vsEntries.lookup key' =
      if key' = key then some { entry with progress := .done, status := .serving }
      else s.vsEntries.lookup key' := by
  have hsome : ((s.insertVs key entry).vsEntries.lookup key).isSome := by
    rw [RoutedIndexes.insertVs, AList.lookup_insert]
    rfl
  unfold served RoutedIndexes.update
  rw [if_pos hsome]
  dsimp only
  rw [FiniteMap.lookup_modify, RoutedIndexes.insertVs]
  dsimp only
  split
  · next heq => rw [heq, AList.lookup_insert, Option.map_some]
  · next hne => rw [AList.lookup_insert_ne hne]

/-- An older and a newer global index. -/
def oldEntry : RoutedEntry := routedEntry .global 0x00000001000010008000000000000000

def newEntry : RoutedEntry := routedEntry .global 0x00000002000010008000000000000000

/-- An index that is partitioned by the key column. -/
def localEntry : RoutedEntry :=
  routedEntry (.local ⟨⟨"pk"⟩, []⟩) 0x00000003000010008000000000000000

/-- Two global indexes and a local one, which serve. -/
def routedIndexes : RoutedIndexes :=
  served (served (served .new (.new "ks" "old") oldEntry) (.new "ks" "new") newEntry)
    (.new "ks" "local") localEntry

/-- The same indexes, registered in another order. -/
def reorderedIndexes : RoutedIndexes :=
  served (served (served .new (.new "ks" "local") localEntry) (.new "ks" "new") newEntry)
    (.new "ks" "old") oldEntry

theorem routedIndexes_reachable : routedIndexes.Reachable :=
  served_reachable (served_reachable (served_reachable .new _ (by decide +kernel)) _
    (by decide +kernel)) _ (by decide +kernel)

theorem reorderedIndexes_reachable : reorderedIndexes.Reachable :=
  served_reachable (served_reachable (served_reachable .new _ (by decide +kernel)) _
    (by decide +kernel)) _ (by decide +kernel)

theorem lookup_reorderedIndexes (key : IndexKey) :
    reorderedIndexes.vsEntries.lookup key = routedIndexes.vsEntries.lookup key := by
  unfold reorderedIndexes routedIndexes
  rcases eq_or_ne key (.new "ks" "old") with rfl | hold
  · rw [lookup_served, if_pos rfl, lookup_served, if_neg (by decide), lookup_served,
      if_neg (by decide), lookup_served, if_pos rfl]
  · simp only [lookup_served, if_neg hold]
    split_ifs with hnew hlocal
    · exact absurd (hnew.symm.trans hlocal) (by decide)
    all_goals rfl

attribute [local instance] versionTicks in
/-- No two of the indexes have one version. -/
theorem key_eq_of_ticks_eq : ∀ key ∈ routedIndexes.vsEntries.keys,
    ∀ key' ∈ routedIndexes.vsEntries.keys,
      (routedIndexes.vsEntries.lookup key).map
          (fun entry => VersionTicks.gregorianTicks entry.version) =
        (routedIndexes.vsEntries.lookup key').map
          (fun entry => VersionTicks.gregorianTicks entry.version) → key = key' := by
  decide +kernel

attribute [local instance] versionTicks in
/-- A query gets its verdict, the same one in the other order, and a local index is better for the
query of a partition than a global one. -/
theorem best_index_serves_routedIndexes :
    (∃ state, routedIndexes.bestIndex (.new "ks" "old") [⟨"pk"⟩] [] true = .ok state ∧
      routedIndexes.Verdict (.new "ks" "old") [⟨"pk"⟩] [] true state) ∧
    reorderedIndexes.bestIndex (.new "ks" "old") [⟨"pk"⟩] [] true =
      routedIndexes.bestIndex (.new "ks" "old") [⟨"pk"⟩] [] true ∧
    1 ≤ [(⟨"pk"⟩ : ColumnName)].length ∧
    (NeedsFiltering.no.cmp (.yes 1) = .lt ↔
      oldEntry.uncovered [⟨"pk"⟩] [] < localEntry.uncovered [⟨"pk"⟩] []) := by
  obtain ⟨hverdict, horder, hlocal, hbetter⟩ :=
    best_index_serves routedIndexes_reachable (.new "ks" "old") [⟨"pk"⟩] [] true
  refine ⟨hverdict, horder reorderedIndexes reorderedIndexes_reachable lookup_reorderedIndexes ?_,
    hlocal localEntry.toVsIndexEntry ⟨⟨"pk"⟩, []⟩ .no rfl (by decide) (by decide +kernel),
    hbetter localEntry.toVsIndexEntry oldEntry.toVsIndexEntry .no (.yes 1) (by decide) ?_ ?_
      (by decide +kernel) (by decide +kernel)⟩
  · intro c c' h h' hticks
    refine key_eq_of_ticks_eq _ (AList.lookup_isSome.mp ?_) _ (AList.lookup_isSome.mp ?_) ?_
    · rw [h.1.1]
      rfl
    · rw [h'.1.1]
      rfl
    · rw [h.1.1, h'.1.1, Option.map_some, Option.map_some, hticks]
  · rintro pkColumns hpk
    obtain rfl := DbIndexPartitioning.local.inj hpk
    decide
  · rintro pkColumns hpk
    cases hpk

/-- The key that a query is routed to. -/
def routedKey : Except String BestIndexState → Option IndexKey
  | .ok (.serving key _ _ _ _ _) => some key
  | _ => none

attribute [local instance] versionTicks in
/-- A query for one partition goes to the local index, any other one to the newest index. -/
example : routedKey (routedIndexes.bestIndex (.new "ks" "old") [⟨"pk"⟩] [] true) =
      some (.new "ks" "local") ∧
    routedKey (routedIndexes.bestIndex (.new "ks" "old") [] [] true) = some (.new "ks" "new") ∧
    routedKey (routedIndexes.bestIndex (.new "ks" "old") [] [] false) = some (.new "ks" "old") := by
  decide +kernel

end Sample

end VectorStore
