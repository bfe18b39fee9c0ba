import ChipSystemSim.Intervals
import ChipSystemSim.TransferTiming
import Mathlib.Algebra.BigOperators.Ring.Finset

/-! The `pipe-metric` records with all the fields that the two summaries read,
the counters of the transport metrics in each scope, and the balances between
them. -/

namespace ChipSystemSim

structure PipeRecord extends MetricRecord where
  /-- whether `cross_node` is there and holds -/
  crossNode : Bool
  elapsedNs : Option Int
  synchronizationWaitNs : Option Int
  deriving DecidableEq

/-- An operation that a router has completed. The monotonic clock does not go back; the wall
clock may be set while the operation waits. -/
structure Operation (routing : Routing) where
  slot : Slot
  op : Op
  name : Text
  byteCount : Nat
  peer : Slot
  routed : (Router.init slot routing).peerFor op name = .ok peer
  startedMonotonicNs : Int
  finishedMonotonicNs : Int
  forward : startedMonotonicNs ≤ finishedMonotonicNs
  startedUnixNs : Int
  finishedUnixNs : Int

/-- The record that `handle` prints. -/
def Operation.record {routing : Routing} (o : Operation routing) : PipeRecord where
  operation := some (operationText o.op)
  pipeName := some o.name
  bytes := some o.byteCount
  sourceSlot := some o.slot
  peerSlot := some o.peer
  transportScope := some (transportScope (Router.init o.slot routing) o.peer)
  crossNode := physicalSlot routing o.slot ≠ physicalSlot routing o.peer
  startedUnixNs := some o.startedUnixNs
  finishedUnixNs := some o.finishedUnixNs
  elapsedNs := some (o.finishedMonotonicNs - o.startedMonotonicNs)
  synchronizationWaitNs :=
    some (if o.op = .R then o.finishedMonotonicNs - o.startedMonotonicNs else 0)

theorem Operation.name_ne_nil {routing : Routing} (o : Operation routing) : o.name ≠ [] := by
  intro h
  have hrouted := o.routed
  rw [h] at hrouted
  cases hrouted

def PipeRecord.groups (r : PipeRecord) : List Group :=
  selectedGroups (classifyScope r.toMetricRecord)

def inGroup (records : List PipeRecord) (group : Group) : List PipeRecord :=
  records.filter fun r => group ∈ r.groups

/-- The interval of a read, unless the clock went back in it. -/
def PipeRecord.rawInterval (r : PipeRecord) : Option (Int × Int) := do
  let started ← r.startedUnixNs
  let finished ← r.finishedUnixNs
  if r.operation = some readOperation ∧ started ≤ finished then some (started, finished) else none

structure PipeCounters where
  records : Nat
  bytes : Int
  elapsedNs : Int
  syncWaitNs : Int
  writes : Nat
  reads : Nat
  syncWallUnionNs : Int
  syncWallIntervalCount : Nat
  transport : TransportCounters

/-- `collect_pipe_metrics` on the records of a log: the counters of one group. -/
def collectPipeMetrics (records : List PipeRecord) (group : Group) : PipeCounters where
  records := (inGroup records group).length
  bytes := ((inGroup records group).map fun r => r.bytes.getD 0).sum
  elapsedNs := ((inGroup records group).map fun r => r.elapsedNs.getD 0).sum
  syncWaitNs := ((inGroup records group).map fun r => r.synchronizationWaitNs.getD 0).sum
  writes := (inGroup records group).countP fun r => r.operation = some writeOperation
  reads := (inGroup records group).countP fun r => r.operation = some readOperation
  syncWallUnionNs := intervalUnion ((inGroup records group).filterMap PipeRecord.rawInterval)
  syncWallIntervalCount := ((inGroup records group).filterMap PipeRecord.rawInterval).length
  transport := collectExposedTransportMetrics PipeRecord.toMetricRecord records group

/-- The counters that are sums over the records or over the pairs. -/
def PipeCounters.additive (c : PipeCounters) : List Int :=
  [c.records, c.bytes, c.elapsedNs, c.syncWaitNs, c.writes, c.reads, c.syncWallIntervalCount,
    c.transport.transportPairs, c.transport.transportUnmatchedWrites,
    c.transport.transportUnmatchedReads, c.transport.transportExposedSyncWallSumNs]

def PipeCounters.values (c : PipeCounters) : List Int :=
  c.additive ++ [c.syncWallUnionNs, c.transport.transportExposedSyncWallUnionNs]

/-- The transfers of a group account for its records, and their intervals for its waiting time. -/
structure PipeCounters.Balanced (c : PipeCounters) : Prop where
  writes : c.transport.transportPairs + c.transport.transportUnmatchedWrites = c.writes
  reads : c.transport.transportPairs + c.transport.transportUnmatchedReads = c.reads
  exposed_le_sum : c.transport.transportExposedSyncWallUnionNs ≤
    c.transport.transportExposedSyncWallSumNs
  exposed_le_raw : c.transport.transportExposedSyncWallUnionNs ≤ c.syncWallUnionNs

section Union

/-- The sweep from its current interval on. -/
theorem unionFrom_eq {total start finish : Int} {l : List (Int × Int)} (hle : start ≤ finish)
    (hl : l.Pairwise fun i j => i.1 ≤ j.1) (hstart : ∀ i ∈ l, start ≤ i.1)
    (hproper : ∀ i ∈ l, i.1 ≤ i.2) :
    unionFrom total start finish l = total + (Finset.Ico start finish ∪ covered l).card := by
  induction l generalizing total start finish with
  | nil =>
    rw [unionFrom, covered_nil, Finset.union_empty, Int.card_Ico_of_le _ _ hle]
    omega
  | cons i l ih =>
    obtain ⟨start', finish'⟩ := i
    rw [List.pairwise_cons] at hl
    have hnext := hstart (start', finish') (by simp)
    have hproper' := fun j hj => hproper j (List.mem_cons_of_mem (start', finish') hj)
    dsimp only at hnext
    rw [unionFrom, covered_cons]
    split
    · rename_i hinside
      rw [ih (by omega) hl.2 (fun j hj => hstart j (List.mem_cons_of_mem _ hj)) hproper',
        ← Finset.union_assoc, Ico_extend hnext hinside]
    · rename_i hgap
      have hbehind : ∀ j ∈ (start', finish') :: l, finish ≤ j.1 := by
        intro j hj
        rcases List.mem_cons.mp hj with rfl | hj
        · exact (not_le.mp hgap).le
        · exact (not_le.mp hgap).le.trans (hl.1 j hj)
      have hcard := card_gap hle hbehind
      rw [covered_cons] at hcard
      rw [ih (hproper (start', finish') (by simp)) hl.2 hl.1 hproper']
      omega

theorem intervalUnion_eq {l : List (Int × Int)} (h : ∀ i ∈ l, i.1 ≤ i.2) :
    intervalUnion l = (covered l).card := by
  have hmem : ∀ i, i ∈ l ↔ i ∈ l.mergeSort fun i j => i.1 < j.1 ∨ (i.1 = j.1 ∧ i.2 ≤ j.2) :=
    fun i => List.mem_mergeSort.symm
  have hsorted := sorted_starts l
  rw [intervalUnion, covered_congr hmem]
  simp only [hmem] at h
  cases hsort : l.mergeSort fun i j => i.1 < j.1 ∨ (i.1 = j.1 ∧ i.2 ≤ j.2) with
  | nil => rfl
  | cons i rest =>
    rw [hsort, List.pairwise_cons] at hsorted
    rw [hsort] at h
    dsimp only
    rw [unionFrom_eq (h i (by simp)) hsorted.2 hsorted.1 fun j hj =>
      h j (List.mem_cons_of_mem _ hj), covered_cons,
      zero_add]

end Union

section Groups

/-- Groups as the scope of a record selects them, or none. -/
def FromScope (groups : List Group) : Prop := groups = [] ∨ ∃ scope, groups = selectedGroups scope

theorem fromScope_split {groups : List Group} (h : FromScope groups) :
    (Group.all ∈ groups ↔ Group.sameLogicalWorker ∈ groups ∨ Group.crossLegosim ∈ groups) ∧
      ¬ (Group.sameLogicalWorker ∈ groups ∧ Group.crossLegosim ∈ groups) := by
  rcases h with rfl | ⟨scope, rfl⟩
  · simp
  · unfold selectedGroups
    split
    · decide
    · split <;> decide

theorem fromScope_physical {groups : List Group} (h : FromScope groups)
    (hmem : Group.crossPhysicalHost ∈ groups) : Group.crossLegosim ∈ groups := by
  rcases h with rfl | ⟨scope, rfl⟩
  · cases hmem
  · unfold selectedGroups at hmem ⊢
    split at hmem
    · exact absurd hmem (by decide)
    · rename_i hscope
      split at hmem
      · rename_i hphysical
        rw [if_neg hscope, if_pos hphysical]
        decide
      · exact absurd hmem (by decide)

variable {α : Type} {groups : α → List Group} {f : α → Int} {l : List α}

/-- What the members of a group add up to. -/
def groupSum (groups : α → List Group) (f : α → Int) (l : List α) (group : Group) : Int :=
  (l.map fun a => if group ∈ groups a then f a else 0).sum

theorem groupSum_split (h : ∀ a ∈ l, FromScope (groups a)) :
    groupSum groups f l .all = groupSum groups f l .sameLogicalWorker +
      groupSum groups f l .crossLegosim := by
  rw [groupSum, groupSum, groupSum, ← List.sum_map_add]
  congr 1
  refine List.map_congr_left fun a ha => ?_
  obtain ⟨hall, hboth⟩ := fromScope_split (h a ha)
  by_cases hsame : Group.sameLogicalWorker ∈ groups a
  · have hcross : Group.crossLegosim ∉ groups a := fun hcross => hboth ⟨hsame, hcross⟩
    rw [if_pos (hall.mpr (.inl hsame)), if_pos hsame, if_neg hcross, add_zero]
  · by_cases hcross : Group.crossLegosim ∈ groups a
    · rw [if_pos (hall.mpr (.inr hcross)), if_neg hsame, if_pos hcross, zero_add]
    · have hnone : Group.all ∉ groups a := fun hmem => (hall.mp hmem).elim hsame hcross
      rw [if_neg hnone, if_neg hsame, if_neg hcross, add_zero]

theorem groupSum_physical_le (h : ∀ a ∈ l, FromScope (groups a)) (hf : ∀ a ∈ l, 0 ≤ f a) :
    groupSum groups f l .crossPhysicalHost ≤ groupSum groups f l .crossLegosim := by
  rw [groupSum, groupSum]
  refine List.sum_le_sum fun a ha => ?_
  by_cases hphysical : Group.crossPhysicalHost ∈ groups a
  · rw [if_pos hphysical, if_pos (fromScope_physical (h a ha) hphysical)]
  · rw [if_neg hphysical]
    split
    · exact hf a ha
    · exact le_refl _

theorem sum_filter_eq (groups : α → List Group) (f : α → Int) (l : List α) (group : Group) :
    ((l.filter fun a => group ∈ groups a).map f).sum = groupSum groups f l group := by
  induction l with
  | nil => rfl
  | cons a l ih =>
    rw [groupSum] at ih ⊢
    rw [List.map_cons, List.sum_cons, ← ih, List.filter_cons]
    by_cases ha : group ∈ groups a
    · simp [ha]
    · simp [ha]

theorem length_filter_eq (groups : α → List Group) (l : List α) (group : Group) :
    ((l.filter fun a => group ∈ groups a).length : Int) = groupSum groups (fun _ => 1) l group := by
  rw [← sum_filter_eq, List.map_const', List.sum_replicate]
  simp

theorem countP_filter_eq (groups : α → List Group) (p : α → Bool) (l : List α) (group : Group) :
    ((l.filter fun a => group ∈ groups a).countP p : Int) =
      groupSum groups (fun a => if p a then 1 else 0) l group := by
  rw [← sum_filter_eq]
  induction l.filter fun a => group ∈ groups a with
  | nil => rfl
  | cons a m ih =>
    rw [List.countP_cons, List.map_cons, List.sum_cons, ← ih]
    split
    · push_cast
      omega
    · simp

end Groups

section Keys

variable {ρ : Type} {fields : ρ → MetricRecord} {records : List ρ} {key : TransferKey}
  {scopeOf : TransferKey → Text}

/-- Every record has a key, and those with one key have one scope. -/
def KeyScoped (fields : ρ → MetricRecord) (scopeOf : TransferKey → Text) (records : List ρ) :
    Prop :=
  ∀ r ∈ records, ∃ key, transferKey (fields r) = some key ∧ classifyScope (fields r) = scopeOf key

theorem KeyScoped.scope (h : KeyScoped fields scopeOf records) {r : ρ} (hr : r ∈ records)
    (hkey : transferKey (fields r) = some key) : classifyScope (fields r) = scopeOf key := by
  obtain ⟨key', hkey', hscope⟩ := h r hr
  cases hkey.symm.trans hkey'
  exact hscope

theorem mem_items {r : ρ} (hr : r ∈ records) (hkey : transferKey (fields r) = some key) :
    r ∈ writeItems fields records key ++ readItems fields records key := by
  obtain ⟨a, b, x, n⟩ := key
  rw [List.mem_append, mem_writeItems, mem_readItems]
  obtain ⟨-, -, -, ⟨hoperation, -⟩ | ⟨hoperation, -⟩⟩ := transferKey_eq_some_iff.mp hkey
  · exact .inl ⟨hr, hkey, hoperation⟩
  · exact .inr ⟨hr, hkey, hoperation⟩

theorem items_key {r : ρ} (h : r ∈ writeItems fields records key ++ readItems fields records key) :
    r ∈ records ∧ transferKey (fields r) = some key := by
  rw [List.mem_append, mem_writeItems, mem_readItems] at h
  rcases h with h | h
  · exact ⟨h.1, h.2.1⟩
  · exact ⟨h.1, h.2.1⟩

theorem groupsAt_eq (h : KeyScoped fields scopeOf records)
    (hkey : key ∈ transferKeys fields records) :
    groupsAt fields records key = selectedGroups (scopeOf key) := by
  obtain ⟨r, hr, hrkey⟩ := mem_transferKeys.mp hkey
  rw [groupsAt]
  cases hhead : (writeItems fields records key ++ readItems fields records key).head? with
  | none =>
    rw [List.head?_eq_none_iff] at hhead
    have hmem := mem_items hr hrkey
    rw [hhead] at hmem
    cases hmem
  | some first =>
    obtain ⟨hfirst, hfirstkey⟩ := items_key (List.mem_of_head? hhead)
    dsimp only
    rw [h.scope hfirst hfirstkey]

/-- A list is counted by the keys of its members. -/
theorem sum_countP_keys {keys : List TransferKey} (hkeys : keys.Nodup) {k : ρ → Option TransferKey}
    {p : ρ → Bool} {l : List ρ} (h : ∀ r ∈ l, p r = true → ∃ key ∈ keys, k r = some key) :
    (keys.map fun key => l.countP fun r => p r ∧ k r = some key).sum = l.countP p := by
  induction l with
  | nil => simp
  | cons r l ih =>
    have hl := ih fun q hq => h q (List.mem_cons_of_mem _ hq)
    simp only [List.countP_cons, List.sum_map_add, hl, Nat.add_left_cancel_iff]
    by_cases hp : p r = true
    · obtain ⟨key, hkey, hk⟩ := h r (by simp) hp
      rw [← List.sum_toFinset _ hkeys]
      simp only [hp, hk, true_and, decide_eq_true_eq, Option.some.injEq, if_true, Finset.sum_ite_eq,
        List.mem_toFinset, if_pos hkey]
    · simp [hp]

/-- The records of a group, one key after the other. -/
theorem countP_group (h : KeyScoped fields scopeOf records) (group : Group) (operation : Text) :
    (records.countP fun r => (fields r).operation = some operation ∧
      group ∈ selectedGroups (classifyScope (fields r))) =
      ((transferKeys fields records).map fun key => if group ∈ selectedGroups (scopeOf key) then
        records.countP fun r => transferKey (fields r) = some key ∧
        (fields r).operation = some operation else 0).sum := by
  rw [← sum_countP_keys (transferKeys_nodup fields records) (k := fun r => transferKey (fields r))]
  · congr 1
    refine List.map_congr_left fun key _ => ?_
    by_cases hgroup : group ∈ selectedGroups (scopeOf key)
    · rw [if_pos hgroup]
      refine List.countP_congr fun r hr => ?_
      simp only [decide_eq_true_eq]
      constructor
      · rintro ⟨⟨hoperation, -⟩, hkey⟩
        exact ⟨hkey, hoperation⟩
      · rintro ⟨hkey, hoperation⟩
        rw [h.scope hr hkey]
        exact ⟨⟨hoperation, hgroup⟩, hkey⟩
    · rw [if_neg hgroup, List.countP_eq_zero]
      intro r hr hmem
      simp only [decide_eq_true_eq] at hmem
      rw [h.scope hr hmem.2] at hmem
      exact hgroup hmem.1.2
  · intro r hr _
    obtain ⟨key, hkey, -⟩ := h r hr
    exact ⟨key, mem_transferKeys.mpr ⟨r, hr, hkey⟩, hkey⟩

theorem transfersAt_key {m : Transfer ρ} (h : m ∈ transfersAt fields records key) :
    (m.write ∈ records ∧ transferKey (fields m.write) = some key) ∧
      m.read ∈ records ∧ transferKey (fields m.read) = some key ∧
      (fields m.read).operation = some readOperation := by
  have hzip := List.of_mem_zip (transfersAt_zip h)
  obtain ⟨hw, hwkey, -⟩ := mem_writeItems.mp hzip.1
  exact ⟨⟨hw, hwkey⟩, mem_readItems.mp hzip.2⟩

theorem length_groupTransfers (h : KeyScoped fields scopeOf records) (group : Group) :
    (groupTransfers fields records group).length =
      ((transferKeys fields records).map fun key => if group ∈ selectedGroups (scopeOf key) then
        (transfersAt fields records key).length else 0).sum := by
  rw [groupTransfers, transfers, List.filter_flatMap, List.length_flatMap]
  congr 1
  refine List.map_congr_left fun key _ => ?_
  by_cases hgroup : group ∈ selectedGroups (scopeOf key)
  · rw [if_pos hgroup, List.filter_eq_self.mpr]
    intro m hm
    obtain ⟨⟨hw, hwkey⟩, -⟩ := transfersAt_key hm
    rw [decide_eq_true_eq, h.scope hw hwkey]
    exact hgroup
  · rw [if_neg hgroup, List.length_eq_zero_iff, List.filter_eq_nil_iff]
    intro m hm hmem
    obtain ⟨⟨hw, hwkey⟩, -⟩ := transfersAt_key hm
    rw [decide_eq_true_eq, h.scope hw hwkey] at hmem
    exact hgroup hmem

theorem length_transfersAt_le (fields : ρ → MetricRecord) (records : List ρ) (key : TransferKey) :
    (transfersAt fields records key).length ≤ (writeItems fields records key).length ∧
      (transfersAt fields records key).length ≤ (readItems fields records key).length := by
  have hlength : (transfersAt fields records key).length ≤
      ((writeItems fields records key).zip (readItems fields records key)).length :=
        List.length_filterMap_le _ _
  rw [List.length_zip] at hlength
  omega

/-- The pairs of a group and its unmatched items are its items. -/
theorem pairs_add_unmatched (h : KeyScoped fields scopeOf records) (group : Group)
    {items : TransferKey → List ρ}
    (hitems : ∀ key, (transfersAt fields records key).length ≤ (items key).length) :
    (groupTransfers fields records group).length +
        ((transferKeys fields records).map (unmatchedAt fields items records group)).sum =
      ((transferKeys fields records).map fun key =>
        if group ∈ selectedGroups (scopeOf key) then (items key).length else 0).sum := by
  rw [length_groupTransfers h, ← List.sum_map_add]
  congr 1
  refine List.map_congr_left fun key hkey => ?_
  rw [unmatchedAt, groupsAt_eq h hkey]
  split
  · exact Nat.add_sub_cancel' (hitems key)
  · rfl

/-- The pairs of a group and its unmatched items of one operation. -/
theorem pairs_add_unmatched_eq (h : KeyScoped fields scopeOf records) (group : Group)
    (operation : Text) {items : TransferKey → List ρ}
    (hle : ∀ key, (transfersAt fields records key).length ≤ (items key).length)
    (hitems : ∀ key, (items key).length =
      records.countP fun r => transferKey (fields r) = some key ∧
      (fields r).operation = some operation) :
    (groupTransfers fields records group).length +
        ((transferKeys fields records).map (unmatchedAt fields items records group)).sum =
      records.countP fun r => (fields r).operation = some operation ∧
        group ∈ selectedGroups (classifyScope (fields r)) := by
  have hpairs := pairs_add_unmatched h group hle
  simp only [hitems] at hpairs
  rw [hpairs]
  exact (countP_group h group operation).symm

theorem pairs_add_unmatchedWrites (h : KeyScoped fields scopeOf records) (group : Group) :
    (collectExposedTransportMetrics fields records group).transportPairs +
        (collectExposedTransportMetrics fields records group).transportUnmatchedWrites =
      records.countP fun r => (fields r).operation = some writeOperation ∧
        group ∈ selectedGroups (classifyScope (fields r)) := by
  apply pairs_add_unmatched_eq h group writeOperation
  · exact fun key => (length_transfersAt_le fields records key).1
  · intro key
    rw [writeItems, List.length_mergeSort, writesAt, List.countP_eq_length_filter]

theorem pairs_add_unmatchedReads (h : KeyScoped fields scopeOf records) (group : Group) :
    (collectExposedTransportMetrics fields records group).transportPairs +
        (collectExposedTransportMetrics fields records group).transportUnmatchedReads =
      records.countP fun r => (fields r).operation = some readOperation ∧
        group ∈ selectedGroups (classifyScope (fields r)) := by
  apply pairs_add_unmatched_eq h group readOperation
  · exact fun key => (length_transfersAt_le fields records key).2
  · intro key
    rw [readItems, List.length_mergeSort, readsAt, List.countP_eq_length_filter]

end Keys

section Exposed

variable {records : List PipeRecord} {group : Group}

theorem transferOf_interval {write read : PipeRecord} {m : Transfer PipeRecord}
    (h : transferOf PipeRecord.toMetricRecord write read = some m) :
    m.interval.1 ≤ m.interval.2 ∧ ∃ started finished, read.startedUnixNs = some started ∧
      read.finishedUnixNs = some finished ∧ started ≤ m.interval.1 ∧ m.interval.2 = finished := by
  simp only [transferOf, Option.bind_eq_bind, Option.bind_eq_some_iff] at h
  obtain ⟨writeStarted, -, started, hstarted, finished, hfinished, h⟩ := h
  split at h
  · cases h
  · rename_i hle
    cases h
    exact ⟨not_lt.mp hle, started, finished, hstarted, hfinished, le_max_right _ _, rfl⟩

theorem rawInterval_eq_some {r : PipeRecord} {i : Int × Int} :
    r.rawInterval = some i ↔ r.operation = some readOperation ∧ r.startedUnixNs = some i.1 ∧
      r.finishedUnixNs = some i.2 ∧ i.1 ≤ i.2 := by
  simp only [PipeRecord.rawInterval, Option.bind_eq_bind, Option.bind_eq_some_iff,
    Option.ite_none_right_eq_some, Option.some.injEq]
  constructor
  · rintro ⟨started, hstarted, finished, hfinished, ⟨hread, hle⟩, rfl⟩
    exact ⟨hread, hstarted, hfinished, hle⟩
  · rintro ⟨hread, hstarted, hfinished, hle⟩
    exact ⟨i.1, hstarted, i.2, hfinished, ⟨hread, hle⟩, rfl⟩

theorem mem_groupTransfers {m : Transfer PipeRecord} :
    m ∈ groupTransfers PipeRecord.toMetricRecord records group ↔
      m ∈ transfers PipeRecord.toMetricRecord records ∧ group ∈ m.write.groups := by
  rw [groupTransfers, List.mem_filter, decide_eq_true_eq]
  rfl

theorem transfers_proper {m : Transfer PipeRecord}
    (h : m ∈ transfers PipeRecord.toMetricRecord records) : m.interval.1 ≤ m.interval.2 := by
  obtain ⟨key, -, hm⟩ := List.mem_flatMap.mp h
  obtain ⟨u, -, hu⟩ := List.mem_filterMap.mp hm
  exact (transferOf_interval hu).1

theorem exposed_proper :
    ∀ i ∈ (groupTransfers PipeRecord.toMetricRecord records group).map Transfer.interval,
    i.1 ≤ i.2 := by
  intro i hi
  obtain ⟨m, hm, rfl⟩ := List.mem_map.mp hi
  exact transfers_proper (mem_groupTransfers.mp hm).1

theorem raw_proper : ∀ i ∈ (inGroup records group).filterMap PipeRecord.rawInterval, i.1 ≤ i.2 := by
  intro i hi
  obtain ⟨r, -, hr⟩ := List.mem_filterMap.mp hi
  exact (rawInterval_eq_some.mp hr).2.2.2

/-- What is exposed of a transfer lies in the interval of its read, which is in the same group. -/
theorem exposed_in_raw {scopeOf : TransferKey → Text}
    (h : KeyScoped PipeRecord.toMetricRecord scopeOf records) :
    ∀ i ∈ (groupTransfers PipeRecord.toMetricRecord records group).map Transfer.interval,
      ∃ j ∈ (inGroup records group).filterMap PipeRecord.rawInterval, j.1 ≤ i.1 ∧ i.2 ≤ j.2 := by
  intro i hi
  obtain ⟨m, hm, rfl⟩ := List.mem_map.mp hi
  obtain ⟨htransfer, hgroup⟩ := mem_groupTransfers.mp hm
  obtain ⟨key, -, hat⟩ := List.mem_flatMap.mp htransfer
  obtain ⟨⟨hw, hwkey⟩, hr, hrkey, hread⟩ := transfersAt_key hat
  obtain ⟨u, -, hu⟩ := List.mem_filterMap.mp hat
  obtain ⟨hproper, started, finished, hstarted, hfinished, hle, heq⟩ := transferOf_interval hu
  rw [← (transferOf_items hu).2] at hstarted hfinished
  refine ⟨(started, finished), List.mem_filterMap.mpr ⟨m.read, ?_, ?_⟩, hle, heq.le⟩
  · rw [inGroup, List.mem_filter, decide_eq_true_eq]
    refine ⟨hr, ?_⟩
    rw [PipeRecord.groups, h.scope hr hrkey, ← h.scope hw hwkey]
    exact hgroup
  · exact rawInterval_eq_some.mpr ⟨hread, hstarted, hfinished, by dsimp only; omega⟩

theorem countP_inGroup (records : List PipeRecord) (group : Group) (operation : Text) :
    ((inGroup records group).countP fun r => r.operation = some operation) =
      records.countP fun r => r.operation = some operation ∧
        group ∈ selectedGroups (classifyScope r.toMetricRecord) := by
  rw [inGroup, List.countP_filter]
  refine List.countP_congr fun r _ => ?_
  rw [Bool.and_eq_true, decide_eq_true_eq, decide_eq_true_eq, decide_eq_true_eq]
  rfl

theorem balanced_of_keyScoped {scopeOf : TransferKey → Text}
    (h : KeyScoped PipeRecord.toMetricRecord scopeOf records) (group : Group) :
    (collectPipeMetrics records group).Balanced := by
  constructor
  · exact (pairs_add_unmatchedWrites h group).trans
      (countP_inGroup records group writeOperation).symm
  · exact (pairs_add_unmatchedReads h group).trans (countP_inGroup records group readOperation).symm
  · have hsum := card_covered_le_sum (@exposed_proper records group)
    rw [← intervalUnion_eq exposed_proper, List.map_map] at hsum
    exact hsum
  · have hsubset := Finset.card_le_card (covered_subset (@exposed_in_raw records group scopeOf h))
    show intervalUnion _ ≤ intervalUnion _
    rw [intervalUnion_eq exposed_proper, intervalUnion_eq raw_proper]
    exact Int.ofNat_le.mpr hsubset

end Exposed

section Sums

variable (records : List PipeRecord) (group : Group)

theorem groupsAt_fromScope (key : TransferKey) :
    FromScope (groupsAt PipeRecord.toMetricRecord records key) := by
  rw [groupsAt]
  split
  · exact .inr ⟨_, rfl⟩
  · exact .inl rfl

theorem sum_unmatched_eq (items : TransferKey → List PipeRecord) :
    ((((transferKeys PipeRecord.toMetricRecord records).map
        (unmatchedAt PipeRecord.toMetricRecord items records group)).sum : Nat) : Int) =
      groupSum (groupsAt PipeRecord.toMetricRecord records)
        (fun key =>
          ((items key).length - (transfersAt PipeRecord.toMetricRecord records key).length : Nat))
        (transferKeys PipeRecord.toMetricRecord records) group := by
  rw [groupSum, Nat.cast_list_sum, List.map_map]
  congr 1
  refine List.map_congr_left fun key _ => ?_
  rw [Function.comp_apply, unmatchedAt]
  split <;> rfl

/-- The additive counters as sums over the records, the pairs and the keys. -/
theorem additive_eq :
    (collectPipeMetrics records group).additive =
      [groupSum PipeRecord.groups (fun _ => 1) records group,
        groupSum PipeRecord.groups (fun r => r.bytes.getD 0) records group,
        groupSum PipeRecord.groups (fun r => r.elapsedNs.getD 0) records group,
        groupSum PipeRecord.groups (fun r => r.synchronizationWaitNs.getD 0) records group,
        groupSum PipeRecord.groups
          (fun r => if decide (r.operation = some writeOperation) = true then 1 else 0)
          records group,
        groupSum PipeRecord.groups
          (fun r => if decide (r.operation = some readOperation) = true then 1 else 0)
          records group,
        groupSum PipeRecord.groups (fun r => if r.rawInterval.isSome = true then 1 else 0)
          records group,
        groupSum (fun m => selectedGroups (classifyScope m.write.toMetricRecord)) (fun _ => 1)
          (transfers PipeRecord.toMetricRecord records) group,
        groupSum (groupsAt PipeRecord.toMetricRecord records)
          (fun key => ((writeItems PipeRecord.toMetricRecord records key).length -
            (transfersAt PipeRecord.toMetricRecord records key).length : Nat))
          (transferKeys PipeRecord.toMetricRecord records) group,
        groupSum (groupsAt PipeRecord.toMetricRecord records)
          (fun key => ((readItems PipeRecord.toMetricRecord records key).length -
            (transfersAt PipeRecord.toMetricRecord records key).length : Nat))
          (transferKeys PipeRecord.toMetricRecord records) group,
        groupSum (fun m => selectedGroups (classifyScope m.write.toMetricRecord))
          (fun m => m.interval.2 - m.interval.1) (transfers PipeRecord.toMetricRecord records)
            group] := by
  simp only [PipeCounters.additive, collectPipeMetrics, collectExposedTransportMetrics, inGroup,
    groupTransfers, sum_unmatched_eq, List.length_filterMap_eq_countP, countP_filter_eq,
    length_filter_eq, sum_filter_eq]

/-- Every additive counter of all the records is that of the two halves together. -/
theorem additive_split :
    (collectPipeMetrics records .all).additive =
      List.zipWith (· + ·) (collectPipeMetrics records .sameLogicalWorker).additive
        (collectPipeMetrics records .crossLegosim).additive := by
  have hrecords : ∀ f : PipeRecord → Int, groupSum PipeRecord.groups f records .all = _ :=
    fun f => groupSum_split fun _ _ => .inr ⟨_, rfl⟩
  have hpairs : ∀ f, groupSum
      (fun m : Transfer PipeRecord => selectedGroups (classifyScope m.write.toMetricRecord)) f
      (transfers PipeRecord.toMetricRecord records) .all = _ :=
        fun f => groupSum_split fun _ _ => .inr ⟨_, rfl⟩
  have hkeys : ∀ f, groupSum (groupsAt PipeRecord.toMetricRecord records) f
      (transferKeys PipeRecord.toMetricRecord records) .all = _ :=
    fun f => groupSum_split fun key _ => groupsAt_fromScope records key
  simp only [additive_eq, hrecords, hpairs, hkeys, List.zipWith_cons_cons, List.zipWith_nil_left]

/-- The fields of a record that are durations and sizes. -/
def PipeRecord.Nonneg (r : PipeRecord) : Prop :=
  0 ≤ r.bytes.getD 0 ∧ 0 ≤ r.elapsedNs.getD 0 ∧ 0 ≤ r.synchronizationWaitNs.getD 0

theorem inGroup_physical : inGroup records .crossPhysicalHost ⊆ inGroup records .crossLegosim := by
  intro r hr
  rw [inGroup, List.mem_filter, decide_eq_true_eq] at hr ⊢
  exact ⟨hr.1, fromScope_physical (.inr ⟨_, rfl⟩) hr.2⟩

theorem intervalUnion_mono {l m : List (Int × Int)} (hm : ∀ i ∈ m, i.1 ≤ i.2) (h : l ⊆ m) :
    intervalUnion l ≤ intervalUnion m := by
  rw [intervalUnion_eq fun i hi => hm i (h hi), intervalUnion_eq hm]
  exact card_covered_mono h

/-- The records between physical hosts are some of those between logical workers. -/
theorem physical_le (h : ∀ r ∈ records, r.Nonneg) :
    List.Forall₂ (· ≤ ·) (collectPipeMetrics records .crossPhysicalHost).values
      (collectPipeMetrics records .crossLegosim).values := by
  have hrecords : ∀ f : PipeRecord → Int, (∀ r ∈ records, 0 ≤ f r) →
      groupSum PipeRecord.groups f records .crossPhysicalHost ≤ groupSum PipeRecord.groups f records
        .crossLegosim :=
    fun f hf => groupSum_physical_le (fun _ _ => .inr ⟨_, rfl⟩) hf
  have hbit : ∀ p : PipeRecord → Prop, ∀ [DecidablePred p], ∀ r ∈ records, (0 : Int) ≤ if p r then 1
      else 0 := by
    intro p _ r _
    split <;> decide
  have htransfers : groupTransfers PipeRecord.toMetricRecord records .crossPhysicalHost ⊆
      groupTransfers PipeRecord.toMetricRecord records .crossLegosim := by
    intro m hm
    rw [mem_groupTransfers] at hm ⊢
    exact ⟨hm.1, fromScope_physical (.inr ⟨_, rfl⟩) hm.2⟩
  rw [PipeCounters.values, PipeCounters.values, additive_eq, additive_eq]
  refine List.rel_append ?_ ?_
  · refine .cons (hrecords _ fun _ _ => by decide) <| .cons (hrecords _ fun r hr => (h r hr).1) <|
      .cons (hrecords _ fun r hr => (h r hr).2.1) <| .cons (hrecords _ fun r hr => (h r hr).2.2) <|
      .cons (hrecords _ (hbit _)) <| .cons (hrecords _ (hbit _)) <| .cons (hrecords _ (hbit _)) <|
      .cons ?_ <| .cons ?_ <| .cons ?_ <| .cons ?_ .nil
    · exact groupSum_physical_le (fun _ _ => .inr ⟨_, rfl⟩) fun _ _ => by decide
    · exact groupSum_physical_le (fun key _ => groupsAt_fromScope records key) fun _ _ =>
        Int.natCast_nonneg _
    · exact groupSum_physical_le (fun key _ => groupsAt_fromScope records key) fun _ _ =>
        Int.natCast_nonneg _
    · exact groupSum_physical_le (fun _ _ => .inr ⟨_, rfl⟩) fun m hm =>
        Int.sub_nonneg.mpr (transfers_proper hm)
  · refine .cons ?_ (.cons ?_ .nil)
    · exact intervalUnion_mono raw_proper (List.filterMap_subset _ (inGroup_physical records))
    · exact intervalUnion_mono exposed_proper (List.map_subset _ htransfers)

end Sums

section Emitted

variable {routing : Routing}

theorem record_nonneg (o : Operation routing) : o.record.Nonneg := by
  have hforward := o.forward
  refine ⟨Int.natCast_nonneg _, Int.sub_nonneg.mpr hforward, ?_⟩
  show (0 : Int) ≤ if o.op = .R then o.finishedMonotonicNs - o.startedMonotonicNs else 0
  split
  · exact Int.sub_nonneg.mpr hforward
  · exact le_refl _

/-- The routers that share a routing file agree on the scope of a transfer. -/
theorem keyed_of_router {m : MetricRecord} {op : Op} {name : Text} {byteCount : Int}
    {slot peer : Slot}
    (hop : m.operation = some (operationText op)) (hname : m.pipeName = some name) (hne : name ≠ [])
    (hbytes : m.bytes = some byteCount) (hslot : m.sourceSlot = some slot)
    (hpeer : m.peerSlot = some peer)
    (hscope : classifyScope m = transportScope (Router.init slot routing) peer) :
    ∃ key, transferKey m = some key ∧
      classifyScope m = transportScope (Router.init key.1 routing) key.2.1 := by
  cases op with
  | W =>
    refine ⟨(slot, peer, name, byteCount), ?_, hscope⟩
    rw [transferKey_eq_some_iff]
    exact ⟨hname, hne, hbytes, .inl ⟨hop, hslot, hpeer⟩⟩
  | R =>
    refine ⟨(peer, slot, name, byteCount), ?_, hscope.trans (transportScope_symm routing slot peer)⟩
    rw [transferKey_eq_some_iff]
    exact ⟨hname, hne, hbytes, .inr ⟨hop, hslot, hpeer⟩⟩

theorem keyScoped_records (operations : List (Operation routing)) :
    KeyScoped PipeRecord.toMetricRecord
      (fun key => transportScope (Router.init key.1 routing) key.2.1)
      (operations.map Operation.record) := by
  intro r hr
  obtain ⟨o, -, rfl⟩ := List.mem_map.mp hr
  exact keyed_of_router rfl rfl o.name_ne_nil rfl rfl rfl rfl

def Operation.groups (o : Operation routing) : List Group :=
  selectedGroups (transportScope (Router.init o.slot routing) o.peer)

theorem record_operation (o : Operation routing) (op : Op) :
    o.record.operation = some (operationText op) ↔ o.op = op := by
  have hne : writeOperation ≠ readOperation := by decide
  rw [Operation.record, Option.some.injEq]
  cases o.op <;> cases op <;> simp [operationText, hne, hne.symm]

/-- The records of a group are those of its operations. -/
theorem countP_records (operations : List (Operation routing)) (group : Group) (op : Op) :
    ((inGroup (operations.map Operation.record) group).countP fun r =>
      r.operation = some (operationText op)) =
      operations.countP fun o => o.op = op ∧ group ∈ o.groups := by
  rw [countP_inGroup, List.countP_map]
  refine List.countP_congr fun o _ => ?_
  rw [Function.comp_apply, decide_eq_true_eq, decide_eq_true_eq, record_operation]
  rfl

/-- The balances of the counters for what the routers of one routing file print, in any order. -/
theorem pipe_metrics_balanced (routing : Routing) (operations : List (Operation routing)) :
    (∀ group, (collectPipeMetrics (operations.map Operation.record) group).Balanced ∧
      (collectPipeMetrics (operations.map Operation.record) group).writes =
        operations.countP (fun o => o.op = .W ∧ group ∈ o.groups) ∧
      (collectPipeMetrics (operations.map Operation.record) group).reads =
        operations.countP fun o => o.op = .R ∧ group ∈ o.groups) ∧
      (collectPipeMetrics (operations.map Operation.record) .all).additive =
        List.zipWith (· + ·) (collectPipeMetrics (operations.map Operation.record)
          .sameLogicalWorker).additive
          (collectPipeMetrics (operations.map Operation.record) .crossLegosim).additive ∧
      List.Forall₂ (· ≤ ·) (collectPipeMetrics (operations.map Operation.record)
        .crossPhysicalHost).values
        (collectPipeMetrics (operations.map Operation.record) .crossLegosim).values := by
  refine ⟨fun group => ⟨?_, ?_, ?_⟩, additive_split _, physical_le _ fun r hr => ?_⟩
  · exact balanced_of_keyScoped (keyScoped_records operations) group
  · exact countP_records operations group .W
  · exact countP_records operations group .R
  · obtain ⟨o, -, rfl⟩ := List.mem_map.mp hr
    exact record_nonneg o

end Emitted

/-- Two of three chiplets on the first host. -/
def twoHosts : Routing :=
  ⟨[(coordKey (0, 0), 0), (coordKey (1, 0), 1), (coordKey (2, 0), 0)], [(0, 0), (1, 5)], none⟩

def nearby : Text := pipeName (0, 0) (2, 0)

/-- A transfer on one slot and two between the hosts. The wall clock is set back
while the last read waits. -/
def clockSetBack : List (Operation twoHosts) :=
  [⟨0, .R, nearby, 4, 0, by decide, 0, 2, by decide, 5, 12⟩,
    ⟨0, .W, nearby, 4, 0, by decide, 1, 2, by decide, 10, 11⟩,
    ⟨0, .W, crossPipe, 4, 1, by decide, 3, 4, by decide, 30, 31⟩,
    ⟨1, .R, crossPipe, 4, 0, by decide, 3, 7, by decide, 25, 33⟩,
    ⟨0, .W, crossPipe, 8, 1, by decide, 5, 6, by decide, 40, 41⟩,
    ⟨1, .R, crossPipe, 8, 0, by decide, 7, 9, by decide, 42, 35⟩]

def clockSetBackRecords : List PipeRecord := clockSetBack.map Operation.record

theorem transferKeys_clockSetBack : transferKeys PipeRecord.toMetricRecord clockSetBackRecords =
    [(0, 0, nearby, 4), (0, 1, crossPipe, 4), (0, 1, crossPipe, 8)] := by
  have hkeys : (clockSetBackRecords.filterMap fun r => transferKey r.toMetricRecord).dedup =
      [(0, 0, nearby, 4), (0, 1, crossPipe, 4), (0, 1, crossPipe, 8)] := by decide +kernel
  rw [transferKeys, hkeys]
  exact List.mergeSort_of_pairwise (by decide +kernel)

theorem pairwise_of_length_le_one {α : Type} {le : α → α → Prop} {l : List α} (h : l.length ≤ 1) :
    l.Pairwise le := by
  rcases l with _ | ⟨a, _ | ⟨b, l⟩⟩
  · exact .nil
  · exact List.pairwise_singleton le a
  · simp at h

/-- The last pair is dropped. -/
theorem transfers_clockSetBack : (transfers PipeRecord.toMetricRecord clockSetBackRecords).map
    (fun m => (m.interval, m.write.groups)) =
      [((10, 12), [.all, .sameLogicalWorker]),
        ((30, 33), [.all, .crossLegosim, .crossPhysicalHost])] := by
  have hsorted : ∀ key ∈ transferKeys PipeRecord.toMetricRecord clockSetBackRecords,
      (writesAt PipeRecord.toMetricRecord clockSetBackRecords key).length ≤ 1 ∧
        (readsAt PipeRecord.toMetricRecord clockSetBackRecords key).length ≤ 1 := by
    rw [transferKeys_clockSetBack]
    decide +kernel
  have hitems : ∀ key ∈ transferKeys PipeRecord.toMetricRecord clockSetBackRecords,
      transfersAt PipeRecord.toMetricRecord clockSetBackRecords key =
        ((writesAt PipeRecord.toMetricRecord clockSetBackRecords key).zip
          (readsAt PipeRecord.toMetricRecord clockSetBackRecords key)).filterMap fun m =>
            transferOf PipeRecord.toMetricRecord m.1 m.2 := by
    intro key hkey
    obtain ⟨hwrites, hreads⟩ := hsorted key hkey
    rw [transfersAt, writeItems_eq (pairwise_of_length_le_one hwrites),
      readItems_eq (pairwise_of_length_le_one hreads)]
  rw [transfers, List.flatMap_congr hitems, transferKeys_clockSetBack]
  decide +kernel

theorem pipe_metrics_balanced_clock_set_back :
    (collectPipeMetrics clockSetBackRecords .all).transport.transportPairs = 2 ∧
      (collectPipeMetrics clockSetBackRecords .sameLogicalWorker).transport.transportPairs = 1 ∧
      (collectPipeMetrics clockSetBackRecords .crossPhysicalHost).transport.transportPairs = 1 ∧
      (collectPipeMetrics clockSetBackRecords .all).transport.transportUnmatchedWrites = 1 ∧
      (collectPipeMetrics clockSetBackRecords .all).transport.transportUnmatchedReads = 1 ∧
      ∀ group, (collectPipeMetrics clockSetBackRecords group).Balanced := by
  have hpairs : ∀ group, (collectPipeMetrics clockSetBackRecords group).transport.transportPairs =
      ((transfers PipeRecord.toMetricRecord clockSetBackRecords).map
        fun m => (m.interval, m.write.groups)).countP fun m => group ∈ m.2 := by
    intro group
    rw [List.countP_map, List.countP_eq_length_filter]
    rfl
  simp only [transfers_clockSetBack] at hpairs
  have hgroups := (pipe_metrics_balanced twoHosts clockSetBack).1
  obtain ⟨hbalanced, hwrites, hreads⟩ := hgroups .all
  have hall : (collectPipeMetrics clockSetBackRecords .all).transport.transportPairs = 2 :=
    hpairs .all
  have hw := hbalanced.writes.trans hwrites
  have hr := hbalanced.reads.trans hreads
  have hthree : clockSetBack.countP (fun o => o.op = .W ∧ Group.all ∈ o.groups) = 3 ∧
      clockSetBack.countP (fun o => o.op = .R ∧ Group.all ∈ o.groups) = 3 := by decide +kernel
  rw [hthree.1] at hw
  rw [hthree.2] at hr
  change (collectPipeMetrics clockSetBackRecords .all).transport.transportPairs + _ = _ at hw hr
  rw [hall] at hw hr
  refine ⟨hall, hpairs .sameLogicalWorker, hpairs .crossPhysicalHost, ?_, ?_, fun group =>
    (hgroups group).1⟩
  · exact Nat.add_left_cancel hw
  · exact Nat.add_left_cancel hr

end ChipSystemSim
