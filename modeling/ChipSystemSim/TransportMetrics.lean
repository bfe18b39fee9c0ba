import ChipSystemSim.Decimal
import Mathlib.Data.List.Dedup
import Mathlib.Algebra.BigOperators.Group.List.Basic
import Mathlib.Algebra.Order.BigOperators.Group.List

/-! The collector of the transport metrics: it regroups the `pipe-metric`
records by route, pipe and size, and pairs writes with reads. -/

namespace ChipSystemSim

/-- The fields of a record that the collector reads; `none` for one that is absent. -/
structure MetricRecord where
  operation : Option Text
  pipeName : Option Text
  bytes : Option Int
  sourceSlot : Option Int
  peerSlot : Option Int
  transportScope : Option Text
  startedUnixNs : Option Int
  finishedUnixNs : Option Int
  deriving DecidableEq

inductive Group where
  | all
  | sameLogicalWorker
  | crossLegosim
  | crossPhysicalHost
  deriving DecidableEq, Repr

def writeOperation : Text := "W".toList

def readOperation : Text := "R".toList

def sameLogicalWorker : Text := "same_logical_worker".toList

def crossLegosimSamePhysicalHost : Text := "cross_legosim_same_physical_host".toList

def crossPhysicalHost : Text := "cross_physical_host".toList

/-- Old records have no scope of their own. -/
def classifyScope (record : MetricRecord) : Text :=
  match record.transportScope with
  | some scope => scope
  | none =>
    if record.sourceSlot.getD (-1) = record.peerSlot.getD (-2) then sameLogicalWorker
    else crossLegosimSamePhysicalHost

def selectedGroups (scope : Text) : List Group :=
  if scope = sameLogicalWorker then [.all, .sameLogicalWorker]
  else if scope = crossPhysicalHost then [.all, .crossLegosim, .crossPhysicalHost]
  else [.all, .crossLegosim]

/-- Producer slot, consumer slot, pipe and byte count. -/
abbrev TransferKey := Int × Int × Text × Int

def transferKey (record : MetricRecord) : Option TransferKey := do
  let pipeName ← record.pipeName
  if pipeName = [] then none
  else
    let sourceSlot ← record.sourceSlot
    let peerSlot ← record.peerSlot
    let byteCount ← record.bytes
    if record.operation = some writeOperation then some (sourceSlot, peerSlot, pipeName, byteCount)
    else if record.operation = some readOperation then
      some (peerSlot, sourceSlot, pipeName, byteCount)
    else none

theorem transferKey_eq_some_iff {m : MetricRecord} {a b n : Int} {x : Text} :
    transferKey m = some (a, b, x, n) ↔ m.pipeName = some x ∧ x ≠ [] ∧ m.bytes = some n ∧
      ((m.operation = some writeOperation ∧ m.sourceSlot = some a ∧ m.peerSlot = some b) ∨
        (m.operation = some readOperation ∧ m.sourceSlot = some b ∧ m.peerSlot = some a)) := by
  have hne : writeOperation ≠ readOperation := by decide
  obtain ⟨operation, pipeName, bytes, sourceSlot, peerSlot, scope, started, finished⟩ := m
  cases pipeName with
  | none => simp [transferKey]
  | some name =>
    cases sourceSlot with
    | none => simp [transferKey]
    | some source =>
      cases peerSlot with
      | none => simp [transferKey]
      | some peer =>
        cases bytes with
        | none => simp [transferKey]
        | some bytes =>
          simp only [transferKey, Option.bind_eq_bind, Option.bind_some, Option.some.injEq]
          by_cases hname : name = []
          · subst hname
            simp +contextual [eq_comm]
          · by_cases hwrite : operation = some writeOperation
            · subst hwrite
              simp only [hname, if_false, if_true, Option.some.injEq, Prod.mk.injEq, hne,
                false_and, or_false, true_and]
              constructor
              · rintro ⟨rfl, rfl, rfl, rfl⟩
                exact ⟨rfl, hname, rfl, rfl, rfl⟩
              · rintro ⟨rfl, -, rfl, rfl, rfl⟩
                exact ⟨rfl, rfl, rfl, rfl⟩
            · simp only [hname, hwrite, if_false, false_and, false_or]
              by_cases hread : operation = some readOperation
              · simp only [hread, if_true, Option.some.injEq, Prod.mk.injEq, true_and]
                constructor
                · rintro ⟨rfl, rfl, rfl, rfl⟩
                  exact ⟨rfl, hname, rfl, rfl, rfl⟩
                · rintro ⟨rfl, -, rfl, rfl, rfl⟩
                  exact ⟨rfl, rfl, rfl, rfl⟩
              · simp [hread]

/-- The order of the tuples. -/
def keyLe (k l : TransferKey) : Bool :=
  k.1 < l.1 ∨ (k.1 = l.1 ∧ (k.2.1 < l.2.1 ∨ (k.2.1 = l.2.1 ∧
    (k.2.2.1 < l.2.2.1 ∨ (k.2.2.1 = l.2.2.1 ∧ k.2.2.2 ≤ l.2.2.2)))))

/-- The loop of `interval_union` from its second interval on. -/
def unionFrom : Int → Int → Int → List (Int × Int) → Int
  | total, start, finish, [] => total + finish - start
  | total, start, finish, (currentStart, currentFinish) :: rest =>
    if currentStart ≤ finish then unionFrom total start (max finish currentFinish) rest
    else unionFrom (total + (finish - start)) currentStart currentFinish rest

def intervalUnion (intervals : List (Int × Int)) : Int :=
  match intervals.mergeSort fun i j => i.1 < j.1 ∨ (i.1 = j.1 ∧ i.2 ≤ j.2) with
  | [] => 0
  | (start, finish) :: rest => unionFrom 0 start finish rest

structure TransportCounters where
  transportPairs : Nat
  transportUnmatchedWrites : Nat
  transportUnmatchedReads : Nat
  transportExposedSyncWallSumNs : Int
  transportExposedSyncWallUnionNs : Int

/-- A pair with the interval that is counted for it. -/
structure Transfer (ρ : Type) where
  write : ρ
  read : ρ
  interval : Int × Int

section Collector

-- the records are objects: the collector only sees their fields
variable {ρ : Type} (fields : ρ → MetricRecord)

def writesAt (records : List ρ) (key : TransferKey) : List ρ :=
  records.filter fun r => transferKey (fields r) = some key ∧
  (fields r).operation = some writeOperation

def readsAt (records : List ρ) (key : TransferKey) : List ρ :=
  records.filter fun r => transferKey (fields r) = some key ∧
  (fields r).operation = some readOperation

def writeItems (records : List ρ) (key : TransferKey) : List ρ :=
  (writesAt fields records key).mergeSort fun r q =>
    (fields r).startedUnixNs.getD (-1) ≤ (fields q).startedUnixNs.getD (-1)

def readItems (records : List ρ) (key : TransferKey) : List ρ :=
  (readsAt fields records key).mergeSort fun r q =>
    (fields r).finishedUnixNs.getD (-1) ≤ (fields q).finishedUnixNs.getD (-1)

def transferKeys (records : List ρ) : List TransferKey :=
  (records.filterMap fun r => transferKey (fields r)).dedup.mergeSort keyLe

/-- The body of the loop over one key: `none` where it continues. -/
def transferOf (write read : ρ) : Option (Transfer ρ) := do
  let writeStarted ← (fields write).startedUnixNs
  let readStarted ← (fields read).startedUnixNs
  let readFinished ← (fields read).finishedUnixNs
  if readFinished < max writeStarted readStarted then none
  else some ⟨write, read, (max writeStarted readStarted, readFinished)⟩

def transfersAt (records : List ρ) (key : TransferKey) : List (Transfer ρ) :=
  ((writeItems fields records key).zip (readItems fields records key)).filterMap fun m =>
    transferOf fields m.1 m.2

def transfers (records : List ρ) : List (Transfer ρ) :=
  (transferKeys fields records).flatMap (transfersAt fields records)

/-- The groups that the unmatched records of a key are counted in. -/
def groupsAt (records : List ρ) (key : TransferKey) : List Group :=
  match (writeItems fields records key ++ readItems fields records key).head? with
  | some r => selectedGroups (classifyScope (fields r))
  | none => []

def unmatchedAt (items : TransferKey → List ρ) (records : List ρ) (group : Group)
    (key : TransferKey) : Nat :=
  if group ∈ groupsAt fields records key then
    (items key).length - (transfersAt fields records key).length
  else 0

def groupTransfers (records : List ρ) (group : Group) : List (Transfer ρ) :=
  (transfers fields records).filter fun m => group ∈ selectedGroups (classifyScope (fields m.write))

def collectExposedTransportMetrics (records : List ρ) (group : Group) : TransportCounters where
  transportPairs := (groupTransfers fields records group).length
  transportUnmatchedWrites :=
    ((transferKeys fields records).map
      (unmatchedAt fields (writeItems fields records) records group)).sum
  transportUnmatchedReads :=
    ((transferKeys fields records).map
      (unmatchedAt fields (readItems fields records) records group)).sum
  transportExposedSyncWallSumNs :=
    ((groupTransfers fields records group).map fun m => m.interval.2 - m.interval.1).sum
  transportExposedSyncWallUnionNs :=
    intervalUnion ((groupTransfers fields records group).map Transfer.interval)

variable {fields} {records : List ρ} {key : TransferKey}

theorem mem_writeItems {r : ρ} : r ∈ writeItems fields records key ↔
    r ∈ records ∧ transferKey (fields r) = some key ∧
    (fields r).operation = some writeOperation := by
  rw [writeItems, List.mem_mergeSort, writesAt, List.mem_filter, decide_eq_true_iff]

theorem mem_readItems {r : ρ} : r ∈ readItems fields records key ↔
    r ∈ records ∧ transferKey (fields r) = some key ∧
    (fields r).operation = some readOperation := by
  rw [readItems, List.mem_mergeSort, readsAt, List.mem_filter, decide_eq_true_iff]

theorem mem_transferKeys :
    key ∈ transferKeys fields records ↔ ∃ r ∈ records, transferKey (fields r) = some key := by
  rw [transferKeys, List.mem_mergeSort, List.mem_dedup, List.mem_filterMap]

theorem transferKeys_nodup (fields : ρ → MetricRecord) (records : List ρ) :
    (transferKeys fields records).Nodup :=
  (List.mergeSort_perm _ _).nodup_iff.mpr (List.nodup_dedup _)

theorem writeItems_eq (h : (writesAt fields records key).Pairwise fun r q =>
      (fields r).startedUnixNs.getD (-1) ≤ (fields q).startedUnixNs.getD (-1)) :
    writeItems fields records key = writesAt fields records key :=
  List.mergeSort_of_pairwise (h.imp fun h => decide_eq_true h)

theorem readItems_eq (h : (readsAt fields records key).Pairwise fun r q =>
      (fields r).finishedUnixNs.getD (-1) ≤ (fields q).finishedUnixNs.getD (-1)) :
    readItems fields records key = readsAt fields records key :=
  List.mergeSort_of_pairwise (h.imp fun h => decide_eq_true h)

theorem transferOf_items {write read : ρ} {m : Transfer ρ}
    (h : transferOf fields write read = some m) : m.write = write ∧ m.read = read := by
  simp only [transferOf, Option.bind_eq_bind, Option.bind_eq_some_iff] at h
  obtain ⟨_, _, _, _, _, _, h⟩ := h
  split at h
  · cases h
  · cases h
    exact ⟨rfl, rfl⟩

theorem transfersAt_zip {m : Transfer ρ} (h : m ∈ transfersAt fields records key) :
    (m.write, m.read) ∈ (writeItems fields records key).zip (readItems fields records key) := by
  obtain ⟨u, hu, hm⟩ := List.mem_filterMap.mp h
  obtain ⟨hwrite, hread⟩ := transferOf_items hm
  rw [hwrite, hread]
  exact hu

/-- The items of the pairs come from two lists without repetitions. -/
theorem filterMap_transferOf_sublist (fields : ρ → MetricRecord) (l m : List ρ) :
    (((l.zip m).filterMap fun u => transferOf fields u.1 u.2).map Transfer.write).Sublist l ∧
      (((l.zip m).filterMap fun u => transferOf fields u.1 u.2).map Transfer.read).Sublist m := by
  induction l generalizing m with
  | nil => simp
  | cons w l ih =>
    cases m with
    | nil => simp
    | cons r m =>
      obtain ⟨hl, hm⟩ := ih m
      rw [List.zip_cons_cons]
      cases htransfer : transferOf fields w r with
      | none =>
        rw [List.filterMap_cons_none (by exact htransfer)]
        exact ⟨hl.cons _, hm.cons _⟩
      | some u =>
        obtain ⟨hwrite, hread⟩ := transferOf_items htransfer
        rw [List.filterMap_cons_some (by exact htransfer), List.map_cons, List.map_cons,
          hwrite, hread]
        exact ⟨hl.cons_cons _, hm.cons_cons _⟩

theorem flatMap_nodup {α : Type} {owner : ρ → α} (h : (records.map owner).Nodup)
    {keys : List TransferKey} (hkeys : keys.Nodup) {items chosen : TransferKey → List ρ}
    (hchosen : ∀ k, (chosen k).Sublist (items k))
    (hitems : ∀ k, ∀ r ∈ items k, r ∈ records ∧ transferKey (fields r) = some k)
    (hnodup : ∀ k, ((items k).map owner).Nodup) :
    (keys.flatMap fun k => (chosen k).map owner).Nodup := by
  rw [List.nodup_flatMap]
  refine ⟨fun k _ => (hnodup k).sublist ((hchosen k).map owner), hkeys.imp ?_⟩
  intro k l hkl u hk hl
  obtain ⟨r, hr, rfl⟩ := List.mem_map.mp hk
  obtain ⟨q, hq, howner⟩ := List.mem_map.mp hl
  obtain ⟨hrmem, hrkey⟩ := hitems k r ((hchosen k).subset hr)
  obtain ⟨hqmem, hqkey⟩ := hitems l q ((hchosen l).subset hq)
  cases List.inj_on_of_nodup_map h hqmem hrmem howner
  exact hkl (Option.some.inj (hrkey.symm.trans hqkey))

theorem items_nodup {α : Type} {owner : ρ → α} (h : (records.map owner).Nodup) {p : ρ → Bool}
    {le : ρ → ρ → Bool} : (((records.filter p).mergeSort le).map owner).Nodup := by
  refine ((List.mergeSort_perm (records.filter p) le).map owner).nodup_iff.mpr ?_
  exact h.sublist (List.filter_sublist.map owner)

/-- No record is in two pairs. -/
theorem transfers_nodup {α : Type} {owner : ρ → α} (h : (records.map owner).Nodup) :
    ((transfers fields records).map fun m => owner m.write).Nodup ∧
      ((transfers fields records).map fun m => owner m.read).Nodup := by
  have hsub := fun key => filterMap_transferOf_sublist fields (writeItems fields records key)
    (readItems fields records key)
  constructor
  · have hnodup := flatMap_nodup h (transferKeys_nodup fields records) (fun key => (hsub key).1)
      (fun key r hr => ⟨(mem_writeItems.mp hr).1, (mem_writeItems.mp hr).2.1⟩)
        (fun key => items_nodup h)
    simp only [List.map_map] at hnodup
    rw [transfers, List.map_flatMap]
    exact hnodup
  · have hnodup := flatMap_nodup h (transferKeys_nodup fields records) (fun key => (hsub key).2)
      (fun key r hr => ⟨(mem_readItems.mp hr).1, (mem_readItems.mp hr).2.1⟩)
        (fun key => items_nodup h)
    simp only [List.map_map] at hnodup
    rw [transfers, List.map_flatMap]
    exact hnodup

theorem all_mem_selectedGroups (scope : Text) : Group.all ∈ selectedGroups scope := by
  unfold selectedGroups
  split
  · simp
  · split <;> simp

theorem all_mem_groupsAt (h : writeItems fields records key ++ readItems fields records key ≠ []) :
    Group.all ∈ groupsAt fields records key := by
  unfold groupsAt
  cases hhead : (writeItems fields records key ++ readItems fields records key).head? with
  | none => exact absurd (List.head?_eq_none_iff.mp hhead) h
  | some r => exact all_mem_selectedGroups _

theorem unmatchedAt_all (items : TransferKey → List ρ)
    (h : items key ≠ [] → writeItems fields records key ++ readItems fields records key ≠ []) :
    unmatchedAt fields items records .all key =
      (items key).length - (transfersAt fields records key).length := by
  unfold unmatchedAt
  by_cases hitems : items key = []
  · simp [hitems]
  · rw [if_pos (all_mem_groupsAt (h hitems))]

/-- All items of a key are matched when its reads are no more than its writes and
no pair is skipped. -/
theorem length_transfersAt
    (hle : (readItems fields records key).length ≤ (writeItems fields records key).length)
    (hkept : ∀ m ∈ (writeItems fields records key).zip (readItems fields records key),
      (transferOf fields m.1 m.2).isSome) :
    (transfersAt fields records key).length = (readItems fields records key).length := by
  rw [transfersAt, List.length_filterMap_eq_countP, List.countP_eq_length.mpr hkept,
    List.length_zip]
  omega

/-- The counters of the group that holds every record. -/
theorem unmatched_all_eq_zero_iff
    (hle : ∀ key, (readItems fields records key).length ≤ (writeItems fields records key).length)
    (hkept : ∀ key, ∀ m ∈ (writeItems fields records key).zip (readItems fields records key),
      (transferOf fields m.1 m.2).isSome) :
    ((collectExposedTransportMetrics fields records .all).transportUnmatchedWrites = 0 ∧
      (collectExposedTransportMetrics fields records .all).transportUnmatchedReads = 0) ↔
    ∀ key, (writeItems fields records key).length ≤ (readItems fields records key).length := by
  have hwrites : ∀ key, unmatchedAt fields (writeItems fields records) records .all key =
      (writeItems fields records key).length - (readItems fields records key).length := by
    intro key
    rw [unmatchedAt_all _ (by simp +contextual), length_transfersAt (hle key) (hkept key)]
  have hreads : ∀ key, unmatchedAt fields (readItems fields records) records .all key = 0 := by
    intro key
    rw [unmatchedAt_all _ (by simp +contextual), length_transfersAt (hle key) (hkept key),
      Nat.sub_self]
  simp only [collectExposedTransportMetrics, List.sum_eq_zero_iff, List.mem_map,
    forall_exists_index, and_imp, forall_apply_eq_imp_iff₂, hwrites, hreads, implies_true, and_true]
  constructor
  · intro h key
    by_cases hkey : key ∈ transferKeys fields records
    · exact Nat.sub_eq_zero_iff_le.mp (h key hkey)
    · have hnil : writeItems fields records key = [] := by
        refine List.eq_nil_iff_forall_not_mem.mpr fun r hr => hkey ?_
        obtain ⟨hmem, hrkey, -⟩ := mem_writeItems.mp hr
        exact mem_transferKeys.mpr ⟨r, hmem, hrkey⟩
      rw [hnil]
      exact Nat.zero_le _
  · intro h key _
    exact Nat.sub_eq_zero_iff_le.mpr (h key)

section Map

-- what the collector computes is the same for records with further marks
variable {σ : Type} (f : ρ → σ) (fields : σ → MetricRecord) (records : List ρ)

def Transfer.map (m : Transfer ρ) : Transfer σ := ⟨f m.write, f m.read, m.interval⟩

theorem writeItems_map (key : TransferKey) :
    writeItems fields (records.map f) key = (writeItems (fields ∘ f) records key).map f := by
  have hfilter : writesAt fields (records.map f) key = (writesAt (fields ∘ f) records key).map f :=
    List.filter_map
  rw [writeItems, hfilter, writeItems]
  refine (List.map_mergeSort ?_).symm
  exact fun _ _ _ _ => rfl

theorem readItems_map (key : TransferKey) :
    readItems fields (records.map f) key = (readItems (fields ∘ f) records key).map f := by
  have hfilter : readsAt fields (records.map f) key = (readsAt (fields ∘ f) records key).map f :=
    List.filter_map
  rw [readItems, hfilter, readItems]
  refine (List.map_mergeSort ?_).symm
  exact fun _ _ _ _ => rfl

theorem transferKeys_map :
    transferKeys fields (records.map f) = transferKeys (fields ∘ f) records := by
  rw [transferKeys, transferKeys, List.filterMap_map]
  rfl

theorem transferOf_map (write read : ρ) :
    transferOf fields (f write) (f read) = (transferOf (fields ∘ f) write read).map
      (Transfer.map f) := by
  simp only [transferOf, Function.comp_apply, Option.bind_eq_bind, Option.map_bind]
  refine congrArg _ (funext fun writeStarted =>
    congrArg _ (funext fun readStarted => congrArg _ (funext fun finish => ?_)))
  split <;> rfl

theorem transfersAt_map (key : TransferKey) :
    transfersAt fields (records.map f) key = (transfersAt (fields ∘ f) records key).map
      (Transfer.map f) := by
  rw [transfersAt, transfersAt, writeItems_map, readItems_map, List.zip_map, List.filterMap_map,
    List.map_filterMap]
  refine congrArg (fun g => List.filterMap g _) (funext fun m => ?_)
  exact transferOf_map f fields m.1 m.2

theorem transfers_map :
    transfers fields (records.map f) = (transfers (fields ∘ f) records).map (Transfer.map f) := by
  rw [transfers, transferKeys_map, transfers, List.map_flatMap]
  exact congrArg (fun g => List.flatMap g _) (funext (transfersAt_map f fields records))

theorem groupsAt_map (key : TransferKey) :
    groupsAt fields (records.map f) key = groupsAt (fields ∘ f) records key := by
  rw [groupsAt, groupsAt, writeItems_map, readItems_map, ← List.map_append, List.head?_map]
  cases (writeItems (fields ∘ f) records key ++ readItems (fields ∘ f) records key).head? <;> rfl

theorem collectExposedTransportMetrics_map (group : Group) :
    collectExposedTransportMetrics fields (records.map f) group =
      collectExposedTransportMetrics (fields ∘ f) records group := by
  have htransfers : groupTransfers fields (records.map f) group =
      (groupTransfers (fields ∘ f) records group).map (Transfer.map f) := by
    rw [groupTransfers, groupTransfers, transfers_map, List.filter_map]
    rfl
  have hwrites : unmatchedAt fields (writeItems fields (records.map f)) (records.map f) group =
      unmatchedAt (fields ∘ f) (writeItems (fields ∘ f) records) records group := by
    funext key
    simp only [unmatchedAt, groupsAt_map, transfersAt_map, writeItems_map, List.length_map]
  have hreads : unmatchedAt fields (readItems fields (records.map f)) (records.map f) group =
      unmatchedAt (fields ∘ f) (readItems (fields ∘ f) records) records group := by
    funext key
    simp only [unmatchedAt, groupsAt_map, transfersAt_map, readItems_map, List.length_map]
  simp only [collectExposedTransportMetrics, htransfers, transferKeys_map, hwrites, hreads,
    List.length_map, List.map_map]
  rfl

end Map

end Collector

end ChipSystemSim
