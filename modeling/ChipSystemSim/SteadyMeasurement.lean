import ChipSystemSim.Intervals
import ChipSystemSim.PipeMetrics
import ChipSystemSim.RoutingTable
import Mathlib.Data.Set.Card

/-! The summary of a steady-state measurement: the window that the barriers
delimit and the share of it in which a cross-node read waits. -/

namespace ChipSystemSim

inductive SteadyError where
  | noInteger (name : Text) (record : PipeRecord)
  | noPeerSlot (record : PipeRecord)
  | emptyMax
  | lacksEvents
  | nonPositive
  deriving DecidableEq

/-- The texts of the exceptions; `describe` is how a record is shown. -/
def SteadyError.message (describe : PipeRecord → Text) : SteadyError → Text
  | noInteger name record =>
    "metric record has no integer ".toList ++ name ++ ": ".toList ++ describe record
  | noPeerSlot _ => "'peer_slot'".toList
  | emptyMax => "max() arg is an empty sequence".toList
  | lacksEvents => "single-rank measurement lacks work-header or payload events".toList
  | nonPositive => "selected steady-state window is non-positive".toList

def startedKey : Text := "started_unix_ns".toList

def finishedKey : Text := "finished_unix_ns".toList

def PipeRecord.startTime (r : PipeRecord) : Except SteadyError Int :=
  match r.startedUnixNs with
  | some value => .ok value
  | none => .error (.noInteger startedKey r)

def PipeRecord.finishTime (r : PipeRecord) : Except SteadyError Int :=
  match r.finishedUnixNs with
  | some value => .ok value
  | none => .error (.noInteger finishedKey r)

/-- The body of the loop of `union_duration`; the last of the merged intervals is the first here. -/
def mergeInterval (merged : List (Int × Int)) (i : Int × Int) : List (Int × Int) :=
  if i.2 ≤ i.1 then merged
  else match merged with
    | [] => [i]
    | last :: rest => if last.2 < i.1 then i :: last :: rest else (last.1, max last.2 i.2) :: rest

def unionDuration (intervals : List (Int × Int)) : Int :=
  (((intervals.mergeSort fun i j => i.1 < j.1 ∨ (i.1 = j.1 ∧ i.2 ≤ j.2)).foldl mergeInterval []).map
    fun i => i.2 - i.1).sum

inductive BoundaryRule where
  | multiRankBarriers
  | singleRankFirstHeaderToFinalPayload
  deriving DecidableEq, Repr

def PipeRecord.isStartRelease (r : PipeRecord) : Bool :=
  r.operation = some writeOperation ∧ r.bytes = some 4 ∧ r.sourceSlot = some 0 ∧ r.peerSlot ≠ some 0

def PipeRecord.isCompletionWrite (r : PipeRecord) : Bool :=
  r.operation = some writeOperation ∧ r.bytes = some 4 ∧ r.sourceSlot ≠ some 0 ∧ r.peerSlot = some 0

def PipeRecord.isHeader (r : PipeRecord) : Bool :=
  r.operation = some writeOperation ∧ r.bytes = some 16

def PipeRecord.isPayloadWrite (r : PipeRecord) : Bool :=
  r.operation = some writeOperation ∧ ∃ n ∈ r.bytes, 16 < n

def maxTime : List Int → Except SteadyError Int
  | [] => .error .emptyMax
  | t :: rest => .ok (rest.foldl max t)

def minTime : List Int → Except SteadyError Int
  | [] => .error .emptyMax
  | t :: rest => .ok (rest.foldl min t)

def PipeRecord.peer (r : PipeRecord) : Except SteadyError Int :=
  match r.peerSlot with
  | some slot => .ok slot
  | none => .error (.noPeerSlot r)

/-- The window of a run with barriers. As many releases are taken as there are slots they go to. -/
def barrierWindow (startReleases completionWrites : List PipeRecord) :
    Except SteadyError (Int × Int) := do
  let times ← startReleases.mapM PipeRecord.finishTime
  let peers ← startReleases.mapM PipeRecord.peer
  let start ← maxTime ((times.mergeSort (· ≤ ·)).take peers.dedup.length)
  let finishes ← completionWrites.mapM PipeRecord.finishTime
  let finish ← maxTime finishes
  return (start, finish)

def chooseWindow (records : List PipeRecord) : Except SteadyError (Int × Int × BoundaryRule) :=
  let startReleases := records.filter PipeRecord.isStartRelease
  let completionWrites := records.filter PipeRecord.isCompletionWrite
  if startReleases ≠ [] ∧ completionWrites ≠ [] then do
    let (start, finish) ← barrierWindow startReleases completionWrites
    return (start, finish, .multiRankBarriers)
  else
    let headers := records.filter PipeRecord.isHeader
    let payloadWrites := records.filter PipeRecord.isPayloadWrite
    if headers = [] ∨ payloadWrites = [] then .error .lacksEvents
    else do
      let start ← (← headers.mapM PipeRecord.startTime) |> minTime
      let finish ← (← payloadWrites.mapM PipeRecord.finishTime) |> maxTime
      return (start, finish, .singleRankFirstHeaderToFinalPayload)

def PipeRecord.isCrossRead (r : PipeRecord) : Bool := r.crossNode ∧ r.operation = some readOperation

def clip (start finish : Int) (i : Int × Int) : Option (Int × Int) :=
  if min finish i.2 ≤ max start i.1 then none else some (max start i.1, min finish i.2)

structure SteadyReport where
  boundaryRule : BoundaryRule
  steadyStartUnixNs : Int
  steadyFinishUnixNs : Int
  crossNodeSyncWallUnionNs : Int
  crossNodeReadEventsInWindow : Nat
  crossNodeReadBytesInWindow : Int
  allPipecommEvents : Nat
  deriving DecidableEq

def PipeRecord.interval (r : PipeRecord) : Except SteadyError (Int × Int) := do
  let started ← r.startTime
  let finished ← r.finishTime
  return (started, finished)

/-- The loop of `main`: the cross-node reads in the window with what they cover of it. -/
def crossReads (start finish : Int) : List PipeRecord →
    Except SteadyError (List (PipeRecord × (Int × Int)))
  | [] => .ok []
  | r :: records =>
    if r.isCrossRead then do
      let interval ← r.interval
      let rest ← crossReads start finish records
      match clip start finish interval with
      | none => return rest
      | some clipped => return (r, clipped) :: rest
    else crossReads start finish records

/-- `main` on the records of a log, with the durations in nanoseconds. -/
def summarizeSteady (records : List PipeRecord) : Except SteadyError SteadyReport := do
  let (start, finish, rule) ← chooseWindow records
  if finish ≤ start then throw .nonPositive
  let reads ← crossReads start finish records
  return {
    boundaryRule := rule
    steadyStartUnixNs := start
    steadyFinishUnixNs := finish
    crossNodeSyncWallUnionNs := unionDuration (reads.map Prod.snd)
    crossNodeReadEventsInWindow := reads.length
    crossNodeReadBytesInWindow := (reads.map fun r => r.1.bytes.getD 0).sum
    allPipecommEvents := records.length }

section Union

variable {merged l : List (Int × Int)} {i : Int × Int}

theorem mergeInterval_starts (h : ∀ j ∈ merged, j.1 ≤ i.1) :
    ∀ j ∈ mergeInterval merged i, j.1 ≤ i.1 := by
  intro j hj
  unfold mergeInterval at hj
  split at hj
  · exact h j hj
  · cases merged with
    | nil =>
      rw [List.mem_singleton] at hj
      rw [hj]
    | cons last rest =>
      dsimp only at hj
      split at hj
      · rcases List.mem_cons.mp hj with rfl | hj
        · exact le_refl _
        · exact h j hj
      · rcases List.mem_cons.mp hj with rfl | hj
        · exact h last (by simp)
        · exact h j (List.mem_cons_of_mem _ hj)

theorem mergeInterval_spaced (hmerged : Spaced merged) : Spaced (mergeInterval merged i) := by
  unfold mergeInterval
  split
  · exact hmerged
  · rename_i hproper
    have hi : i.1 ≤ i.2 := by omega
    cases merged with
    | nil => exact Spaced.nil.cons hi fun _ h => by cases h
    | cons last rest =>
      have hlast := hmerged.proper last (by simp)
      have hrest := (List.pairwise_cons.mp hmerged.ordered).1
      dsimp only
      split
      · refine hmerged.cons hi fun j hj => ?_
        rcases List.mem_cons.mp hj with rfl | hj
        · omega
        · have := hrest j hj
          omega
      · refine hmerged.tail.cons ?_ hrest
        dsimp only
        omega

theorem covered_mergeInterval (h : ∀ j ∈ merged, j.1 ≤ i.1) :
    covered (mergeInterval merged i) = covered (i :: merged) := by
  rw [covered_cons]
  unfold mergeInterval
  split
  · rename_i hempty
    rw [Finset.Ico_eq_empty_of_le hempty, Finset.empty_union]
  · cases merged with
    | nil => exact covered_cons i []
    | cons last rest =>
      dsimp only
      split
      · exact covered_cons i (last :: rest)
      · rename_i hinside
        rw [covered_cons, covered_cons, ← Ico_extend (h last (by simp)) (not_lt.mp hinside),
          Finset.union_assoc, Finset.union_left_comm]

/-- The sweep keeps what is covered and leaves gaps between its intervals. -/
theorem foldl_mergeInterval (hl : l.Pairwise fun i j => i.1 ≤ j.1) (hmerged : Spaced merged)
    (hstarts : ∀ j ∈ merged, ∀ i ∈ l, j.1 ≤ i.1) :
    Spaced (l.foldl mergeInterval merged) ∧ covered (l.foldl mergeInterval merged) = covered
      (l ++ merged) := by
  induction l generalizing merged with
  | nil => exact ⟨hmerged, rfl⟩
  | cons i l ih =>
    rw [List.pairwise_cons] at hl
    have hi : ∀ j ∈ merged, j.1 ≤ i.1 := fun j hj => hstarts j hj i (by simp)
    have hnext : ∀ j ∈ mergeInterval merged i, ∀ k ∈ l, j.1 ≤ k.1 :=
      fun j hj k hk => (mergeInterval_starts hi j hj).trans (hl.1 k hk)
    obtain ⟨hspaced, hcovered⟩ := ih hl.2 (mergeInterval_spaced hmerged) hnext
    refine ⟨hspaced, ?_⟩
    rw [List.foldl_cons, hcovered, covered_append, covered_mergeInterval hi, covered_cons,
      List.cons_append, covered_cons, covered_append, Finset.union_left_comm]

/-- The duration is the number of the points that are covered. -/
theorem unionDuration_eq (l : List (Int × Int)) : unionDuration l = (covered l).card := by
  obtain ⟨hspaced, hcovered⟩ :=
    foldl_mergeInterval (sorted_starts l) Spaced.nil fun _ h => by cases h
  rw [unionDuration, hspaced.sum_length, hcovered, List.append_nil,
    covered_congr fun i => List.mem_mergeSort]

theorem card_covered (l : List (Int × Int)) :
    (covered l).card = {n : Int | ∃ i ∈ l, i.1 ≤ n ∧ n < i.2}.ncard := by
  rw [← Set.ncard_coe_finset]
  congr 1
  ext n
  exact mem_covered

/-- The sweep of the collector and that of the summary count the same points. -/
theorem interval_union_eq_union_duration (l : List (Int × Int)) (hl : ∀ i ∈ l, i.1 ≤ i.2) :
    intervalUnion l = {n : Int | ∃ i ∈ l, i.1 ≤ n ∧ n < i.2}.ncard ∧
    unionDuration l = intervalUnion l ∧
      ∀ m : List (Int × Int), (∀ i ∈ m, i.1 ≤ i.2) →
        ((∀ i, i ∈ l ↔ i ∈ m) → intervalUnion l = intervalUnion m ∧
          unionDuration l = unionDuration m) ∧
          (l ⊆ m → intervalUnion l ≤ intervalUnion m ∧ unionDuration l ≤ unionDuration m) := by
  rw [intervalUnion_eq hl, unionDuration_eq, card_covered]
  refine ⟨rfl, rfl, fun m hm => ?_⟩
  rw [intervalUnion_eq hm, unionDuration_eq, ← card_covered]
  constructor
  · intro hsame
    rw [covered_congr hsame]
    exact ⟨rfl, rfl⟩
  · intro hsubset
    exact ⟨card_covered_mono hsubset, card_covered_mono hsubset⟩

/-- Intervals that touch, an empty one, and one of them twice in the other order. -/
theorem interval_union_touching :
    intervalUnion [(0, 2), (2, 3), (5, 5)] = unionDuration [(5, 5), (2, 3), (0, 2), (2, 3)] := by
  have hproper : ∀ i ∈ [((0 : Int), (2 : Int)), (2, 3), (5, 5)], i.1 ≤ i.2 := by decide
  have hproper' : ∀ i ∈ [((5 : Int), (5 : Int)), (2, 3), (0, 2), (2, 3)], i.1 ≤ i.2 := by decide
  have h := interval_union_eq_union_duration _ hproper
  have hsame := (h.2.2 _ hproper').1 (by
    intro i
    simp only [List.mem_cons, List.not_mem_nil, or_false]
    tauto)
  rw [← hsame.2, h.2.1]

end Union

section Window

variable {start finish : Int}

def PipeRecord.times (r : PipeRecord) : Option (Int × Int) :=
  r.startedUnixNs.bind fun started => r.finishedUnixNs.map fun finished => (started, finished)

theorem interval_eq_ok {r : PipeRecord} {i : Int × Int} :
    r.interval = .ok i ↔ r.times = some i := by
  rw [PipeRecord.interval, PipeRecord.startTime, PipeRecord.finishTime, PipeRecord.times]
  cases r.startedUnixNs with
  | none => simp [bind, Except.bind]
  | some started =>
    cases r.finishedUnixNs with
    | none => simp [bind, Except.bind]
    | some finished => simp [bind, Except.bind, pure, Except.pure]

/-- A cross-node read with what it covers of the window. -/
def PipeRecord.windowed (start finish : Int) (r : PipeRecord) : Option (PipeRecord × (Int × Int)) :=
  if r.isCrossRead then (r.times.bind (clip start finish)).map fun clipped => (r, clipped) else none

theorem crossReads_eq_ok {records : List PipeRecord} {reads : List (PipeRecord × (Int × Int))} :
    crossReads start finish records = .ok reads ↔
      (∀ r ∈ records, r.isCrossRead → r.times.isSome) ∧
        reads = records.filterMap (PipeRecord.windowed start finish) := by
  induction records generalizing reads with
  | nil =>
    rw [crossReads, Except.ok.injEq]
    exact ⟨fun h => ⟨fun _ hr => by simp at hr, h.symm⟩, fun h => h.2.symm⟩
  | cons r records ih =>
    rw [crossReads, List.forall_mem_cons]
    by_cases hcross : r.isCrossRead
    · rw [if_pos hcross]
      cases hinterval : r.interval with
      | error e =>
        refine ⟨fun h => (by cases h), fun h => ?_⟩
        obtain ⟨i, hi⟩ := Option.isSome_iff_exists.mp (h.1.1 hcross)
        rw [interval_eq_ok.mpr hi] at hinterval
        cases hinterval
      | ok i =>
        have htimes : r.times = some i := interval_eq_ok.mp hinterval
        have hread : r.windowed start finish = (clip start finish i).map fun clipped =>
            (r, clipped) := by
          rw [PipeRecord.windowed, if_pos hcross, htimes, Option.bind_some]
        rw [List.filterMap_cons, hread, htimes]
        cases hrest : crossReads start finish records with
        | error e =>
          refine ⟨fun h => (by cases h), fun h => ?_⟩
          rw [ih.mpr ⟨h.1.2, rfl⟩] at hrest
          cases hrest
        | ok rest =>
          obtain ⟨hcomplete, rfl⟩ := ih.mp hrest
          simp only [bind, Except.bind]
          cases clip start finish i with
          | none =>
            exact ⟨fun h => by cases h; exact ⟨⟨fun _ => rfl, hcomplete⟩, rfl⟩,
              fun h => by rw [h.2]; rfl⟩
          | some c =>
            exact ⟨fun h => by cases h; exact ⟨⟨fun _ => rfl, hcomplete⟩, rfl⟩,
              fun h => by rw [h.2]; rfl⟩
    · have hskip : r.windowed start finish = none := by rw [PipeRecord.windowed, if_neg hcross]
      rw [if_neg hcross, List.filterMap_cons_none hskip, ih]
      exact ⟨fun h => ⟨⟨fun hyes => absurd hyes hcross, h.1⟩, h.2⟩, fun h => ⟨h.1.2, h.2⟩⟩

theorem clip_eq_some {i c : Int × Int} :
    clip start finish i = some c ↔ max start i.1 < min finish i.2 ∧
    c = (max start i.1, min finish i.2) := by
  rw [clip]
  split
  · rename_i h
    exact ⟨fun h => (by cases h), fun hlt => absurd hlt.1 (not_lt.mpr h)⟩
  · rename_i h
    rw [Option.some.injEq]
    exact ⟨fun hc => ⟨not_le.mp h, hc.symm⟩, fun hc => hc.2.symm⟩

theorem mem_windowed {records : List PipeRecord} {c : Int × Int} :
    c ∈ (records.filterMap (PipeRecord.windowed start finish)).map Prod.snd ↔
      ∃ r ∈ records, r.isCrossRead ∧ ∃ i, r.times = some i ∧ clip start finish i = some c := by
  simp only [List.mem_map, List.mem_filterMap, PipeRecord.windowed, Option.ite_none_right_eq_some,
    Option.map_eq_some_iff, Option.bind_eq_some_iff]
  constructor
  · rintro ⟨x, ⟨r, hr, hcross, d, hd, rfl⟩, rfl⟩
    exact ⟨r, hr, hcross, hd⟩
  · rintro ⟨r, hr, hcross, hc⟩
    exact ⟨(r, c), ⟨r, hr, hcross, c, hc, rfl⟩, rfl⟩

/-- A cross-node read is under way at a time. -/
def Waiting (records : List PipeRecord) (t : Int) : Prop :=
  ∃ r ∈ records, r.isCrossRead ∧ ∃ i, r.times = some i ∧ i.1 ≤ t ∧ t < i.2

/-- Clipping the intervals clips what they cover. -/
theorem mem_covered_windowed {records : List PipeRecord} {t : Int} :
    t ∈ covered ((records.filterMap (PipeRecord.windowed start finish)).map Prod.snd) ↔
      (start ≤ t ∧ t < finish) ∧ Waiting records t := by
  rw [mem_covered]
  constructor
  · rintro ⟨c, hc, hleft, hright⟩
    obtain ⟨r, hr, hcross, i, hi, hclip⟩ := mem_windowed.mp hc
    obtain ⟨-, rfl⟩ := clip_eq_some.mp hclip
    dsimp only at hleft hright
    exact ⟨⟨by omega, by omega⟩, r, hr, hcross, i, hi, by omega, by omega⟩
  · rintro ⟨⟨hstart, hfinish⟩, r, hr, hcross, i, hi, hleft, hright⟩
    refine ⟨(max start i.1, min finish i.2), ?_, by dsimp only; omega, by dsimp only; omega⟩
    exact mem_windowed.mpr ⟨r, hr, hcross, i, hi, clip_eq_some.mpr ⟨by omega, rfl⟩⟩

theorem card_windowed (start finish : Int) (records : List PipeRecord) :
    (covered ((records.filterMap (PipeRecord.windowed start finish)).map Prod.snd)).card =
      { t | (start ≤ t ∧ t < finish) ∧ Waiting records t }.ncard := by
  rw [← Set.ncard_coe_finset]
  congr 1
  ext t
  exact mem_covered_windowed

theorem summarizeSteady_eq_ok {records : List PipeRecord} {rule : BoundaryRule}
    {report : SteadyReport} (hwindow : chooseWindow records = .ok (start, finish, rule))
    (hpositive : start < finish) :
    summarizeSteady records = .ok report ↔
      ∃ reads, crossReads start finish records = .ok reads ∧
        report = ⟨rule, start, finish, unionDuration (reads.map Prod.snd), reads.length,
          (reads.map fun r => r.1.bytes.getD 0).sum, records.length⟩ := by
  rw [summarizeSteady, hwindow]
  simp only [bind, Except.bind, if_neg (not_le.mpr hpositive)]
  cases crossReads start finish records with
  | error e =>
    refine ⟨fun h => (by cases h), ?_⟩
    rintro ⟨reads, h, -⟩
    cases h
  | ok reads =>
    constructor
    · intro h
      cases h
      exact ⟨reads, rfl, rfl⟩
    · rintro ⟨reads', h, rfl⟩
      cases h
      rfl

/-- A report is made unless a cross-node read lacks a time, and its synchronization time is the
number of nanoseconds of the window in which a cross-node read waits. -/
theorem sync_time_eq_waiting (records : List PipeRecord) (start finish : Int) (rule : BoundaryRule)
    (hwindow : chooseWindow records = .ok (start, finish, rule)) (hpositive : start < finish) :
    ((∃ report, summarizeSteady records = .ok report) ↔ ∀ r ∈ records, r.isCrossRead →
      r.times.isSome) ∧
      ∀ report, summarizeSteady records = .ok report →
        report.crossNodeSyncWallUnionNs =
          { t | (start ≤ t ∧ t < finish) ∧ Waiting records t }.ncard ∧
        0 ≤ report.crossNodeSyncWallUnionNs ∧ report.crossNodeSyncWallUnionNs ≤ finish - start := by
  simp only [summarizeSteady_eq_ok hwindow hpositive, crossReads_eq_ok]
  refine ⟨⟨?_, fun h => ⟨_, _, ⟨h, rfl⟩, rfl⟩⟩, ?_⟩
  · rintro ⟨report, reads, hreads, -⟩
    exact hreads.1
  · rintro report ⟨reads, ⟨-, rfl⟩, rfl⟩
    dsimp only
    rw [unionDuration_eq, card_windowed]
    refine ⟨rfl, Int.natCast_nonneg _, ?_⟩
    have hinside : covered ((records.filterMap (PipeRecord.windowed start finish)).map Prod.snd) ⊆
        Finset.Ico start finish := by
      intro t ht
      rw [Finset.mem_Ico]
      exact (mem_covered_windowed.mp ht).1
    have hcard := Finset.card_le_card hinside
    have hlength : ((Finset.Ico start finish).card : Int) = finish - start :=
      Int.card_Ico_of_le _ _ hpositive.le
    rw [card_windowed] at hcard
    omega

theorem maxTime_eq_ok {times : List Int} {time : Int} :
    maxTime times = .ok time ↔ time ∈ times ∧ ∀ t ∈ times, t ≤ time := by
  rw [← List.max?_eq_some_iff]
  cases times with
  | nil => simp [maxTime]
  | cons t rest => rw [maxTime, List.max?_cons', Except.ok.injEq, Option.some.injEq]

/-- The window when the fields are there. -/
theorem barrierWindow_eq {releases completions : List PipeRecord} (finished peer : PipeRecord → Int)
    (hreleases : ∀ r ∈ releases, r.finishedUnixNs = some (finished r) ∧ r.peerSlot = some (peer r))
    (hcompletions : ∀ r ∈ completions, r.finishedUnixNs = some (finished r)) :
    barrierWindow releases completions = do
      let start ← maxTime (((releases.map finished).mergeSort (· ≤ ·)).take
          (releases.map peer).dedup.length)
      let finish ← maxTime (completions.map finished)
      return (start, finish) := by
  have htimes : releases.mapM PipeRecord.finishTime = .ok (releases.map finished) :=
    mapM_eq_ok fun r hr => by rw [PipeRecord.finishTime, (hreleases r hr).1]
  have hpeers : releases.mapM PipeRecord.peer = .ok (releases.map peer) :=
    mapM_eq_ok fun r hr => by rw [PipeRecord.peer, (hreleases r hr).2]
  have hfinishes : completions.mapM PipeRecord.finishTime = .ok (completions.map finished) :=
    mapM_eq_ok fun r hr => by rw [PipeRecord.finishTime, hcompletions r hr]
  rw [barrierWindow, htimes, hpeers, hfinishes]
  rfl

def plainRecord (operation : Text) (bytes source peer started finished : Int) : PipeRecord where
  operation := some operation
  pipeName := some "buffer0_0_1_0".toList
  bytes := some bytes
  sourceSlot := some source
  peerSlot := some peer
  transportScope := none
  crossNode := source ≠ peer
  startedUnixNs := some started
  finishedUnixNs := some finished
  elapsedNs := some (finished - started)
  synchronizationWaitNs := none

def overlappingReads : List PipeRecord :=
  [plainRecord writeOperation 4 0 1 9 10, plainRecord readOperation 64 1 0 8 15,
    plainRecord readOperation 64 1 0 12 17, plainRecord writeOperation 4 1 0 19 20]

theorem sync_time_overlapping_reads :
    chooseWindow overlappingReads = .ok (10, 20, .multiRankBarriers) ∧
      ∀ report, summarizeSteady overlappingReads = .ok report →
        report.crossNodeSyncWallUnionNs =
          { t | (10 ≤ t ∧ t < 20) ∧ Waiting overlappingReads t }.ncard := by
  have hwindow : chooseWindow overlappingReads = .ok (10, 20, .multiRankBarriers) := by
    have hreleases : overlappingReads.filter PipeRecord.isStartRelease =
        [plainRecord writeOperation 4 0 1 9 10] := by
      decide
    have hcompletions :
        overlappingReads.filter PipeRecord.isCompletionWrite =
          [plainRecord writeOperation 4 1 0 19 20] := by
      decide
    have hbarriers : barrierWindow [plainRecord writeOperation 4 0 1 9 10]
        [plainRecord writeOperation 4 1 0 19 20] =
        .ok (10, 20) := by
      rw [barrierWindow_eq (fun r => r.finishedUnixNs.getD 0) (fun r => r.peerSlot.getD 0)
        (by decide) (by decide)]
      simp only [List.map_singleton, List.mergeSort_singleton]
      rfl
    rw [chooseWindow, hreleases, hcompletions, if_pos (by decide), hbarriers]
    rfl
  refine ⟨hwindow, fun report h => ?_⟩
  exact ((sync_time_eq_waiting overlappingReads 10 20 _ hwindow (by decide)).2 report h).1

end Window

section Scope

variable {routing : Routing} (start finish : Int)

def PipeRecord.inWindow (r : PipeRecord) : Bool := (r.times.bind (clip start finish)).isSome

def crossNodeReads (records : List PipeRecord) : List PipeRecord :=
  (records.filterMap (PipeRecord.windowed start finish)).map Prod.fst

def logicalNodeReads (records : List PipeRecord) : List PipeRecord :=
  records.filter fun r => r.operation = some readOperation ∧ r.inWindow start finish ∧
  r.sourceSlot ≠ r.peerSlot

theorem crossNodeReads_eq (records : List PipeRecord) :
    crossNodeReads start finish records = records.filter fun r => r.isCrossRead ∧
    r.inWindow start finish := by
  induction records with
  | nil => rfl
  | cons r records ih =>
    rw [crossNodeReads] at ih ⊢
    rw [List.filterMap_cons, List.filter_cons, ← ih, PipeRecord.windowed, PipeRecord.inWindow]
    by_cases hcross : r.isCrossRead
    · rw [if_pos hcross]
      cases r.times.bind (clip start finish) with
      | none => simp
      | some c => simp [hcross]
    · rw [if_neg hcross]
      simp [hcross]

theorem record_isCrossRead (o : Operation routing) :
    o.record.isCrossRead = true ↔ physicalSlot routing o.slot ≠ physicalSlot routing o.peer ∧
    o.op = .R := by
  have hoperation : operationText o.op = readOperation ↔ o.op = .R := by
    cases o.op with
    | W => decide
    | R => decide
  simp [PipeRecord.isCrossRead, Operation.record, hoperation]

theorem record_logical (o : Operation routing) :
    (o.record.operation = some readOperation ∧ o.record.sourceSlot ≠ o.record.peerSlot) ↔
      o.op = .R ∧ o.slot ≠ o.peer := by
  have hoperation : operationText o.op = readOperation ↔ o.op = .R := by
    cases o.op with
    | W => decide
    | R => decide
  simp [Operation.record, hoperation]

/-- The summary counts the reads between logical workers exactly when those in the window are
also between physical hosts. -/
theorem cross_node_reads_iff (routing : Routing) (operations : List (Operation routing))
    (start finish : Int) :
    crossNodeReads start finish (operations.map Operation.record) =
        logicalNodeReads start finish (operations.map Operation.record) ↔
      ∀ o ∈ operations, o.op = .R → o.record.inWindow start finish → o.slot ≠ o.peer →
        physicalSlot routing o.slot ≠ physicalSlot routing o.peer := by
  rw [crossNodeReads_eq, logicalNodeReads]
  constructor
  · intro h o ho hread hwindow hslots
    have hmem : o.record ∈ (operations.map Operation.record).filter fun r =>
        r.operation = some readOperation ∧ r.inWindow start finish ∧ r.sourceSlot ≠ r.peerSlot := by
      rw [List.mem_filter, decide_eq_true_eq]
      have hlogical := (record_logical o).mpr ⟨hread, hslots⟩
      exact ⟨List.mem_map_of_mem ho, hlogical.1, hwindow, hlogical.2⟩
    rw [← h, List.mem_filter, decide_eq_true_eq] at hmem
    exact ((record_isCrossRead o).mp hmem.2.1).1
  · intro h
    apply List.filter_congr
    intro r hr
    obtain ⟨o, ho, rfl⟩ := List.mem_map.mp hr
    rw [decide_eq_decide]
    constructor
    · rintro ⟨hcross, hwindow⟩
      obtain ⟨hphysical, hread⟩ := (record_isCrossRead o).mp hcross
      have hlogical := (record_logical o).mpr ⟨hread, fun heq => hphysical (by rw [heq])⟩
      exact ⟨hlogical.1, hwindow, hlogical.2⟩
    · rintro ⟨hoperation, hwindow, hslots⟩
      obtain ⟨hread, hne⟩ := (record_logical o).mp ⟨hoperation, hslots⟩
      exact ⟨(record_isCrossRead o).mpr ⟨h o ho hread hwindow hne, hread⟩, hwindow⟩

theorem getD_lookup_zero {table : List (Slot × Int)} (h : ∀ e ∈ table, e.2 = 0) (slot : Slot) :
    (table.lookup slot).getD 0 = 0 := by
  cases hlookup : table.lookup slot with
  | none => rfl
  | some value =>
    obtain ⟨front, back, hsplit, -⟩ := List.lookup_eq_some_iff.mp hlookup
    exact h (slot, value) (by simp [hsplit])

/-- A routing file that was generated without physical slots puts all the workers on one host. -/
theorem physicalSlot_default {placement : Placement} {topology : Topology}
    (h : generateRouting placement topology none = .ok routing) (slot : Slot) :
    physicalSlot routing slot = 0 := by
  rw [generateRouting] at h
  split at h
  · cases h
  · cases htable : coordinateToSlot placement.processes [] with
    | error e =>
      rw [htable] at h
      cases h
    | ok table =>
      rw [htable] at h
      cases h
      rw [physicalSlot]
      refine getD_lookup_zero (fun e he => ?_) slot
      obtain ⟨x, hx, rfl⟩ := List.mem_map.mp he
      exact List.eq_of_mem_replicate (List.fst_mem_of_mem_zipIdx hx)

/-- In such a deployment no read is counted. -/
theorem crossNodeReads_default {placement : Placement} {topology : Topology}
    (h : generateRouting placement topology none = .ok routing)
    (operations : List (Operation routing)) :
    crossNodeReads start finish (operations.map Operation.record) = [] := by
  rw [crossNodeReads_eq, List.filter_eq_nil_iff]
  intro r hr hcross
  obtain ⟨o, -, rfl⟩ := List.mem_map.mp hr
  rw [decide_eq_true_eq, record_isCrossRead, physicalSlot_default h,
    physicalSlot_default h] at hcross
  exact hcross.1.1 rfl

def workerRead : Operation twoWorkerRouting where
  slot := 1
  op := .R
  name := pipeName (0, 0) (1, 0)
  byteCount := 64
  peer := 0
  routed := by decide
  startedMonotonicNs := 2
  finishedMonotonicNs := 5
  forward := by decide
  startedUnixNs := 12
  finishedUnixNs := 15

theorem worker_read_uncounted :
    generateRouting twoWorkerPlacement twoWorkerTopology none = .ok twoWorkerRouting ∧
      crossNodeReads 10 20 [workerRead.record] = [] ∧
      logicalNodeReads 10 20 [workerRead.record] = [workerRead.record] ∧
      ¬ crossNodeReads 10 20 [workerRead.record] = logicalNodeReads 10 20 [workerRead.record] := by
  have hgen : generateRouting twoWorkerPlacement twoWorkerTopology none = .ok twoWorkerRouting :=
    rfl
  have hnone : crossNodeReads 10 20 [workerRead.record] = [] :=
    crossNodeReads_default 10 20 hgen [workerRead]
  have hread : logicalNodeReads 10 20 [workerRead.record] = [workerRead.record] := by decide
  refine ⟨hgen, hnone, hread, ?_⟩
  rw [hnone, hread]
  exact (List.cons_ne_nil _ _).symm

end Scope

end ChipSystemSim
