import ChipSystemSim.Csv
import ChipSystemSim.RequestHeader
import ChipSystemSim.PhaseTwoCounterfactual

/-! The metrics CSV of the ns-3 adapter and the script that adds it up again:
three reports on one run, written by three folds over the same states. -/

namespace ChipSystemSim

structure MetricsRow where
  traceId : Nat
  source : Nat
  destination : Nat
  modelDestination : Nat
  descriptor : Int
  special : Bool
  flits : Nat
  payloadBytes : Nat
  sourceCycle : Nat
  destinationCycle : Nat
  forwardTxCycle : Nat
  forwardArrivalCycle : Nat
  sourceDelay : Nat
  destinationDelay : Nat
  destinationBlock : Nat
  localized : Bool
  acknowledgement : Option (Nat × Nat)

def rowOf (cfg : PhaseTwoConfig) (id : Nat) (st : TraceState) (localized : Bool) : MetricsRow :=
  let startNs := asInt64 (st.bench.sourceCycle * cfg.cycleNs)
  let destinationDelay :=
    if localized then 0 else ceilNanosecondsToCycles (st.forward.arrivalNs - startNs) cfg.cycleNs
  let arrival := asUInt64 (st.bench.sourceCycle + destinationDelay)
  { traceId := id
    source := st.bench.source
    destination := st.bench.destination
    modelDestination := st.modelDestination
    descriptor := st.bench.descriptor
    special := st.special
    flits := st.bench.flits
    payloadBytes := asUInt64 (st.bench.flits * cfg.flitBytes)
    sourceCycle := st.bench.sourceCycle
    destinationCycle := st.bench.destinationCycle
    forwardTxCycle :=
      if localized then st.bench.sourceCycle
      else ceilNanosecondsToCycles st.forward.transmitFinishNs cfg.cycleNs
    forwardArrivalCycle :=
      if localized then st.bench.sourceCycle
      else ceilNanosecondsToCycles st.forward.arrivalNs cfg.cycleNs
    sourceDelay :=
      if localized then 0
      else ceilNanosecondsToCycles (st.forward.transmitFinishNs - startNs) cfg.cycleNs
    destinationDelay
    destinationBlock :=
      if localized then 0
      else if st.bench.destinationCycle < arrival then arrival - st.bench.destinationCycle
      else 0
    localized
    acknowledgement :=
      if st.special then
        some
          (if localized then 0
            else ceilNanosecondsToCycles st.acknowledgement.transmitFinishNs cfg.cycleNs,
          if localized then 0
            else ceilNanosecondsToCycles st.acknowledgement.arrivalNs cfg.cycleNs)
      else none }

def metricsRow (cfg : PhaseTwoConfig) (id : Nat) (st : TraceState) : Except String MetricsRow := do
  let localized ← isLocalizedCrossWorker cfg st
  return rowOf cfg id st localized

def boolText (b : Bool) : Text := if b then ['1'] else ['0']

def MetricsRow.fields (r : MetricsRow) : List Text :=
  [decimal r.traceId, decimal r.source, decimal r.destination, decimal r.modelDestination,
    decimal r.descriptor, boolText r.special, decimal r.flits, decimal r.payloadBytes,
    decimal r.sourceCycle, decimal r.destinationCycle, decimal r.forwardTxCycle,
    decimal r.forwardArrivalCycle, decimal r.sourceDelay, decimal r.destinationDelay,
    decimal r.destinationBlock, boolText r.localized] ++
  -- a row without acknowledgement ends with the comma before the last two columns
  match r.acknowledgement with
  | some (txFinish, arrival) => [decimal txFinish, decimal arrival]
  | none => [[]]

def metricsNames : List Text :=
  ["trace_id".toList, "src_node".toList, "dst_node".toList, "model_dst_node".toList,
    "descriptor".toList, "special".toList, "flits".toList, "payload_bytes".toList,
    "src_cycle".toList, "dst_cycle".toList, "forward_tx_finish_cycle".toList,
    "forward_arrival_cycle".toList, "source_sync_advance_cycles".toList,
    "destination_network_delay_cycles".toList, "destination_sync_block_cycles".toList,
    "localized_cross_worker".toList, "ack_tx_finish_cycle".toList, "ack_arrival_cycle".toList]

def metricsRows (cfg : PhaseTwoConfig) (s : PhaseTwo) : Except String (List MetricsRow) :=
  (List.range cfg.bench.length).mapM fun id => metricsRow cfg id (s.states id)

def writeMetricsCsv (cfg : PhaseTwoConfig) (s : PhaseTwo) : Except String Text := do
  let rows ← metricsRows cfg s
  return Csv.line metricsNames ++ (rows.map MetricsRow.fields).flatMap Csv.line

structure Ns3Metrics where
  records : Int := 0
  normalRecords : Int := 0
  specialRecords : Int := 0
  payloadBytes : Int := 0
  normalPayloadBytes : Int := 0
  normalSourceSyncAdvanceCycles : Int := 0
  normalDestinationNetworkDelayCycles : Int := 0
  normalDestinationSyncBlockCycles : Int := 0

/-- `int(row[name])`. -/
def rowInt (row : Csv.Row) (name : Text) : Option Int :=
  (row.get name).join >>= pyInt

def collectRow (acc : Ns3Metrics) (row : Csv.Row) : Option Ns3Metrics := do
  let payloadBytes ← rowInt row "payload_bytes".toList
  let acc := { acc with
    records := acc.records + 1
    payloadBytes := acc.payloadBytes + payloadBytes }
  let special ← row.get "special".toList
  if special = some ['1'] then
    return { acc with specialRecords := acc.specialRecords + 1 }
  else
    let source ← rowInt row "source_sync_advance_cycles".toList
    let destination ← rowInt row "destination_network_delay_cycles".toList
    let block ← rowInt row "destination_sync_block_cycles".toList
    return { acc with
      normalRecords := acc.normalRecords + 1
      normalPayloadBytes := acc.normalPayloadBytes + payloadBytes
      normalSourceSyncAdvanceCycles := acc.normalSourceSyncAdvanceCycles + source
      normalDestinationNetworkDelayCycles := acc.normalDestinationNetworkDelayCycles + destination
      normalDestinationSyncBlockCycles := acc.normalDestinationSyncBlockCycles + block }

/-- No path, or no file there, gives the defaults. -/
def collectNs3Metrics (file : Option Text) : Option Ns3Metrics :=
  match file with
  | none => some {}
  | some text => (Csv.dictRows text).foldlM collectRow {}

section Rows

variable {r : MetricsRow}

def MetricsRow.dict (r : MetricsRow) : Csv.Row :=
  metricsNames.zipIdx.map fun (name, i) => (name, r.fields[i]?)

theorem plain_of_chars {field : Text} (h : ∀ c ∈ field, c = '-' ∨ c.isDigit = true) :
    Csv.Plain field := by
  intro c hc
  rcases h c hc with rfl | hdigit
  · decide
  · have hne : ∀ e : Char, e.isDigit = false → c ≠ e := by
      rintro e he rfl
      rw [hdigit] at he
      cases he
    refine ⟨?_, hne '"' (by decide), hne ',' (by decide)⟩
    simp [Csv.isNewline, hne '\n' (by decide), hne '\r' (by decide)]

theorem plain_decimal (z : Int) :
    Csv.Plain (decimal z) := plain_of_chars fun _ hc => decimal_chars hc

theorem plain_boolText (b : Bool) : Csv.Plain (boolText b) := by
  cases b <;> decide

theorem metricsNames_plain : Csv.PlainRow metricsNames := by
  refine ⟨⟨_, _, _, rfl⟩, ?_⟩
  unfold metricsNames
  decide

theorem fields_plain : Csv.PlainRow r.fields := by
  constructor
  · obtain ⟨c, t, ht, -⟩ := toDigits_cons r.traceId
    refine ⟨c, t, r.fields.tail, ?_⟩
    rw [← ht]
    rfl
  · intro f hf
    unfold MetricsRow.fields at hf
    rcases List.mem_append.mp hf with hf | hf
    · simp only [List.mem_cons, List.not_mem_nil, or_false] at hf
      rcases hf with rfl | rfl | rfl | rfl | rfl | rfl | rfl | rfl | rfl | rfl | rfl | rfl | rfl |
        rfl | rfl | rfl
      all_goals first | exact plain_decimal _ | exact plain_boolText _
    · split at hf
      · simp only [List.mem_cons, List.not_mem_nil, or_false] at hf
        rcases hf with rfl | rfl
        all_goals exact plain_decimal _
      · simp only [List.mem_cons, List.not_mem_nil, or_false] at hf
        rw [hf]
        exact fun c hc => absurd hc List.not_mem_nil

theorem dictRows_metrics (rows : List MetricsRow) :
    Csv.dictRows (Csv.line metricsNames ++ (rows.map MetricsRow.fields).flatMap Csv.line) =
      rows.map MetricsRow.dict := by
  rw [Csv.dictRows_lines metricsNames_plain, List.map_map]
  · rfl
  · intro row hrow
    obtain ⟨r, -, rfl⟩ := List.mem_map.mp hrow
    exact fields_plain

theorem dict_payloadBytes : rowInt r.dict "payload_bytes".toList = some (r.payloadBytes : Int) :=
  pyInt_toDigits r.payloadBytes

theorem dict_sourceDelay :
    rowInt r.dict "source_sync_advance_cycles".toList = some (r.sourceDelay : Int) :=
  pyInt_toDigits r.sourceDelay

theorem dict_destinationDelay :
    rowInt r.dict "destination_network_delay_cycles".toList = some (r.destinationDelay : Int) :=
  pyInt_toDigits r.destinationDelay

theorem dict_destinationBlock :
    rowInt r.dict "destination_sync_block_cycles".toList = some (r.destinationBlock : Int) :=
  pyInt_toDigits r.destinationBlock

theorem dict_special : r.dict.get "special".toList = some (some (boolText r.special)) := rfl

theorem dict_localized : r.dict.get "localized_cross_worker".toList =
    some (some (boolText r.localized)) := rfl

theorem dict_localized_iff :
    r.dict.get "localized_cross_worker".toList = some (some ['1']) ↔ r.localized = true := by
  rw [dict_localized]
  cases r.localized <;> decide

end Rows

section Totals

variable {cfg : PhaseTwoConfig} {s : PhaseTwo}

def MetricsRow.normal (r : MetricsRow) (n : Nat) : Nat := if r.special then 0 else n

/-- What the rows add to a summary when nothing wraps around. -/
def Summary.plus (acc : Summary) (rows : List MetricsRow) : Summary :=
  { acc with
    payloadBytes := acc.payloadBytes + (rows.map MetricsRow.payloadBytes).sum
    specialRecords := acc.specialRecords + rows.countP MetricsRow.special
    normalRecords := acc.normalRecords + rows.countP (!·.special)
    localizedCrossWorkerRecords :=
      acc.localizedCrossWorkerRecords + rows.countP MetricsRow.localized
    sourceDelayCycles := acc.sourceDelayCycles + (rows.map fun r => r.normal r.sourceDelay).sum
    destinationDelayCycles :=
      acc.destinationDelayCycles + (rows.map fun r => r.normal r.destinationDelay).sum
    destinationBlockCycles :=
      acc.destinationBlockCycles + (rows.map fun r => r.normal r.destinationBlock).sum }

structure Summary.Fits (acc : Summary) : Prop where
  payload : acc.payloadBytes < 2 ^ 64
  source : acc.sourceDelayCycles < 2 ^ 64
  destination : acc.destinationDelayCycles < 2 ^ 64
  block : acc.destinationBlockCycles < 2 ^ 64

theorem Summary.plus_cons (acc : Summary) (r : MetricsRow) (rows : List MetricsRow) :
    acc.plus (r :: rows) = (acc.plus [r]).plus rows := by
  simp only [Summary.plus, List.map_cons, List.map_nil, List.sum_cons, List.sum_nil,
    List.countP_cons, List.countP_nil, Nat.add_zero, Nat.zero_add, Nat.add_assoc, Nat.add_comm]

theorem Summary.Fits.of_plus {acc : Summary} {rows : List MetricsRow} (h : (acc.plus rows).Fits) :
    acc.Fits where
  payload := lt_of_le_of_lt (Nat.le_add_right _ _) h.payload
  source := lt_of_le_of_lt (Nat.le_add_right _ _) h.source
  destination := lt_of_le_of_lt (Nat.le_add_right _ _) h.destination
  block := lt_of_le_of_lt (Nat.le_add_right _ _) h.block

theorem asUInt64_of_lt {n : Nat} (h : n < 2 ^ 64) : asUInt64 n = n := Nat.mod_eq_of_lt h

theorem asUInt64_add {m n : Nat} (h : m + asUInt64 n < 2 ^ 64) :
    asUInt64 (m + n) = m + asUInt64 n := by
  unfold asUInt64 at *
  omega

theorem metricsRow_eq {id : Nat} {st : TraceState} {localized : Bool}
    (h : isLocalizedCrossWorker cfg st = .ok localized) :
    metricsRow cfg id st = .ok (rowOf cfg id st localized) := by
  rw [metricsRow, h]
  rfl

theorem summarize_row {acc : Summary} {id : Nat} {st : TraceState} {localized : Bool}
    (h : isLocalizedCrossWorker cfg st = .ok localized)
    (hfits : (acc.plus [rowOf cfg id st localized]).Fits) :
    summarize cfg acc st = .ok (acc.plus [rowOf cfg id st localized]) := by
  have hpayload := asUInt64_add (m := acc.payloadBytes) (n := st.bench.flits * cfg.flitBytes)
    hfits.payload
  unfold summarize
  rw [h, hpayload]
  cases hs : st.special with
  | true =>
    cases localized with
    | true =>
      simp [Summary.plus, rowOf, hs, MetricsRow.normal, pure, Except.pure, bind, Except.bind]
    | false =>
      simp [Summary.plus, rowOf, hs, MetricsRow.normal, pure, Except.pure, bind, Except.bind]
  | false =>
    cases localized with
    | true =>
      simp [Summary.plus, rowOf, hs, MetricsRow.normal, pure, Except.pure, bind, Except.bind]
    | false =>
      have hsource : asUInt64 (acc.sourceDelayCycles + (rowOf cfg id st false).sourceDelay) = _ :=
        asUInt64_of_lt (by simpa [Summary.plus, rowOf, hs, MetricsRow.normal] using hfits.source)
      have hdestination : asUInt64
          (acc.destinationDelayCycles + (rowOf cfg id st false).destinationDelay) = _ :=
        asUInt64_of_lt
          (by simpa [Summary.plus, rowOf, hs, MetricsRow.normal] using hfits.destination)
      have hblock :
          asUInt64 (acc.destinationBlockCycles + (rowOf cfg id st false).destinationBlock) = _ :=
        asUInt64_of_lt (by simpa [Summary.plus, rowOf, hs, MetricsRow.normal] using hfits.block)
      simp only [rowOf, Bool.false_eq_true, if_false] at hsource hdestination hblock
      simp only [bind, Except.bind, Bool.false_eq_true, if_false, hsource, hdestination,
        Nat.add_zero]
      split at hblock
      · rename_i hlt
        simp [Summary.plus, rowOf, hs, MetricsRow.normal, hlt, hblock, pure, Except.pure]
      · rename_i hlt
        simp [Summary.plus, rowOf, hs, MetricsRow.normal, hlt, pure, Except.pure]

theorem summarize_rows {l : List Nat} {localized : Nat → Bool} {acc : Summary}
    (h : ∀ i ∈ l, isLocalizedCrossWorker cfg (s.states i) = .ok (localized i))
    (hfits : (acc.plus (l.map fun i => rowOf cfg i (s.states i) (localized i))).Fits) :
    l.foldlM (fun acc i => summarize cfg acc (s.states i)) acc =
      .ok (acc.plus (l.map fun i => rowOf cfg i (s.states i) (localized i))) := by
  induction l generalizing acc with
  | nil => simp [Summary.plus, pure, Except.pure]
  | cons i l ih =>
    rw [List.map_cons, Summary.plus_cons] at hfits ⊢
    rw [List.foldlM_cons, summarize_row (h i List.mem_cons_self) hfits.of_plus]
    exact ih (fun j hj => h j (List.mem_cons_of_mem i hj)) hfits

def Ns3Metrics.plus (acc : Ns3Metrics) (rows : List MetricsRow) : Ns3Metrics where
  records := acc.records + rows.length
  normalRecords := acc.normalRecords + rows.countP (!·.special)
  specialRecords := acc.specialRecords + rows.countP MetricsRow.special
  payloadBytes := acc.payloadBytes + (rows.map MetricsRow.payloadBytes).sum
  normalPayloadBytes := acc.normalPayloadBytes + (rows.map fun r => r.normal r.payloadBytes).sum
  normalSourceSyncAdvanceCycles :=
    acc.normalSourceSyncAdvanceCycles + (rows.map fun r => r.normal r.sourceDelay).sum
  normalDestinationNetworkDelayCycles :=
    acc.normalDestinationNetworkDelayCycles + (rows.map fun r => r.normal r.destinationDelay).sum
  normalDestinationSyncBlockCycles :=
    acc.normalDestinationSyncBlockCycles + (rows.map fun r => r.normal r.destinationBlock).sum

theorem Ns3Metrics.plus_cons (acc : Ns3Metrics) (r : MetricsRow) (rows : List MetricsRow) :
    acc.plus (r :: rows) = (acc.plus [r]).plus rows := by
  simp only [Ns3Metrics.plus, List.length_cons, List.length_nil, List.map_cons, List.map_nil,
    List.sum_cons, List.sum_nil, List.countP_cons, List.countP_nil, Nat.cast_add, Nat.add_zero,
    Nat.zero_add, Int.add_assoc, Int.add_comm, Int.add_left_comm, Nat.add_comm]

theorem collectRow_dict (acc : Ns3Metrics) (r : MetricsRow) :
    collectRow acc r.dict = some (acc.plus [r]) := by
  unfold collectRow
  rw [dict_payloadBytes, dict_special, dict_sourceDelay, dict_destinationDelay,
    dict_destinationBlock]
  cases hs : r.special with
  | true => simp [boolText, Ns3Metrics.plus, MetricsRow.normal, hs]
  | false => simp [boolText, Ns3Metrics.plus, MetricsRow.normal, hs]

theorem collectRow_dicts (acc : Ns3Metrics) (rows : List MetricsRow) :
    (rows.map MetricsRow.dict).foldlM collectRow acc = some (acc.plus rows) := by
  induction rows generalizing acc with
  | nil => simp [Ns3Metrics.plus]
  | cons r rows ih =>
    rw [List.map_cons, List.foldlM_cons, collectRow_dict, Ns3Metrics.plus_cons acc r rows]
    exact ih (acc.plus [r])

end Totals

section Agreement

variable {cfg : PhaseTwoConfig} {s : PhaseTwo}

/-- Either every lookup finds its slots, or there is a first one that throws. -/
theorem localized_or_error (l : List Nat) :
    (∃ localized : Nat → Bool, ∀ i ∈ l, isLocalizedCrossWorker cfg (s.states i) =
      .ok (localized i)) ∨
    ∃ (localized : Nat → Bool) (pre : List Nat) (i : Nat) (post : List Nat) (m : String),
      l = pre ++ i :: post ∧
      (∀ j ∈ pre, isLocalizedCrossWorker cfg (s.states j) = .ok (localized j)) ∧
      isLocalizedCrossWorker cfg (s.states i) = .error m := by
  induction l with
  | nil => exact Or.inl ⟨fun _ => false, fun i hi => absurd hi List.not_mem_nil⟩
  | cons k l ih =>
    cases hk : isLocalizedCrossWorker cfg (s.states k) with
    | error m =>
      exact Or.inr ⟨fun _ => false, [], k, l, m, rfl, fun j hj => absurd hj List.not_mem_nil, hk⟩
    | ok b =>
      have hset : ∀ (f : Nat → Bool) (t : List Nat),
          (∀ j ∈ t, isLocalizedCrossWorker cfg (s.states j) = .ok (f j)) →
          ∀ j ∈ k :: t, isLocalizedCrossWorker cfg (s.states j) =
            .ok (Function.update f k b j) := by
        intro f t hf j hj
        by_cases hjk : j = k
        · rw [hjk, Function.update_self, hk]
        · rw [Function.update_of_ne hjk]
          exact hf j ((List.mem_cons.mp hj).resolve_left hjk)
      rcases ih with ⟨f, hf⟩ | ⟨f, pre, i, post, m, rfl, hpre, hi⟩
      · exact Or.inl ⟨_, hset f l hf⟩
      · exact Or.inr ⟨_, k :: pre, i, post, m, rfl, hset f pre hpre, hi⟩

theorem mapM_eq_error {α β ε : Type} {f : α → Except ε β} {g : α → β} {pre post : List α}
    {x : α} {e : ε} (hpre : ∀ y ∈ pre, f y = .ok (g y)) (hx : f x = .error e) :
    (pre ++ x :: post).mapM f = .error e := by
  induction pre with
  | nil =>
    rw [List.nil_append, List.mapM_cons, hx]
    rfl
  | cons y pre ih =>
    rw [List.cons_append, List.mapM_cons, hpre y List.mem_cons_self,
      ih fun z hz => hpre z (List.mem_cons_of_mem y hz)]
    rfl

theorem summarize_error {acc : Summary} {st : TraceState} {m : String}
    (h : isLocalizedCrossWorker cfg st = .error m) : summarize cfg acc st = .error m := by
  rw [summarize, h]
  rfl

structure TotalsFit (rows : List MetricsRow) : Prop where
  payload : (rows.map MetricsRow.payloadBytes).sum < 2 ^ 64
  source : (rows.map fun r => r.normal r.sourceDelay).sum < 2 ^ 64
  destination : (rows.map fun r => r.normal r.destinationDelay).sum < 2 ^ 64
  block : (rows.map fun r => r.normal r.destinationBlock).sum < 2 ^ 64

theorem TotalsFit.fits {rows : List MetricsRow} (h : TotalsFit rows) :
    ((emptySummary cfg).plus rows).Fits where
  payload := (Nat.zero_add _).trans_lt h.payload
  source := (Nat.zero_add _).trans_lt h.source
  destination := (Nat.zero_add _).trans_lt h.destination
  block := (Nat.zero_add _).trans_lt h.block

structure MetricsMatch (metrics : Ns3Metrics) (summary : Summary) : Prop where
  records : metrics.records = summary.records
  normalRecords : metrics.normalRecords = summary.normalRecords
  specialRecords : metrics.specialRecords = summary.specialRecords
  payloadBytes : metrics.payloadBytes = summary.payloadBytes
  sourceDelay : metrics.normalSourceSyncAdvanceCycles = summary.sourceDelayCycles
  destinationDelay : metrics.normalDestinationNetworkDelayCycles = summary.destinationDelayCycles
  destinationBlock : metrics.normalDestinationSyncBlockCycles = summary.destinationBlockCycles

structure ReportsAgree (csv : Text) (lines : List DelayLine) (summary : Summary) : Prop where
  metrics : ∃ metrics, collectNs3Metrics (some csv) = some metrics ∧ MetricsMatch metrics summary
  localized : (Csv.dictRows csv).countP
    (fun row => row.get "localized_cross_worker".toList = some (some ['1'])) =
      summary.localizedCrossWorkerRecords
  delays : List.Forall₂ (fun (row : Csv.Row) (line : DelayLine) => ∃ (source destination : Nat)
    (rest : List Nat),
    line.delays = source :: destination :: rest ∧
    rowInt row "source_sync_advance_cycles".toList = some (source : Int) ∧
    rowInt row "destination_network_delay_cycles".toList = some (destination : Int))
      (Csv.dictRows csv) lines

theorem lineOf_delays {id : Nat} {st : TraceState} {localized : Bool} : ∃ rest,
    (lineOf cfg st localized).delays =
      (rowOf cfg id st localized).sourceDelay ::
        (rowOf cfg id st localized).destinationDelay :: rest := by
  cases localized with
  | true =>
    cases hs : st.special with
    | true => exact ⟨[0, 0], by simp [lineOf, rowOf, hs, List.replicate]⟩
    | false => exact ⟨[], by simp [lineOf, rowOf, hs, List.replicate]⟩
  | false =>
    cases hs : st.special with
    | true => exact ⟨_, by simp [lineOf, rowOf, networkDelays, directionDelays, hs]; rfl⟩
    | false => exact ⟨[], by simp [lineOf, rowOf, networkDelays, directionDelays, hs]⟩

theorem reports_of_rows {rows : List MetricsRow} {lines : List DelayLine}
    (hlength : rows.length = cfg.bench.length)
    (hlines : List.Forall₂ (fun r line => ∃ rest, DelayLine.delays line =
      r.sourceDelay :: r.destinationDelay :: rest) rows lines) :
    ReportsAgree (Csv.line metricsNames ++ (rows.map MetricsRow.fields).flatMap Csv.line) lines
      ((emptySummary cfg).plus rows) := by
  refine ⟨⟨({} : Ns3Metrics).plus rows, ?_, ?_⟩, ?_, ?_⟩
  · rw [collectNs3Metrics, dictRows_metrics, collectRow_dicts]
  · constructor <;> simp [Ns3Metrics.plus, Summary.plus, emptySummary, hlength]
  · rw [dictRows_metrics, List.countP_map]
    refine (List.countP_congr fun r _ => ?_).trans (Nat.zero_add _).symm
    rw [Function.comp_apply, decide_eq_true_iff]
    exact dict_localized_iff
  · rw [dictRows_metrics, List.forall₂_map_left_iff]
    refine hlines.imp ?_
    rintro r line ⟨rest, hrest⟩
    exact ⟨_, _, rest, hrest, dict_sourceDelay, dict_destinationDelay⟩

/-- The CSV, the summary and `delayInfo` of one run agree; if a slot is missing
none of them is complete. -/
theorem reports_agree (hfit : ∀ rows, metricsRows cfg s = .ok rows → TotalsFit rows) :
    (∃ m, writeDelayInfo cfg s = .error m ∧ writeMetricsCsv cfg s = .error m ∧
      writeSummaryJson cfg s = .error m) ∨
    ∃ lines csv summary, writeDelayInfo cfg s = .ok lines ∧ writeMetricsCsv cfg s = .ok csv ∧
      writeSummaryJson cfg s = .ok summary ∧ ReportsAgree csv lines summary := by
  rcases @localized_or_error cfg s (List.range cfg.bench.length) with
    ⟨localized, hok⟩ | ⟨localized, pre, i, post, m, hsplit, hpre, hi⟩
  · let rows := (List.range cfg.bench.length).map fun i => rowOf cfg i (s.states i) (localized i)
    have hrows : metricsRows cfg s = .ok rows := mapM_eq_ok fun i hi => metricsRow_eq (hok i hi)
    have hlines : writeDelayInfo cfg s = .ok ((List.range cfg.bench.length).map fun i =>
        lineOf cfg (s.states i) (localized i)) := mapM_eq_ok fun i hi => delayLine_eq (hok i hi)
    refine Or.inr ⟨_, _, _, hlines, ?_, summarize_rows hok (hfit rows hrows).fits,
      reports_of_rows ?_ ?_⟩
    · rw [writeMetricsCsv, hrows]
      rfl
    · simp
    · rw [List.forall₂_map_left_iff, List.forall₂_map_right_iff]
      exact List.forall₂_same.mpr fun i _ => lineOf_delays
  · refine Or.inl ⟨m, ?_, ?_, ?_⟩
    · rw [writeDelayInfo, hsplit]
      refine mapM_eq_error (fun j hj => delayLine_eq (hpre j hj)) ?_
      rw [delayLine, hi]
      rfl
    · have hrows : metricsRows cfg s = .error m := by
        rw [metricsRows, hsplit]
        refine mapM_eq_error (fun j hj => metricsRow_eq (hpre j hj)) ?_
        rw [metricsRow, hi]
        rfl
      rw [writeMetricsCsv, hrows]
      rfl
    · obtain ⟨acc, hacc, -⟩ := foldlM_summarize hpre (emptySummary cfg)
      rw [writeSummaryJson, hsplit, List.foldlM_append, hacc]
      simp only [bind, Except.bind, List.foldlM_cons, summarize_error hi]

end Agreement

/-- A barrier, a write between the workers and a write inside one of them. -/
def threeRecords : PhaseTwoConfig where
  bench := [⟨5, 0, 0, 1, 1, 0x20000⟩, ⟨6, 0, 0, 1, 2, 0⟩, ⟨7, 8, 1, 1, 3, 0⟩]
  cycleNs := 1
  flitBytes := 32
  maxDatagramBytes := 1400
  workerSlots := fun node => if node < 2 then some node else none
  localizeCrossWorkerNetwork := true

def threeRecordsDone : PhaseTwo where
  now := 30
  states := fun i =>
    { threeRecords.traceState (threeRecords.record i) with
      forward := { transmitFinishNs := 10, arrivalNs := 14 }
      acknowledgement := { transmitFinishNs := 16, arrivalNs := 20 } }
  net := fun _ => { scheduled := fun _ => [] }

theorem reports_agree_three_records : ∃ lines csv summary,
    writeDelayInfo threeRecords threeRecordsDone = .ok lines ∧
    writeMetricsCsv threeRecords threeRecordsDone = .ok csv ∧
    writeSummaryJson threeRecords threeRecordsDone = .ok summary ∧
    ReportsAgree csv lines summary := by
  have hfit : ∀ rows, metricsRows threeRecords threeRecordsDone = .ok rows → TotalsFit rows := by
    intro rows h
    cases h
    exact ⟨by decide, by decide, by decide, by decide⟩
  refine (reports_agree hfit).resolve_left ?_
  rintro ⟨m, hm, -⟩
  cases hm

end ChipSystemSim
