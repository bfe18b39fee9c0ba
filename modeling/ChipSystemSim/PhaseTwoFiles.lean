import ChipSystemSim.TextLines
import ChipSystemSim.BenchTrace
import ChipSystemSim.RoutingJson
import ChipSystemSim.PhaseTwoReports
import Mathlib.Data.List.Sort

/-! The ns-3 adapter as a process: its command line, the files it reads, and the
files it writes one after the other. -/

namespace ChipSystemSim

open IStream (IntType lexField)

structure PhaseTwoOptions where
  benchPath : Text := []
  delayInfoPath : Text := []
  topologyPath : Text := []
  metricsCsvPath : Text := []
  summaryJsonPath : Text := []
  workerRoutingPath : Text := []
  linkRate : Text := "128Gbps".toList
  nodes : Nat := 0
  cycleNs : Nat := 1
  flitBytes : Nat := 32
  linkDelayNs : Nat := 1
  maxDatagramBytes : Nat := 1400
  queuePackets : Nat := 100000
  localizeCrossWorkerNetwork : Bool := false
  deriving DecidableEq

/-- `std::stoull` reads a sign too, so a negative number is taken modulo 2^64. -/
def parsePositive (text name : Text) : Except String Nat :=
  match (IntType.unsigned 64).convert (lexField text).1 with
  | none => .error "stoull"
  | some value =>
    if (lexField text).2 ≠ [] ∨ value = 0 then
      .error (String.ofList name ++ " must be a positive integer")
    else .ok value.toNat

def valueOptions : List Text :=
  ["--bench".toList, "--delay-info".toList, "--topology".toList, "--nodes".toList,
    "--cycle-ns".toList, "--flit-bytes".toList, "--link-rate".toList, "--link-delay-ns".toList,
    "--max-datagram-bytes".toList, "--queue-packets".toList, "--worker-routing".toList,
    "--metrics-csv".toList, "--summary-json".toList]

def setOption (name value : Text) (o : PhaseTwoOptions) : Except String PhaseTwoOptions :=
  if name = "--bench".toList then .ok { o with benchPath := value }
  else if name = "--delay-info".toList then .ok { o with delayInfoPath := value }
  else if name = "--topology".toList then .ok { o with topologyPath := value }
  else if name = "--nodes".toList then
    (parsePositive value name).map fun n => { o with nodes := n % 2 ^ 32 }
  else if name = "--cycle-ns".toList then
    (parsePositive value name).map fun n => { o with cycleNs := n }
  else if name = "--flit-bytes".toList then
    (parsePositive value name).map fun n => { o with flitBytes := n }
  else if name = "--link-rate".toList then .ok { o with linkRate := value }
  else if name = "--link-delay-ns".toList then
    (parsePositive value name).map fun n => { o with linkDelayNs := n }
  else if name = "--max-datagram-bytes".toList then
    (parsePositive value name).map fun n => { o with maxDatagramBytes := n }
  else if name = "--queue-packets".toList then
    (parsePositive value name).map fun n => { o with queuePackets := n }
  else if name = "--worker-routing".toList then .ok { o with workerRoutingPath := value }
  else if name = "--metrics-csv".toList then .ok { o with metricsCsvPath := value }
  else .ok { o with summaryJsonPath := value }

/-- The argument loop of `main`; no options are returned when it asks for help. -/
def parseArguments : List Text → PhaseTwoOptions → Except String (Option PhaseTwoOptions)
  | [], o => .ok (some o)
  | argument :: rest, o =>
    if argument ∈ valueOptions then
      match rest with
      | [] => .error (String.ofList argument ++ " requires a value")
      | value :: rest =>
        match setOption argument value o with
        | .error message => .error message
        | .ok o => parseArguments rest o
    else if argument = "--localize-cross-worker-network".toList then
      parseArguments rest { o with localizeCrossWorkerNetwork := true }
    else if argument = "-h".toList ∨ argument = "--help".toList then .ok none
    else .error ("unknown argument: " ++ String.ofList argument)

def lineEdges (nodes : List Nat) : List (Nat × Nat) :=
  ((nodes.zip nodes.tail).filter fun p => p.1 ≠ p.2).map fun p => (min p.1 p.2, max p.1 p.2)

def lineNodes (line : Text) : Except String (List Nat) :=
  (findAll (scanSome Char.isDigit) 0 line).mapM stoul

def edgeSet (edges : List (Nat × Nat)) : List (Nat × Nat) :=
  edges.dedup.insertionSort fun a b => a.1 < b.1 ∨ (a.1 = b.1 ∧ a.2 ≤ b.2)

def readTopology (path : String) (file : Option Text) : Except String (List (Nat × Nat)) :=
  match file with
  | none => .error ("cannot open topology: " ++ path)
  | some text => do
    let nodes ← ((TextLines.lines text).filter fun line => decide ("--".toList <:+: line)).mapM
        lineNodes
    let edges := edgeSet (nodes.flatMap lineEdges)
    if edges = [] then throw ("topology contains no undirected '--' edges: " ++ path)
    return edges

def readWorkerSlots (path : String) (file : Option Text) (nodes : Nat) :
    Except String (Nat → Option Nat) :=
  match file with
  | none => .error ("cannot open worker routing: " ++ path)
  | some text => readRoutingText text nodes

def DelayLine.text (l : DelayLine) : Text := [' '].intercalate (l.columns.map decimal) ++ ['\n']

/-- Pieces of text written one after the other, up to the first that fails. What
was written before it stays in the file. -/
def writeAll {α : Type*} (piece : α → Except String Text) : List α → Text × Except String Unit
  | [] => ([], .ok ())
  | a :: rest =>
    match piece a with
    | .error message => ([], .error message)
    | .ok text => (text ++ (writeAll piece rest).1, (writeAll piece rest).2)

def delayInfoWritten (cfg : PhaseTwoConfig) (s : PhaseTwo) : Text × Except String Unit :=
  writeAll (fun trace => (delayLine cfg (s.states trace)).map DelayLine.text)
    (List.range cfg.bench.length)

def metricsCsvWritten (cfg : PhaseTwoConfig) (s : PhaseTwo) : Text × Except String Unit :=
  let rows :=
    writeAll (fun id => (metricsRow cfg id (s.states id)).map fun row => Csv.line row.fields)
    (List.range cfg.bench.length)
  (Csv.line metricsNames ++ rows.1, rows.2)

def summaryMembers (summary : Summary) : List (String × Text) :=
  [("phase2_backend", "\"ns-3\"".toList),
    ("records", decimal summary.records),
    ("normal_records", decimal summary.normalRecords),
    ("special_records", decimal summary.specialRecords),
    ("payload_bytes", decimal summary.payloadBytes),
    ("cycle_ns", decimal summary.cycleNs),
    ("flit_bytes", decimal summary.flitBytes),
    ("link_rate", '"' :: (summary.linkRate.toList ++ ['"'])),
    ("link_delay_ns", decimal summary.linkDelayNs),
    ("counterfactual_localize_cross_worker_network",
      if summary.localizeCrossWorkerNetwork then "true".toList else "false".toList),
    ("counterfactual_localized_cross_worker_records", decimal summary.localizedCrossWorkerRecords),
    ("sum_source_sync_delay_cycles", decimal summary.sourceDelayCycles),
    ("sum_destination_network_delay_cycles", decimal summary.destinationDelayCycles),
    ("sum_destination_sync_block_cycles", decimal summary.destinationBlockCycles)]

def Summary.text (summary : Summary) : Text :=
  "\x7b\n".toList ++
    ",\n".toList.intercalate ((summaryMembers summary).map fun m =>
      "  \"".toList ++ m.1.toList ++ "\": ".toList ++ m.2) ++
    "\n\x7d\n".toList

/-- The files a path can name, what they hold, and which of them can be opened. -/
structure Disk (ι : Type*) where
  file : Text → ι
  content : ι → Option Text
  readable : ι → Bool
  writable : ι → Bool

section Process

variable {ι : Type*} [DecidableEq ι]

def Disk.read (disk : Disk ι) (path : Text) : Option Text :=
  if disk.readable (disk.file path) then disk.content (disk.file path) else none

def Disk.store (disk : Disk ι) (i : ι) (text : Text) : Disk ι :=
  { disk with content := Function.update disk.content i (some text) }

/-- A file opened with `std::ios::trunc`, and what is written until the writer throws. -/
def Disk.write (disk : Disk ι) (refusal : String) (path : Text)
    (written : Text × Except String Unit) : Except String Unit × Disk ι :=
  if disk.writable (disk.file path) then
    (written.2, disk.store (disk.file path) written.1)
  else (.error (refusal ++ String.ofList path), disk)

def writeMetrics (o : PhaseTwoOptions) (cfg : PhaseTwoConfig) (s : PhaseTwo) (disk : Disk ι) :
    Except String Unit × Disk ι :=
  if o.metricsCsvPath = [] then (.ok (), disk)
  else disk.write "cannot write metrics CSV: " o.metricsCsvPath (metricsCsvWritten cfg s)

-- the summary is added up before its file is opened
def writeSummary (o : PhaseTwoOptions) (cfg : PhaseTwoConfig) (s : PhaseTwo) (disk : Disk ι) :
    Except String Unit × Disk ι :=
  if o.summaryJsonPath = [] then (.ok (), disk)
  else
    match writeSummaryJson cfg s with
    | .error message => (.error message, disk)
    | .ok summary =>
      disk.write "cannot write metrics JSON: " o.summaryJsonPath (summary.text, .ok ())

def andThen (r : Except String Unit × Disk ι) (next : Disk ι → Except String Unit × Disk ι) :
    Except String Unit × Disk ι :=
  match r with
  | (.error message, disk) => (.error message, disk)
  | (.ok (), disk) => next disk

def writeReports (o : PhaseTwoOptions) (cfg : PhaseTwoConfig) (s : PhaseTwo) (disk : Disk ι) :
    Except String Unit × Disk ι :=
  andThen (disk.write "cannot write delayInfo: " o.delayInfoPath (delayInfoWritten cfg s))
    fun disk =>
    andThen (writeMetrics o cfg s disk) (writeSummary o cfg s)

/-- The parts of ns-3 that end the process at once: it rejects an attribute that
it is given, or it meets a fatal error in a run. -/
structure Ns3Library where
  rejects : PhaseTwoOptions → Bool
  crashes : PhaseTwoConfig → Bool
  next : Ns3

def PhaseTwoOptions.arguments (o : PhaseTwoOptions) (bench : List BenchRecord)
    (edges : List (Nat × Nat)) : PhaseTwoArguments where
  bench := bench
  edges := edges
  nodes := o.nodes
  cycleNs := o.cycleNs
  flitBytes := o.flitBytes
  maxDatagramBytes := o.maxDatagramBytes
  linkRate := String.ofList o.linkRate
  linkDelayNs := o.linkDelayNs
  workerRouting := none
  localizeCrossWorkerNetwork := o.localizeCrossWorkerNetwork

structure PhaseTwoInputs where
  bench : List BenchRecord
  edges : List (Nat × Nat)
  workerSlots : Nat → Option Nat

def readInputs (disk : Disk ι) (o : PhaseTwoOptions) : Except String PhaseTwoInputs := do
  if 65000 < o.maxDatagramBytes then throw "--max-datagram-bytes must fit in an IPv4 UDP datagram"
  if o.localizeCrossWorkerNetwork ∧ o.workerRoutingPath = [] then
    throw "--localize-cross-worker-network requires --worker-routing"
  let bench ← readBench (String.ofList o.benchPath) (disk.read o.benchPath)
  let edges ← readTopology (String.ofList o.topologyPath) (disk.read o.topologyPath)
  let workerSlots ←
    if o.localizeCrossWorkerNetwork then
      readWorkerSlots (String.ofList o.workerRoutingPath) (disk.read o.workerRoutingPath) o.nodes
    else pure fun _ => none
  return { bench, edges, workerSlots }

/-- The statuses of the process: of an exception, of a wrong command line, and of
`std::terminate`. -/
def failure : Nat := 1

def usage : Nat := 2

def aborted : Nat := 134

def exitStatus : Except String Unit → Nat
  | .ok () => 0
  | .error _ => failure

def runPhaseTwo (lib : Ns3Library) (fuel : Nat) (disk : Disk ι) (o : PhaseTwoOptions)
    (inputs : PhaseTwoInputs) : Option (Nat × Disk ι) :=
  if lib.rejects o then some (aborted, disk)
  else
    match (o.arguments inputs.bench inputs.edges).check with
    | .error _ => some (failure, disk)
    | .ok () =>
      let cfg := (o.arguments inputs.bench inputs.edges).config inputs.workerSlots
      if lib.crashes cfg then some (aborted, disk)
      else
        match simulate cfg lib.next fuel [] (PhaseTwo.start cfg) with
        | none => none
        | some (.error _) => some (failure, disk)
        | some (.ok s) =>
          match PhaseTwo.runResult cfg s with
          | .error _ => some (failure, disk)
          | .ok () => some (exitStatus (writeReports o cfg s disk).1, (writeReports o cfg s disk).2)

/-- `main`: its status and the files it leaves, if it ends with the given number
of ns-3 events. -/
def phaseTwoProcess (lib : Ns3Library) (fuel : Nat) (disk : Disk ι) (arguments : List Text) :
    Option (Nat × Disk ι) :=
  match parseArguments arguments {} with
  | .error _ => some (failure, disk)
  | .ok none => some (0, disk)
  | .ok (some o) =>
    if o.benchPath = [] ∨ o.delayInfoPath = [] ∨ o.topologyPath = [] ∨ o.nodes = 0 then
      some (usage, disk)
    else
      match readInputs disk o with
      | .error _ => some (failure, disk)
      | .ok inputs => runPhaseTwo lib fuel disk o inputs

/-- One line for each record, with its key and all of its delays. -/
def CompleteLines : List BenchRecord → List DelayLine → Prop :=
  List.Forall₂ fun record l => l.sourceCycle = record.sourceCycle ∧ l.source = record.source ∧
    l.destination = record.destination ∧ l.descriptor = record.descriptor ∧
    l.delays.length = l.count

def CompleteDelayInfo (bench : List BenchRecord) (content : Option Text) : Prop :=
  ∃ lines, CompleteLines bench lines ∧ content = some (lines.flatMap DelayLine.text)

/-- The file at `--delay-info` is as it was, or complete. -/
def DelayInfoKept (disk disk' : Disk ι) (o : PhaseTwoOptions) : Prop :=
  disk'.content (disk.file o.delayInfoPath) = disk.content (disk.file o.delayInfoPath) ∨
  ∃ bench, readBench (String.ofList o.benchPath) (disk.read o.benchPath) = .ok bench ∧
    CompleteDelayInfo bench (disk'.content (disk.file o.delayInfoPath))

/-- A run that fails keeps the file at `--delay-info`; one that does not get past
its command line keeps all files. -/
def KeepsDelayInfo (lib : Ns3Library) (fuel : Nat) (disk : Disk ι) (arguments : List Text) : Prop :=
  ∀ status disk', phaseTwoProcess lib fuel disk arguments = some (status, disk') → status ≠ 0 →
    (∀ o, parseArguments arguments {} = .ok (some o) → DelayInfoKept disk disk' o) ∧
    ((∀ o, parseArguments arguments {} ≠ .ok (some o)) → disk' = disk)

def PhaseTwoOptions.config (o : PhaseTwoOptions) (inputs : PhaseTwoInputs) : PhaseTwoConfig :=
  (o.arguments inputs.bench inputs.edges).config inputs.workerSlots

structure ReachesReports (lib : Ns3Library) (fuel : Nat) (disk : Disk ι) (arguments : List Text)
    (o : PhaseTwoOptions) (inputs : PhaseTwoInputs) (s : PhaseTwo) : Prop where
  parsed : parseArguments arguments {} = .ok (some o)
  given : ¬(o.benchPath = [] ∨ o.delayInfoPath = [] ∨ o.topologyPath = [] ∨ o.nodes = 0)
  read : readInputs disk o = .ok inputs
  accepted : lib.rejects o = false
  checked : (o.arguments inputs.bench inputs.edges).check = .ok ()
  survived : lib.crashes (o.config inputs) = false
  simulated : simulate (o.config inputs) lib.next fuel [] (PhaseTwo.start (o.config inputs)) =
    some (.ok s)
  completed : PhaseTwo.runResult (o.config inputs) s = .ok ()

/-- The metrics go to the same file as `delayInfo`, and the summary after them
to a file that cannot be opened. -/
def Overwritten (disk : Disk ι) (o : PhaseTwoOptions) : Prop :=
  (o.metricsCsvPath ≠ [] ∧ disk.file o.metricsCsvPath = disk.file o.delayInfoPath) ∧
    o.summaryJsonPath ≠ [] ∧ disk.writable (disk.file o.summaryJsonPath) = false

end Process

section Written

variable {α : Type*} {piece : α → Except String Text} {l : List α}

theorem writeAll_ok {f : α → Text} (h : ∀ a ∈ l, piece a = .ok (f a)) :
    writeAll piece l = (l.flatMap f, .ok ()) := by
  induction l with
  | nil => rfl
  | cons a l ih =>
    simp only [writeAll, h a List.mem_cons_self, ih fun b hb => h b (List.mem_cons_of_mem a hb),
      List.flatMap_cons]

theorem writeAll_error {a : α} (ha : a ∈ l) {message : String} (h : piece a = .error message) :
    ∃ message', (writeAll piece l).2 = .error message' := by
  induction l with
  | nil => cases ha
  | cons b l ih =>
    cases hb : piece b with
    | error m => exact ⟨m, by simp only [writeAll, hb]⟩
    | ok t =>
      have hmem : a ∈ l := by
        rcases List.mem_cons.mp ha with rfl | ha
        · rw [h] at hb
          cases hb
        · exact ha
      obtain ⟨m, hm⟩ := ih hmem
      exact ⟨m, by simp only [writeAll, hb, hm]⟩

theorem writeAll_count {c : Char} (hpiece : ∀ a t, piece a = .ok t → t.count c = 1)
    {message : String} (h : (writeAll piece l).2 = .error message) :
    (writeAll piece l).1.count c < l.length := by
  induction l with
  | nil => cases h
  | cons a l ih =>
    cases ha : piece a with
    | error m => simp [writeAll, ha]
    | ok t =>
      simp only [writeAll, ha] at h ⊢
      have hrest := ih h
      rw [List.count_append, hpiece a t ha, List.length_cons]
      omega

theorem DelayLine.mem_columns {line : DelayLine} {c : Char}
    (h : c ∈ [' '].intercalate (line.columns.map decimal)) :
    c = ' ' ∨ c = '-' ∨ c.isDigit = true := by
  rcases mem_intercalate h with h | ⟨t, ht, h⟩
  · exact Or.inl (List.mem_singleton.mp h)
  · obtain ⟨z, -, rfl⟩ := List.mem_map.mp ht
    exact Or.inr (decimal_chars h)

theorem DelayLine.count_newline (line : DelayLine) : line.text.count '\n' = 1 := by
  have hnot : '\n' ∉ [' '].intercalate (line.columns.map decimal) := by
    intro h
    rcases DelayLine.mem_columns h with h | h | h <;> cases h
  rw [DelayLine.text, List.count_append, List.count_eq_zero_of_not_mem hnot]
  rfl

theorem DelayLine.comma_notMem (line : DelayLine) : ',' ∉ line.text := by
  intro h
  rcases List.mem_append.mp h with h | h
  · rcases DelayLine.mem_columns h with h | h | h <;> cases h
  · simp at h

theorem count_lines_text (lines : List DelayLine) :
    (lines.flatMap DelayLine.text).count '\n' = lines.length := by
  induction lines with
  | nil => rfl
  | cons l lines ih =>
    rw [List.flatMap_cons, List.count_append, ih, l.count_newline, List.length_cons, Nat.add_comm]

end Written

section Reports

variable {cfg : PhaseTwoConfig} {s : PhaseTwo}

theorem CompleteDelayInfo.count {bench : List BenchRecord} {t : Text}
    (h : CompleteDelayInfo bench (some t)) : t.count '\n' = bench.length := by
  obtain ⟨lines, hlines, ht⟩ := h
  rw [Option.some.inj ht, count_lines_text, hlines.length_eq]

theorem CompleteDelayInfo.comma_notMem {bench : List BenchRecord} {t : Text}
    (h : CompleteDelayInfo bench (some t)) : ',' ∉ t := by
  obtain ⟨lines, -, ht⟩ := h
  rw [Option.some.inj ht]
  intro hmem
  obtain ⟨l, -, hl⟩ := List.mem_flatMap.mp hmem
  exact l.comma_notMem hl

theorem comma_mem_metricsCsv : ',' ∈ (metricsCsvWritten cfg s).1 := by
  refine List.mem_append_left _ (List.mem_append_left _ ?_)
  rw [metricsNames, List.intercalate_cons_cons]
  exact List.mem_append_left _ (List.mem_append_right _ (List.mem_singleton_self _))

/-- With a slot for every end all three reports are written to their end. -/
theorem reports_complete (hcovered : cfg.Covered)
    (hbench : ∀ i, (s.states i).bench = cfg.record i) :
    (∃ lines, CompleteLines cfg.bench lines ∧
      delayInfoWritten cfg s = (lines.flatMap DelayLine.text, .ok ())) ∧
    (metricsCsvWritten cfg s).2 = .ok () ∧ ∃ summary, writeSummaryJson cfg s = .ok summary := by
  have hlocalized : ∀ i, ∃ localized, i < cfg.bench.length →
      isLocalizedCrossWorker cfg (s.states i) = .ok localized := by
    intro i
    by_cases hi : i < cfg.bench.length
    · have hmem : (s.states i).bench ∈ cfg.bench := by
        rw [hbench]
        exact record_mem hi
      obtain ⟨b, hb⟩ := hcovered.localized hmem
      exact ⟨b, fun _ => hb⟩
    · exact ⟨false, fun h => absurd h hi⟩
  choose localized h using hlocalized
  have hrange : ∀ i ∈ List.range cfg.bench.length,
      isLocalizedCrossWorker cfg (s.states i) = .ok (localized i) :=
        fun i hi => h i (List.mem_range.mp hi)
  refine ⟨⟨(List.range cfg.bench.length).map fun i => lineOf cfg (s.states i) (localized i), ?_,
    ?_⟩, ?_, ?_⟩
  · refine List.forall₂_iff_get.mpr ⟨by simp, ?_⟩
    intro i hi hi'
    have hrecord : cfg.record i = cfg.bench.get ⟨i, hi⟩ := by simp [PhaseTwoConfig.record, hi]
    simp only [List.get_eq_getElem, List.getElem_map, List.getElem_range] at hrecord ⊢
    have hstate := (hbench i).trans hrecord
    rw [← hstate]
    exact ⟨rfl, rfl, rfl, rfl, length_delays⟩
  · rw [List.flatMap_map]
    exact writeAll_ok fun i hi => by rw [delayLine_eq (hrange i hi)]; rfl
  · have hrows : ∀ i ∈ List.range cfg.bench.length,
        (metricsRow cfg i (s.states i)).map (fun row => Csv.line row.fields) =
          .ok (Csv.line (rowOf cfg i (s.states i) (localized i)).fields) :=
      fun i hi => by rw [metricsRow_eq (hrange i hi)]; rfl
    rw [metricsCsvWritten, writeAll_ok hrows]
  · obtain ⟨summary, hsummary, -⟩ := foldlM_summarize hrange (emptySummary cfg)
    exact ⟨summary, hsummary⟩

theorem delayLine_unplaced {st : TraceState} (hflag : cfg.localizeCrossWorkerNetwork = true)
    (h : ¬((cfg.workerSlots st.bench.source).isSome ∧
      (cfg.workerSlots st.bench.destination).isSome)) :
    delayLine cfg st = .error
      "worker routing has no slot for a benchmark communication endpoint" := by
  unfold delayLine isLocalizedCrossWorker
  rw [if_pos hflag]
  cases hs : cfg.workerSlots st.bench.source with
  | none => rfl
  | some a =>
    cases hd : cfg.workerSlots st.bench.destination with
    | none => rfl
    | some b => exact absurd (by simp [hs, hd]) h

theorem delayInfo_incomplete (hcovered : ¬cfg.Covered)
    (hbench : ∀ i, (s.states i).bench = cfg.record i) :
    ∃ message, (delayInfoWritten cfg s).2 = .error message := by
  simp only [PhaseTwoConfig.Covered, not_forall] at hcovered
  obtain ⟨hflag, record, hmem, hnone⟩ := hcovered
  obtain ⟨i, hi, hget⟩ := List.getElem_of_mem hmem
  have hrecord : (s.states i).bench = record := by
    rw [hbench]
    simp [PhaseTwoConfig.record, hi, hget]
  have hline := delayLine_unplaced hflag (by rw [hrecord]; exact hnone)
  exact writeAll_error (List.mem_range.mpr hi) (congrArg (Except.map DelayLine.text) hline)

theorem delayInfo_truncated {message : String} (h : (delayInfoWritten cfg s).2 = .error message) :
    ¬CompleteDelayInfo cfg.bench (some (delayInfoWritten cfg s).1) := by
  intro hcomplete
  have hcount : (delayInfoWritten cfg s).1.count '\n' < (List.range cfg.bench.length).length := by
    refine writeAll_count ?_ h
    intro i t ht
    cases hline : delayLine cfg (s.states i) with
    | error m =>
      rw [hline] at ht
      cases ht
    | ok l =>
      rw [hline] at ht
      cases ht
      exact l.count_newline
  rw [hcomplete.count, List.length_range] at hcount
  exact lt_irrefl _ hcount

end Reports

section Files

variable {ι : Type*} [DecidableEq ι] {disk disk' : Disk ι} {o : PhaseTwoOptions}
  {cfg : PhaseTwoConfig}
  {s : PhaseTwo} {refusal message : String} {path : Text} {written : Text × Except String Unit}

@[simp]
theorem Disk.store_file (disk : Disk ι) (i : ι) (t : Text) :
    (disk.store i t).file = disk.file := rfl

@[simp]
theorem Disk.store_writable (disk : Disk ι) (i : ι) (t : Text) :
    (disk.store i t).writable = disk.writable := rfl

@[simp]
theorem Disk.store_self (disk : Disk ι) (i : ι) (t : Text) :
    (disk.store i t).content i = some t := by
  simp [Disk.store]

theorem Disk.store_of_ne (disk : Disk ι) {i j : ι} (h : j ≠ i) (t : Text) :
    (disk.store i t).content j = disk.content j := by
  simp [Disk.store, h]

theorem Disk.write_refused (h : disk.writable (disk.file path) = false) :
    disk.write refusal path written = (.error (refusal ++ String.ofList path), disk) := by
  simp [Disk.write, h]

theorem Disk.write_opened (h : disk.writable (disk.file path) = true) :
    disk.write refusal path written = (written.2, disk.store (disk.file path) written.1) := by
  simp [Disk.write, h]

theorem writeReports_refused (h : disk.writable (disk.file o.delayInfoPath) = false) :
    (writeReports o cfg s disk).2 = disk := by
  rw [writeReports, Disk.write_refused h]
  rfl

theorem writeReports_truncated (h : disk.writable (disk.file o.delayInfoPath) = true)
    (hfail : (delayInfoWritten cfg s).2 = .error message) : writeReports o cfg s disk =
      (.error message, disk.store (disk.file o.delayInfoPath) (delayInfoWritten cfg s).1) := by
  rw [writeReports, Disk.write_opened h, hfail]
  rfl

theorem writeReports_opened (h : disk.writable (disk.file o.delayInfoPath) = true)
    (hok : (delayInfoWritten cfg s).2 = .ok ()) : writeReports o cfg s disk =
      andThen (writeMetrics o cfg s
        (disk.store (disk.file o.delayInfoPath) (delayInfoWritten cfg s).1))
        (writeSummary o cfg s) := by
  rw [writeReports, Disk.write_opened h, hok]
  rfl

/-- The summary of a run fails only when its file does not open. -/
theorem writeSummary_cases (hsummary : ∃ summary, writeSummaryJson cfg s = .ok summary)
    (disk : Disk ι) :
    (writeSummary o cfg s disk).1 = .ok () ∧
      ¬(o.summaryJsonPath ≠ [] ∧ disk.writable (disk.file o.summaryJsonPath) = false) ∨
    ((∃ message, writeSummary o cfg s disk = (.error message, disk)) ∧
      o.summaryJsonPath ≠ [] ∧ disk.writable (disk.file o.summaryJsonPath) = false) := by
  obtain ⟨summary, hsummary⟩ := hsummary
  by_cases hpath : o.summaryJsonPath = []
  · exact Or.inl ⟨by rw [writeSummary, if_pos hpath], fun h => h.1 hpath⟩
  · simp only [writeSummary, if_neg hpath, hsummary]
    cases hw : disk.writable (disk.file o.summaryJsonPath) with
    | true => exact Or.inl ⟨by rw [Disk.write_opened hw], by simp⟩
    | false => exact Or.inr ⟨⟨_, Disk.write_refused hw⟩, hpath, rfl⟩

variable (hok : (delayInfoWritten cfg s).2 = .ok ())
  (hmetrics : (metricsCsvWritten cfg s).2 = .ok ())
  (hsummary : ∃ summary, writeSummaryJson cfg s = .ok summary)
include hok hmetrics hsummary

theorem writeReports_overwritten (h : disk.writable (disk.file o.delayInfoPath) = true)
    (hover : Overwritten disk o) : ∃ message, (writeReports o cfg s disk).1 = .error message ∧
      (writeReports o cfg s disk).2.content (disk.file o.delayInfoPath) =
        some (metricsCsvWritten cfg s).1 := by
  obtain ⟨⟨hpath, hsame⟩, hjson, hrefused⟩ := hover
  have hmetricsWritten : writeMetrics o cfg s
      (disk.store (disk.file o.delayInfoPath) (delayInfoWritten cfg s).1) =
      (.ok (), (disk.store (disk.file o.delayInfoPath) (delayInfoWritten cfg s).1).store
        (disk.file o.delayInfoPath) (metricsCsvWritten cfg s).1) := by
    rw [writeMetrics, if_neg hpath, Disk.write_opened (by simpa [hsame] using h), hmetrics]
    simp [hsame]
  rw [writeReports_opened h hok, hmetricsWritten]
  rcases writeSummary_cases (o := o) hsummary ((disk.store (disk.file o.delayInfoPath)
    (delayInfoWritten cfg s).1).store (disk.file o.delayInfoPath) (metricsCsvWritten cfg s).1) with
    ⟨-, hnot⟩ | ⟨⟨message, hlast⟩, -⟩
  · exact absurd ⟨hjson, hrefused⟩ hnot
  · exact ⟨message, by simp [andThen, hlast], by simp [andThen, hlast]⟩

theorem writeReports_kept (h : disk.writable (disk.file o.delayInfoPath) = true)
    (hover : ¬Overwritten disk o) (hfail : (writeReports o cfg s disk).1 = .error message) :
    (writeReports o cfg s disk).2.content (disk.file o.delayInfoPath) =
      some (delayInfoWritten cfg s).1 := by
  rw [writeReports_opened h hok] at hfail ⊢
  have hlast : ∀ disk₁ : Disk ι, (writeSummary o cfg s disk₁).1 = .error message →
      writeSummary o cfg s disk₁ = (.error message, disk₁) ∧
        o.summaryJsonPath ≠ [] ∧ disk₁.writable (disk₁.file o.summaryJsonPath) = false := by
    intro disk₁ herror
    rcases writeSummary_cases (o := o) hsummary disk₁ with ⟨hdone, -⟩ | ⟨⟨m, hm⟩, hrefused⟩
    · rw [hdone] at herror
      cases herror
    · rw [hm] at herror
      cases herror
      exact ⟨hm, hrefused⟩
  by_cases hpath : o.metricsCsvPath = []
  · rw [writeMetrics, if_pos hpath] at hfail ⊢
    simp only [andThen] at hfail ⊢
    rw [(hlast _ hfail).1, Disk.store_self]
  · rw [writeMetrics, if_neg hpath] at hfail ⊢
    cases hw : disk.writable (disk.file o.metricsCsvPath) with
    | false =>
      rw [Disk.write_refused (by simpa using hw)]
      exact Disk.store_self _ _ _
    | true =>
      rw [Disk.write_opened (by simpa using hw), hmetrics] at hfail ⊢
      simp only [andThen, Disk.store_file] at hfail ⊢
      obtain ⟨hend, hrefused⟩ := hlast _ hfail
      have hne : disk.file o.delayInfoPath ≠ disk.file o.metricsCsvPath :=
        fun hsame => hover ⟨⟨hpath, hsame.symm⟩, hrefused⟩
      rw [hend, Disk.store_of_ne _ hne, Disk.store_self]

end Files

section Keeping

variable {ι : Type*} [DecidableEq ι] {disk disk' : Disk ι} {o : PhaseTwoOptions}
  {inputs : PhaseTwoInputs}
  {s : PhaseTwo} {lib : Ns3Library} {fuel status : Nat} {arguments : List Text}

theorem ReachesReports.process (h : ReachesReports lib fuel disk arguments o inputs s) :
    phaseTwoProcess lib fuel disk arguments =
      some (exitStatus (writeReports o (o.config inputs) s disk).1,
        (writeReports o (o.config inputs) s disk).2) := by
  have hcfg : (o.arguments inputs.bench inputs.edges).config inputs.workerSlots = o.config inputs :=
    rfl
  simp only [phaseTwoProcess, h.parsed, if_neg h.given, h.read, runPhaseTwo, h.accepted,
    Bool.false_eq_true, if_false, h.checked, hcfg, h.survived, h.simulated, h.completed]

/-- A run changes no file before it gets to its reports. -/
theorem runPhaseTwo_cases (h : runPhaseTwo lib fuel disk o inputs = some (status, disk')) :
    disk' = disk ∨ ∃ s, lib.rejects o = false ∧
    (o.arguments inputs.bench inputs.edges).check = .ok () ∧
      lib.crashes (o.config inputs) = false ∧
      simulate (o.config inputs) lib.next fuel [] (PhaseTwo.start (o.config inputs)) =
        some (.ok s) ∧
      PhaseTwo.runResult (o.config inputs) s = .ok () ∧
      status = exitStatus (writeReports o (o.config inputs) s disk).1 ∧
      disk' = (writeReports o (o.config inputs) s disk).2 := by
  have hcfg : (o.arguments inputs.bench inputs.edges).config inputs.workerSlots = o.config inputs :=
    rfl
  unfold runPhaseTwo at h
  rw [hcfg] at h
  split at h
  · cases h
    exact Or.inl rfl
  · rename_i haccepted
    split at h
    · cases h
      exact Or.inl rfl
    · rename_i hchecked
      dsimp only at h
      split at h
      · cases h
        exact Or.inl rfl
      · rename_i hsurvived
        split at h
        · cases h
        · cases h
          exact Or.inl rfl
        · rename_i s hsimulated
          split at h
          · cases h
            exact Or.inl rfl
          · rename_i hcompleted
            cases h
            exact Or.inr ⟨s, by simpa using haccepted, hchecked,
              by simpa using hsurvived, hsimulated, hcompleted, rfl, rfl⟩

theorem phaseTwoProcess_cases (h : phaseTwoProcess lib fuel disk arguments = some (status, disk')) :
    disk' = disk ∨ ∃ o inputs s, ReachesReports lib fuel disk arguments o inputs s ∧
      status = exitStatus (writeReports o (o.config inputs) s disk).1 ∧
      disk' = (writeReports o (o.config inputs) s disk).2 := by
  unfold phaseTwoProcess at h
  split at h
  · cases h
    exact Or.inl rfl
  · cases h
    exact Or.inl rfl
  · rename_i o hparsed
    split at h
    · cases h
      exact Or.inl rfl
    · rename_i hgiven
      split at h
      · cases h
        exact Or.inl rfl
      · rename_i inputs hread
        refine (runPhaseTwo_cases h).imp id ?_
        rintro ⟨s, haccepted, hchecked, hsurvived, hsimulated, hcompleted, hstatus, hdisk⟩
        exact ⟨o, inputs, s, ⟨hparsed, hgiven, hread, haccepted, hchecked, hsurvived, hsimulated,
          hcompleted⟩,
          hstatus, hdisk⟩

omit [DecidableEq ι] in
theorem readInputs_bench (h : readInputs disk o = .ok inputs) :
    readBench (String.ofList o.benchPath) (disk.read o.benchPath) = .ok inputs.bench := by
  unfold readInputs at h
  by_cases hsize : 65000 < o.maxDatagramBytes
  · simp [hsize, throw, throwThe, MonadExceptOf.throw, bind, Except.bind] at h
  by_cases hpath : o.localizeCrossWorkerNetwork = true ∧ o.workerRoutingPath = []
  · simp [hsize, hpath, throw, throwThe, MonadExceptOf.throw, bind, Except.bind] at h
  cases hbench : readBench (String.ofList o.benchPath) (disk.read o.benchPath) with
  | error m => simp [hsize, hpath, hbench, bind, Except.bind] at h
  | ok bench =>
    cases hedges : readTopology (String.ofList o.topologyPath) (disk.read o.topologyPath) with
    | error m => simp [hsize, hpath, hbench, hedges, bind, Except.bind] at h
    | ok edges =>
      simp only [hsize, hpath, hbench, hedges, bind, Except.bind, if_false, pure, Except.pure] at h
      split at h
      · split at h
        · cases h
        · cases h
          rfl
      · cases h
        rfl

omit [DecidableEq ι] in
theorem ReachesReports.bench (h : ReachesReports lib fuel disk arguments o inputs s) (i : Nat) :
    (s.states i).bench = (o.config inputs).record i := simulate_bench h.simulated i

omit [DecidableEq ι] in
/-- A text in the file that is not complete for the records of the run was there before. -/
theorem DelayInfoKept.content_eq (h : ReachesReports lib fuel disk arguments o inputs s)
    (hkept : DelayInfoKept disk disk' o) {t : Text}
    (ht : disk'.content (disk.file o.delayInfoPath) = some t)
    (hnot : ¬CompleteDelayInfo inputs.bench (some t)) :
    disk.content (disk.file o.delayInfoPath) = some t := by
  rcases hkept with hsame | ⟨bench, hbench, hcomplete⟩
  · rw [← hsame, ht]
  · obtain rfl : inputs.bench = bench := Except.ok.inj ((readInputs_bench h.read).symm.trans hbench)
    exact absurd (ht ▸ hcomplete) hnot

theorem KeepsDelayInfo.kept (h : KeepsDelayInfo lib fuel disk arguments)
    (hreach : ReachesReports lib fuel disk arguments o inputs s) {message : String}
    (hfail : (writeReports o (o.config inputs) s disk).1 = .error message) :
    DelayInfoKept disk (writeReports o (o.config inputs) s disk).2 o := by
  refine (h _ _ hreach.process ?_).1 o hreach.parsed
  rw [hfail]
  exact one_ne_zero

theorem KeepsDelayInfo.uncovered (h : KeepsDelayInfo lib fuel disk arguments)
    (hreach : ReachesReports lib fuel disk arguments o inputs s)
    (hw : disk.writable (disk.file o.delayInfoPath) = true)
    (hcovered : ¬(o.config inputs).Covered) :
    disk.content (disk.file o.delayInfoPath) = some (delayInfoWritten (o.config inputs) s).1 := by
  obtain ⟨message, hfail⟩ := delayInfo_incomplete hcovered hreach.bench
  have hreports := writeReports_truncated hw hfail
  have hend := h.kept hreach (by rw [hreports])
  rw [hreports] at hend
  exact hend.content_eq hreach (Disk.store_self _ _ _) (delayInfo_truncated hfail)

theorem keepsDelayInfo_iff : KeepsDelayInfo lib fuel disk arguments ↔
    ∀ o inputs s, ReachesReports lib fuel disk arguments o inputs s →
      disk.writable (disk.file o.delayInfoPath) = true →
      (¬(o.config inputs).Covered →
        disk.content (disk.file o.delayInfoPath) = some (delayInfoWritten (o.config inputs) s).1) ∧
      ((o.config inputs).Covered → Overwritten disk o →
        disk.content (disk.file o.delayInfoPath) =
          some (metricsCsvWritten (o.config inputs) s).1) := by
  constructor
  · intro hkeeps o inputs s hreach hw
    refine ⟨hkeeps.uncovered hreach hw, ?_⟩
    intro hcovered hover
    obtain ⟨⟨lines, -, hlines⟩, hmetrics, hsummary⟩ := reports_complete hcovered hreach.bench
    obtain ⟨message, hfail, hcontent⟩ :=
      writeReports_overwritten (by rw [hlines]) hmetrics hsummary hw hover
    exact (hkeeps.kept hreach hfail).content_eq hreach hcontent fun h =>
      h.comma_notMem comma_mem_metricsCsv
  · intro hcond status disk' hprocess hstatus
    rcases phaseTwoProcess_cases hprocess with rfl | ⟨o, inputs, s, hreach, rfl, rfl⟩
    · exact ⟨fun o _ => Or.inl rfl, fun _ => rfl⟩
    · refine ⟨?_, fun hnone => absurd hreach.parsed (hnone o)⟩
      intro o' ho'
      obtain rfl : o = o' := Option.some.inj (Except.ok.inj (hreach.parsed.symm.trans ho'))
      cases hw : disk.writable (disk.file o.delayInfoPath) with
      | false => exact Or.inl (by rw [writeReports_refused hw])
      | true =>
        obtain ⟨huncovered, hoverwritten⟩ := hcond o inputs s hreach hw
        by_cases hcovered : (o.config inputs).Covered
        · obtain ⟨⟨lines, hcomplete, hlines⟩, hmetrics, hsummary⟩ :=
            reports_complete hcovered hreach.bench
          obtain ⟨message, hfail⟩ : ∃ message, (writeReports o (o.config inputs) s disk).1 =
              .error message := by
            cases hend : (writeReports o (o.config inputs) s disk).1 with
            | ok _ => exact absurd (by rw [hend]; rfl) hstatus
            | error message => exact ⟨message, rfl⟩
          by_cases hover : Overwritten disk o
          · obtain ⟨_, -, hcontent⟩ :=
              writeReports_overwritten (by rw [hlines]) hmetrics hsummary hw hover
            exact Or.inl (hcontent.trans (hoverwritten hcovered hover).symm)
          · have hcontent := writeReports_kept (by rw [hlines]) hmetrics hsummary hw hover hfail
            refine Or.inr ⟨inputs.bench, readInputs_bench hreach.read, lines, hcomplete, ?_⟩
            rw [hcontent, hlines]
        · obtain ⟨message, hfail⟩ := delayInfo_incomplete hcovered hreach.bench
          refine Or.inl ?_
          rw [writeReports_truncated hw hfail, Disk.store_self, huncovered hcovered]

def unplacedFiles : List (Text × Text) :=
  [("bench".toList, "0 0 0 0 1 0\n".toList),
    ("topology".toList, "0--1--3--2\n".toList),
    ("routing".toList, "\x7b\"1,0\": 0\x7d".toList),
    ("delayInfo".toList, "0 0 0 0 2 1 1\n".toList)]

def unplacedDisk : Disk Text where
  file := id
  content := fun path => unplacedFiles.lookup path
  readable := fun _ => true
  writable := fun _ => true

def unplacedArguments : List Text :=
  ["--bench".toList, "bench".toList, "--topology".toList, "topology".toList, "--delay-info".toList,
    "delayInfo".toList, "--nodes".toList, "4".toList, "--worker-routing".toList, "routing".toList,
    "--localize-cross-worker-network".toList]

def unplacedOptions : PhaseTwoOptions where
  benchPath := "bench".toList
  topologyPath := "topology".toList
  delayInfoPath := "delayInfo".toList
  workerRoutingPath := "routing".toList
  nodes := 4
  localizeCrossWorkerNetwork := true

def oneSend : Ns3Library where
  rejects := fun _ => false
  crashes := fun _ => false
  next := fun events _ => [Ns3Event.send 0 false false][events.length]?

theorem unplaced_bench (path : String) :
    readBench path (some "0 0 0 0 1 0\n".toList) = .ok [⟨0, 0, 0, 0, 1, 0⟩] := by
  obtain ⟨fs, hfs⟩ : ∃ fs, IStream.lexFields benchTypes "0 0 0 0 1 0\n".toList =
      some (fs, ['\n']) := ⟨_, rfl⟩
  have hrest : ReadsToEnd ['\n'] [] ['\n'] := .tail rfl
  have hread : ReadsToEnd "0 0 0 0 1 0\n".toList [fs] ['\n'] := by
    refine .record hfs ?_ hrest
    cases hfs
    decide
  rw [readBench_eq_ok hread]
  cases hfs
  rfl

theorem unplaced_routing :
    readRoutingText "\x7b\"1,0\": 0\x7d".toList 4 =
      .ok (Function.update (fun _ => none) 1 (some 0)) := by
  have hentries : coordinateEntries "\x7b\"1,0\": 0\x7d".toList = [entryText (1, 0, 0)] := by decide
  have hread := readRoutingText_square (w := 2) (by decide)
    (by rw [hentries]; exact List.cons_ne_nil _ _)
  rw [hentries] at hread
  exact hread

theorem unplaced_topology (path : String) :
    readTopology path (some "0--1--3--2\n".toList) = .ok [(0, 1), (1, 3), (2, 3)] := by
  have hedges : ((TextLines.lines "0--1--3--2\n".toList).filter fun line =>
      decide ("--".toList <:+: line)).mapM lineNodes = .ok [[0, 1, 3, 2]] := by
    decide +kernel
  rw [readTopology, hedges]
  rfl

def unplacedInputs : PhaseTwoInputs where
  bench := [⟨0, 0, 0, 0, 1, 0⟩]
  edges := [(0, 1), (1, 3), (2, 3)]
  workerSlots := Function.update (fun _ => none) 1 (some 0)

theorem failed_run_empties_delayInfo :
    ¬KeepsDelayInfo oneSend 2 unplacedDisk unplacedArguments := by
  have hread : readInputs unplacedDisk unplacedOptions = .ok unplacedInputs := by
    have hbench : unplacedDisk.read unplacedOptions.benchPath =
        some "0 0 0 0 1 0\n".toList := by decide
    have htopology : unplacedDisk.read unplacedOptions.topologyPath =
        some "0--1--3--2\n".toList := by decide
    have hrouting : unplacedDisk.read unplacedOptions.workerRoutingPath =
        some "\x7b\"1,0\": 0\x7d".toList := by decide
    have hpath : unplacedOptions.workerRoutingPath ≠ [] := by decide
    simp only [readInputs, hbench, htopology, hrouting, hpath, and_false, if_false, unplaced_bench,
      unplaced_topology, readWorkerSlots]
    change (readRoutingText _ 4).bind _ = _
    rw [unplaced_routing]
    rfl
  obtain ⟨s, hs⟩ : ∃ s, simulate (unplacedOptions.config unplacedInputs) oneSend.next 2 []
      (PhaseTwo.start (unplacedOptions.config unplacedInputs)) = some (.ok s) := ⟨_, rfl⟩
  have hresult : PhaseTwo.runResult (unplacedOptions.config unplacedInputs) s = .ok () := by
    cases hs
    rfl
  have hreach : ReachesReports oneSend 2 unplacedDisk unplacedArguments unplacedOptions
      unplacedInputs s :=
    ⟨by decide +kernel, by decide, hread, rfl, rfl, rfl, hs, hresult⟩
  have hcovered : ¬(unplacedOptions.config unplacedInputs).Covered := by
    intro h
    have hsome := (h rfl _ List.mem_cons_self).1
    cases hsome
  intro hkeeps
  have hcontent := hkeeps.uncovered hreach rfl hcovered
  have hline : delayLine (unplacedOptions.config unplacedInputs) (s.states 0) =
      .error "worker routing has no slot for a benchmark communication endpoint" := by
    refine delayLine_unplaced rfl ?_
    rw [hreach.bench]
    intro hsome
    cases hsome.1
  have hempty : (delayInfoWritten (unplacedOptions.config unplacedInputs) s).1 = [] := by
    change (writeAll _ [0]).1 = []
    simp only [writeAll, hline]
    rfl
  rw [hempty] at hcontent
  revert hcontent
  decide

end Keeping

end ChipSystemSim
