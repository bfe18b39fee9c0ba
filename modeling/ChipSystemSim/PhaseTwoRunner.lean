import ChipSystemSim.PhaseTwoFiles
import ChipSystemSim.Staging

/-! A Phase-2 process with the ns-3 backend: the command line that replaces the one of
PopNet, and the wrapper that keeps the files of the round beside its log. -/

namespace ChipSystemSim

open IStream (IntType lexField)

/-- Why `int` fails: a `ValueError`, a `TypeError` that names the type, or an `OverflowError`. -/
inductive IntFailure where
  | value
  | type (name : Text)
  | overflow
  deriving DecidableEq, Repr

/-- An argument of PopNet in the YAML: a string, an integer, or another scalar with
what `str` and `int` make of it. -/
inductive PopnetArg where
  | text (t : Text)
  | number (n : Int)
  | other (shown : Text) (whole : Except IntFailure Int)

def PopnetArg.str : PopnetArg → Text
  | .text t => t
  | .number n => decimal n
  | .other shown _ => shown

def PopnetArg.int : PopnetArg → Except IntFailure Int
  | .text t =>
    match pyInt t with
    | some n => .ok n
    | none => .error .value
  | .number n => .ok n
  | .other _ whole => whole

def PopnetArg.isText (option : Text) : PopnetArg → Bool
  | .text t => t = option
  | _ => false

/-- `l[l.index(option) + 1]`. -/
def afterFirst {α : Type} (found : α → Bool) : List α → Option α
  | [] => none
  | a :: rest => if found a then rest.head? else afterFirst found rest

structure Ns3Options where
  cycleNs : Int := 1
  linkRate : Text := "128Gbps".toList
  linkDelayNs : Int := 1
  queuePackets : Int := 100000
  localizeCrossWorkerNetwork : Bool := false
  benchmarkRoot : Text := []

/-- The root of a path: two slashes stay two, one or more than two become one. -/
def posixRoot (t : Text) : Text :=
  if t.head? ≠ some '/' then []
  else if "//".toList.isPrefixOf t && !"///".toList.isPrefixOf t then ['/', '/']
  else ['/']

/-- `str(Path(t) / one / two)`. -/
def joinPath (t one two : Text) : Text :=
  posixRoot t ++ ['/'].intercalate
    (((t.splitOn '/').filter fun part => part ≠ [] ∧ part ≠ ['.']) ++ [one, two])

def ns3Topology (o : Ns3Options) (topology : Text) : Text :=
  if "../topology/".toList.isPrefixOf topology && !o.benchmarkRoot.isEmpty then
    joinPath o.benchmarkRoot "topology".toList (pathName topology)
  else topology

def benchFile : Text := "../bench.txt".toList

def delayInfoFile : Text := "../delayInfo.txt".toList

def metricsFile : Text := "../ns3_phase2_metrics.csv".toList

def summaryFile : Text := "../ns3_phase2_summary.json".toList

def routingFile : Text := "/run/config/routing.json".toList

/-- What the three options of PopNet say. -/
structure PopnetValues where
  nodeCount : Text
  flits : Int
  topology : Text

def missingPopnet : String := "Phase-2 PopNet arguments must contain -A, -F and -G"

/-- Only a `ValueError` is caught. -/
def IntFailure.message : IntFailure → String
  | .value => missingPopnet
  | .type name => "int() argument must be a string, a bytes-like object or a real number, not '" ++
    String.ofList name ++ "'"
  | .overflow => "cannot convert float infinity to integer"

def popnetValues (args : List PopnetArg) : Except String PopnetValues :=
  match afterFirst (PopnetArg.isText "-A".toList) args,
    afterFirst (PopnetArg.isText "-F".toList) args with
  | some nodeCount, some flits =>
    match flits.int with
    | .error failure => .error failure.message
    | .ok n =>
      match afterFirst (PopnetArg.isText "-G".toList) args with
      | none => .error missingPopnet
      | some topology => .ok ⟨nodeCount.str, n, topology.str⟩
  | _, _ => .error missingPopnet

/-- The arguments of `ns3_phase2_runner.py`. -/
def ns3Arguments (o : Ns3Options) (p : PopnetValues) : List Text :=
  ["--bench".toList, benchFile, "--delay-info".toList, delayInfoFile, "--topology".toList,
    ns3Topology o p.topology, "--nodes".toList, p.nodeCount, "--cycle-ns".toList, decimal o.cycleNs,
    "--flit-bytes".toList, decimal (p.flits * 8), "--link-rate".toList, o.linkRate,
    "--link-delay-ns".toList, decimal o.linkDelayNs, "--queue-packets".toList,
    decimal o.queuePackets, "--metrics-csv".toList, metricsFile, "--summary-json".toList,
    summaryFile] ++
  if o.localizeCrossWorkerNetwork then
    ["--worker-routing".toList, routingFile, "--localize-cross-worker-network".toList]
  else []

def ns3Command (o : Ns3Options) (args : List PopnetArg) : Except String (List Text) :=
  if o.cycleNs < 1 ∨ o.linkDelayNs < 1 ∨ o.queuePackets < 1 then
    .error "ns-3 timing parameters must be positive"
  else
    match popnetValues args with
    | .error message => .error message
    | .ok p =>
      if p.flits < 1 then .error "Phase-2 flit count must be positive"
      else .ok (ns3Arguments o p)

/-- The options that the command line stands for. -/
def ns3PhaseTwoOptions (o : Ns3Options) (p : PopnetValues) (nodes : Nat) : PhaseTwoOptions where
  benchPath := benchFile
  delayInfoPath := delayInfoFile
  topologyPath := ns3Topology o p.topology
  metricsCsvPath := metricsFile
  summaryJsonPath := summaryFile
  workerRoutingPath := if o.localizeCrossWorkerNetwork then routingFile else []
  linkRate := o.linkRate
  nodes := nodes % 2 ^ 32
  cycleNs := o.cycleNs.toNat
  flitBytes := p.flits.toNat * 8
  linkDelayNs := o.linkDelayNs.toNat
  queuePackets := o.queuePackets.toNat
  localizeCrossWorkerNetwork := o.localizeCrossWorkerNetwork

theorem parsePositive_decimal {n : Nat} (h : 0 < n) (name : Text) :
    parsePositive (decimal n) name = if 2 ^ 64 ≤ n then .error "stoull" else .ok n := by
  have hlex : lexField (decimal n) = (⟨[], [], decimal n⟩, []) := by
    have hfield : IStream.IsField ⟨[], [], decimal n⟩ [] := {
      blank := fun c hc => (List.not_mem_nil hc).elim
      sign := Or.inl rfl
      digits := fun c hc => toDigits_isDigit hc
      stop := fun c hc => by cases hc }
    have hfound := IStream.lexField_append hfield Nat.toDigits_ne_nil
    rwa [List.append_nil] at hfound
  have hvalue : IStream.Field.magnitude ⟨[], [], decimal n⟩ = n := Nat.ofDigitChars_ten_toDigits
  have hne : decimal n ≠ [] := Nat.toDigits_ne_nil
  unfold parsePositive
  rw [hlex]
  simp only [IntType.convert, hvalue, hne, false_or]
  by_cases hbig : 2 ^ 64 ≤ n
  · rw [if_pos hbig, if_pos hbig]
  · have hpos : n ≠ 0 := by omega
    rw [if_neg hbig, if_neg hbig]
    simp [hpos]

theorem parsePositive_decimal_ok {z : Int} (h : 1 ≤ z) {name : Text} {n : Nat} :
    parsePositive (decimal z) name = .ok n ↔ z < 2 ^ 64 ∧ n = z.toNat := by
  obtain ⟨m, rfl⟩ := Int.eq_ofNat_of_zero_le (Int.le_trans (by decide) h)
  rw [parsePositive_decimal (by omega)]
  split
  · simp only [reduceCtorEq, false_iff, not_and]
    omega
  · simp only [Except.ok.injEq, Int.toNat_natCast]
    omega

section Parsed

variable {name value : Text} {rest : List Text} {o : PhaseTwoOptions}
  {parsed : Option PhaseTwoOptions}

theorem parseArguments_value (hname : name ∈ valueOptions) :
    parseArguments (name :: value :: rest) o =
      match setOption name value o with
      | .error message => .error message
      | .ok o => parseArguments rest o :=
  if_pos hname

theorem parse_text {f : Text → PhaseTwoOptions → PhaseTwoOptions} (hname : name ∈ valueOptions)
    (hset : ∀ v o, setOption name v o = .ok (f v o)) :
    parseArguments (name :: value :: rest) o = parseArguments rest (f value o) := by
  rw [parseArguments_value hname]
  simp only [hset]

theorem parse_number {f : PhaseTwoOptions → Nat → PhaseTwoOptions} (hname : name ∈ valueOptions)
    (hset : ∀ v o, setOption name v o = (parsePositive v name).map (f o)) :
    parseArguments (name :: value :: rest) o = .ok parsed ↔
      ∃ n, parsePositive value name = .ok n ∧ parseArguments rest (f o n) = .ok parsed := by
  rw [parseArguments_value hname]
  simp only [hset]
  cases parsePositive value name with
  | error e => simp [Except.map]
  | ok n => simp [Except.map]

end Parsed

theorem parse_decimal {name : Text} {rest : List Text} {o : PhaseTwoOptions}
    {parsed : Option PhaseTwoOptions} {f : PhaseTwoOptions → Nat → PhaseTwoOptions} {z : Int}
    (hz : 1 ≤ z) (hname : name ∈ valueOptions)
    (hset : ∀ v o, setOption name v o = (parsePositive v name).map (f o)) :
    parseArguments (name :: decimal z :: rest) o = .ok parsed ↔
      z < 2 ^ 64 ∧ parseArguments rest (f o z.toNat) = .ok parsed := by
  rw [parse_number hname hset]
  simp only [parsePositive_decimal_ok hz]
  constructor
  · rintro ⟨n, ⟨hlt, rfl⟩, hrest⟩
    exact ⟨hlt, hrest⟩
  · rintro ⟨hlt, hrest⟩
    exact ⟨_, ⟨hlt, rfl⟩, hrest⟩

/-- The numbers of the command line fit the type in which they are read. -/
structure Ns3Options.Fits (o : Ns3Options) (p : PopnetValues) : Prop where
  cycle : o.cycleNs < 2 ^ 64
  flits : p.flits * 8 < 2 ^ 64
  delay : o.linkDelayNs < 2 ^ 64
  queue : o.queuePackets < 2 ^ 64

theorem parse_localize {o : PhaseTwoOptions} {localize : Bool} {parsed : Option PhaseTwoOptions} :
    parseArguments (if localize then
      ["--worker-routing".toList, routingFile, "--localize-cross-worker-network".toList] else [])
        o = .ok parsed ↔
      parsed = some (if localize then
        { o with workerRoutingPath := routingFile, localizeCrossWorkerNetwork := true }
          else o) := by
  cases localize with
  | false =>
    have hend : parseArguments [] o = .ok (some o) := rfl
    rw [if_neg Bool.false_ne_true, if_neg Bool.false_ne_true, hend, Except.ok.injEq]
    exact eq_comm
  | true =>
    have hflag : ∀ o : PhaseTwoOptions,
      parseArguments ["--localize-cross-worker-network".toList] o =
        .ok (some { o with localizeCrossWorkerNetwork := true }) := fun o => rfl
    rw [if_pos rfl, if_pos rfl, parse_text (by decide) fun _ _ => rfl, hflag, Except.ok.injEq]
    exact eq_comm

theorem ns3_arguments_parsed {o : Ns3Options} {p : PopnetValues} (hcycle : 1 ≤ o.cycleNs)
    (hflits : 1 ≤ p.flits) (hdelay : 1 ≤ o.linkDelayNs) (hqueue : 1 ≤ o.queuePackets)
    {parsed : Option PhaseTwoOptions} :
    parseArguments (ns3Arguments o p) {} = .ok parsed ↔
      ∃ n, parsePositive p.nodeCount "--nodes".toList = .ok n ∧ o.Fits p ∧
        parsed = some (ns3PhaseTwoOptions o p n) := by
  have hbytes : 1 ≤ p.flits * 8 := by omega
  have hsize : (p.flits * 8).toNat = p.flits.toNat * 8 := by omega
  simp only [ns3Arguments, List.cons_append, List.nil_append]
  -- the record is brought back to its fields after each option: it would double every time
  rw [parse_text (by decide) fun _ _ => rfl]
  dsimp only
  rw [parse_text (by decide) fun _ _ => rfl]
  dsimp only
  rw [parse_text (by decide) fun _ _ => rfl]
  dsimp only
  rw [parse_number (by decide) fun _ _ => rfl]
  refine exists_congr fun n => and_congr_right fun _ => ?_
  dsimp only
  rw [parse_decimal hcycle (by decide) fun _ _ => rfl]
  dsimp only
  rw [parse_decimal hbytes (by decide) fun _ _ => rfl]
  dsimp only
  rw [parse_text (by decide) fun _ _ => rfl]
  dsimp only
  rw [parse_decimal hdelay (by decide) fun _ _ => rfl]
  dsimp only
  rw [parse_decimal hqueue (by decide) fun _ _ => rfl]
  dsimp only
  rw [parse_text (by decide) fun _ _ => rfl]
  dsimp only
  rw [parse_text (by decide) fun _ _ => rfl]
  dsimp only
  rw [parse_localize, hsize]
  constructor
  · rintro ⟨hc, hf, hd, hq, rfl⟩
    refine ⟨⟨hc, hf, hd, hq⟩, ?_⟩
    cases h : o.localizeCrossWorkerNetwork <;> simp [ns3PhaseTwoOptions, h]
  · rintro ⟨⟨hc, hf, hd, hq⟩, rfl⟩
    refine ⟨hc, hf, hd, hq, ?_⟩
    cases h : o.localizeCrossWorkerNetwork <;> simp [ns3PhaseTwoOptions, h]

theorem ns3Command_ok {o : Ns3Options} {args : List PopnetArg} {command : List Text}
    (h : ns3Command o args = .ok command) :
    ∃ p, popnetValues args = .ok p ∧ command = ns3Arguments o p ∧ 1 ≤ o.cycleNs ∧ 1 ≤ p.flits ∧
      1 ≤ o.linkDelayNs ∧ 1 ≤ o.queuePackets := by
  unfold ns3Command at h
  split at h
  · cases h
  · rename_i htiming
    cases hp : popnetValues args with
    | error message => simp [hp] at h
    | ok p =>
      simp only [hp] at h
      split at h
      · cases h
      · exact ⟨p, rfl, (Except.ok.inj h).symm, by omega, by omega, by omega, by omega⟩

/-- The adapter reads the command line back as the options it was made of. It refuses
one whose node count is no positive number or that has a number beyond 64 bits. -/
theorem ns3_command_read_back {o : Ns3Options} {args : List PopnetArg} {command : List Text}
    (h : ns3Command o args = .ok command) :
    ∃ p, popnetValues args = .ok p ∧ ∀ parsed, parseArguments command {} = .ok parsed ↔
      ∃ n, parsePositive p.nodeCount "--nodes".toList = .ok n ∧ o.Fits p ∧
        parsed = some (ns3PhaseTwoOptions o p n) := by
  obtain ⟨p, hp, rfl, hcycle, hflits, hdelay, hqueue⟩ := ns3Command_ok h
  exact ⟨p, hp, fun parsed => ns3_arguments_parsed hcycle hflits hdelay hqueue⟩

def chainPopnet : List PopnetArg :=
  [.text "-A".toList, .number 4, .text "-F".toList, .number 4, .text "-G".toList,
    .text "../topology/chain.gv".toList]

def chainCommand : List Text := ns3Arguments {} ⟨['4'], 4, "../topology/chain.gv".toList⟩

theorem chain_command : ns3Command {} chainPopnet = .ok chainCommand := rfl

theorem chain_popnet : popnetValues chainPopnet = .ok ⟨['4'], 4, "../topology/chain.gv".toList⟩ :=
  rfl

theorem ns3_command_read_back_chain : parseArguments chainCommand {} =
    .ok (some (ns3PhaseTwoOptions {} ⟨['4'], 4, "../topology/chain.gv".toList⟩ 4)) := by
  obtain ⟨p, hp, hread⟩ := ns3_command_read_back chain_command
  obtain rfl : _ = p := Except.ok.inj (chain_popnet.symm.trans hp)
  exact (hread _).mpr ⟨4, rfl, ⟨by decide, by decide, by decide, by decide⟩, rfl⟩

/-- `option_value` of the wrapper. -/
def optionValue (arguments : List Text) (option : Text) : Except String Text :=
  match afterFirst (· = option) arguments with
  | none => .error ("missing " ++ String.ofList option ++ " argument")
  | some value => .ok value

section Runner

variable {ι : Type*} [DecidableEq ι]

def copyIfFile (disk : Disk ι) (source destination : Text) : Except String Unit × Disk ι :=
  match disk.content (disk.file source) with
  | none => (.error ("expected Phase-2 artifact is missing: " ++ String.ofList source), disk)
  | some text =>
    if disk.file source = disk.file destination then (.error "are the same file", disk)
    else if disk.readable (disk.file source) then
      disk.write "Permission denied: " destination (text, .ok ())
    else (.error ("Permission denied: " ++ String.ofList source), disk)

def benchCopy : Text := "phase2_input_bench.txt".toList

def delayInfoCopy : Text := "phase2_delayInfo.txt".toList

def metricsCopy : Text := "phase2_metrics.csv".toList

def summaryCopy : Text := "phase2_summary.json".toList

structure RunnerPaths where
  bench : Text
  delayInfo : Text
  metrics : Text
  summary : Text

def runnerPaths (arguments : List Text) : Except String RunnerPaths := do
  let bench ← optionValue arguments "--bench".toList
  let delayInfo ← optionValue arguments "--delay-info".toList
  let metrics ← optionValue arguments "--metrics-csv".toList
  let summary ← optionValue arguments "--summary-json".toList
  return ⟨bench, delayInfo, metrics, summary⟩

def keepResults (paths : RunnerPaths) (disk : Disk ι) : Except String Unit × Disk ι :=
  andThen (copyIfFile disk paths.delayInfo delayInfoCopy) fun disk =>
    andThen (copyIfFile disk paths.metrics metricsCopy) fun disk =>
      copyIfFile disk paths.summary summaryCopy

/-- `ns3_phase2_runner.py`; no result is a run of the adapter that does not end. -/
def phaseTwoRunner (lib : Ns3Library) (fuel : Nat) (disk : Disk ι) (arguments : List Text) :
    Option (Except String Unit × Disk ι) :=
  match runnerPaths arguments with
  | .error message => some (.error message, disk)
  | .ok paths =>
    match copyIfFile disk paths.bench benchCopy with
    | (.error message, disk) => some (.error message, disk)
    | (.ok (), disk) =>
      match phaseTwoProcess lib fuel disk arguments with
      | none => none
      | some (status, disk) =>
        if status ≠ 0 then some (.error "returned non-zero exit status", disk)
        else some (keepResults paths disk)

variable {disk disk' : Disk ι} {o : PhaseTwoOptions} {inputs : PhaseTwoInputs} {lib : Ns3Library}
  {fuel : Nat}

omit [DecidableEq ι] in
theorem andThen_ok {r : Except String Unit × Disk ι} {next : Disk ι → Except String Unit × Disk ι}
    (h : andThen r next = (.ok (), disk')) : ∃ d, r = (.ok (), d) ∧ next d = (.ok (), disk') := by
  obtain ⟨result, d⟩ := r
  cases result with
  | error message => simp [andThen] at h
  | ok _ => exact ⟨d, rfl, h⟩

theorem write_ok {refusal : String} {path : Text} {written : Text × Except String Unit}
    (h : disk.write refusal path written = (.ok (), disk')) :
    written.2 = .ok () ∧ disk' = disk.store (disk.file path) written.1 := by
  unfold Disk.write at h
  split at h
  · exact ⟨congrArg Prod.fst h, (congrArg Prod.snd h).symm⟩
  · cases congrArg Prod.fst h

theorem copyIfFile_ok {source destination : Text}
    (h : copyIfFile disk source destination = (.ok (), disk')) :
    ∃ text, disk.content (disk.file source) = some text ∧ disk.read source = some text ∧
      disk' = disk.store (disk.file destination) text := by
  unfold copyIfFile at h
  split at h
  · cases congrArg Prod.fst h
  · rename_i text htext
    split at h
    · cases congrArg Prod.fst h
    · split at h
      · rename_i hreadable
        exact ⟨text, htext, by rw [Disk.read, if_pos hreadable, htext], (write_ok h).2⟩
      · cases congrArg Prod.fst h

/-- What an adapter that succeeds leaves in its three files. -/
theorem writeReports_ok {cfg : PhaseTwoConfig} {s : PhaseTwo} (hmetrics : o.metricsCsvPath ≠ [])
    (hsummary : o.summaryJsonPath ≠ []) (h : writeReports o cfg s disk = (.ok (), disk')) :
    (delayInfoWritten cfg s).2 = .ok () ∧ (metricsCsvWritten cfg s).2 = .ok () ∧
      ∃ summary, writeSummaryJson cfg s = .ok summary ∧
        disk' = ((disk.store (disk.file o.delayInfoPath) (delayInfoWritten cfg s).1).store
          (disk.file o.metricsCsvPath) (metricsCsvWritten cfg s).1).store
          (disk.file o.summaryJsonPath) summary.text := by
  obtain ⟨d₁, hdelay, hrest⟩ := andThen_ok h
  obtain ⟨hcomplete, rfl⟩ := write_ok hdelay
  obtain ⟨d₂, hrows, hlast⟩ := andThen_ok hrest
  rw [writeMetrics, if_neg hmetrics] at hrows
  obtain ⟨hwritten, rfl⟩ := write_ok hrows
  rw [writeSummary, if_neg hsummary] at hlast
  cases hs : writeSummaryJson cfg s with
  | error message => simp [hs] at hlast
  | ok summary =>
    simp only [hs] at hlast
    exact ⟨hcomplete, hwritten, summary, rfl, (write_ok hlast).2⟩

/-- A run with status 0 that was not asked for help has written its reports. -/
theorem phaseTwoProcess_zero {arguments : List Text}
    (hparsed : parseArguments arguments {} = .ok (some o))
    (h : phaseTwoProcess lib fuel disk arguments = some (0, disk')) :
    ∃ inputs s, ReachesReports lib fuel disk arguments o inputs s ∧
      writeReports o (o.config inputs) s disk = (.ok (), disk') := by
  simp only [phaseTwoProcess, hparsed] at h
  split at h
  · simp [usage] at h
  · rename_i hgiven
    split at h
    · simp [failure] at h
    · rename_i inputs hread
      have hcfg : (o.arguments inputs.bench inputs.edges).config inputs.workerSlots =
          o.config inputs := rfl
      rw [runPhaseTwo, hcfg] at h
      split at h
      · simp [aborted] at h
      · rename_i haccepted
        split at h
        · simp [failure] at h
        · rename_i hchecked
          dsimp only at h
          split at h
          · simp [aborted] at h
          · rename_i hsurvived
            split at h
            · cases h
            · simp [failure] at h
            · rename_i s hsimulated
              split at h
              · simp [failure] at h
              · rename_i hcompleted
                have hreach : ReachesReports lib fuel disk arguments o inputs s :=
                  ⟨hparsed, hgiven, hread, by simpa using haccepted, hchecked,
                    by simpa using hsurvived, hsimulated, hcompleted⟩
                refine ⟨inputs, s, hreach, ?_⟩
                obtain ⟨hstatus, hdisk⟩ := Prod.mk.inj (Option.some.inj h)
                cases hresult : (writeReports o (o.config inputs) s disk).1 with
                | error message => simp [hresult, exitStatus, failure] at hstatus
                | ok _ => exact Prod.ext hresult hdisk

/-- The files of a round: the inputs and results beside the process directories, and
the copies in the directory of the process. -/
def roundFiles : List Text :=
  [benchFile, benchCopy, delayInfoFile, metricsFile, summaryFile, delayInfoCopy, metricsCopy,
    summaryCopy]

theorem decimal_not_option (z : Int) {name : Text} (h : name ∈ valueOptions) :
    decimal z ≠ name := by
  rintro rfl
  have hletter : ∀ name ∈ valueOptions, (name.any fun c => c != '-' && !c.isDigit) =
      true := by decide
  obtain ⟨c, hc, hplain⟩ := List.any_eq_true.mp (hletter _ h)
  simp only [Bool.and_eq_true, bne_iff_ne, Bool.not_eq_true'] at hplain
  rcases decimal_chars hc with hminus | hdigit
  · exact hplain.1 hminus
  · rw [hplain.2] at hdigit
    cases hdigit

theorem optionValue_skip {name value option : Text} {rest : List Text} (hname : name ≠ option)
    (hvalue : value ≠ option) :
    optionValue (name :: value :: rest) option = optionValue rest option := by
  simp only [optionValue, afterFirst, hname, hvalue, decide_false, Bool.false_eq_true, if_false]

theorem optionValue_here {value option : Text} {rest : List Text} :
    optionValue (option :: value :: rest) option = .ok value := by
  simp only [optionValue, afterFirst, decide_true, if_true, List.head?_cons]

/-- The options before the two last ones give no value that passes for an option. -/
theorem optionValue_past {o : Ns3Options} {p : PopnetValues}
    (hplain : ∀ v ∈ [ns3Topology o p.topology, p.nodeCount, o.linkRate], v ∉ valueOptions)
    {option : Text} (hlast : option = "--metrics-csv".toList ∨ option = "--summary-json".toList) :
    ∃ tail, optionValue (ns3Arguments o p) option =
      optionValue ("--metrics-csv".toList :: metricsFile :: "--summary-json".toList ::
        summaryFile :: tail) option := by
  have hoption : option ∈ valueOptions := by
    rcases hlast with rfl | rfl <;> decide
  have hvalue : ∀ v ∈ [ns3Topology o p.topology, p.nodeCount, o.linkRate], v ≠ option :=
    fun v hv heq => hplain v hv (heq ▸ hoption)
  have hearlier : ∀ name ∈ ["--bench".toList, benchFile, "--delay-info".toList, delayInfoFile,
      "--topology".toList, "--nodes".toList, "--cycle-ns".toList, "--flit-bytes".toList,
      "--link-rate".toList, "--link-delay-ns".toList, "--queue-packets".toList], name ≠ option := by
    rcases hlast with rfl | rfl <;> decide
  simp only [List.forall_mem_cons] at hvalue hearlier
  obtain ⟨htopology, hnodes, hrate, _⟩ := hvalue
  obtain ⟨h1, h2, h3, h4, h5, h6, h7, h8, h9, h10, h11, _⟩ := hearlier
  have hnumber := fun z => decimal_not_option z hoption
  simp only [ns3Arguments, List.cons_append]
  rw [optionValue_skip h1 h2, optionValue_skip h3 h4, optionValue_skip h5 htopology,
    optionValue_skip h6 hnodes, optionValue_skip h7 (hnumber _), optionValue_skip h8 (hnumber _),
    optionValue_skip h9 hrate, optionValue_skip h10 (hnumber _), optionValue_skip h11 (hnumber _)]
  exact ⟨_, rfl⟩

theorem runnerPaths_generated {o : Ns3Options} {p : PopnetValues}
    (hplain : ∀ v ∈ [ns3Topology o p.topology, p.nodeCount, o.linkRate], v ∉ valueOptions) :
    runnerPaths (ns3Arguments o p) = .ok ⟨benchFile, delayInfoFile, metricsFile, summaryFile⟩ := by
  obtain ⟨_, hmetrics⟩ := optionValue_past hplain (Or.inl rfl)
  obtain ⟨_, hsummary⟩ := optionValue_past hplain (Or.inr rfl)
  rw [optionValue_here] at hmetrics
  rw [optionValue_skip (by decide) (by decide), optionValue_here] at hsummary
  have hbench : optionValue (ns3Arguments o p) "--bench".toList = .ok benchFile := by
    simp only [ns3Arguments, List.cons_append]
    exact optionValue_here
  have hdelay : optionValue (ns3Arguments o p) "--delay-info".toList = .ok delayInfoFile := by
    simp only [ns3Arguments, List.cons_append]
    rw [optionValue_skip (by decide) (by decide), optionValue_here]
  simp only [runnerPaths, hbench, hdelay, hmetrics, hsummary, bind, Except.bind, pure, Except.pure]

theorem phaseTwoRunner_ok {arguments : List Text} {paths : RunnerPaths}
    (hpaths : runnerPaths arguments = .ok paths)
    (h : phaseTwoRunner lib fuel disk arguments = some (.ok (), disk')) :
    ∃ text d, disk.content (disk.file paths.bench) = some text ∧ disk.read paths.bench = some text ∧
      phaseTwoProcess lib fuel (disk.store (disk.file benchCopy) text) arguments = some (0, d) ∧
      keepResults paths d = (.ok (), disk') := by
  simp only [phaseTwoRunner, hpaths] at h
  cases hcopy : copyIfFile disk paths.bench benchCopy with
  | mk result copied =>
    cases result with
    | error message => simp [hcopy] at h
    | ok _ =>
      obtain ⟨text, hcontent, hread, rfl⟩ := copyIfFile_ok hcopy
      simp only [hcopy] at h
      cases hprocess : phaseTwoProcess lib fuel (disk.store (disk.file benchCopy) text)
        arguments with
      | none => simp [hprocess] at h
      | some r =>
        obtain ⟨status, d⟩ := r
        simp only [hprocess] at h
        split at h
        · simp at h
        · rename_i hstatus
          obtain rfl := not_not.mp hstatus
          exact ⟨text, d, hcontent, hread, hprocess, Option.some.inj h⟩

theorem keepResults_ok {paths : RunnerPaths} (h : keepResults paths disk = (.ok (), disk')) :
    ∃ t u v, disk.content (disk.file paths.delayInfo) = some t ∧
      (disk.store (disk.file delayInfoCopy) t).content (disk.file paths.metrics) = some u ∧
      ((disk.store (disk.file delayInfoCopy) t).store (disk.file metricsCopy) u).content
        (disk.file paths.summary) = some v ∧
      disk' = ((disk.store (disk.file delayInfoCopy) t).store (disk.file metricsCopy) u).store
        (disk.file summaryCopy) v := by
  obtain ⟨d₁, hdelay, hrest⟩ := andThen_ok h
  obtain ⟨t, ht, _, rfl⟩ := copyIfFile_ok hdelay
  obtain ⟨d₂, hmetrics, hsummary⟩ := andThen_ok hrest
  obtain ⟨u, hu, _, rfl⟩ := copyIfFile_ok hmetrics
  obtain ⟨v, hv, _, rfl⟩ := copyIfFile_ok hsummary
  exact ⟨t, u, v, ht, hu, hv, rfl⟩

/-- Files written one after the other. -/
def storeAll (disk : Disk ι) : List (Text × Text) → Disk ι
  | [] => disk
  | w :: writes => storeAll (disk.store (disk.file w.1) w.2) writes

theorem storeAll_other {writes : List (Text × Text)} {i : ι}
    (h : i ∉ writes.map fun w => disk.file w.1) :
    (storeAll disk writes).content i = disk.content i := by
  induction writes generalizing disk with
  | nil => rfl
  | cons w writes ih =>
    obtain ⟨hne, hrest⟩ := not_or.mp (mt List.mem_cons.mpr h)
    have hstored : i ∉ writes.map fun w' => (disk.store (disk.file w.1) w.2).file w'.1 := hrest
    exact (ih hstored).trans (Disk.store_of_ne _ hne _)

theorem storeAll_content {writes : List (Text × Text)}
    (hnodup : (writes.map fun w => disk.file w.1).Nodup) {w : Text × Text} (hw : w ∈ writes) :
    (storeAll disk writes).content (disk.file w.1) = some w.2 := by
  induction writes generalizing disk with
  | nil => cases hw
  | cons w' writes ih =>
    obtain ⟨hfresh, hrest⟩ := List.nodup_cons.mp hnodup
    rcases List.mem_cons.mp hw with rfl | hw
    · have hstored : disk.file w.1 ∉ writes.map fun w' => (disk.store (disk.file w.1) w.2).file
          w'.1 := hfresh
      exact (storeAll_other hstored).trans (Disk.store_self ..)
    · exact ih hrest hw

/-- The writes of a round: the copy of the trace, the reports of the adapter, their copies. -/
def roundWrites (text t u v t' u' v' : Text) : List (Text × Text) :=
  [(benchCopy, text), (delayInfoFile, t), (metricsFile, u), (summaryFile, v), (delayInfoCopy, t'),
    (metricsCopy, u'), (summaryCopy, v')]

theorem delayInfo_complete_of_ok {cfg : PhaseTwoConfig} {s : PhaseTwo}
    (hbench : ∀ i, (s.states i).bench = cfg.record i) (h : (delayInfoWritten cfg s).2 = .ok ()) :
    CompleteDelayInfo cfg.bench (some (delayInfoWritten cfg s).1) := by
  by_cases hcovered : cfg.Covered
  · obtain ⟨⟨lines, hlines, hwritten⟩, _⟩ := reports_complete hcovered hbench
    exact ⟨lines, hlines, by rw [hwritten]⟩
  · obtain ⟨message, hfail⟩ := delayInfo_incomplete hcovered hbench
    rw [h] at hfail
    cases hfail

/-- What the adapter leaves when the generated command line ends with status 0. -/
theorem generated_process_zero {n : Ns3Options} {p : PopnetValues} (hcycle : 1 ≤ n.cycleNs)
    (hflits : 1 ≤ p.flits) (hdelay : 1 ≤ n.linkDelayNs) (hqueue : 1 ≤ n.queuePackets)
    (h : phaseTwoProcess lib fuel disk (ns3Arguments n p) = some (0, disk')) :
    ∃ bench t u v, readBench (String.ofList benchFile) (disk.read benchFile) = .ok bench ∧
      CompleteDelayInfo bench (some t) ∧
      disk' = ((disk.store (disk.file delayInfoFile) t).store (disk.file metricsFile) u).store
        (disk.file summaryFile) v := by
  cases hparsed : parseArguments (ns3Arguments n p) {} with
  | error message =>
    rw [phaseTwoProcess, hparsed] at h
    simp [failure] at h
  | ok parsed =>
    obtain ⟨nodes, _, _, rfl⟩ := (ns3_arguments_parsed hcycle hflits hdelay hqueue).mp hparsed
    obtain ⟨inputs, s, hreach, hreports⟩ := phaseTwoProcess_zero hparsed h
    obtain ⟨hcomplete, _, summary, _, hdisk⟩ :=
      writeReports_ok (List.cons_ne_nil _ _) (List.cons_ne_nil _ _) hreports
    exact ⟨inputs.bench, _, _, _, readInputs_bench hreach.read,
      delayInfo_complete_of_ok hreach.bench hcomplete, hdisk⟩

/-- The wrapper that ends well keeps the round: the trace that the adapter read is the one
that it found and copied, `delayInfo` is complete for this trace, and the copies hold what
the adapter wrote. No other file is touched. -/
theorem runner_keeps_the_round {n : Ns3Options} {args : List PopnetArg} {command : List Text}
    {p : PopnetValues} (hcommand : ns3Command n args = .ok command) (hp : popnetValues args = .ok p)
    (hplain : ∀ v ∈ [ns3Topology n p.topology, p.nodeCount, n.linkRate], v ∉ valueOptions)
    (hfiles : (roundFiles.map disk.file).Nodup)
    (hrun : phaseTwoRunner lib fuel disk command = some (.ok (), disk')) :
    ∃ text bench, disk.content (disk.file benchFile) = some text ∧
      readBench (String.ofList benchFile) (some text) = .ok bench ∧
      disk'.content (disk.file benchFile) = some text ∧
      disk'.content (disk.file benchCopy) = some text ∧
      CompleteDelayInfo bench (disk'.content (disk.file delayInfoFile)) ∧
      disk'.content (disk.file delayInfoCopy) = disk'.content (disk.file delayInfoFile) ∧
      disk'.content (disk.file metricsCopy) = disk'.content (disk.file metricsFile) ∧
      disk'.content (disk.file summaryCopy) = disk'.content (disk.file summaryFile) ∧
      ∀ i, i ∉ roundFiles.tail.map disk.file → disk'.content i = disk.content i := by
  obtain ⟨p', hp', rfl, hcycle, hflits, hdelay, hqueue⟩ := ns3Command_ok hcommand
  obtain rfl : p' = p := Except.ok.inj (hp'.symm.trans hp)
  obtain ⟨text, d, hcontent, hread, hprocess, hkeep⟩ :=
    phaseTwoRunner_ok (runnerPaths_generated hplain) hrun
  obtain ⟨bench, t, u, v, hbench, hcomplete, rfl⟩ :=
    generated_process_zero hcycle hflits hdelay hqueue hprocess
  obtain ⟨t', u', v', ht, hu, hv, rfl⟩ := keepResults_ok hkeep
  obtain ⟨hbenchFile, hpaths⟩ := List.nodup_cons.mp hfiles
  have hall : ((roundWrites text t u v t' u' v').map fun w => disk.file w.1).Nodup := hpaths
  have hearlier : ∀ k, (((roundWrites text t u v t' u' v').take k).map fun w =>
      disk.file w.1).Nodup := by
    intro k
    rw [List.map_take]
    exact hall.sublist (List.take_sublist k _)
  have hdelayWritten := storeAll_content (hearlier 4) (w := (delayInfoFile, t))
    (List.mem_of_getElem? (i := 1) rfl)
  have hmetricsWritten := storeAll_content (hearlier 5) (w := (metricsFile, u))
    (List.mem_of_getElem? (i := 2) rfl)
  have hsummaryWritten := storeAll_content (hearlier 6) (w := (summaryFile, v))
    (List.mem_of_getElem? (i := 3) rfl)
  obtain rfl : t = t' := Option.some.inj (hdelayWritten.symm.trans ht)
  obtain rfl : u = u' := Option.some.inj (hmetricsWritten.symm.trans hu)
  obtain rfl : v = v' := Option.some.inj (hsummaryWritten.symm.trans hv)
  have hend : ∀ k (w : Text × Text), (roundWrites text t u v t u v)[k]? = some w →
      (storeAll disk (roundWrites text t u v t u v)).content (disk.file w.1) = some w.2 :=
    fun k w hw => storeAll_content hall (List.mem_of_getElem? hw)
  have hother : ∀ i, i ∉ roundFiles.tail.map disk.file →
      (storeAll disk (roundWrites text t u v t u v)).content i = disk.content i :=
        fun i hi => storeAll_other hi
  have hread' : (disk.store (disk.file benchCopy) text).read benchFile = disk.read benchFile := by
    have hne : disk.file benchFile ≠ disk.file benchCopy :=
      fun heq => hbenchFile (heq ▸ List.mem_map_of_mem List.mem_cons_self)
    rw [Disk.read, Disk.read, Disk.store_file, Disk.store_of_ne _ hne]
    rfl
  rw [hread', hread] at hbench
  refine ⟨text, bench, hcontent, hbench, (hother _ hbenchFile).trans hcontent, hend 0 _ rfl, ?_, ?_,
    ?_, ?_, hother⟩
  · have hkept := hend 1 _ rfl
    exact hkept.symm ▸ hcomplete
  · exact (hend 4 _ rfl).trans (hend 1 _ rfl).symm
  · exact (hend 5 _ rfl).trans (hend 2 _ rfl).symm
  · exact (hend 6 _ rfl).trans (hend 3 _ rfl).symm

end Runner

def roundDisk : Disk Text where
  file := id
  content := fun path =>
    [(benchFile, "0 0 0 0 1 0\n".toList),
      ("../topology/chain.gv".toList, "0--1--3--2\n".toList)].lookup path
  readable := fun _ => true
  writable := fun _ => true

def chainOptions : PhaseTwoOptions :=
  ns3PhaseTwoOptions {} ⟨['4'], 4, "../topology/chain.gv".toList⟩ 4

def chainInputs : PhaseTwoInputs where
  bench := [⟨0, 0, 0, 0, 1, 0⟩]
  edges := [(0, 1), (1, 3), (2, 3)]
  workerSlots := fun _ => none

theorem chain_round_ends :
    ∃ disk', phaseTwoRunner oneSend 2 roundDisk chainCommand = some (.ok (), disk') := by
  have hread : readInputs (roundDisk.store benchCopy "0 0 0 0 1 0\n".toList) chainOptions =
      .ok chainInputs := by
    have hbench : (roundDisk.store benchCopy "0 0 0 0 1 0\n".toList).read chainOptions.benchPath =
        some "0 0 0 0 1 0\n".toList := by decide +kernel
    have htopology : (roundDisk.store benchCopy "0 0 0 0 1 0\n".toList).read
        chainOptions.topologyPath =
        some "0--1--3--2\n".toList := by decide +kernel
    have hflag : chainOptions.localizeCrossWorkerNetwork = false := rfl
    simp only [readInputs, hbench, htopology, hflag, unplaced_bench, unplaced_topology]
    rfl
  obtain ⟨s, hs⟩ : ∃ s, simulate (chainOptions.config chainInputs) oneSend.next 2 []
      (PhaseTwo.start (chainOptions.config chainInputs)) = some (.ok s) := ⟨_, rfl⟩
  have hresult : PhaseTwo.runResult (chainOptions.config chainInputs) s = .ok () := by
    cases hs
    rfl
  have hparsed : parseArguments chainCommand {} = .ok (some chainOptions) := by decide +kernel
  have hreach : ReachesReports oneSend 2 (roundDisk.store benchCopy "0 0 0 0 1 0\n".toList)
      chainCommand chainOptions
      chainInputs s :=
    ⟨hparsed, by decide +kernel, hread, rfl, rfl, rfl, hs, hresult⟩
  have hpaths : runnerPaths chainCommand =
      .ok ⟨benchFile, delayInfoFile, metricsFile, summaryFile⟩ := rfl
  have hcopy : copyIfFile roundDisk benchFile benchCopy =
      (.ok (), roundDisk.store benchCopy "0 0 0 0 1 0\n".toList) := rfl
  have hcovered : (chainOptions.config chainInputs).Covered := fun h => by cases h
  obtain ⟨⟨lines, _, hlines⟩, hmetrics, summary, hsummary⟩ := reports_complete hcovered hreach.bench
  have hstored : writeReports chainOptions (chainOptions.config chainInputs) s
      (roundDisk.store benchCopy "0 0 0 0 1 0\n".toList) =
        (.ok (), storeAll roundDisk
          [(benchCopy, "0 0 0 0 1 0\n".toList), (delayInfoFile, lines.flatMap DelayLine.text),
          (metricsFile, (metricsCsvWritten (chainOptions.config chainInputs) s).1),
          (summaryFile, summary.text)]) := by
    have hm : chainOptions.metricsCsvPath ≠ [] := List.cons_ne_nil _ _
    have hj : chainOptions.summaryJsonPath ≠ [] := List.cons_ne_nil _ _
    rw [writeReports, Disk.write_opened rfl, hlines]
    simp only [andThen, writeMetrics, if_neg hm, writeSummary, if_neg hj, hsummary]
    rw [Disk.write_opened rfl, hmetrics]
    rfl
  have hprocess := hreach.process
  rw [hstored] at hprocess
  simp only [phaseTwoRunner, hpaths, hcopy, hprocess]
  exact ⟨_, rfl⟩

theorem runner_keeps_the_round_chain :
    ∃ disk', phaseTwoRunner oneSend 2 roundDisk chainCommand = some (.ok (), disk') ∧
    disk'.content benchCopy = some "0 0 0 0 1 0\n".toList ∧
    CompleteDelayInfo [⟨0, 0, 0, 0, 1, 0⟩] (disk'.content delayInfoCopy) := by
  obtain ⟨disk', hrun⟩ := chain_round_ends
  obtain ⟨text, bench, hcontent, hbench, _, hcopied, hcomplete, hsame, _⟩ :=
    runner_keeps_the_round chain_command chain_popnet (by decide) (by decide) hrun
  obtain rfl : _ = text := Option.some.inj
    ((show roundDisk.content benchFile = _ from rfl).symm.trans hcontent)
  rw [unplaced_bench] at hbench
  cases hbench
  exact ⟨disk', hrun, hcopied, hsame ▸ hcomplete⟩

end ChipSystemSim
