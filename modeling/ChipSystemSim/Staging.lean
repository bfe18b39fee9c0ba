import ChipSystemSim.Argparse
import ChipSystemSim.Base64
import ChipSystemSim.JsonRead
import ChipSystemSim.RoutingTable
import ChipSystemSim.RequestHeader
import ChipSystemSim.ReplaceText

/-! The input files of a remote Phase-2 process: `wrap_process` rewrites the
arguments that name them, the process proxy puts them into its spawn frame, and
the worker writes them into the work directory of the child. -/

namespace ChipSystemSim

/-- A scalar of the YAML: a string, or another scalar as it is passed on. -/
inductive YamlScalar where
  | str (t : Text)
  | plain (t : Text)

structure YamlProcess where
  cmd : Text
  args : List YamlScalar
  preCopy : Text := []

structure WrapOptions where
  benchmarkRoot : Text := []
  sharedWorkerAssets : List Text := []

def WrapOptions.expand (o : WrapOptions) (t : Text) : Text :=
  if o.benchmarkRoot = [] then t else replaceAll "$BENCHMARK_ROOT".toList o.benchmarkRoot 0 t

def YamlScalar.expand (o : WrapOptions) : YamlScalar → YamlScalar
  | .str t => .str (o.expand t)
  | .plain t => .plain t

/-- The coordinator's file, for an argument that is staged. -/
def YamlScalar.source : YamlScalar → Option Text
  | .str t => if "../".toList <+: t then some t else none
  | .plain _ => none

def YamlScalar.rewritten : YamlScalar → Text
  | .str t => if "../".toList <+: t then lastComponent t else t
  | .plain t => t

structure WrappedProcess where
  command : Text
  arguments : List YamlScalar
  preCopy : Text
  sharedAssets : List Text

/-- The part of `wrap_process` that comes before the command line. -/
def expandProcess (o : WrapOptions) (p : YamlProcess) : WrappedProcess where
  command := o.expand p.cmd
  arguments := p.args.map (YamlScalar.expand o)
  preCopy := o.expand p.preCopy
  sharedAssets := o.sharedWorkerAssets.map o.expand

def WrappedProcess.sources (w : WrappedProcess) : List Text :=
  w.arguments.filterMap YamlScalar.source

def WrappedProcess.remoteArguments (w : WrappedProcess) : List Text :=
  w.arguments.map YamlScalar.rewritten

def processId (index : Nat) : Text := "phase2-".toList ++ decimal index

/-- The arguments of `process_proxy.py` for a process of Phase 2. -/
def WrappedProcess.commandLine (w : WrappedProcess) (slot : Int) (index : Nat) : List Text :=
  ["--worker".toList, workerHost slot ++ ":9300".toList, "--process-id".toList, processId index,
    "--pre-copy".toList, w.preCopy] ++
  (w.sources.flatMap fun source =>
    ["--stage-file".toList, source ++ ':' :: lastComponent source]) ++
  (w.sharedAssets.flatMap fun asset => ["--shared-asset".toList, asset]) ++
  w.command :: w.remoteArguments

structure ProxyOptions where
  worker : Option Text := none
  processId : Option Text := none
  preCopy : Text := []
  sharedAssets : List Text := []
  stageFiles : List Text := []
  maxCompletedCta : Option Int := none
  maxInstructions : Option Int := none

def proxyOptionNames : List Text :=
  ["--worker".toList, "--process-id".toList, "--pre-copy".toList, "--shared-asset".toList,
    "--stage-file".toList, "--gpgpu-max-completed-cta".toList, "--gpgpu-max-instructions".toList]

def setProxyOption (name value : Text) (o : ProxyOptions) : Option ProxyOptions :=
  if name = "--worker".toList then some { o with worker := some value }
  else if name = "--process-id".toList then some { o with processId := some value }
  else if name = "--pre-copy".toList then some { o with preCopy := value }
  else if name = "--shared-asset".toList then
    some { o with sharedAssets := o.sharedAssets ++ [value] }
  else if name = "--stage-file".toList then some { o with stageFiles := o.stageFiles ++ [value] }
  else if name = "--gpgpu-max-completed-cta".toList then
    (pyInt value).map fun n => { o with maxCompletedCta := some n }
  else (pyInt value).map fun n => { o with maxInstructions := some n }

structure ProxyArguments where
  options : ProxyOptions
  command : Text
  args : List Text

def setProxyOptions : List (Text × Text) → ProxyOptions → Option ProxyOptions
  | [], o => some o
  | (name, value) :: rest, o => (setProxyOption name value o).bind (setProxyOptions rest)

/-- The command line of the proxy: options with their values, then the command and
the remainder. -/
def parseProxy (line : List Text) : Option ProxyArguments := do
  let parsed ← Argparse.parseArgs proxyOptionNames line
  let options ← setProxyOptions parsed.options {}
  return ⟨options, parsed.positional, parsed.remainder⟩

/-- `rpartition(":")`. -/
def rpartitionColon (t : Text) : Option (Text × Text) :=
  let after := t.rtakeWhile (· != ':')
  if after.length = t.length then none else some (t.take (t.length - after.length - 1), after)

/-- `Path(t).name`. -/
def pathName (t : Text) : Text :=
  ((t.splitOn '/').filter fun part => part ≠ [] ∧ part ≠ ['.']).getLast?.getD []

structure StagedFile where
  destination : Text
  data : Bytes

def stageFile (file : Text → Option Bytes) (specification : Text) : Except String StagedFile :=
  match rpartitionColon specification with
  | none => .error "--stage-file must have SOURCE:DESTINATION form"
  | some (source, destination) =>
    if source = [] ∨ destination = [] then .error "--stage-file must have SOURCE:DESTINATION form"
    else if pathName destination ≠ destination ∨ destination = ['.'] ∨ destination = ['.', '.'] then
      .error "--stage-file destination must be a plain filename"
    else
      match file source with
      | none => .error ("staged input does not exist: " ++ String.ofList source)
      | some data => .ok ⟨destination, data⟩

def stageFiles (file : Text → Option Bytes) : List Text → Except String (List StagedFile)
  | [] => .ok []
  | specification :: rest => do
    let staged ← stageFile file specification
    let others ← stageFiles file rest
    return staged :: others

def optionalInt : Option Int → Json.Value
  | none => .null
  | some n => .num n

def StagedFile.value (f : StagedFile) : Json.Value :=
  .obj [("destination".toList, .str f.destination), ("data".toList, .str (Base64.encode f.data))]

/-- The first frame of the proxy. -/
def spawnFrame (a : ProxyArguments) (processId : Text) (staged : List StagedFile)
    (environment : List (Text × Text)) : Json.Value :=
  .obj
    [("op".toList, .str "spawn".toList),
      ("process_id".toList, .str processId),
      ("command".toList, .str a.command),
      ("args".toList, .arr (a.args.map .str)),
      ("pre_copy".toList, .str a.options.preCopy),
      ("shared_assets".toList, .arr (a.options.sharedAssets.map .str)),
      ("staged_files".toList, .arr (staged.map StagedFile.value)),
      ("gpgpu_max_completed_cta".toList, optionalInt a.options.maxCompletedCta),
      ("gpgpu_max_instructions".toList, optionalInt a.options.maxInstructions),
      ("env".toList, .obj (environment.map fun e => (e.1, .str e.2)))]

/-- `write_json`: one line, which `json.dumps` keeps in ASCII. -/
def frameBytes (message : Json.Value) : Bytes := encodeText (Json.compact message ++ ['\n'])

def runProxy (file : Text → Option Bytes) (environment : List (Text × Text))
    (commandLine : List Text) : Except String Bytes :=
  match parseProxy commandLine with
  | none => .error "usage"
  | some a =>
    match a.options.worker, a.options.processId with
    | some _, some processId => do
      let staged ← stageFiles file a.options.stageFiles
      return frameBytes (spawnFrame a processId staged environment)
    | _, _ => .error "usage"

structure SpawnRequest where
  processId : Text
  command : Text
  args : List Text
  preCopy : Text
  sharedAssets : List Text
  stagedFiles : List Json.Value
  maxCompletedCta : Option Int
  maxInstructions : Option Int

def limitOf (name : String) : Option Json.Value → Except String (Option Int)
  | none => .ok none
  | some .null => .ok none
  | some (.num n) => if n < 1 then .error (name ++ " must be a positive integer") else .ok (some n)
  | some _ => .error (name ++ " must be a positive integer")

def orError {α : Type*} (message : String) : Option α → Except String α
  | none => .error message
  | some a => .ok a

/-- The fields that `handle` takes from the first frame, up to its check of the
process name. The strings of the frame are taken as they are. -/
def parseSpawn (request : Json.Value) : Except String SpawnRequest := do
  if (request.get "op".toList >>= Json.Value.text) ≠ some "spawn".toList then
    throw "first message must be spawn"
  let processId ← orError "process_id" (request.get "process_id".toList >>= Json.Value.text)
  let command ← orError "command" (request.get "command".toList >>= Json.Value.text)
  let args ← orError "args" (((request.get "args".toList).getD (.arr [])).texts)
  let preCopy ← orError "pre_copy" (((request.get "pre_copy".toList).getD (.str [])).text)
  let maxCompletedCta ← limitOf "gpgpu_max_completed_cta"
      (request.get "gpgpu_max_completed_cta".toList)
  let maxInstructions ← limitOf "gpgpu_max_instructions"
      (request.get "gpgpu_max_instructions".toList)
  let sharedAssets ← orError "shared_assets must be a list of shell path strings"
    (((request.get "shared_assets".toList).getD (.arr [])).texts)
  let stagedFiles ←
    match (request.get "staged_files".toList).getD (.arr []) with
    | .arr items => .ok items
    | _ => .error "staged_files must be a list"
  if '/' ∈ processId ∨ processId = [] ∨ processId = ['.'] ∨ processId = ['.', '.'] then
    throw "process_id must be a single safe path component"
  return { processId, command, args, preCopy, sharedAssets, stagedFiles, maxCompletedCta,
           maxInstructions }

/-- A work directory: the names in it and what they hold. -/
abbrev Dir := List (Text × Bytes)

def maxStagedBytes : Nat := 64 * 1024 * 1024

/-- The checks of one staged file: its destination and its data. -/
def stagedItem : Json.Value → Except String (Text × Bytes)
  | .obj members =>
    match Json.Value.get "destination".toList (.obj members) with
    | some (.str destination) =>
      if pathName destination ≠ destination then
        .error "staged file destination must be a plain filename"
      else
        match Json.Value.get "data".toList (.obj members) with
        | some (.str encoded) =>
          match Base64.decode encoded with
          | none => .error "Non-base64 digit found"
          | some data =>
            if maxStagedBytes < data.length then
              .error "staged file exceeds the 64 MiB transfer limit"
            else .ok (destination, data)
        | _ => .error "staged file data must be base64 text"
    | _ => .error "staged file destination must be a plain filename"
  | _ => .error "each staged file must be an object"

/-- The loop over the staged files. The empty name and `..` pass its checks and name
directories, which `write_bytes` refuses. -/
def stageInto : List Json.Value → Dir → Except String Dir
  | [], dir => .ok dir
  | item :: rest, dir =>
    match stagedItem item with
    | .error message => .error message
    | .ok (destination, data) =>
      if destination = [] ∨ destination = ['.', '.'] then .error "Is a directory"
      else stageInto rest (dictSet dir destination data)

/-- What the worker's host decides: whether the endpoints of its environment
resolve, what the copies do, and the text of the launch diagnostic. -/
structure WorkerHost where
  resolves : Bool
  copiesAssets : List Text → Bool
  preCopy : Text → Dir → Option Dir
  setGpgpuTestLimits : Option Int → Option Int → Dir → Except String Dir
  diagnostic : SpawnRequest → Bytes

def WorkerHost.afterPreCopy (host : WorkerHost) (preCopy : Text) (dir : Dir) : Option Dir :=
  if preCopy = [] then some dir else host.preCopy preCopy dir

def WorkerHost.afterLimits (host : WorkerHost) (r : SpawnRequest) (dir : Dir) : Except String Dir :=
  if r.maxCompletedCta.isSome ∨ r.maxInstructions.isSome then
    host.setGpgpuTestLimits r.maxCompletedCta r.maxInstructions dir
  else .ok dir

def launchDiagnostic : Text := "launch-diagnostic.json".toList

structure RemoteChild where
  command : Text
  args : List Text
  workdir : Dir

/-- `handle` from the decoded request to the start of the child. The work
directory is a new one. -/
def startChild (host : WorkerHost) (r : SpawnRequest) : Except String RemoteChild := do
  if !host.resolves then throw "broker did not resolve within 60 seconds"
  let dir ← stageInto r.stagedFiles []
  if !host.copiesAssets r.sharedAssets then throw "shared worker asset copy failed"
  let dir ← orError "upstream pre_copy command failed" (host.afterPreCopy r.preCopy dir)
  let dir ← host.afterLimits r dir
  return ⟨r.command, r.args, dictSet dir launchDiagnostic (host.diagnostic r)⟩

def handleSpawn (host : WorkerHost) (stream : Bytes) : Except String RemoteChild :=
  match readline stream with
  | .error _ => .error "Separator is found, but chunk is longer than limit"
  | .ok (raw, _) => do
    let request ← orError "invalid frame" (asciiDecode raw >>= Json.loads)
    let r ← parseSpawn request
    startChild host r

/-- From the YAML to the child: the wrapped process, its proxy and its worker. -/
def remoteChild (file : Text → Option Bytes) (environment : List (Text × Text)) (host : WorkerHost)
    (w : WrappedProcess) (slot : Int) (index : Nat) : Except String RemoteChild :=
  match runProxy file environment (w.commandLine slot index) with
  | .error message => .error message
  | .ok frame => handleSpawn host frame

/-- The child runs with its arguments, and each rewritten one names a file that
is equal to the coordinator's. -/
def StagedRight (file : Text → Option Bytes) (w : WrappedProcess)
    (result : Except String RemoteChild) : Prop :=
  ∃ child, result = .ok child ∧ child.command = w.command ∧ child.args = w.remoteArguments ∧
    ∀ source ∈ w.sources, child.workdir.lookup (lastComponent source) = file source

section CommandLine

open Argparse

variable {w : WrappedProcess} {o : ProxyOptions} {a : ProxyArguments}

/-- No value on the command line is taken for an option, `argparse` drops no dashes
behind the command, and no argument there abbreviates two options of the proxy. -/
structure WrappedProcess.ReadAsWritten (w : WrappedProcess) : Prop where
  command : IsArgument proxyOptionNames w.command
  preCopy : IsArgument proxyOptionNames w.preCopy
  sharedAssets : ∀ asset ∈ w.sharedAssets, IsArgument proxyOptionNames asset
  noDashes : w.remoteArguments.head? ≠ some dashes
  unambiguous : ¬Ambiguous proxyOptionNames w.remoteArguments

theorem sources_head {source : Text} (h : source ∈ w.sources) : source.head? = some '.' := by
  obtain ⟨value, -, hvalue⟩ := List.mem_filterMap.mp h
  cases value with
  | plain t => cases hvalue
  | str t =>
    simp only [YamlScalar.source] at hvalue
    split at hvalue
    · rename_i hstarts
      cases hvalue
      obtain ⟨rest, rfl⟩ := hstarts
      rfl
    · cases hvalue

def stageSpecification (source : Text) : Text := source ++ ':' :: lastComponent source

theorem isArgument_stageSpecification {source : Text} (h : source ∈ w.sources) :
    IsArgument proxyOptionNames (stageSpecification source) := by
  refine isArgument_of_head ?_
  rw [stageSpecification, List.head?_append, sources_head h, Option.some_or]
  decide

/-- The options of the command line, each with its value. -/
def WrappedProcess.pairs (w : WrappedProcess) (slot : Int) (index : Nat) : List (Text × Text) :=
  [("--worker".toList, workerHost slot ++ ":9300".toList), ("--process-id".toList, processId index),
    ("--pre-copy".toList, w.preCopy)] ++
  w.sources.map (fun source => ("--stage-file".toList, stageSpecification source)) ++
  w.sharedAssets.map fun asset => ("--shared-asset".toList, asset)

theorem commandLine_eq (w : WrappedProcess) (slot : Int) (index : Nat) :
    w.commandLine slot index = written (w.pairs slot index) ++ w.command :: w.remoteArguments := by
  simp only [WrappedProcess.commandLine, WrappedProcess.pairs, written, List.flatMap_append,
    List.flatMap_map, stageSpecification]
  rfl

theorem pairs_isOption {pair : Text × Text} {slot : Int} {index : Nat}
    (h : pair ∈ w.pairs slot index) : IsOption proxyOptionNames pair.1 := by
  rcases List.mem_append.mp h with h | h
  · rcases List.mem_append.mp h with h | h
    · have hall : ∀ name ∈ ["--worker".toList, "--process-id".toList, "--pre-copy".toList],
          IsOption proxyOptionNames name := by decide
      refine hall pair.1 ?_
      simpa using (List.mem_map_of_mem (f := Prod.fst) h)
    · obtain ⟨source, -, rfl⟩ := List.mem_map.mp h
      exact (by decide : IsOption proxyOptionNames "--stage-file".toList)
  · obtain ⟨asset, -, rfl⟩ := List.mem_map.mp h
    exact (by decide : IsOption proxyOptionNames "--shared-asset".toList)

theorem pairs_isArgument_iff {slot : Int} {index : Nat} :
    (∀ pair ∈ w.pairs slot index, IsArgument proxyOptionNames pair.2) ↔
      IsArgument proxyOptionNames w.preCopy ∧
        ∀ asset ∈ w.sharedAssets, IsArgument proxyOptionNames asset := by
  have hworker : IsArgument proxyOptionNames (workerHost slot ++ ":9300".toList) :=
    isArgument_of_head fun h => by cases h
  have hid : IsArgument proxyOptionNames (processId index) :=
    isArgument_of_head fun h => by cases h
  have hstage : ∀ source ∈ w.sources, IsArgument proxyOptionNames (stageSpecification source) :=
    fun _ hs => isArgument_stageSpecification hs
  simp only [WrappedProcess.pairs, List.forall_mem_append, List.forall_mem_cons,
    List.forall_mem_map, hworker, hid, true_and]
  exact ⟨fun h => ⟨h.1.1.1, h.2⟩, fun h => ⟨⟨⟨h.1, by simp⟩, hstage⟩, h.2⟩⟩

theorem setProxyOptions_append (l l' : List (Text × Text)) (o : ProxyOptions) :
    setProxyOptions (l ++ l') o = (setProxyOptions l o).bind (setProxyOptions l') := by
  induction l generalizing o with
  | nil => rfl
  | cons pair l ih =>
    rw [List.cons_append, setProxyOptions, setProxyOptions, Option.bind_assoc]
    exact congrArg (Option.bind _) (funext ih)

theorem setProxyOptions_stageFiles (sources : List Text) (o : ProxyOptions) :
    setProxyOptions (sources.map fun source => ("--stage-file".toList, stageSpecification source))
      o =
      some { o with stageFiles := o.stageFiles ++ sources.map stageSpecification } := by
  induction sources generalizing o with
  | nil => simp [setProxyOptions]
  | cons source sources ih =>
    have hset : setProxyOption "--stage-file".toList (stageSpecification source) o =
        some { o with stageFiles := o.stageFiles ++ [stageSpecification source] } := rfl
    rw [List.map_cons, setProxyOptions, hset, Option.bind_some, ih]
    simp

theorem setProxyOptions_sharedAssets (assets : List Text) (o : ProxyOptions) :
    setProxyOptions (assets.map fun asset => ("--shared-asset".toList, asset)) o =
      some { o with sharedAssets := o.sharedAssets ++ assets } := by
  induction assets generalizing o with
  | nil => simp [setProxyOptions]
  | cons asset assets ih =>
    have hset : setProxyOption "--shared-asset".toList asset o =
        some { o with sharedAssets := o.sharedAssets ++ [asset] } := rfl
    rw [List.map_cons, setProxyOptions, hset, Option.bind_some, ih]
    simp

def WrappedProcess.proxyOptions (w : WrappedProcess) (slot : Int) (index : Nat) : ProxyOptions where
  worker := some (workerHost slot ++ ":9300".toList)
  processId := some (processId index)
  preCopy := w.preCopy
  sharedAssets := w.sharedAssets
  stageFiles := w.sources.map stageSpecification

theorem setProxyOptions_pairs (w : WrappedProcess) (slot : Int) (index : Nat) :
    setProxyOptions (w.pairs slot index) {} = some (w.proxyOptions slot index) := by
  have hstart : setProxyOptions [("--worker".toList, workerHost slot ++ ":9300".toList),
      ("--process-id".toList, processId index), ("--pre-copy".toList, w.preCopy)] {} =
      some
        { worker := some (workerHost slot ++ ":9300".toList)
          processId := some (processId index)
          preCopy := w.preCopy } := rfl
  rw [WrappedProcess.pairs, setProxyOptions_append, setProxyOptions_append, hstart,
    Option.bind_some, setProxyOptions_stageFiles, Option.bind_some, setProxyOptions_sharedAssets]
  rfl

theorem parseProxy_commandLine (h : w.ReadAsWritten) (slot : Int) (index : Nat) :
    parseProxy (w.commandLine slot index) =
      some ⟨w.proxyOptions slot index, w.command, w.remoteArguments⟩ := by
  have harguments : ∀ pair ∈ w.pairs slot index, IsArgument proxyOptionNames pair.2 :=
    pairs_isArgument_iff.mpr ⟨h.preCopy, h.sharedAssets⟩
  have hparsed := parseArgs_written (fun pair hp => pairs_isOption hp) harguments h.command
    h.noDashes h.unambiguous
  rw [parseProxy, commandLine_eq, hparsed]
  simp only [Option.bind_eq_bind, Option.bind_some, setProxyOptions_pairs]
  rfl

theorem readAsWritten_of_parseProxy {slot : Int} {index : Nat}
    (h : parseProxy (w.commandLine slot index) = some a) (hargs : a.args = w.remoteArguments) :
    w.ReadAsWritten := by
  simp only [parseProxy, commandLine_eq, Option.bind_eq_bind, Option.bind_eq_some_iff] at h
  obtain ⟨p, hp, o, -, ha⟩ := h
  cases ha
  obtain ⟨hpairs, hcommand, hhead, hambiguous⟩ :=
    (parseArgs_written_iff fun pair hp => pairs_isOption hp).mp ⟨p, hp, hargs⟩
  obtain ⟨hcopy, hassets⟩ := pairs_isArgument_iff.mp hpairs
  exact ⟨hcommand, hcopy, hassets, hhead, hambiguous⟩

end CommandLine

section Names

variable {source d : Text} {file : Text → Option Bytes} {f : StagedFile}

theorem slash_notMem_lastComponent : '/' ∉ lastComponent source := by
  intro h
  have := List.mem_rtakeWhile_imp h
  simp at this

theorem pathName_eq (hslash : '/' ∉ d) (hdot : d ≠ ['.']) : pathName d = d := by
  rw [pathName, List.splitOn_eq_singleton hslash]
  by_cases hempty : d = []
  · simp [hempty]
  · simp [hempty, hdot]

theorem rpartitionColon_append (hcolon : ':' ∉ d) (t : Text) :
    rpartitionColon (t ++ ':' :: d) = some (t, d) := by
  have hafter : (t ++ ':' :: d).rtakeWhile (· != ':') = d := by
    have hstop := takeWhile_append_stop (p := (· != ':')) (a := d.reverse) (b := ':' :: t.reverse)
      (by
        intro c hc
        have : c ≠ ':' := fun h => hcolon (h ▸ List.mem_reverse.mp hc)
        simpa using this)
      (by simp)
    simp [List.rtakeWhile, hstop.1]
  have hlength : ¬d.length = (t ++ ':' :: d).length := by
    simp only [List.length_append, List.length_cons]
    omega
  have hcount : (t ++ ':' :: d).length - d.length - 1 = t.length := by
    simp only [List.length_append, List.length_cons]
    omega
  simp only [rpartitionColon, hafter, if_neg hlength, hcount, List.take_left]

theorem colon_notMem_of_rpartition {t a b : Text} (h : rpartitionColon t = some (a, b)) :
    ':' ∉ b := by
  unfold rpartitionColon at h
  dsimp only at h
  split at h
  · cases h
  · cases h
    intro hmem
    have := List.mem_rtakeWhile_imp hmem
    simp at this

def PlainName (d : Text) : Prop := (d ≠ [] ∧ d ≠ ['.'] ∧ d ≠ ['.', '.']) ∧ ':' ∉ d

theorem stageFile_ok (hsource : source ≠ []) (hname : PlainName (lastComponent source))
    {data : Bytes} (hfile : file source = some data) :
    stageFile file (stageSpecification source) = .ok ⟨lastComponent source, data⟩ := by
  obtain ⟨⟨hempty, hdot, hdots⟩, hcolon⟩ := hname
  have hpath := pathName_eq slash_notMem_lastComponent hdot
  simp [stageFile, stageSpecification, rpartitionColon_append hcolon, hsource, hempty, hpath, hdot,
    hdots, hfile]

theorem plainName_of_stageFile {specification : Text} (h : stageFile file specification = .ok f) :
    PlainName f.destination := by
  unfold stageFile at h
  split at h
  · cases h
  · rename_i source destination hpartition
    split at h
    · cases h
    · rename_i hempty
      split at h
      · cases h
      · rename_i hplain
        split at h
        · cases h
        · cases h
          exact ⟨⟨(not_or.mp hempty).2, (not_or.mp (not_or.mp hplain).2).1,
            (not_or.mp (not_or.mp hplain).2).2⟩,
            colon_notMem_of_rpartition hpartition⟩

theorem stageFiles_eq_ok {sources : List Text} {g : Text → StagedFile}
    (h : ∀ source ∈ sources, stageFile file (stageSpecification source) = .ok (g source)) :
    stageFiles file (sources.map stageSpecification) = .ok (sources.map g) := by
  induction sources with
  | nil => rfl
  | cons source sources ih =>
    rw [List.map_cons, stageFiles, h source List.mem_cons_self,
      ih fun s hs => h s (List.mem_cons_of_mem _ hs)]
    rfl

theorem stageFiles_cons {specification : Text} {rest : List Text} {staged : List StagedFile}
    (h : stageFiles file (specification :: rest) = .ok staged) : ∃ f others,
      stageFile file specification = .ok f ∧ stageFiles file rest = .ok others ∧
      staged = f :: others := by
  rw [stageFiles] at h
  cases hf : stageFile file specification with
  | error e =>
    rw [hf] at h
    cases h
  | ok f =>
    cases hothers : stageFiles file rest with
    | error e =>
      rw [hf, hothers] at h
      cases h
    | ok others =>
      rw [hf, hothers] at h
      cases h
      exact ⟨f, others, rfl, rfl, rfl⟩

theorem stageFiles_mem {specifications : List Text} {staged : List StagedFile}
    (h : stageFiles file specifications = .ok staged) :
    (∀ specification ∈ specifications, ∃ f, stageFile file specification = .ok f) ∧
      ∀ f ∈ staged, PlainName f.destination := by
  induction specifications generalizing staged with
  | nil =>
    cases h
    simp
  | cons specification rest ih =>
    obtain ⟨f, others, hf, hothers, rfl⟩ := stageFiles_cons h
    obtain ⟨hall, hplain⟩ := ih hothers
    constructor
    · intro x hx
      rcases List.mem_cons.mp hx with rfl | hx
      · exact ⟨f, hf⟩
      · exact hall x hx
    · intro x hx
      rcases List.mem_cons.mp hx with rfl | hx
      · exact plainName_of_stageFile hf
      · exact hplain x hx

end Names

section Frames

variable {host : WorkerHost} {v : Json.Value}

theorem frameBytes_eq (v : Json.Value) : frameBytes v = encodeText (Json.compact v) ++ 10 :: [] :=
  encodeText_append _ _

theorem newline_notMem_frame : ∀ b ∈ encodeText (Json.compact v), b ≠ 10 := by
  intro b hb
  obtain ⟨c, hc, rfl⟩ := List.mem_map.mp hb
  have hprint := Json.printable_compact v c hc
  intro h
  have htoNat := toNat_toUInt8 (show c.toNat < 256 by have := hprint.2; omega)
  rw [h] at htoNat
  have := hprint.1
  simp at htoNat
  omega

theorem ascii_frame : ∀ c ∈ Json.compact v ++ ['\n'], c.toNat < 128 := by
  intro c hc
  rcases List.mem_append.mp hc with hc | hc
  · have := (Json.printable_compact v c hc).2
    omega
  · rw [List.mem_singleton.mp hc]
    decide

theorem loads_frame : (asciiDecode (encodeText (Json.compact v) ++ [10]) >>= Json.loads) =
    some v := by
  have htext : encodeText (Json.compact v) ++ [10] = encodeText (Json.compact v ++ ['\n']) :=
    (frameBytes_eq v).symm
  rw [htext, asciiDecode_encodeText ascii_frame]
  refine Json.loads_compact v ?_
  intro c hc
  rw [List.mem_singleton.mp hc]
  decide

theorem handleSpawn_frame (h : (Json.compact v).length ≤ streamLimit) :
    handleSpawn host (frameBytes v) = (parseSpawn v).bind (startChild host) := by
  have hread : readline (frameBytes v) = .ok (encodeText (Json.compact v) ++ [10], []) := by
    rw [frameBytes_eq]
    exact readline_ok newline_notMem_frame (by simpa [encodeText] using h) []
  rw [handleSpawn, hread]
  simp only [loads_frame, orError]
  rfl

theorem handleSpawn_tooLong (host : WorkerHost) (h : streamLimit < (Json.compact v).length) :
    ∃ message, handleSpawn host (frameBytes v) = .error message := by
  have hread : readline (frameBytes v) = .error (.lineTooLong true) := by
    rw [frameBytes_eq]
    exact readline_tooLong newline_notMem_frame (by simpa [encodeText] using h) []
  exact ⟨_, by rw [handleSpawn, hread]⟩

theorem handleSpawn_ok {child : RemoteChild} (h : handleSpawn host (frameBytes v) = .ok child) :
    (Json.compact v).length ≤ streamLimit ∧ ∃ r, parseSpawn v = .ok r ∧
    startChild host r = .ok child := by
  by_cases hfits : (Json.compact v).length ≤ streamLimit
  · rw [handleSpawn_frame hfits] at h
    cases hparse : parseSpawn v with
    | error e =>
      rw [hparse] at h
      cases h
    | ok r =>
      rw [hparse] at h
      exact ⟨hfits, r, rfl, h⟩
  · obtain ⟨message, hmessage⟩ := handleSpawn_tooLong host (Nat.lt_of_not_le hfits)
    rw [hmessage] at h
    cases h

theorem slash_notMem_processId (index : Nat) : '/' ∉ processId index := by
  intro h
  rcases List.mem_append.mp h with h | h
  · exact absurd h (by decide)
  · exact notMem_decimal (by decide) h

section Fields

variable (a : ProxyArguments) (id : Text) (staged : List StagedFile)
  (environment : List (Text × Text))

theorem spawnFrame_op : (spawnFrame a id staged environment).get "op".toList =
    some (.str "spawn".toList) := rfl

theorem spawnFrame_processId :
    (spawnFrame a id staged environment).get "process_id".toList = some (.str id) := rfl

theorem spawnFrame_command :
    (spawnFrame a id staged environment).get "command".toList = some (.str a.command) := rfl

theorem spawnFrame_args :
    (spawnFrame a id staged environment).get "args".toList = some (.arr (a.args.map .str)) := rfl

theorem spawnFrame_preCopy :
    (spawnFrame a id staged environment).get "pre_copy".toList = some (.str a.options.preCopy) :=
      rfl

theorem spawnFrame_sharedAssets : (spawnFrame a id staged environment).get "shared_assets".toList =
    some (.arr (a.options.sharedAssets.map .str)) := rfl

theorem spawnFrame_stagedFiles : (spawnFrame a id staged environment).get "staged_files".toList =
    some (.arr (staged.map StagedFile.value)) := rfl

theorem spawnFrame_maxCompletedCta :
    (spawnFrame a id staged environment).get "gpgpu_max_completed_cta".toList =
      some (optionalInt a.options.maxCompletedCta) := rfl

theorem spawnFrame_maxInstructions :
    (spawnFrame a id staged environment).get "gpgpu_max_instructions".toList =
      some (optionalInt a.options.maxInstructions) := rfl

end Fields

theorem parseSpawn_spawnFrame {a : ProxyArguments} {staged : List StagedFile}
    {environment : List (Text × Text)} (hcta : a.options.maxCompletedCta = none)
    (hinsn : a.options.maxInstructions = none) (index : Nat) :
    parseSpawn (spawnFrame a (processId index) staged environment) = .ok
      { processId := processId index
        command := a.command
        args := a.args
        preCopy := a.options.preCopy
        sharedAssets := a.options.sharedAssets
        stagedFiles := staged.map StagedFile.value
        maxCompletedCta := none
        maxInstructions := none } := by
  have hslash := slash_notMem_processId index
  have hname : ¬('/' ∈ processId index ∨ processId index = [] ∨ processId index = ['.'] ∨
      processId index = ['.', '.']) := by
    simp only [hslash, false_or]
    rintro (h | h | h) <;> cases h
  simp only [parseSpawn, spawnFrame_op, spawnFrame_processId, spawnFrame_command, spawnFrame_args,
    spawnFrame_preCopy, spawnFrame_sharedAssets, spawnFrame_stagedFiles, spawnFrame_maxCompletedCta,
    spawnFrame_maxInstructions, hcta, hinsn, optionalInt, limitOf, Option.bind_eq_bind,
    Option.bind_some, Json.Value.text, Option.getD_some, Json.texts_map, orError, ne_eq,
    not_true_eq_false, if_false]
  exact if_neg hname

/-- A frame is longer than the base64 text of each file in it. -/
theorem length_data_le {a : ProxyArguments} {id : Text} {staged : List StagedFile}
    {environment : List (Text × Text)} {f : StagedFile} (hf : f ∈ staged) :
    (f.data.length + 2) / 3 * 4 ≤ (Json.compact (spawnFrame a id staged environment)).length := by
  have hdata : (f.data.length + 2) / 3 *
      4 ≤ (Json.compact (.str (Base64.encode f.data))).length := by
    have hescape := Json.length_le_escape (Base64.encode f.data)
    rw [Base64.length_encode] at hescape
    simp only [Json.compact, Json.quote, List.length_cons, List.length_append]
    omega
  have hvalue : (Json.compact (.str (Base64.encode f.data))).length ≤
      (Json.compact f.value).length :=
    Json.length_member_le (List.mem_cons_of_mem _ List.mem_cons_self)
  have hitem : (Json.compact f.value).length ≤
      (Json.compact (.arr (staged.map StagedFile.value))).length :=
    Json.length_item_le (List.mem_map_of_mem hf)
  have hmember : (Json.compact (.arr (staged.map StagedFile.value))).length ≤
      (Json.compact (spawnFrame a id staged environment)).length := by
    refine @Json.length_member_le _ "staged_files".toList _ ?_
    simp
  omega

end Frames

section Directory

def stagedDir (staged : List StagedFile) (dir : Dir) : Dir :=
  staged.foldl (fun dir f => dictSet dir f.destination f.data) dir

theorem stagedItem_value (f : StagedFile) :
    stagedItem f.value =
      if pathName f.destination ≠ f.destination then
        .error "staged file destination must be a plain filename"
      else if maxStagedBytes < f.data.length then
        .error "staged file exceeds the 64 MiB transfer limit"
      else .ok (f.destination, f.data) := by
  have hdestination : Json.Value.get "destination".toList f.value = some (.str f.destination) := rfl
  have hdata : Json.Value.get "data".toList f.value = some (.str (Base64.encode f.data)) := rfl
  rw [StagedFile.value] at hdestination hdata ⊢
  simp only [stagedItem, hdestination, hdata, Base64.decode_encode]

theorem stageInto_value {staged : List StagedFile}
    (hname : ∀ f ∈ staged, pathName f.destination = f.destination)
    (hfile : ∀ f ∈ staged, f.destination ≠ [] ∧ f.destination ≠ ['.', '.'])
    (hsize : ∀ f ∈ staged, f.data.length ≤ maxStagedBytes) (dir : Dir) :
    stageInto (staged.map StagedFile.value) dir = .ok (stagedDir staged dir) := by
  induction staged generalizing dir with
  | nil => rfl
  | cons f staged ih =>
    have hitem : stagedItem f.value = .ok (f.destination, f.data) := by
      rw [stagedItem_value, if_neg (not_not.mpr (hname f List.mem_cons_self)),
        if_neg (Nat.not_lt.mpr (hsize f List.mem_cons_self))]
    rw [List.map_cons, stageInto, hitem]
    dsimp only
    rw [if_neg (not_or.mpr (hfile f List.mem_cons_self))]
    exact ih (fun g hg => hname g (List.mem_cons_of_mem _ hg))
      (fun g hg => hfile g (List.mem_cons_of_mem _ hg))
      (fun g hg => hsize g (List.mem_cons_of_mem _ hg)) _

theorem eq_stagedDir_of_stageInto {staged : List StagedFile} {dir dir' : Dir}
    (h : stageInto (staged.map StagedFile.value) dir = .ok dir') : dir' = stagedDir staged dir := by
  induction staged generalizing dir with
  | nil =>
    cases h
    rfl
  | cons f staged ih =>
    rw [List.map_cons, stageInto, stagedItem_value] at h
    split at h
    · cases h
    · rename_i destination data hitem
      split at hitem
      · cases hitem
      · split at hitem
        · cases hitem
        · cases hitem
          split at h
          · cases h
          · exact ih h

/-- A name in the directory was staged, and holds what was staged last under it. -/
theorem lookup_stagedDir {staged : List StagedFile} {d : Text} {data : Bytes} {dir : Dir}
    (h : (stagedDir staged dir).lookup d = some data) :
    dir.lookup d = some data ∨ ∃ f ∈ staged, f.destination = d ∧ f.data = data := by
  induction staged generalizing dir with
  | nil => exact Or.inl h
  | cons f staged ih =>
    rcases ih h with h | ⟨g, hg, hd⟩
    · rw [lookup_dictSet] at h
      split at h
      · rename_i hd
        exact Or.inr ⟨f, List.mem_cons_self, hd.symm, Option.some.inj h⟩
      · exact Or.inl h
    · exact Or.inr ⟨g, List.mem_cons_of_mem f hg, hd⟩

theorem stagedDir_keeps {staged : List StagedFile} {d : Text} {data : Bytes} {dir : Dir}
    (hagree : ∀ f ∈ staged, f.destination = d → f.data = data) (h : dir.lookup d = some data) :
    (stagedDir staged dir).lookup d = some data := by
  induction staged generalizing dir with
  | nil => exact h
  | cons f staged ih =>
    refine ih (fun g hg => hagree g (List.mem_cons_of_mem f hg)) ?_
    rw [lookup_dictSet]
    split
    · rename_i hd
      rw [hagree f List.mem_cons_self hd.symm]
    · exact h

theorem stagedDir_lookup {staged : List StagedFile} {d : Text} {data : Bytes} {dir : Dir}
    (hagree : ∀ f ∈ staged, f.destination = d → f.data = data)
    (hmem : ∃ f ∈ staged, f.destination = d) : (stagedDir staged dir).lookup d = some data := by
  induction staged generalizing dir with
  | nil =>
    obtain ⟨f, hf, -⟩ := hmem
    cases hf
  | cons f staged ih =>
    have hrest := fun g hg => hagree g (List.mem_cons_of_mem f hg)
    by_cases hlater : ∃ g ∈ staged, g.destination = d
    · exact ih hrest hlater
    · obtain ⟨g, hg, hd⟩ := hmem
      rcases List.mem_cons.mp hg with rfl | hg
      · change (stagedDir staged (dictSet dir g.destination g.data)).lookup d = some data
        refine stagedDir_keeps hrest ?_
        rw [lookup_dictSet, if_pos hd.symm, hagree g List.mem_cons_self hd]
      · exact absurd ⟨g, hg, hd⟩ hlater

theorem startChild_eq {host : WorkerHost} {r : SpawnRequest} {dir : Dir}
    (hstaged : stageInto r.stagedFiles [] = .ok dir) (hcta : r.maxCompletedCta = none)
    (hinsn : r.maxInstructions = none) {child : RemoteChild} :
    startChild host r = .ok child ↔ host.resolves = true ∧ host.copiesAssets r.sharedAssets = true ∧
      ∃ dir', host.afterPreCopy r.preCopy dir = some dir' ∧
        child = ⟨r.command, r.args, dictSet dir' launchDiagnostic (host.diagnostic r)⟩ := by
  have hlimits : ∀ dir', host.afterLimits r dir' = .ok dir' := by
    intro dir'
    simp [WorkerHost.afterLimits, hcta, hinsn]
  unfold startChild
  cases hresolves : host.resolves with
  | false => simp [throw, throwThe, MonadExceptOf.throw, bind, Except.bind]
  | true =>
    cases hassets : host.copiesAssets r.sharedAssets with
    | false => simp [hstaged, throw, throwThe, MonadExceptOf.throw, bind, Except.bind]
    | true =>
      cases hcopy : host.afterPreCopy r.preCopy dir with
      | none => simp [hstaged, hcopy, orError, bind, Except.bind]
      | some dir' =>
        simp [hstaged, hcopy, orError, hlimits, bind, Except.bind, pure, Except.pure, eq_comm]

theorem parseSpawn_args {a : ProxyArguments} {id : Text} {staged : List StagedFile}
    {environment : List (Text × Text)} {r : SpawnRequest}
    (h : parseSpawn (spawnFrame a id staged environment) = .ok r) : r.args = a.args := by
  simp only [parseSpawn, spawnFrame_op, spawnFrame_processId, spawnFrame_command, spawnFrame_args,
    spawnFrame_preCopy, spawnFrame_sharedAssets, spawnFrame_stagedFiles, spawnFrame_maxCompletedCta,
    spawnFrame_maxInstructions, Option.bind_eq_bind, Option.bind_some,
    Json.Value.text, Option.getD_some, Json.texts_map, orError, ne_eq, not_true_eq_false,
    if_false] at h
  cases hcta : limitOf "gpgpu_max_completed_cta" (some (optionalInt a.options.maxCompletedCta)) with
  | error e =>
    rw [hcta] at h
    cases h
  | ok cta =>
    cases hinsn : limitOf "gpgpu_max_instructions"
      (some (optionalInt a.options.maxInstructions)) with
    | error e =>
      rw [hcta, hinsn] at h
      cases h
    | ok insn =>
      rw [hcta, hinsn] at h
      simp only [bind, Except.bind, pure, Except.pure] at h
      split at h
      · cases h
      · cases h
        rfl

/-- A child that starts has its files staged before. -/
theorem startChild_ok {host : WorkerHost} {r : SpawnRequest} {child : RemoteChild}
    (h : startChild host r = .ok child) :
    child.args = r.args ∧ ∃ dir, stageInto r.stagedFiles [] = .ok dir := by
  unfold startChild at h
  cases hresolves : host.resolves with
  | false => simp [hresolves, throw, throwThe, MonadExceptOf.throw, bind, Except.bind] at h
  | true =>
    cases hstaged : stageInto r.stagedFiles [] with
    | error e => simp [hresolves, hstaged, bind, Except.bind] at h
    | ok dir =>
      refine ⟨?_, dir, rfl⟩
      cases hassets : host.copiesAssets r.sharedAssets with
      | false =>
        simp [hresolves, hstaged, hassets, throw, throwThe, MonadExceptOf.throw, bind,
          Except.bind] at h
      | true =>
        cases hcopy : host.afterPreCopy r.preCopy dir with
        | none => simp [hresolves, hstaged, hassets, hcopy, orError, bind, Except.bind] at h
        | some dir' =>
          cases hlimits : host.afterLimits r dir' with
          | error e =>
            simp [hresolves, hstaged, hassets, hcopy, hlimits, orError, bind, Except.bind] at h
          | ok dir'' =>
            simp only [hresolves, hstaged, hassets, hcopy, hlimits, orError, bind, Except.bind,
              Bool.not_true, Bool.false_eq_true, if_false, pure, Except.pure, Except.ok.injEq] at h
            rw [← h]

end Directory

section Chain

variable {file : Text → Option Bytes} {environment : List (Text × Text)} {host : WorkerHost}
  {w : WrappedProcess} {slot : Int} {index : Nat}

def stagedFor (file : Text → Option Bytes) (w : WrappedProcess) : List StagedFile :=
  w.sources.map fun source => ⟨lastComponent source, (file source).getD []⟩

/-- The spawn frame of a process whose command line is read as it is written. -/
def WrappedProcess.frame (w : WrappedProcess) (file : Text → Option Bytes)
    (environment : List (Text × Text)) (slot : Int) (index : Nat) : Json.Value :=
  spawnFrame ⟨w.proxyOptions slot index, w.command, w.remoteArguments⟩ (processId index)
    (stagedFor file w)
    environment

def WrappedProcess.request (w : WrappedProcess) (file : Text → Option Bytes) (index : Nat) :
    SpawnRequest where
  processId := processId index
  command := w.command
  args := w.remoteArguments
  preCopy := w.preCopy
  sharedAssets := w.sharedAssets
  stagedFiles := (stagedFor file w).map StagedFile.value
  maxCompletedCta := none
  maxInstructions := none

/-- When the files of a process arrive: the command line of the proxy is read as it is
written, the names can be staged and two files of one name agree, the frame fits in
a line of the worker's stream, neither `pre_copy` nor the launch diagnostic replaces
one of the files, and the worker's own steps succeed. -/
structure Stageable (file : Text → Option Bytes) (environment : List (Text × Text))
    (host : WorkerHost) (w : WrappedProcess) (slot : Int) (index : Nat) : Prop where
  readAsWritten : w.ReadAsWritten
  plain : ∀ source ∈ w.sources, PlainName (lastComponent source)
  agree : ∀ source ∈ w.sources, ∀ other ∈ w.sources,
    lastComponent source = lastComponent other → file source = file other
  fits : (Json.compact (w.frame file environment slot index)).length ≤ streamLimit
  diagnostic : ∀ source ∈ w.sources, lastComponent source = launchDiagnostic →
    file source = some (host.diagnostic (w.request file index))
  resolves : host.resolves = true
  copiesAssets : host.copiesAssets w.sharedAssets = true
  copies : ∃ dir, host.afterPreCopy w.preCopy (stagedDir (stagedFor file w) []) = some dir ∧
    ∀ source ∈ w.sources, lastComponent source ≠ launchDiagnostic →
      dir.lookup (lastComponent source) = (stagedDir (stagedFor file w) []).lookup
        (lastComponent source)

theorem sources_ne_nil {source : Text} (h : source ∈ w.sources) : source ≠ [] := by
  rintro rfl
  cases sources_head h

theorem runProxy_eq (hread : w.ReadAsWritten) {staged : List StagedFile}
    (hstaged : stageFiles file (w.sources.map stageSpecification) = .ok staged) :
    runProxy file environment (w.commandLine slot index) = .ok (frameBytes
      (spawnFrame ⟨w.proxyOptions slot index, w.command, w.remoteArguments⟩ (processId index) staged
        environment)) := by
  rw [runProxy, parseProxy_commandLine hread]
  simp only [WrappedProcess.proxyOptions, hstaged]
  rfl

theorem stageFiles_plain (hfile : ∀ source ∈ w.sources, ∃ data, file source = some data)
    (hplain : ∀ source ∈ w.sources, PlainName (lastComponent source)) :
    stageFiles file (w.sources.map stageSpecification) = .ok (stagedFor file w) := by
  refine stageFiles_eq_ok ?_
  intro source hsource
  obtain ⟨data, hdata⟩ := hfile source hsource
  rw [stageFile_ok (sources_ne_nil hsource) (hplain source hsource) hdata, hdata]
  rfl

theorem stageInto_stagedFor (hplain : ∀ source ∈ w.sources, PlainName (lastComponent source))
    (hsize : ∀ source ∈ w.sources, ((file source).getD []).length ≤ maxStagedBytes) :
    stageInto (w.request file index).stagedFiles [] = .ok (stagedDir (stagedFor file w) []) := by
  refine stageInto_value ?_ ?_ ?_ []
  · intro f hf
    obtain ⟨source, hsource, rfl⟩ := List.mem_map.mp hf
    exact pathName_eq slash_notMem_lastComponent (hplain source hsource).1.2.1
  · intro f hf
    obtain ⟨source, hsource, rfl⟩ := List.mem_map.mp hf
    exact ⟨(hplain source hsource).1.1, (hplain source hsource).1.2.2⟩
  · intro f hf
    obtain ⟨source, hsource, rfl⟩ := List.mem_map.mp hf
    exact hsize source hsource

/-- The chain for plain names: the worker starts the child if the frame fits and
its own steps succeed. -/
theorem remoteChild_eq (hread : w.ReadAsWritten) (hfile : ∀ source ∈ w.sources,
      ∃ data, file source = some data ∧ data.length ≤ maxStagedBytes)
    (hplain : ∀ source ∈ w.sources, PlainName (lastComponent source)) {child : RemoteChild} :
    remoteChild file environment host w slot index = .ok child ↔
      (Json.compact (w.frame file environment slot index)).length ≤ streamLimit ∧
      host.resolves = true ∧ host.copiesAssets w.sharedAssets = true ∧
      ∃ dir, host.afterPreCopy w.preCopy (stagedDir (stagedFor file w) []) = some dir ∧
        child = ⟨w.command, w.remoteArguments,
          dictSet dir launchDiagnostic (host.diagnostic (w.request file index))⟩ := by
  have hsome : ∀ source ∈ w.sources, ∃ data, file source = some data :=
    fun source hs => (hfile source hs).imp fun _ h => h.1
  have hsize : ∀ source ∈ w.sources, ((file source).getD []).length ≤ maxStagedBytes := by
    intro source hs
    obtain ⟨data, hdata, hle⟩ := hfile source hs
    rw [hdata]
    exact hle
  have hproxy : runProxy file environment (w.commandLine slot index) =
      .ok (frameBytes (w.frame file environment slot index)) :=
    runProxy_eq hread (stageFiles_plain hsome hplain)
  rw [remoteChild, hproxy]
  by_cases hfits : (Json.compact (w.frame file environment slot index)).length ≤ streamLimit
  · have hparse : parseSpawn (w.frame file environment slot index) = .ok (w.request file index) :=
      parseSpawn_spawnFrame rfl rfl index
    simp only [handleSpawn_frame hfits, hparse, Except.bind, hfits, true_and]
    exact startChild_eq (stageInto_stagedFor hplain hsize) rfl rfl
  · obtain ⟨message, hmessage⟩ := handleSpawn_tooLong host (Nat.lt_of_not_le hfits)
    simp [hmessage, hfits]

theorem remoteChild_ok {child : RemoteChild}
    (h : remoteChild file environment host w slot index = .ok child) :
    ∃ a id staged, parseProxy (w.commandLine slot index) = some a ∧
      (a.options.processId = some id ∧ stageFiles file a.options.stageFiles = .ok staged) ∧
      handleSpawn host (frameBytes (spawnFrame a id staged environment)) = .ok child := by
  unfold remoteChild runProxy at h
  cases hparse : parseProxy (w.commandLine slot index) with
  | none => simp [hparse] at h
  | some a =>
    cases hworker : a.options.worker with
    | none => simp [hparse, hworker] at h
    | some worker =>
      cases hid : a.options.processId with
      | none => simp [hparse, hworker, hid] at h
      | some id =>
        cases hstaged : stageFiles file a.options.stageFiles with
        | error e => simp [hparse, hworker, hid, hstaged, bind, Except.bind] at h
        | ok staged =>
          simp only [hparse, hworker, hid, hstaged, bind, Except.bind, pure, Except.pure] at h
          exact ⟨a, id, staged, rfl, ⟨hid, hstaged⟩, h⟩

/-- The worker's `pre_copy` brings no file under a name that cannot be staged. -/
def CopiesPlainNames (host : WorkerHost) (w : WrappedProcess) : Prop :=
  ∀ dir dir', host.preCopy w.preCopy dir = some dir' → ∀ source ∈ w.sources,
    ¬PlainName (lastComponent source) → dir'.lookup (lastComponent source) = dir.lookup
      (lastComponent source)

theorem CopiesPlainNames.afterPreCopy (h : CopiesPlainNames host w) {dir dir' : Dir}
    (hdir : host.afterPreCopy w.preCopy dir = some dir') {source : Text}
    (hsource : source ∈ w.sources) (hname : ¬PlainName (lastComponent source)) :
    dir'.lookup (lastComponent source) = dir.lookup (lastComponent source) := by
  unfold WorkerHost.afterPreCopy at hdir
  split at hdir
  · rw [Option.some.inj hdir]
  · exact h dir dir' hdir source hsource hname

theorem lookup_stagedFor (hagree : ∀ source ∈ w.sources, ∀ other ∈ w.sources,
      lastComponent source = lastComponent other → file source = file other)
    {source : Text} (hsource : source ∈ w.sources) {data : Bytes}
    (hdata : file source = some data) :
    (stagedDir (stagedFor file w) []).lookup (lastComponent source) = some data := by
  refine stagedDir_lookup ?_ ⟨_, List.mem_map_of_mem hsource, rfl⟩
  intro f hf hd
  obtain ⟨other, hother, rfl⟩ := List.mem_map.mp hf
  rw [hagree other hother source hsource hd, hdata]
  rfl

theorem StagedRight.readAsWritten
    (h : StagedRight file w (remoteChild file environment host w slot index)) :
    w.ReadAsWritten := by
  obtain ⟨child, hchild, -, hargs, -⟩ := h
  obtain ⟨a, id, staged, hparse, -, hhandle⟩ := remoteChild_ok hchild
  obtain ⟨-, r, hr, hstart⟩ := handleSpawn_ok hhandle
  refine readAsWritten_of_parseProxy hparse ?_
  rw [← hargs, (startChild_ok hstart).1, parseSpawn_args hr]

/-- What is staged for a child that runs, whatever the names are. -/
theorem remoteChild_workdir (hread : w.ReadAsWritten) {child : RemoteChild}
    (hchild : remoteChild file environment host w slot index = .ok child) :
    ∃ staged dir bytes, stageFiles file (w.sources.map stageSpecification) = .ok staged ∧
      host.afterPreCopy w.preCopy (stagedDir staged []) = some dir ∧
      child.workdir = dictSet dir launchDiagnostic bytes := by
  obtain ⟨a, id, staged, hparse, hstaged, hhandle⟩ := remoteChild_ok hchild
  obtain ⟨-, r, hr, hstart⟩ := handleSpawn_ok hhandle
  rw [parseProxy_commandLine hread] at hparse
  cases hparse
  obtain ⟨hid, hstaged⟩ := hstaged
  cases hid
  rw [parseSpawn_spawnFrame rfl rfl index] at hr
  cases hr
  obtain ⟨dir, hdir⟩ := (startChild_ok hstart).2
  obtain ⟨-, -, dir', hdir', rfl⟩ := (startChild_eq hdir rfl rfl).mp hstart
  rw [eq_stagedDir_of_stageInto hdir] at hdir'
  exact ⟨staged, dir', _, hstaged, hdir', rfl⟩

variable (hfile : ∀ source ∈ w.sources, ∃ data, file source = some data ∧
  data.length ≤ maxStagedBytes)
include hfile

theorem Stageable.stagedRight (h : Stageable file environment host w slot index) :
    StagedRight file w (remoteChild file environment host w slot index) := by
  obtain ⟨dir, hdir, hkept⟩ := h.copies
  have hchild : remoteChild file environment host w slot index = .ok _ :=
    (remoteChild_eq h.readAsWritten hfile h.plain).mpr
      ⟨h.fits, h.resolves, h.copiesAssets, dir, hdir, rfl⟩
  refine ⟨_, hchild, rfl, rfl, ?_⟩
  intro source hsource
  rw [lookup_dictSet]
  split
  · rename_i hd
    exact (h.diagnostic source hsource hd).symm
  · rename_i hd
    obtain ⟨data, hdata, -⟩ := hfile source hsource
    rw [hkept source hsource hd, lookup_stagedFor h.agree hsource hdata, hdata]

variable (hcopies : CopiesPlainNames host w)
include hcopies

theorem StagedRight.plain
    (h : StagedRight file w (remoteChild file environment host w slot index)) :
    ∀ source ∈ w.sources, PlainName (lastComponent source) := by
  have hread := h.readAsWritten
  obtain ⟨child, hchild, -, -, hfiles⟩ := h
  obtain ⟨staged, dir, bytes, hstaged, hdir, hworkdir⟩ := remoteChild_workdir hread hchild
  intro source hsource
  by_contra hname
  obtain ⟨data, hdata, -⟩ := hfile source hsource
  have hlookup := hfiles source hsource
  rw [hworkdir, hdata, lookup_dictSet] at hlookup
  split at hlookup
  · rename_i hd
    rw [hd] at hname
    exact hname ⟨by decide, by decide⟩
  · rw [hcopies.afterPreCopy hdir hsource hname] at hlookup
    rcases lookup_stagedDir hlookup with hnone | ⟨f, hf, hd, -⟩
    · cases hnone
    · rw [← hd] at hname
      exact hname ((stageFiles_mem hstaged).2 f hf)

theorem StagedRight.stageable
    (h : StagedRight file w (remoteChild file environment host w slot index)) :
    Stageable file environment host w slot index := by
  have hread := h.readAsWritten
  have hplain := h.plain hfile hcopies
  obtain ⟨child, hchild, -, -, hfiles⟩ := h
  obtain ⟨hfits, hresolves, hassets, dir, hdir, rfl⟩ :=
    (remoteChild_eq hread hfile hplain).mp hchild
  have hagree : ∀ source ∈ w.sources, ∀ other ∈ w.sources,
      lastComponent source = lastComponent other →
      file source = file other := by
    intro source hsource other hother hd
    rw [← hfiles source hsource, ← hfiles other hother, hd]
  refine ⟨hread, hplain, hagree, hfits, ?_, hresolves, hassets, dir, hdir, ?_⟩
  · intro source hsource hd
    rw [← hfiles source hsource, lookup_dictSet, if_pos hd]
  · intro source hsource hd
    obtain ⟨data, hdata, -⟩ := hfile source hsource
    have hlookup := hfiles source hsource
    rw [lookup_dictSet, if_neg hd] at hlookup
    rw [hlookup, lookup_stagedFor hagree hsource hdata, hdata]

end Chain

/-- The files of a Phase-2 process arrive exactly when it is stageable. -/
theorem phaseTwo_staged_iff (file : Text → Option Bytes) (environment : List (Text × Text))
    (host : WorkerHost) (o : WrapOptions) (p : YamlProcess) (slot : Int) (index : Nat)
    (hfile : ∀ source ∈ (expandProcess o p).sources,
      ∃ data, file source = some data ∧ data.length ≤ maxStagedBytes)
    (hcopies : CopiesPlainNames host (expandProcess o p)) :
    StagedRight file (expandProcess o p)
      (remoteChild file environment host (expandProcess o p) slot index) ↔
      Stageable file environment host (expandProcess o p) slot index :=
  ⟨fun h => h.stageable hfile hcopies, fun h => h.stagedRight hfile⟩

def benchProcess : YamlProcess where
  cmd := "popnet".toList
  args := [.str "../bench.txt".toList]

def plainHost : WorkerHost where
  resolves := true
  copiesAssets := fun _ => true
  preCopy := fun _ dir => some dir
  setGpgpuTestLimits := fun _ _ dir => .ok dir
  diagnostic := fun _ => []

theorem sources_benchProcess :
    (expandProcess {} benchProcess).sources = ["../bench.txt".toList] := by decide

theorem readAsWritten_benchProcess : (expandProcess {} benchProcess).ReadAsWritten :=
  ⟨by decide, by decide, by decide, by decide, by decide⟩

theorem plain_benchProcess :
    ∀ source ∈ (expandProcess {} benchProcess).sources, PlainName (lastComponent source) := by
  intro source hsource
  rw [sources_benchProcess] at hsource
  rw [List.mem_singleton.mp hsource]
  exact ⟨by decide, by decide⟩

theorem phaseTwo_staged_bench :
    StagedRight (fun _ => some [65, 10]) (expandProcess {} benchProcess)
      (remoteChild (fun _ => some [65, 10]) [] plainHost (expandProcess {} benchProcess) 0 0) := by
  refine (phaseTwo_staged_iff _ [] plainHost {} benchProcess 0 0 ?_ ?_).mpr ?_
  · intro source _
    exact ⟨_, rfl, by decide⟩
  · intro dir dir' h source _ _
    cases h
    rfl
  · refine ⟨readAsWritten_benchProcess, plain_benchProcess, fun _ _ _ _ _ => rfl, by decide +kernel,
      ?_, rfl, rfl, ?_⟩
    · intro source hsource hname
      rw [sources_benchProcess] at hsource
      rw [List.mem_singleton.mp hsource] at hname
      exact absurd hname (by decide)
    · exact ⟨_, rfl, fun _ _ _ => rfl⟩

/-- A file of 60000 bytes makes a frame that the worker does not read. -/
theorem not_stagedRight_of_long {data : Bytes} (hlength : data.length = 60000) :
    ¬StagedRight (fun _ => some data) (expandProcess {} benchProcess)
      (remoteChild (fun _ => some data) [] plainHost (expandProcess {} benchProcess) 0 0) := by
  rintro ⟨child, hchild, -⟩
  have hfile : ∀ source ∈ (expandProcess {} benchProcess).sources,
      ∃ staged, some data = some staged ∧ staged.length ≤ maxStagedBytes := by
    intro source _
    refine ⟨data, rfl, ?_⟩
    rw [hlength]
    decide
  have hfits := ((remoteChild_eq readAsWritten_benchProcess hfile plain_benchProcess).mp hchild).1
  have hmem : ⟨"bench.txt".toList, data⟩ ∈ stagedFor (fun _ => some data)
      (expandProcess {} benchProcess) := by
    rw [stagedFor, sources_benchProcess]
    exact List.mem_singleton.mpr rfl
  have hlong := (length_data_le hmem).trans hfits
  dsimp only at hlong
  rw [hlength] at hlong
  exact absurd hlong (by decide)

def longBench : Bytes := List.replicate 60000 0

theorem bench_too_long :
    ¬StagedRight (fun _ => some longBench) (expandProcess {} benchProcess)
      (remoteChild (fun _ => some longBench) [] plainHost (expandProcess {} benchProcess) 0 0) :=
  not_stagedRight_of_long List.length_replicate

end ChipSystemSim
