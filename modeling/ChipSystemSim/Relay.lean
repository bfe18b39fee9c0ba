import ChipSystemSim.FifoBroker
import ChipSystemSim.GpgpuLimits
import ChipSystemSim.Staging

/-! The relay of one child process: `worker.handle` after its set-up, its two
`forward_stream` tasks, the main thread and the stdin thread of `process_proxy`, the child
with its pipes, and the connection between them. A step runs one of them up to its next
suspension point. -/

namespace ChipSystemSim

namespace Relay

inductive Channel where
  | stdout
  | stderr
  deriving DecidableEq, Repr

def Channel.name : Channel → Text
  | .stdout => "stdout".toList
  | .stderr => "stderr".toList

/-- The frames of the worker. -/
inductive Message where
  | diagnostic (text : Text)
  | started (pid : Int)
  | output (channel : Channel) (data : Bytes)
  | exit (returnCode : Int)
  | error (text : Text)
  deriving DecidableEq

def opKey : Text := "op".toList

def dataKey : Text := "data".toList

def Message.value : Message → Json.Value
  | .diagnostic text => .obj [(opKey, .str "diagnostic".toList), ("text".toList, .str text)]
  | .started pid => .obj [(opKey, .str "started".toList), ("pid".toList, .num pid)]
  | .output channel data =>
    .obj [(opKey, .str "output".toList), ("stream".toList, .str channel.name),
      (dataKey, .str (Base64.encode data))]
  | .exit returnCode => .obj [(opKey, .str "exit".toList), ("returncode".toList, .num returnCode)]
  | .error text => .obj [(opKey, .str "error".toList), ("error".toList, .str text)]

/-- The frames of the stdin thread. -/
def stdinValue (data : Bytes) : Json.Value :=
  .obj [(opKey, .str "stdin".toList), (dataKey, .str (Base64.encode data))]

def parseFrame (raw : Bytes) : Option Json.Value := utf8Decode raw >>= Json.loads

def utf8Encode (t : Text) : Bytes := t.flatMap String.utf8EncodeChar

/-- The next line of a connection, with the rest of its bytes; once it is closed also an
unfinished one. -/
def nextLine (closed : Bool) (stream : Bytes) : Option (Bytes × Bytes) :=
  let line := stream.takeWhile (· != 10)
  if line.length < stream.length then
    some (stream.take (line.length + 1), stream.drop (line.length + 1))
  else if closed then some (stream, []) else none

/-- A pipe that the child writes, with all that was ever written to it. -/
structure ChildPipe where
  written : Bytes
  unread : Bytes
  closed : Bool

def ChildPipe.write (p : ChildPipe) (b : Bytes) : ChildPipe :=
  { p with written := p.written ++ b, unread := p.unread ++ b }

/-- A `forward_stream` task. -/
inductive Forward where
  | notStarted
  | reading
  | holding (chunk : Bytes)
  | finished
  | failed
  deriving DecidableEq

/-- The main coroutine of `handle`. An error of the library has no text here. -/
inductive Worker where
  | diagnosing
  | launching
  | announcing
  | announced
  | relaying
  | draining
  | awaitingExit
  | gathering (returnCode : Int)
  | marking (returnCode : Int)
  | sendingMarker (text : Bytes) (returnCode : Int)
  | reporting (returnCode : Int)
  | reported (returnCode : Int)
  | failing (error : Option Text)
  | closed
  deriving DecidableEq

/-- Who writes to the connection of the worker. -/
inductive Sender where
  | main
  | forward (channel : Channel)
  deriving DecidableEq

inductive ProxyPhase where
  | starting
  | relaying
  | finished (returnCode : Int)
  | raised
  deriving DecidableEq

/-- What the proxy puts on its stderr: a line of its own, or bytes of the child. -/
inductive Printed where
  | own (line : Text)
  | relayed (data : Bytes)
  deriving DecidableEq

structure Proxy where
  phase : ProxyPhase
  stdout : Bytes
  stderr : List Printed

/-- The status that the proxy exits with. `SystemExit` keeps the low byte of an integer. -/
def ProxyPhase.status : ProxyPhase → Option Nat
  | .finished returnCode => some (returnCode % 256).toNat
  | .raised => some 1
  | _ => none

inductive StdinThread where
  | reading
  | sending (data : Bytes)
  | ended
  deriving DecidableEq

/-- What a run is given: the launch diagnostic, the process, and the result marker as the
worker finds it. -/
structure Setting where
  processId : Text
  diagnostic : Text
  pid : Int
  marker : Option Bytes

/-- What `cat` writes to the stderr of the child. -/
def Setting.launchText (cfg : Setting) : Bytes := utf8Encode (cfg.diagnostic ++ ['\n'])

/-- The text that `read_text` returns, back in UTF-8. -/
def markerText (marker : Bytes) : Option Bytes :=
  (utf8Decode marker).map fun t => utf8Encode (universalNewlines t)

def readChunk : Nat := 4096

structure State where
  spawned : Bool
  launch : Bytes
  childErr : Bytes
  pipe : Channel → ChildPipe
  exitCode : Option Int
  childStdin : Bytes
  worker : Worker
  forward : Channel → Forward
  lock : Option Sender
  down : Bool
  sent : List Message
  toProxy : Bytes
  toWorker : Bytes
  proxy : Proxy
  processed : Nat
  thread : StdinThread
  stdinRead : Bytes

def Setting.init (cfg : Setting) : State where
  spawned := false
  launch := cfg.launchText
  childErr := []
  pipe := fun _ => ⟨[], [], false⟩
  exitCode := none
  childStdin := []
  worker := .diagnosing
  forward := fun _ => .notStarted
  lock := none
  down := false
  sent := []
  toProxy := []
  toWorker := []
  proxy := ⟨.starting, [], []⟩
  processed := 0
  thread := .reading
  stdinRead := []

/-- `send` up to its drain: the lock is held, and one frame is in the buffer of the
connection unless that is lost or closed. -/
def State.put (s : State) (who : Sender) (m : Message) : State :=
  if s.down then { s with lock := some who }
  else
    { s with
      lock := some who
      sent := s.sent ++ [m]
      toProxy := s.toProxy ++ frameBytes m.value }

def State.setPipe (s : State) (ch : Channel) (p : ChildPipe) : State :=
  { s with pipe := Function.update s.pipe ch p }

def State.setForward (s : State) (ch : Channel) (f : Forward) : State :=
  { s with forward := Function.update s.forward ch f }

def State.fail (s : State) (error : Option Text) : State := { s with worker := .failing error }

/-- The loop of `handle` with a line of the proxy. -/
def State.takeLine (s : State) (raw : Bytes) : State :=
  if raw = [] then { s with worker := .awaitingExit }
  else if streamLimit < raw.length - 1 then s.fail none
  else
    match parseFrame raw with
    | some (.obj members) =>
      match Json.Value.get opKey (.obj members) with
      | some (.str op) =>
        if op = "stdin".toList then
          match Json.Value.get dataKey (.obj members) with
          | some (.str text) =>
            match Base64.decode text with
            | some data => { s with childStdin := s.childStdin ++ data, worker := .draining }
            | none => s.fail none
          | _ => s.fail none
        else if op = "terminate".toList then s
        else s.fail (some ("unsupported worker operation: ".toList ++ op))
      | none => s.fail (some "unsupported worker operation: None".toList)
      | _ => s.fail none
    | _ => s.fail none

def diagnosticLine (cfg : Setting) (text : Text) : Text :=
  "proxy diagnostic [".toList ++ cfg.processId ++ "]: ".toList ++ text

def startedLine (cfg : Setting) (pid : Int) : Text :=
  "proxy: started process_id=".toList ++ cfg.processId ++ " pid=".toList ++ decimal pid

def exitLine (cfg : Setting) (returnCode : Int) : Text :=
  "proxy: remote exit process_id=".toList ++ cfg.processId ++ " rc=".toList ++ decimal returnCode

def Proxy.print (p : Proxy) (line : Text) : Proxy := { p with stderr := p.stderr ++ [.own line] }

def Proxy.raise (p : Proxy) : Proxy := { p with phase := .raised }

/-- The loop of `main` until the process has started, with one frame. -/
def Proxy.takeStarting (cfg : Setting) (p : Proxy) (response : Json.Value) : Proxy :=
  match response.get opKey with
  | some (.str op) =>
    if op = "diagnostic".toList then
      match response.get "text".toList with
      | some (.str text) => p.print (diagnosticLine cfg text)
      | _ => p.raise
    else if op = "started".toList then
      match response.get "pid".toList with
      | some (.num pid) => { p.print (startedLine cfg pid) with phase := .relaying }
      | _ => { p with phase := .relaying }
    else p.raise
  | _ => p.raise

/-- The relay loop of `main`, with one frame. -/
def Proxy.takeRelaying (cfg : Setting) (p : Proxy) (response : Json.Value) : Proxy :=
  match response.get opKey with
  | some (.str op) =>
    if op = "output".toList then
      match response.get "stream".toList, response.get dataKey with
      | some (.str stream), some (.str text) =>
        match Base64.decode text with
        | some data =>
          if stream = "stdout".toList then { p with stdout := p.stdout ++ data }
          else { p with stderr := p.stderr ++ [.relayed data] }
        | none => p.raise
      | _, _ => p.raise
    else if op = "diagnostic".toList then
      match response.get "text".toList with
      | some (.str text) => p.print (diagnosticLine cfg text)
      | _ => p.raise
    else if op = "exit".toList then
      match response.get "returncode".toList with
      | some (.num returnCode) =>
        { p.print (exitLine cfg returnCode) with phase := .finished returnCode }
      | _ => p.raise
    else p.raise
  | _ => p.raise

/-- `json.loads(stream.readline())` and what follows it. -/
def Proxy.takeLine (cfg : Setting) (p : Proxy) (raw : Bytes) : Proxy :=
  match parseFrame raw with
  | none => p.raise
  | some response =>
    match p.phase with
    | .starting => p.takeStarting cfg response
    | .relaying => p.takeRelaying cfg response
    | _ => p

def ProxyPhase.active : ProxyPhase → Bool
  | .starting => true
  | .relaying => true
  | _ => false

/-- What a process can exit with: its code, or the negated number of a signal. -/
def validExit (returnCode : Int) : Bool := -64 ≤ returnCode ∧ returnCode ≤ 255

inductive Step (cfg : Setting) (s : State) : State → Prop
  -- the child: the shell with `cat`, then the command, which may leave its pipes to its own
  -- children
  | cat {n : Nat} (hspawned : s.spawned = true) (hopen : (s.pipe .stderr).closed = false)
      (hn : 0 < n)
      (hle : n ≤ s.launch.length) :
      Step cfg s
        { s.setPipe .stderr ((s.pipe .stderr).write
        (s.launch.take n)) with launch := s.launch.drop n }
  | writeOut {b : Bytes} (hspawned : s.spawned = true) (hlaunched : s.launch = [])
      (hopen : (s.pipe .stdout).closed = false) :
        Step cfg s (s.setPipe .stdout ((s.pipe .stdout).write b))
  | writeErr {b : Bytes} (hspawned : s.spawned = true) (hlaunched : s.launch = [])
      (hopen : (s.pipe .stderr).closed = false) :
      Step cfg s { s.setPipe .stderr ((s.pipe .stderr).write b) with childErr := s.childErr ++ b }
  | close {ch : Channel} (hspawned : s.spawned = true)
      (hended : s.launch = [] ∨ s.exitCode.isSome) :
      Step cfg s (s.setPipe ch { s.pipe ch with closed := true })
  | exit {returnCode : Int} (hspawned : s.spawned = true) (hrunning : s.exitCode = none)
      (hvalid : validExit returnCode = true) : Step cfg s { s with exitCode := some returnCode }
  -- the tasks of `forward_stream`
  | read {ch : Channel} {n : Nat} (htask : s.forward ch = .reading)
      (hfree : s.lock ≠ some (.forward ch)) (hn : 0 < n)
      (hchunk : n ≤ readChunk) (hle : n ≤ (s.pipe ch).unread.length) :
      Step cfg s
        ((s.setPipe ch { s.pipe ch with unread := (s.pipe ch).unread.drop n }).setForward ch
        (.holding ((s.pipe ch).unread.take n)))
  | endOfStream {ch : Channel} (htask : s.forward ch = .reading)
      (hfree : s.lock ≠ some (.forward ch))
      (hclosed : (s.pipe ch).closed = true) (hempty : (s.pipe ch).unread = []) :
        Step cfg s (s.setForward ch .finished)
  | sendChunk {ch : Channel} {chunk : Bytes} (htask : s.forward ch = .holding chunk)
      (hlock : s.lock = none) :
      Step cfg s ((s.put (.forward ch) (.output ch chunk)).setForward ch .reading)
  | readFails {ch : Channel} (htask : s.forward ch = .reading)
      (hfree : s.lock ≠ some (.forward ch)) :
      Step cfg s (s.setForward ch .failed)
  | drained {who : Sender} (hlock : s.lock = some who) : Step cfg s { s with lock := none }
  -- the connection is lost: the drain raises
  | lostForward {ch : Channel} (hlock : s.lock = some (.forward ch)) :
      Step cfg s { s.setForward ch .failed with lock := none, down := true }
  | lostMain (hlock : s.lock = some .main) :
      Step cfg s { s with lock := none, down := true, worker := .failing none }
  -- the main coroutine of `handle`
  | sendDiagnostic (hworker : s.worker = .diagnosing) (hlock : s.lock = none) :
      Step cfg s { s.put .main (.diagnostic cfg.diagnostic) with worker := .launching }
  | launchRaises (hworker : s.worker = .launching) : Step cfg s (s.fail none)
  | launch (hworker : s.worker = .launching) (hfree : s.lock ≠ some .main) :
      Step cfg s { s with spawned := true, worker := .announcing }
  | sendStarted (hworker : s.worker = .announcing) (hlock : s.lock = none) :
      Step cfg s { s.put .main (.started cfg.pid) with worker := .announced }
  | attach (hworker : s.worker = .announced) (hfree : s.lock ≠ some .main) :
      Step cfg s { s with worker := .relaying, forward := fun _ => .reading }
  | readLine {raw rest : Bytes} (hworker : s.worker = .relaying)
      (hline : nextLine (!s.proxy.phase.active) s.toWorker = some (raw, rest)) :
      Step cfg s { s.takeLine raw with toWorker := rest }
  | readRaises (hworker : s.worker = .relaying) : Step cfg s (s.fail none)
  | stdinDrained (hworker : s.worker = .draining) : Step cfg s { s with worker := .relaying }
  | stdinBroken (hworker : s.worker = .draining) : Step cfg s (s.fail none)
  | noticeExit {returnCode : Int} (hworker : s.worker = .relaying ∨ s.worker = .awaitingExit)
      (hexit : s.exitCode = some returnCode) : Step cfg s { s with worker := .gathering returnCode }
  | gather {returnCode : Int} (hworker : s.worker = .gathering returnCode)
      (hall : ∀ ch, s.forward ch = .finished) :
      Step cfg s { s with worker := .marking returnCode }
  | gatherRaises {returnCode : Int} {ch : Channel} (hworker : s.worker = .gathering returnCode)
      (hfailed : s.forward ch = .failed) : Step cfg s (s.fail none)
  | noMarker {returnCode : Int} (hworker : s.worker = .marking returnCode)
      (hmarker : cfg.marker = none) :
      Step cfg s { s with worker := .reporting returnCode }
  | readMarker {returnCode : Int} {marker text : Bytes} (hworker : s.worker = .marking returnCode)
      (hmarker : cfg.marker = some marker) (htext : markerText marker = some text) :
      Step cfg s { s with worker := .sendingMarker text returnCode }
  | markerRaises {returnCode : Int} {marker : Bytes} (hworker : s.worker = .marking returnCode)
      (hmarker : cfg.marker = some marker) (htext : markerText marker = none) :
      Step cfg s (s.fail none)
  | sendMarker {returnCode : Int} {text : Bytes}
      (hworker : s.worker = .sendingMarker text returnCode)
      (hlock : s.lock = none) :
      Step cfg s { s.put .main (.output .stdout text) with worker := .reporting returnCode }
  | sendExit {returnCode : Int} (hworker : s.worker = .reporting returnCode)
      (hlock : s.lock = none) :
      Step cfg s { s.put .main (.exit returnCode) with worker := .reported returnCode }
  | finish {returnCode : Int} (hworker : s.worker = .reported returnCode)
      (hfree : s.lock ≠ some .main) :
      Step cfg s { s with worker := .closed, down := true }
  | sendError {error : Option Text} {text : Text} (hworker : s.worker = .failing error)
      (hlock : s.lock = none)
      (htext : ∀ t ∈ error, text = t) (hkilled : s.spawned = true → s.exitCode.isSome) :
      Step cfg s { s.put .main (.error text) with worker := .closed, down := true }
  -- the main thread of the proxy
  | proxyLine {raw rest : Bytes} (hactive : s.proxy.phase.active = true)
      (hline : nextLine s.down s.toProxy = some (raw, rest)) :
      Step cfg s
        { s with
          proxy := s.proxy.takeLine cfg raw
          toProxy := rest
          processed := s.processed + 1 }
  | proxyRaises (hactive : s.proxy.phase.active = true) :
      Step cfg s { s with proxy := s.proxy.raise }
  -- the stdin thread
  | stdinRead {b : Bytes} (hstarted : s.proxy.phase ≠ .starting) (hthread : s.thread = .reading)
      (hne : b ≠ [])
      (hchunk : b.length ≤ readChunk) :
      Step cfg s { s with thread := .sending b, stdinRead := s.stdinRead ++ b }
  | stdinEnd (hthread : s.thread = .reading) : Step cfg s { s with thread := .ended }
  | stdinSend {b : Bytes} (hthread : s.thread = .sending b) :
      Step cfg s { s with thread := .reading, toWorker := s.toWorker ++ frameBytes (stdinValue b) }
  | stdinFails {b : Bytes} (hthread : s.thread = .sending b) :
      Step cfg s { s with thread := .ended }

inductive Reach (cfg : Setting) : State → Prop
  | init : Reach cfg cfg.init
  | step {s s' : State} : Reach cfg s → Step cfg s s' → Reach cfg s'

end Relay

end ChipSystemSim
