import ChipSystemSim.Scripts
import ChipSystemSim.RoutingTable

/-! `simbricks_worker_supervisor.main`: one worker's gateways and socket transports are started,
watched until they are ready, and cleaned up with the router and the worker. What the operating
system answers may depend on everything that happened before. -/

namespace ChipSystemSim

namespace Supervisor

/-- The command line with its defaults, and the three timeouts of the environment. -/
structure Options where
  slot : Int
  topology : Topology
  routing : Text
  workerPort : Int := 9300
  routerPort : Int := 9400
  gatewayBasePort : Int := 9500
  readyTimeoutSeconds : Int := 90
  connectorTimeoutSeconds : Int := 60
  stabilityTimeoutSeconds : Int := 5

inductive Command where
  | gateway (g : GatewayProcess)
  | listener (peer tcpPort : Int)
  | connector (peer : Int) (peerIp : Text) (tcpPort : Int)
  | router
  | worker
  deriving DecidableEq

def runFile (stem : String) (peer : Int) (suffix : String) : Text :=
  "/run/simbricks/".toList ++ stem.toList ++ decimal peer ++ suffix.toList

def socketPath (peer : Int) : Text := runFile "base-" peer ".sock"

def poolPath (peer : Int) : Text := runFile "gateway-" peer ".pool"

def netPool (peer : Int) : Text := runFile "net-" peer ".pool"

def readyPath (peer : Int) : Text := runFile "gateway-" peer ".ready"

def netSockets : Text := "/opt/simbricks/dist/sockets/net_sockets".toList

/-- What `subprocess.Popen` is given. -/
def Command.argv (o : Options) : Command → List Text
  | .gateway g =>
    "/usr/local/bin/simbricks-pipe-gateway".toList ::
      ((if g.connect then ["--connect".toList] else []) ++ ["--ready-file".toList, readyPath g.peer,
        socketPath g.peer, poolPath g.peer, decimal g.port])
  | .listener peer tcpPort =>
    [netSockets, "-l".toList, "-C".toList, socketPath peer, "-s".toList, netPool peer, "-S".toList,
      "32".toList, "0.0.0.0".toList, decimal tcpPort, runFile "listen-" peer ".info",
      runFile "listen-" peer ".ready"]
  | .connector peer peerIp tcpPort =>
    [netSockets, "-L".toList, socketPath peer, "-s".toList, netPool peer, "-S".toList, "32".toList,
      peerIp, decimal tcpPort, runFile "listen-" peer ".info", runFile "listen-" peer ".ready"]
  | .router =>
    ["python3".toList, "/opt/chipsystemsim-distributed/simbricks_pipe_router.py".toList,
      "--slot".toList, decimal o.slot, "--routing".toList, o.routing, "--port".toList,
      decimal o.routerPort]
  | .worker =>
    ["python3".toList, "/opt/chipsystemsim-distributed/worker.py".toList, "--port".toList,
      decimal o.workerPort]

/-- What the worker's environment has beside the supervisor's own. -/
def Command.environment (o : Options) : Command → List (Text × Text)
  | .worker => [("LEGOSIM_PIPE_GATEWAY".toList, "127.0.0.1:".toList ++ decimal o.routerPort)]
  | _ => []

inductive Error where
  | notPositive (setting : String)
  | cannotStart
  | cannotUnlink
  | negativeSleep
  | exitedBefore (path : Text) (code : Int)
  | notCreated (path : Text)
  | gatewayExited (path : Text) (code : Int)
  | notReady (seconds : Int) (missing : List Text)
  | exitedAfterReady (description : Text) (code : Int)
  | unresolved (service : Text)
  | unreachable (seconds : Int) (lastReturnCode : Option Int)
  | exitedWhileRunning (description : Text) (code : Int)
  | exit (code : Int)
  deriving DecidableEq

/-- The texts of the supervisor's own exceptions; an error of the system has a text of its own. -/
def Error.message : Error → Option Text
  | .notPositive setting => some (setting.toList ++ " must be positive".toList)
  | .exitedBefore path code =>
    some ("transport process exited before creating ".toList ++ path ++ ": ".toList ++ decimal code)
  | .notCreated path =>
    some ("transport process did not create ".toList ++ path ++ " within 60 seconds".toList)
  | .gatewayExited path code =>
    some ("gateway exited before BaseIf became ready (".toList ++ path ++ "): ".toList ++
      decimal code)
  | .notReady seconds missing =>
    some ("BaseIf handshakes did not become ready within ".toList ++ decimal seconds ++
      " seconds: ".toList ++
      ", ".toList.intercalate missing)
  | .exitedAfterReady description code =>
    some ("transport exited after BaseIf became ready (".toList ++ description ++ "): ".toList ++
      decimal code)
  | .unresolved service =>
    some ("could not resolve ".toList ++ service ++ " within 60 seconds".toList)
  | .unreachable seconds code =>
    some ("connector could not reach listener within ".toList ++ decimal seconds ++
      " seconds: ".toList ++
      (match code with
        | some code => decimal code
        | none => "None".toList))
  | .exitedWhileRunning description code =>
    some ("transport exited while worker was running (".toList ++ description ++ "): ".toList ++
      decimal code)
  | .cannotStart => none
  | .cannotUnlink => none
  | .negativeSleep => none
  | .exit _ => none

/-- A process is known by the number of processes started before it. -/
inductive Event where
  | popen (command : Command) (process : Option Nat)
  | polled (process : Nat) (returnCode : Option Int)
  | looked (path : Text) (present : Bool)
  | unlinked (path : Text) (done : Bool)
  | resolved (service : Text) (address : Option Text)
  | clock (milliseconds : Int)
  | slept (milliseconds : Int)
  | terminated (process : Nat)
  | waited (process : Nat) (exited : Bool)
  | killed (process : Nat)

def started (history : List Event) : List Command :=
  history.filterMap fun
    | .popen command (some _) => some command
    | _ => none

/-- The operating system: its clock in milliseconds, its files, its processes and its name
service. -/
structure System where
  starts : List Event → List Text → List (Text × Text) → Bool
  poll : List Event → Nat → Option Int
  pathExists : List Event → Text → Bool
  unlink : List Event → Text → Bool
  resolve : List Event → Text → Option Text
  monotonic : List Event → Int
  exitsInTime : List Event → Nat → Bool

structure Machine where
  history : List Event := []
  children : List Nat := []
  readyPaths : List (Text × Nat) := []
  transportProcesses : List (Text × Nat) := []

def Machine.record (m : Machine) (e : Event) : Machine := { m with history := m.history ++ [e] }

def Machine.addChild (m : Machine) (process : Nat) : Machine :=
  { m with children := m.children ++ [process] }

def Machine.addReady (m : Machine) (path : Text) (process : Nat) : Machine :=
  { m with readyPaths := m.readyPaths ++ [(path, process)] }

def Machine.addTransport (m : Machine) (description : Text) (process : Nat) : Machine :=
  { m with transportProcesses := m.transportProcesses ++ [(description, process)] }

abbrev Run (α : Type) : Type := Script Machine Error α

section Code

open Script

variable (sys : System) (o : Options) (fuel : Nat)

def ask {α : Type} (answer : List Event → α) (event : α → Event) : Run α :=
  call (fun m => answer m.history) fun a m => m.record (event a)

def monotonic : Run Int := ask sys.monotonic .clock

def pathExists (path : Text) : Run Bool :=
  ask (fun history => sys.pathExists history path) (.looked path)

def poll (process : Nat) : Run (Option Int) :=
  ask (fun history => sys.poll history process) (.polled process)

def sleep (milliseconds : Int) : Run Unit := change fun m => m.record (.slept milliseconds)

def unlink (path : Text) : Run Unit := do
  if ← ask (fun history => sys.unlink history path) (.unlinked path) then pure ()
  else raise .cannotUnlink

def start (command : Command) : Run Nat := do
  let process ← ask
    (fun history =>
      if sys.starts history (command.argv o)
        (command.environment o) then some (started history).length else none)
    (.popen command)
  match process with
  | some process => pure process
  | none => raise .cannotStart

def waitForPath (path : Text) (process : Nat) : Run Unit := do
  let now ← monotonic sys
  let deadline := now + 60000
  repeatUntil (do
    if ← pathExists sys path then pure (some ())
    else do
      match ← poll sys process with
      | some code => raise (.exitedBefore path code)
      | none => do
        let now ← monotonic sys
        if deadline ≤ now then raise (.notCreated path)
        else do
          sleep 100
          pure none) fuel

/-- `any(not path.exists() for path, _ in paths)` stops at the first missing path. -/
def anyMissing : List (Text × Nat) → Run Bool
  | [] => pure false
  | (path, _) :: rest => do
    if ← pathExists sys path then anyMissing rest else pure true

def missingPaths : List (Text × Nat) → Run (List Text)
  | [] => pure []
  | (path, _) :: rest => do
    let present ← pathExists sys path
    let others ← missingPaths rest
    pure (if present then others else path :: others)

/-- No process of the list may have exited. -/
def watch (exited : Text → Int → Error) : List (Text × Nat) → Run Unit :=
  each fun (description, process) => do
    match ← poll sys process with
    | some code => raise (exited description code)
    | none => pure ()

def waitForReady (timeoutSeconds : Int) : Run Unit := do
  let paths ← read (·.readyPaths)
  let now ← monotonic sys
  let deadline := now + timeoutSeconds * 1000
  repeatUntil (do
    if ← anyMissing sys paths then do
      watch sys .gatewayExited paths
      let now ← monotonic sys
      if deadline ≤ now then do
        let missing ← missingPaths sys paths
        raise (.notReady timeoutSeconds missing)
      else do
        sleep 100
        pure none
    else pure (some ())) fuel

def waitForStable (timeoutSeconds : Int) : Run Unit := do
  let processes ← read (·.transportProcesses)
  let now ← monotonic sys
  let deadline := now + timeoutSeconds * 1000
  repeatUntil (do
    let now ← monotonic sys
    if now < deadline then do
      watch sys .exitedAfterReady processes
      sleep 100
      pure none
    else pure (some ())) fuel

def resolveTransportService (serviceName : Text) : Run Text := do
  let now ← monotonic sys
  let deadline := now + 60000
  repeatUntil (do
    let now ← monotonic sys
    if now < deadline then do
      match ← ask (fun history => sys.resolve history serviceName) (.resolved serviceName) with
      | some address => pure (some address)
      | none => do
        sleep 1000
        pure none
    else raise (.unresolved serviceName)) fuel

def unlinkIfPresent (path : Text) : Run Unit := do
  if ← pathExists sys path then unlink sys path else pure ()

/-- The loop of `start_connector_with_retry`, with `last_return_code` as its argument. -/
def connectorRounds (command : Command) (path : Text) (timeoutSeconds deadline : Int) :
    Nat → Option Int → Run Nat
  | 0, _ => fun m => (.running, m)
  | rounds + 1, lastReturnCode => do
    let now ← monotonic sys
    if now < deadline then do
      unlinkIfPresent sys path
      let connector ← start sys o command
      waitForPath sys fuel path connector
      sleep 500
      match ← poll sys connector with
      | none => pure connector
      | some code => do
        unlinkIfPresent sys path
        sleep 1000
        connectorRounds command path timeoutSeconds deadline rounds (some code)
    else raise (.unreachable timeoutSeconds lastReturnCode)

def startConnectorWithRetry (command : Command) (path : Text) (timeoutSeconds : Int) : Run Nat := do
  let now ← monotonic sys
  connectorRounds sys o fuel command path timeoutSeconds (now + timeoutSeconds * 1000) fuel none

def transportService (slot : Int) : Text := "transport-".toList ++ decimal slot

def transportName (kind : String) (slot peer : Int) : Text :=
  kind.toList ++ decimal slot ++ "-".toList ++ decimal peer

def localChannels : List Channel :=
  o.topology.channels.filter fun c => o.slot = c.listenerSlot ∨ o.slot = c.connectorSlot

def listenerGateway (c : Channel) : GatewayProcess :=
  ⟨c, c.connectorSlot, o.gatewayBasePort + c.connectorSlot, false⟩

def connectorGateway (c : Channel) : GatewayProcess :=
  ⟨c, c.listenerSlot, o.gatewayBasePort + c.listenerSlot, true⟩

/-- A gateway is started, kept as a child, and its ready file is watched. -/
def startGateway (g : GatewayProcess) : Run Nat := do
  let gateway ← start sys o (.gateway g)
  change fun m => m.addChild gateway
  change fun m => m.addReady (readyPath g.peer) gateway
  pure gateway

def keepTransport (kind : String) (peer : Int) (net : Nat) : Run Unit := do
  change fun m => m.addChild net
  change fun m => m.addTransport (transportName kind o.slot peer) net

def startListener (c : Channel) : Run Unit :=
  if o.slot ≠ c.listenerSlot then pure ()
  else do
    let peer := c.connectorSlot
    let gateway ← startGateway sys o (listenerGateway o c)
    waitForPath sys fuel (socketPath peer) gateway
    let net ← start sys o (.listener peer c.tcpPort)
    keepTransport o "listener-" peer net

def startConnector (c : Channel) : Run Unit :=
  if o.slot ≠ c.connectorSlot then pure ()
  else do
    let peer := c.listenerSlot
    let peerIp ← resolveTransportService sys fuel (transportService peer)
    let net ← startConnectorWithRetry sys o fuel (.connector peer peerIp c.tcpPort)
      (socketPath peer) o.connectorTimeoutSeconds
    keepTransport o "connector-" peer net
    let _ ← startGateway sys o (connectorGateway o c)

def startKept (command : Command) : Run Nat := do
  let process ← start sys o command
  change fun m => m.addChild process
  pure process

/-- The worker is polled before its transports in every round, and its code ends the supervisor. -/
def superviseWorker (worker : Nat) : Run Unit := do
  let processes ← read (·.transportProcesses)
  repeatUntil (do
    match ← poll sys worker with
    | some code => raise (.exit code)
    | none => do
      watch sys .exitedWhileRunning processes
      sleep 200
      pure none) fuel

/-- `time.sleep(arguments.slot * 2)` -/
def stagger : Run Unit := if o.slot < 0 then raise .negativeSleep else sleep (o.slot * 2000)

def body : Run Unit := do
  each (startListener sys o fuel) (localChannels o)
  stagger o
  each (startConnector sys o fuel) (localChannels o)
  waitForReady sys fuel o.readyTimeoutSeconds
  waitForStable sys fuel o.stabilityTimeoutSeconds
  let _ ← startKept sys o .router
  let worker ← startKept sys o .worker
  superviseWorker sys fuel worker

def terminateIfRunning (child : Nat) : Run Unit := do
  match ← poll sys child with
  | some _ => pure ()
  | none => change fun m => m.record (.terminated child)

def waitOrKill (child : Nat) : Run Unit := do
  if ← ask (fun history => sys.exitsInTime history child) (.waited child) then pure ()
  else change fun m => m.record (.killed child)

def stopChildren : Run Unit := do
  let children ← read (·.children)
  each (terminateIfRunning sys) children.reverse
  each (waitOrKill sys) children.reverse

def main : Run Unit :=
  if o.readyTimeoutSeconds < 1 then raise (.notPositive "LEGOSIM_BASEIF_READY_TIMEOUT_SECONDS")
  else if o.connectorTimeoutSeconds < 1 then
    raise (.notPositive "LEGOSIM_BASEIF_CONNECT_TIMEOUT_SECONDS")
  else if o.stabilityTimeoutSeconds < 1 then
    raise (.notPositive "LEGOSIM_BASEIF_STABILITY_TIMEOUT_SECONDS")
  else finally_ (body sys o fuel) (stopChildren sys)

end Code

end Supervisor

end ChipSystemSim
