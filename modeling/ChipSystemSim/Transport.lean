import ChipSystemSim.PipeFrame
import Mathlib.Logic.Function.Basic

/-! The PipeComm transport as one transition system: the coroutines of every
router, the client threads of every gateway, the gateway loops, and the BaseIf
rings between them. A step runs one of them up to its next suspension point,
and a scheduler picks the steps. -/

namespace ChipSystemSim

inductive Request where
  | write (path : Text) (payload : Bytes)
  | read (path : Text) (bytes : Nat)
  deriving DecidableEq, Repr

def Request.op : Request → Op
  | write _ _ => .W
  | read _ _ => .R

def Request.name : Request → Text
  | write path _ => lastComponent path
  | read path _ => lastComponent path

def Request.byteCount : Request → Nat
  | write _ payload => payload.length
  | read _ bytes => bytes

inductive TransportError where
  | router (error : RouterError)
  | invalidRequest
  | transport
  | gatewayClosed
  deriving DecidableEq, Repr

def TransportError.message : TransportError → String
  | router error => "ERR " ++ error.message
  | invalidRequest => "ERR invalid request"
  | transport => "ERR transport"
  | gatewayClosed => "ERR gateway closed connection"

inductive Reply where
  | ok
  | okData (payload : Bytes)
  | err (error : TransportError)
  deriving DecidableEq, Repr

/-- Where the request of one client connection stands. The flag of a waiting
reader says that it was notified and has not run since. -/
inductive Phase where
  | connected
  | localWait (notified : Bool)
  | forwarded (peer : Slot)
  | gatewayWrite (peer : Slot) (done : Bool)
  | gatewayRead (peer : Slot) (notified : Bool)
  | gatewayReplied (reply : Reply)
  | replied (reply : Reply)
  deriving DecidableEq, Repr

structure Conn where
  slot : Slot
  request : Request
  phase : Phase
  closed : Bool
  deriving DecidableEq, Repr

/-- A `PendingWrite`, with the client connection that waits for it. -/
structure Pending (ι : Type) where
  owner : ι
  name : Text
  payload : Bytes
  deriving DecidableEq, Repr

/-- The single loop thread of a gateway. `picked` and `sent` are the two
unlocked stretches of `ForwardOneWrite`, `notifying` the one of `ReceiveAll`. -/
inductive Loop (ι : Type) where
  | idle
  | picked (pending : Pending ι)
  | sent (pending : Pending ι)
  | notifying
  deriving DecidableEq, Repr

/-- The gateway of one slot for one peer. The ring holds the frames it sent
that the peer has not polled. -/
structure Gateway (ι : Type) where
  outgoing : List (Pending ι)
  incoming : Text → List Bytes
  ring : List (Text × Bytes)
  loop : Loop ι
  stopping : Bool

structure State (ι : Type) where
  conn : ι → Option Conn
  localPipes : Slot → Text → List Bytes
  gateway : Slot → Slot → Gateway ι

def State.init {ι : Type} : State ι :=
  { conn := fun _ => none
    localPipes := fun _ _ => []
    gateway := fun _ _ => ⟨[], fun _ => [], [], .idle, false⟩ }

structure Config where
  routing : Routing
  linked : Slot → Slot → Bool

inductive Action (ι : Type) where
  | connect (i : ι) (slot : Slot) (request : Request)
  | handle (i : ι)
  | wakeLocal (i : ι)
  | accept (i : ι)
  | wakeRead (i : ι)
  | wakeWrite (i : ι)
  | relay (i : ι)
  | close (i : ι)
  | pick (slot peer : Slot)
  | allocFail (slot peer : Slot)
  | send (slot peer : Slot)
  | finish (slot peer : Slot)
  | receive (slot peer : Slot)
  | notify (slot peer : Slot)
  | terminate (slot peer : Slot)
  deriving DecidableEq, Repr

/-- A payload enters the first queue of its pipe, or leaves the last one. -/
inductive Event (ι : Type) where
  | enqueue (i : ι) (name : Text) (payload : Bytes)
  | dequeue (i : ι) (name : Text) (payload : Bytes)
  deriving DecidableEq, Repr

variable {ι : Type}

def State.setLocal (s : State ι) (slot : Slot) (name : Text) (queue : List Bytes) : State ι :=
  { s with localPipes :=
      Function.update s.localPipes slot (Function.update (s.localPipes slot) name queue) }

def State.setGateway (s : State ι) (slot peer : Slot) (g : Gateway ι) : State ι :=
  { s with gateway := Function.update s.gateway slot (Function.update (s.gateway slot) peer g) }

def Conn.notifyLocal (slot : Slot) (c : Conn) : Conn :=
  match c.phase with
  | .localWait _ => if c.slot = slot then { c with phase := .localWait true } else c
  | _ => c

def Conn.notifyGateway (slot peer : Slot) (c : Conn) : Conn :=
  match c.phase with
  | .gatewayRead p _ =>
    if c.slot = slot ∧ p = peer then { c with phase := .gatewayRead p true } else c
  | _ => c

/-- `local_ready.notify_all()`: the condition is shared by all pipes of a router. -/
def State.notifyLocal (s : State ι) (slot : Slot) : State ι :=
  { s with conn := fun j => (s.conn j).map (Conn.notifyLocal slot) }

def State.notifyGateway (s : State ι) (slot peer : Slot) : State ι :=
  { s with conn := fun j => (s.conn j).map (Conn.notifyGateway slot peer) }

@[simp] theorem State.setLocal_conn (s : State ι) (slot : Slot) (name : Text) (queue : List Bytes) :
    (s.setLocal slot name queue).conn = s.conn := rfl

@[simp] theorem State.setLocal_gateway (s : State ι) (slot : Slot) (name : Text)
    (queue : List Bytes) :
    (s.setLocal slot name queue).gateway = s.gateway := rfl

theorem State.setLocal_localPipes (s : State ι) (slot slot' : Slot) (name name' : Text)
    (queue : List Bytes) :
    (s.setLocal slot name queue).localPipes slot' name' =
      if slot' = slot ∧ name' = name then queue else s.localPipes slot' name' := by
  by_cases hs : slot' = slot
  · subst hs
    by_cases hn : name' = name <;> simp [State.setLocal, hn]
  · simp [State.setLocal, hs]

@[simp] theorem State.setGateway_conn (s : State ι) (slot peer : Slot) (g : Gateway ι) :
    (s.setGateway slot peer g).conn = s.conn := rfl

@[simp] theorem State.setGateway_localPipes (s : State ι) (slot peer : Slot) (g : Gateway ι) :
    (s.setGateway slot peer g).localPipes = s.localPipes := rfl

@[simp] theorem State.setGateway_gateway_self (s : State ι) (slot peer : Slot) (g : Gateway ι) :
    (s.setGateway slot peer g).gateway slot peer = g := by
  simp [State.setGateway]

theorem State.setGateway_gateway_of_ne (s : State ι) {slot peer a b : Slot} (g : Gateway ι)
    (h : ¬(a = slot ∧ b = peer)) : (s.setGateway slot peer g).gateway a b = s.gateway a b := by
  by_cases hs : a = slot
  · subst hs
    have hb : b ≠ peer := fun hb => h ⟨rfl, hb⟩
    simp [State.setGateway, Function.update_of_ne hb]
  · simp [State.setGateway, Function.update_of_ne hs]

theorem State.setGateway_elim {P : Slot → Slot → Gateway ι → Prop} {s : State ι}
    {slot peer x y : Slot} {g : Gateway ι} (h : P x y (s.gateway x y)) (hg : P slot peer g) :
    P x y ((s.setGateway slot peer g).gateway x y) := by
  by_cases hxy : x = slot ∧ y = peer
  · obtain ⟨rfl, rfl⟩ := hxy
    simpa using hg
  · simpa only [State.setGateway_gateway_of_ne s g hxy] using h

@[simp] theorem State.notifyLocal_localPipes (s : State ι) (slot : Slot) :
    (s.notifyLocal slot).localPipes = s.localPipes := rfl

@[simp] theorem State.notifyLocal_gateway (s : State ι) (slot : Slot) :
    (s.notifyLocal slot).gateway = s.gateway := rfl

@[simp] theorem State.notifyGateway_localPipes (s : State ι) (slot peer : Slot) :
    (s.notifyGateway slot peer).localPipes = s.localPipes := rfl

@[simp] theorem State.notifyGateway_gateway (s : State ι) (slot peer : Slot) :
    (s.notifyGateway slot peer).gateway = s.gateway := rfl

variable [DecidableEq ι]

def State.setPhase (s : State ι) (i : ι) (c : Conn) (phase : Phase) : State ι :=
  { s with conn := Function.update s.conn i (some { c with phase := phase }) }

@[simp] theorem State.setPhase_conn_self (s : State ι) (i : ι) (c : Conn) (phase : Phase) :
    (s.setPhase i c phase).conn i = some { c with phase := phase } := Function.update_self ..

theorem State.setPhase_conn_of_ne (s : State ι) {i j : ι} (c : Conn) (phase : Phase) (h : j ≠ i) :
    (s.setPhase i c phase).conn j = s.conn j := Function.update_of_ne h ..

@[simp] theorem State.setPhase_localPipes (s : State ι) (i : ι) (c : Conn) (phase : Phase) :
    (s.setPhase i c phase).localPipes = s.localPipes := rfl

@[simp] theorem State.setPhase_gateway (s : State ι) (i : ι) (c : Conn) (phase : Phase) :
    (s.setPhase i c phase).gateway = s.gateway := rfl

/-- One evaluation of the predicate of `handle_local`, and the pop if it holds. -/
def tryLocalRead (s : State ι) (i : ι) (c : Conn) (bytes : Nat) : State ι × Option (Event ι) :=
  match s.localPipes c.slot c.request.name with
  | data :: rest =>
    if data.length = bytes then
      ((s.setLocal c.slot c.request.name rest).setPhase i c (.replied (.okData data)),
        some (.dequeue i c.request.name data))
    else (s.setPhase i c (.localWait false), none)
  | [] => (s.setPhase i c (.localWait false), none)

/-- `Router.handle_local` up to its first suspension. -/
def handleLocal (s : State ι) (i : ι) (c : Conn) : State ι × Option (Event ι) :=
  match c.request with
  | .write _ payload =>
    (((s.setLocal c.slot c.request.name
        (s.localPipes c.slot c.request.name ++ [payload])).notifyLocal c.slot).setPhase i c
          (.replied .ok),
      some (.enqueue i c.request.name payload))
  | .read _ bytes => tryLocalRead s i c bytes

/-- `Router.handle` after the request is complete: validation, placement, and
the choice between the local queue and a gateway. -/
def handleRequest (cfg : Config) (s : State ι) (i : ι) (c : Conn) : State ι × Option (Event ι) :=
  let router := Router.init c.slot cfg.routing
  if maxRequestBytes < c.request.byteCount then
    (s.setPhase i c (.replied (.err (.router .invalidByteCount))), none)
  else
    match router.peerFor c.request.op c.request.name with
    | .error e => (s.setPhase i c (.replied (.err (.router e))), none)
    | .ok peer =>
      if peer = c.slot then handleLocal s i c
      else
        match router.gatewayPorts.lookup peer with
        | none => (s.setPhase i c (.replied (.err (.router (.noGateway peer)))), none)
        | some port =>
          if cfg.linked c.slot peer then (s.setPhase i c (.forwarded peer), none)
          else (s.setPhase i c
            (.replied (.err (.router (.gatewayUnavailable (connectFailed port))))), none)

/-- One evaluation of the read predicate of `HandleClient`, and what follows it. -/
def tryGatewayRead (s : State ι) (i : ι) (c : Conn) (peer : Slot) (bytes : Nat) :
    State ι × Option (Event ι) :=
  let g := s.gateway c.slot peer
  if g.stopping then (s.setPhase i c (.gatewayReplied (.err .gatewayClosed)), none)
  else
    match g.incoming c.request.name with
    | data :: rest =>
      if data.length = bytes then
        ((s.setGateway c.slot peer
            { g with incoming := Function.update g.incoming c.request.name rest }).setPhase i c
              (.gatewayReplied (.okData data)),
          some (.dequeue i c.request.name data))
      else (s.setPhase i c (.gatewayRead peer false), none)
    | [] => (s.setPhase i c (.gatewayRead peer false), none)

def gatewayLineLimit : Nat := 512

def FrameOk (name : Text) (payload : Bytes) : Prop :=
  name ≠ [] ∧ name.length ≤ 255 ∧ payload.length ≤ maxPayloadBytes

instance (name : Text) (payload : Bytes) : Decidable (FrameOk name payload) :=
  inferInstanceAs (Decidable (_ ∧ _ ∧ _))

/-- `Gateway::HandleClient` up to its first wait. -/
def acceptRequest (s : State ι) (i : ι) (c : Conn) (peer : Slot) : State ι × Option (Event ι) :=
  let g := s.gateway c.slot peer
  if gatewayLineLimit ≤ (requestLine c.request.op c.request.name c.request.byteCount).length then
    (s.setPhase i c (.gatewayReplied (.err .gatewayClosed)), none)
  else
    match c.request with
    | .write _ payload =>
      if FrameOk c.request.name payload then
        ((s.setGateway c.slot peer
            { g with outgoing := g.outgoing ++ [⟨i, c.request.name, payload⟩] }).setPhase i c
              (if g.stopping then .gatewayReplied (.err .transport) else .gatewayWrite peer false),
          some (.enqueue i c.request.name payload))
      else (s.setPhase i c (.gatewayReplied (.err .invalidRequest)), none)
    | .read _ bytes =>
      if c.request.name ≠ [] ∧ c.request.name.length ≤ 255 ∧ bytes ≤ maxPayloadBytes then
        tryGatewayRead s i c peer bytes
      else (s.setPhase i c (.gatewayReplied (.err .invalidRequest)), none)

def Conn.complete (c : Conn) : Conn :=
  match c.phase with
  | .gatewayWrite peer _ => { c with phase := .gatewayWrite peer true }
  | _ => c

/-- The end of `ForwardOneWrite`: pop the front and complete its writer. -/
def finishWrite (s : State ι) (slot peer : Slot) (p : Pending ι) : State ι :=
  let g := s.gateway slot peer
  let s := s.setGateway slot peer
    { g with
      outgoing := if g.outgoing.head? = some p then g.outgoing.tail else g.outgoing
      loop := .idle }
  { s with conn := Function.update s.conn p.owner ((s.conn p.owner).map Conn.complete) }

def step (cfg : Config) (s : State ι) : Action ι → Option (State ι × Option (Event ι))
  | .connect i slot request =>
    if (s.conn i).isNone then
      some ({ s with conn := Function.update s.conn i (some ⟨slot, request, .connected, false⟩) },
        none)
    else none
  | .handle i => do
    let c ← s.conn i
    match c.phase with
    | .connected => some (handleRequest cfg s i c)
    | _ => none
  | .wakeLocal i => do
    let c ← s.conn i
    match c.phase with
    | .localWait true => some (tryLocalRead s i c c.request.byteCount)
    | _ => none
  | .accept i => do
    let c ← s.conn i
    match c.phase with
    | .forwarded peer => some (acceptRequest s i c peer)
    | _ => none
  -- a condition variable may also wake spuriously
  | .wakeRead i => do
    let c ← s.conn i
    match c.phase with
    | .gatewayRead peer _ => some (tryGatewayRead s i c peer c.request.byteCount)
    | _ => none
  | .wakeWrite i => do
    let c ← s.conn i
    match c.phase with
    | .gatewayWrite _ true => some (s.setPhase i c (.gatewayReplied .ok), none)
    | .gatewayWrite peer false =>
      if (s.gateway c.slot peer).stopping then
        some (s.setPhase i c (.gatewayReplied (.err .transport)), none)
      else none
    | _ => none
  | .relay i => do
    let c ← s.conn i
    match c.phase with
    | .gatewayReplied reply => some (s.setPhase i c (.replied reply), none)
    | _ => none
  | .close i => do
    let c ← s.conn i
    some ({ s with conn := Function.update s.conn i (some { c with closed := true }) }, none)
  | .pick slot peer =>
    let g := s.gateway slot peer
    match g.loop, g.stopping, g.outgoing with
    | .idle, false, p :: _ => some (s.setGateway slot peer { g with loop := .picked p }, none)
    | _, _, _ => none
  | .allocFail slot peer =>
    let g := s.gateway slot peer
    match g.loop with
    | .picked _ => some (s.setGateway slot peer { g with loop := .idle }, none)
    | _ => none
  | .send slot peer =>
    let g := s.gateway slot peer
    match g.loop with
    | .picked p =>
      some (s.setGateway slot peer
        { g with ring := g.ring ++ [(p.name, p.payload)], loop := .sent p }, none)
    | _ => none
  | .finish slot peer =>
    match (s.gateway slot peer).loop with
    | .sent p => some (finishWrite s slot peer p, none)
    | _ => none
  -- a ring joins two different slots
  | .receive slot peer =>
    let g := s.gateway slot peer
    let sender := s.gateway peer slot
    if slot = peer then none
    else
      match g.loop, g.stopping, sender.ring with
      | .idle, false, (name, payload) :: rest =>
        let s := s.setGateway peer slot { sender with ring := rest }
        if FrameOk name payload then
          some (s.setGateway slot peer
            { g with
              incoming := Function.update g.incoming name (g.incoming name ++ [payload])
              loop := .notifying }, none)
        else some (s, none)
      | _, _, _ => none
  | .notify slot peer =>
    let g := s.gateway slot peer
    match g.loop with
    | .notifying =>
      some ((s.setGateway slot peer { g with loop := .idle }).notifyGateway slot peer, none)
    | _ => none
  | .terminate slot peer =>
    let g := s.gateway slot peer
    match g.loop with
    | .idle => some (s.setGateway slot peer { g with stopping := true }, none)
    | _ => none

inductive Run (cfg : Config) (allowed : State ι → Action ι → Prop) : State ι → List (Event ι) → Prop
  | init : Run cfg allowed State.init []
  | step {s s' : State ι} {log : List (Event ι)} {a : Action ι} {e : Option (Event ι)} :
      Run cfg allowed s log → allowed s a → step cfg s a = some (s', e) →
      Run cfg allowed s' (log ++ e.toList)

def exec (cfg : Config) : List (Action ι) → State ι → List (Event ι) →
    Option (State ι × List (Event ι))
  | [], s, log => some (s, log)
  | a :: rest, s, log =>
    match step cfg s a with
    | none => none
    | some (s', e) => exec cfg rest s' (log ++ e.toList)

theorem Run.exec {cfg : Config} {allowed : State ι → Action ι → Prop} {actions : List (Action ι)}
    {s s' : State ι} {log log' : List (Event ι)} (hr : Run cfg allowed s log)
    (ha : ∀ a ∈ actions, ∀ s, allowed s a)
    (he : ChipSystemSim.exec cfg actions s log = some (s', log')) : Run cfg allowed s' log' := by
  induction actions generalizing s log with
  | nil =>
    cases he
    exact hr
  | cons a rest ih =>
    simp only [ChipSystemSim.exec] at he
    split at he
    · cases he
    · rename_i s₁ e hs
      refine ih (.step hr (ha a (by simp) s) hs) ?_ he
      exact fun b hb => ha b (List.mem_cons_of_mem a hb)

theorem exec_reaches (cfg : Config) (actions : List (Action ι)) (p : State ι → Bool)
    (h : (exec cfg actions State.init []).map (fun r => p r.1) = some true) :
    ∃ s log, Run cfg (fun _ _ => True) s log ∧ p s = true := by
  obtain ⟨⟨s, log⟩, he, hp⟩ := Option.map_eq_some_iff.mp h
  exact ⟨s, log, Run.init.exec (fun _ _ _ => trivial) he, hp⟩

def oneSlot : Config := ⟨⟨[(coordKey (0, 0), 0), (coordKey (1, 0), 0)], [], none⟩, fun _ _ => false⟩

def twoSlots : Config := ⟨⟨[(coordKey (0, 0), 0), (coordKey (1, 0), 1)], [], none⟩, fun _ _ => true⟩

/-- A pipe between the two chiplets, and one that begins and ends at the first. -/
def crossPipe : Text := pipeName (0, 0) (1, 0)

def innerPipe : Text := pipeName (0, 0) (0, 0)

def ones : Bytes := List.replicate 4 1

def twos : Bytes := List.replicate 8 2

def threes : Bytes := List.replicate 4 3

end ChipSystemSim
