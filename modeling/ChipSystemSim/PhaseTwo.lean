import ChipSystemSim.Collect
import Mathlib.Algebra.Group.Int.Defs
import Mathlib.Data.Nat.Sqrt

/-! The ns-3 adapter of Phase 2: bench records in, `delayInfo` lines out. The
callbacks of `PhaseTwoSimulator` are functions of the simulated time and of the
trace they are about; ns-3 itself is a source of events. -/

namespace ChipSystemSim

structure BenchRecord where
  sourceCycle : Nat
  destinationCycle : Nat
  source : Nat
  destination : Nat
  flits : Nat
  descriptor : Int

structure DirectionState where
  source : Nat := 0
  destination : Nat := 0
  fragments : Nat := 0
  transmitted : Finset Nat := ∅
  received : Finset Nat := ∅
  transmitFinishNs : Int := -1
  arrivalNs : Int := -1

structure TraceState where
  bench : BenchRecord
  modelDestination : Nat
  special : Bool
  forward : DirectionState
  acknowledgement : DirectionState
  acknowledgementScheduled : Bool := false

/-- The members of `PhaseTwoSimulator` that its functions read. -/
structure PhaseTwoConfig where
  bench : List BenchRecord
  cycleNs : Nat
  flitBytes : Nat
  maxDatagramBytes : Nat
  linkRate : String := "128Gbps"
  linkDelayNs : Nat := 1
  workerSlots : Nat → Option Nat
  localizeCrossWorkerNetwork : Bool

def asUInt64 (n : Nat) : Nat := n % 2 ^ 64

def asInt64 (n : Nat) : Int := (n : Int).bmod (2 ^ 64)

def ceilDivide (numerator denominator : Nat) : Nat :=
  asUInt64 (numerator + denominator - 1) / denominator

def ceilNanosecondsToCycles (nanoseconds : Int) (cycleNs : Nat) : Nat :=
  if nanoseconds ≤ 0 then 0 else ceilDivide nanoseconds.toNat cycleNs

def descriptorBits (descriptor : Int) (mask : Nat) : Nat := (descriptor % 2 ^ 64).toNat &&& mask

def isSpecial (descriptor : Int) : Bool := descriptorBits descriptor 0xF0000 != 0

/-- Barrier, lock and unlock traffic goes to the coordination node. -/
def routingDestination (record : BenchRecord) : Nat :=
  if descriptorBits record.descriptor (0x20000 ||| 0x40000 ||| 0x80000) != 0 then 0
  else record.destination

namespace PhaseTwoConfig

variable (cfg : PhaseTwoConfig)

def record (trace : Nat) : BenchRecord := cfg.bench.getD trace ⟨0, 0, 0, 0, 0, 0⟩

def startNs (record : BenchRecord) : Nat := asUInt64 (record.sourceCycle * cfg.cycleNs)

def destinationNs (record : BenchRecord) : Int := asInt64 (record.destinationCycle * cfg.cycleNs)

def fragmentCount (bytes : Nat) : Nat := max 1 (ceilDivide bytes cfg.maxDatagramBytes) % 2 ^ 32

def fragmentBytes (bytes fragment : Nat) : Nat :=
  let offset := asUInt64 (fragment * cfg.maxDatagramBytes)
  min cfg.maxDatagramBytes (asUInt64 (bytes + 2 ^ 64 - offset))

def traceState (record : BenchRecord) : TraceState where
  bench := record
  modelDestination := routingDestination record
  special := isSpecial record.descriptor
  forward := {
    source := record.source
    destination := routingDestination record
    fragments := cfg.fragmentCount (asUInt64 (record.flits * cfg.flitBytes)) }
  acknowledgement :=
    if isSpecial record.descriptor then {
      source := routingDestination record
      destination := record.source
      fragments := cfg.fragmentCount cfg.flitBytes }
    else {}

end PhaseTwoConfig

def TraceState.direction (st : TraceState) (acknowledgement : Bool) : DirectionState :=
  if acknowledgement then st.acknowledgement else st.forward

def TraceState.setDirection (st : TraceState) (acknowledgement : Bool) (d : DirectionState) :
    TraceState :=
  if acknowledgement then { st with acknowledgement := d } else { st with forward := d }

/-- What ns-3 knows of one trace: the calls of `SendDirection` that are due, the
packets it was given, and when each fragment left its source and reached its
destination. The times of past calls are recorded for the proofs only. -/
structure Ns3Trace where
  scheduled : Bool → List Nat
  sentAt : Bool → List Nat := fun _ => []
  packets : Bool → List (Nat × Nat) := fun _ => []
  left : Bool → Nat → Option Nat := fun _ _ => none
  reached : Bool → Nat → Option Nat := fun _ _ => none

def scheduleAcknowledgement (cfg : PhaseTwoConfig) (now : Nat) (st : TraceState) (net : Ns3Trace) :
    TraceState × Ns3Trace :=
  if st.acknowledgementScheduled then (st, net)
  else
    let targetNs := max st.forward.arrivalNs (cfg.destinationNs st.bench)
    let due := now + (max 0 (targetNs - now)).toNat
    ({ st with acknowledgementScheduled := true },
      { net with scheduled := Function.update net.scheduled true (due :: net.scheduled true) })

def acknowledgeArrival (cfg : PhaseTwoConfig) (now : Nat) (acknowledgement : Bool) (st : TraceState)
    (net : Ns3Trace) : TraceState × Ns3Trace :=
  if !acknowledgement && st.special then scheduleAcknowledgement cfg now st net else (st, net)

def DirectionState.completeAt (d : DirectionState) (time : Int) : DirectionState :=
  { d with transmitFinishNs := time, arrivalNs := time }

def sendDirection (cfg : PhaseTwoConfig) (now : Nat) (acknowledgement : Bool) (st : TraceState)
    (net : Ns3Trace) : TraceState × Ns3Trace :=
  let d := st.direction acknowledgement
  let bytes := if acknowledgement then cfg.flitBytes else asUInt64 (st.bench.flits * cfg.flitBytes)
  if d.source = d.destination then
    acknowledgeArrival cfg now acknowledgement
      (st.setDirection acknowledgement (d.completeAt (now + cfg.cycleNs))) net
  else
    let packets := (List.range d.fragments).map fun fragment =>
      (fragment, cfg.fragmentBytes bytes fragment % 2 ^ 32)
    (st, { net with packets := Function.update net.packets acknowledgement packets })

def onTransmitEnd (now node : Nat) (acknowledgement : Bool) (fragment : Nat) (st : TraceState) :
    TraceState :=
  let d := st.direction acknowledgement
  if node ≠ d.source ∨ 0 ≤ d.transmitFinishNs then st
  else
    let transmitted := insert fragment d.transmitted
    st.setDirection acknowledgement { d with
      transmitted
      transmitFinishNs := if transmitted.card = d.fragments then now else d.transmitFinishNs }

def onReceive (cfg : PhaseTwoConfig) (now node : Nat) (acknowledgement : Bool) (fragment : Nat)
    (st : TraceState) (net : Ns3Trace) : TraceState × Ns3Trace :=
  let d := st.direction acknowledgement
  if node ≠ d.destination ∨ 0 ≤ d.arrivalNs then (st, net)
  else
    let received := insert fragment d.received
    if received.card ≠ d.fragments then (st.setDirection acknowledgement { d with received }, net)
    else
      acknowledgeArrival cfg now acknowledgement
        (st.setDirection acknowledgement { d with received, arrivalNs := now }) net

structure PhaseTwo where
  now : Nat
  states : Nat → TraceState
  net : Nat → Ns3Trace

inductive Ns3Event where
  | advance (time : Nat)
  | send (trace : Nat) (acknowledgement refused : Bool)
  | transmitEnd (node trace : Nat) (acknowledgement : Bool) (fragment : Nat)
  | receive (node trace : Nat) (acknowledgement : Bool) (fragment : Nat)

namespace PhaseTwo

variable (cfg : PhaseTwoConfig)

def start : PhaseTwo where
  now := 0
  states := fun trace => cfg.traceState (cfg.record trace)
  net := fun trace =>
    { scheduled := fun acknowledgement =>
        if acknowledgement || cfg.bench.length ≤ trace then []
        else [cfg.startNs (cfg.record trace)] }

def set (s : PhaseTwo) (trace : Nat) (r : TraceState × Ns3Trace) : PhaseTwo where
  now := s.now
  states := Function.update s.states trace r.1
  net := Function.update s.net trace r.2

def called (now : Nat) (acknowledgement : Bool) (net : Ns3Trace) : Ns3Trace :=
  { net with
    scheduled := Function.update net.scheduled acknowledgement
      ((net.scheduled acknowledgement).erase now)
    sentAt := Function.update net.sentAt acknowledgement (net.sentAt acknowledgement ++ [now]) }

def apply (s : PhaseTwo) : Ns3Event → Except String PhaseTwo
  | .advance time => .ok { s with now := time }
  | .send trace acknowledgement refused =>
    let d := (s.states trace).direction acknowledgement
    if d.source ≠ d.destination ∧ 0 < d.fragments ∧ refused then
      .error ("ns-3 UDP enqueue failed for trace " ++ toString trace)
    else
      .ok (s.set trace (sendDirection cfg s.now acknowledgement (s.states trace)
        (called s.now acknowledgement (s.net trace))))
  | .transmitEnd node trace acknowledgement fragment =>
    let st := s.states trace
    let net := s.net trace
    let left := if node = (st.direction acknowledgement).source
      then Collect.mark (net.left acknowledgement) s.now fragment else net.left acknowledgement
    .ok (s.set trace (onTransmitEnd s.now node acknowledgement fragment st,
      { net with left := Function.update net.left acknowledgement left }))
  | .receive node trace acknowledgement fragment =>
    let st := s.states trace
    let net := s.net trace
    let reached := if node = (st.direction acknowledgement).destination
      then Collect.mark (net.reached acknowledgement) s.now fragment
        else net.reached acknowledgement
    .ok (s.set trace (onReceive cfg s.now node acknowledgement fragment st
      { net with reached := Function.update net.reached acknowledgement reached }))

/-- What is assumed of ns-3: time does not decrease, a call happens when it is
due, and a fragment leaves after it was sent and is received at most once, after
it left. Times are signed 64-bit integers. -/
def Allowed (s : PhaseTwo) : Ns3Event → Prop
  | .advance time => s.now ≤ time ∧ time < 2 ^ 63
  | .send trace acknowledgement _ =>
    trace < cfg.bench.length ∧ s.now ∈ (s.net trace).scheduled acknowledgement ∧
      (((s.states trace).direction acknowledgement).source =
        ((s.states trace).direction acknowledgement).destination → s.now + cfg.cycleNs < 2 ^ 63)
  | .transmitEnd node trace acknowledgement fragment =>
    trace < cfg.bench.length ∧ fragment ∈ ((s.net trace).packets acknowledgement).map Prod.fst ∧
      (node = ((s.states trace).direction acknowledgement).source →
        ∀ u ∈ (s.net trace).sentAt acknowledgement, u < s.now)
  | .receive _ trace acknowledgement fragment =>
    trace < cfg.bench.length ∧ (s.net trace).reached acknowledgement fragment = none ∧
      ∃ v < s.now, (s.net trace).left acknowledgement fragment = some v

instance (s : PhaseTwo) (e : Ns3Event) : Decidable (Allowed cfg s e) :=
  match e with
  | .advance _ => inferInstanceAs (Decidable (_ ∧ _))
  | .send .. => inferInstanceAs (Decidable (_ ∧ _ ∧ (_ → _)))
  | .transmitEnd .. => inferInstanceAs (Decidable (_ ∧ _ ∧ (_ → _)))
  | .receive .. => inferInstanceAs (Decidable (_ ∧ _ ∧ ∃ v < _, _))

inductive Step (s : PhaseTwo) : PhaseTwo → Prop
  | mk {e : Ns3Event} {t : PhaseTwo} (hallowed : Allowed cfg s e) (h : apply cfg s e = .ok t) :
      Step s t

abbrev Steps := Relation.ReflTransGen (Step cfg)

def exec (s : PhaseTwo) : List Ns3Event → Option PhaseTwo
  | [] => some s
  | e :: events =>
    if Allowed cfg s e then
      match apply cfg s e with
      | .ok t => exec t events
      | .error _ => none
    else none

theorem exec_steps {events : List Ns3Event} {s t : PhaseTwo} (h : exec cfg s events = some t) :
    Steps cfg s t := by
  induction events generalizing s with
  | nil =>
    cases h
    exact .refl
  | cons e events ih =>
    simp only [exec] at h
    split at h
    · rename_i hallowed
      split at h
      · rename_i u hu
        exact .head ⟨hallowed, hu⟩ (ih h)
      · cases h
    · cases h

def runResult (s : PhaseTwo) : Except String Unit :=
  (List.range cfg.bench.length).forM fun trace =>
    let st := s.states trace
    if st.forward.transmitFinishNs < 0 ∨ st.forward.arrivalNs < 0 then
      .error ("ns-3 did not complete forward transaction " ++ toString trace)
    else if st.special ∧ (st.acknowledgement.transmitFinishNs < 0 ∨
      st.acknowledgement.arrivalNs < 0) then
      .error ("ns-3 did not complete acknowledgement " ++ toString trace)
    else .ok ()

end PhaseTwo

def isLocalizedCrossWorker (cfg : PhaseTwoConfig) (st : TraceState) : Except String Bool :=
  if cfg.localizeCrossWorkerNetwork then
    match cfg.workerSlots st.bench.source, cfg.workerSlots st.bench.destination with
    | some source, some destination => .ok (source != destination)
    | _, _ => .error "worker routing has no slot for a benchmark communication endpoint"
  else .ok false

/-- A line of `delayInfo`: the key of the record, the number of delays, and the
delays. -/
structure DelayLine where
  sourceCycle : Nat
  source : Nat
  destination : Nat
  descriptor : Int
  count : Nat
  delays : List Nat

def DelayLine.columns (l : DelayLine) : List Int :=
  [(l.sourceCycle : Int), l.source, l.destination, l.descriptor, l.count] ++ l.delays.map Int.ofNat

def directionDelays (cfg : PhaseTwoConfig) (startNs : Int) (d : DirectionState) : List Nat :=
  [ceilNanosecondsToCycles (d.transmitFinishNs - startNs) cfg.cycleNs,
    ceilNanosecondsToCycles (d.arrivalNs - startNs) cfg.cycleNs]

def acknowledgementStartNs (cfg : PhaseTwoConfig) (st : TraceState) : Int :=
  max st.forward.arrivalNs (cfg.destinationNs st.bench)

def networkDelays (cfg : PhaseTwoConfig) (st : TraceState) : List Nat :=
  let forward := directionDelays cfg (asInt64 (st.bench.sourceCycle * cfg.cycleNs)) st.forward
  if st.special then
    forward ++ directionDelays cfg (acknowledgementStartNs cfg st) st.acknowledgement
  else forward

def delayLine (cfg : PhaseTwoConfig) (st : TraceState) : Except String DelayLine := do
  let localized ← isLocalizedCrossWorker cfg st
  let count := if st.special then 4 else 2
  return {
    sourceCycle := st.bench.sourceCycle
    source := st.bench.source
    destination := st.bench.destination
    descriptor := st.bench.descriptor
    count
    delays := if localized then List.replicate count 0 else networkDelays cfg st }

def writeDelayInfo (cfg : PhaseTwoConfig) (s : PhaseTwo) : Except String (List DelayLine) :=
  (List.range cfg.bench.length).mapM fun trace => delayLine cfg (s.states trace)

end ChipSystemSim
