import ChipSystemSim.Router

/-! The generated routing table, the channels of the transport topology, and
the gateways each supervisor starts. The two ends of a pipe compute their
meeting point from different halves of its name. -/

namespace ChipSystemSim

inductive ProcessPhase where
  | phase1
  | phase2
  deriving DecidableEq, Repr

structure PlacedProcess where
  phase : ProcessPhase
  processIndex : Nat
  nodeSlot : Int
  coordinates : Option Coord

structure Placement where
  swarmNodes : Nat
  processes : List PlacedProcess

structure Channel where
  id : Text
  listenerSlot : Int
  connectorSlot : Int
  tcpPort : Int
  deriving DecidableEq, Repr

structure Topology where
  workers : List Int
  channels : List Channel

def workerPairs (nodes : Nat) : List (Nat × Nat) :=
  (List.range nodes).flatMap fun left =>
    ((List.range nodes).filter (left < ·)).map fun right => (left, right)

def channelOf (basePort : Int) : (Nat × Nat) × Nat → Channel
  | ((left, right), index) =>
    { id := ['n', 'o', 'd', 'e'] ++ (decimal left ++ ['-', 'n', 'o', 'd', 'e'] ++ decimal right)
      listenerSlot := left
      connectorSlot := right
      tcpPort := basePort + index }

inductive TopologyError where
  | basePort
  | notEnoughPorts
  deriving DecidableEq, Repr

def TopologyError.message : TopologyError → String
  | basePort => "--base-port must be a valid TCP port"
  | notEnoughPorts => "not enough TCP ports for requested topology"

/-- `generate_simbricks_topology`, with one channel per unordered worker pair. -/
def generateTopology (nodes : Nat) (basePort : Int) : Except TopologyError Topology :=
  if ¬(1 ≤ basePort ∧ basePort ≤ 65535) then .error .basePort
  else if ∃ c ∈ (workerPairs nodes).zipIdx.map (channelOf basePort), 65535 < c.tcpPort then
    .error .notEnoughPorts
  else .ok
    { workers := (List.range nodes).map Int.ofNat
      channels := (workerPairs nodes).zipIdx.map (channelOf basePort) }

inductive RoutingError where
  | workerCount
  | physicalSlots
  | multipleSlots (key : Text)
  deriving DecidableEq, Repr

def RoutingError.message : RoutingError → String
  | workerCount => "placement and topology disagree on worker count"
  | physicalSlots => "--worker-physical-slots must give one non-negative value per logical worker"
  | multipleSlots key =>
    "chiplet coordinate " ++ String.ofList key ++ " was placed on multiple worker slots"

def coordinateToSlot : List PlacedProcess → List (Text × Slot) →
    Except RoutingError (List (Text × Slot))
  | [], table => .ok table
  | process :: rest, table =>
    match process.coordinates with
    | none => coordinateToSlot rest table
    | some c =>
      match table.lookup (coordKey c) with
      | none => coordinateToSlot rest (table ++ [(coordKey c, process.nodeSlot)])
      | some previous =>
        if previous ≠ process.nodeSlot then .error (.multipleSlots (coordKey c))
        else coordinateToSlot rest table

def physicalSlots (nodes : Nat) : Option (List Int) → Except RoutingError (List Int)
  | none => .ok (List.replicate nodes 0)
  | some values =>
    if values.length ≠ nodes ∨ ∃ v ∈ values, v < 0 then .error .physicalSlots else .ok values

def generateRouting (placement : Placement) (topology : Topology) (physical : Option (List Int)) :
    Except RoutingError Routing :=
  if topology.workers.length ≠ placement.swarmNodes then .error .workerCount
  else do
    let slots ← physicalSlots placement.swarmNodes physical
    let table ← coordinateToSlot placement.processes []
    return {
      coordinateToWorkerSlot := table
      workerPhysicalSlots := slots.zipIdx.map fun (value, worker) => ((worker : Int), value)
      gatewayBasePort := some 9500 }

/-- `placements_by_phase[phase][index]`: the last record of that index wins. -/
def placementFor (placement : Placement) (phase : ProcessPhase) (index : Nat) :
    Option PlacedProcess :=
  (placement.processes.filter fun p => p.phase = phase ∧ p.processIndex = index).getLast?

def workerHost (slot : Int) : Text := ['w', 'o', 'r', 'k', 'e', 'r', '-'] ++ decimal slot

/-- The process runs on the worker slot whose host name `wrap_process` gives it. -/
def RunsOn (placement : Placement) (phase : ProcessPhase) (index : Nat) (c : Coord)
    (slot : Int) : Prop :=
  ∃ process, placementFor placement phase index = some process ∧ process.coordinates = some c ∧
    ∃ node < placement.swarmNodes, slot = Int.ofNat node ∧
      workerHost process.nodeSlot = workerHost slot

structure GatewayProcess where
  channel : Channel
  peer : Int
  port : Int
  connect : Bool
  deriving DecidableEq, Repr

def supervisorGateways (slot : Int) (topology : Topology) (gatewayBasePort : Int) :
    List GatewayProcess :=
  ((topology.channels.filter fun c => c.listenerSlot = slot).map fun c =>
    ⟨c, c.connectorSlot, gatewayBasePort + c.connectorSlot, false⟩) ++
  ((topology.channels.filter fun c => c.connectorSlot = slot).map fun c =>
    ⟨c, c.listenerSlot, gatewayBasePort + c.listenerSlot, true⟩)

def defaultGatewayBasePort : Int := 9500

/-- A queue of the transport: a local deque, or one direction of a channel. -/
inductive QueueKey where
  | here (slot : Int) (name : Text)
  | channel (c : Channel) (sender : Int) (name : Text)
  deriving DecidableEq, Repr

def QueueKey.name : QueueKey → Text
  | here _ name => name
  | channel _ _ name => name

/-- The queue a request reaches from the router of `slot`. A gateway sends a
write towards its peer and serves a read from what the peer sent. -/
def addressed (topology : Topology) (routing : Routing) (slot : Int) (op : Op) (name : Text) :
    Option QueueKey :=
  let router := Router.init slot routing
  match router.peerFor op name with
  | .error _ => none
  | .ok peer =>
    if peer = slot then some (.here slot name)
    else do
      let port ← router.gatewayPorts.lookup peer
      let gateway ← (supervisorGateways slot topology defaultGatewayBasePort).find? (·.port = port)
      match op with
      | .W => return .channel gateway.channel slot name
      | .R => return .channel gateway.channel gateway.peer name

def Joins (c : Channel) (a b : Int) : Prop :=
  (c.listenerSlot = a ∧ c.connectorSlot = b) ∨ (c.listenerSlot = b ∧ c.connectorSlot = a)

def OneChannelPerPair (topology : Topology) (nodes : Nat) : Prop :=
  (∀ c ∈ topology.channels, c.listenerSlot ≠ c.connectorSlot) ∧
  ∀ a b : Nat, a < nodes → b < nodes → a ≠ b →
    ∃ c ∈ topology.channels, Joins c a b ∧ ∀ c' ∈ topology.channels, Joins c' a b → c' = c

theorem mem_workerPairs {nodes : Nat} {p : Nat × Nat} :
    p ∈ workerPairs nodes ↔ p.1 < p.2 ∧ p.2 < nodes := by
  obtain ⟨left, right⟩ := p
  simp only [workerPairs, List.mem_flatMap, List.mem_map, List.mem_filter, List.mem_range,
    decide_eq_true_eq, Prod.mk.injEq]
  constructor
  · rintro ⟨l, _, r, ⟨hr, hlt⟩, rfl, rfl⟩
    exact ⟨hlt, hr⟩
  · rintro ⟨hlt, hr⟩
    exact ⟨left, by omega, right, ⟨hr, hlt⟩, rfl, rfl⟩

theorem workerPairs_nodup (nodes : Nat) : (workerPairs nodes).Nodup := by
  refine List.nodup_flatMap.mpr ⟨fun left _ => ?_, ?_⟩
  · exact (List.nodup_range.filter _).map (fun a b h => (Prod.mk.inj h).2)
  · refine List.nodup_range.imp ?_
    intro a b hab
    refine List.disjoint_left.mpr ?_
    intro p hp hq
    obtain ⟨x, _, rfl⟩ := List.mem_map.mp hp
    obtain ⟨y, _, hy⟩ := List.mem_map.mp hq
    exact hab (Prod.mk.inj hy).1.symm

theorem generateTopology_oneChannelPerPair {nodes : Nat} {basePort : Int} {topology : Topology}
    (h : generateTopology nodes basePort = .ok topology) : OneChannelPerPair topology nodes := by
  have hc : topology.channels = (workerPairs nodes).zipIdx.map (channelOf basePort) := by
    unfold generateTopology at h
    split at h
    · cases h
    · split at h
      · cases h
      · rw [← Except.ok.inj h]
  have hmem : ∀ c ∈ topology.channels, ∃ left right index,
      (workerPairs nodes)[index]? = some (left, right) ∧
        c = channelOf basePort ((left, right), index) := by
    intro c hm
    rw [hc] at hm
    obtain ⟨⟨⟨left, right⟩, index⟩, hz, rfl⟩ := List.mem_map.mp hm
    exact ⟨left, right, index, List.mem_zipIdx_iff_getElem?.mp hz, rfl⟩
  have hlt : ∀ {left right index}, (workerPairs nodes)[index]? = some (left, right) →
      left < right := fun hi => (mem_workerPairs.mp (List.mem_of_getElem? hi)).1
  constructor
  · intro c hm
    obtain ⟨left, right, index, hi, rfl⟩ := hmem c hm
    have := hlt hi
    simp only [channelOf]
    omega
  · intro a b ha hb hab
    have hpair : (min a b, max a b) ∈ workerPairs nodes :=
      mem_workerPairs.mpr ⟨by simp only; omega, by simp only; omega⟩
    obtain ⟨index, hi⟩ := List.getElem?_of_mem hpair
    refine ⟨channelOf basePort ((min a b, max a b), index), ?_, ?_, ?_⟩
    · rw [hc]
      exact List.mem_map.mpr ⟨_, List.mem_zipIdx_iff_getElem?.mpr hi, rfl⟩
    · simp only [Joins, channelOf]
      omega
    · intro c hm hj
      obtain ⟨left, right, index', hi', rfl⟩ := hmem c hm
      have hlr := hlt hi'
      have he : (left, right) = (min a b, max a b) := by
        simp only [Joins, channelOf] at hj
        simp only [Prod.mk.injEq]
        omega
      rw [he] at hi' ⊢
      obtain ⟨hidx, heq⟩ := List.getElem?_eq_some_iff.mp hi
      obtain ⟨hidx', heq'⟩ := List.getElem?_eq_some_iff.mp hi'
      rw [(workerPairs_nodup nodes).getElem_inj_iff.mp (heq'.trans heq.symm)]

/-- One placed process: the table grows by its entry or already holds it. -/
theorem coordinateToSlot_cons {p : PlacedProcess} {rest : List PlacedProcess}
    {table result : List (Text × Slot)} (h : coordinateToSlot (p :: rest) table = .ok result) :
    ∃ table', coordinateToSlot rest table' = .ok result ∧
      (table' = table ∨ ∃ c, p.coordinates = some c ∧
        table' = table ++ [(coordKey c, p.nodeSlot)]) ∧
      ∀ c, p.coordinates = some c → table'.lookup (coordKey c) = some p.nodeSlot := by
  cases hc : p.coordinates with
  | none =>
    simp only [coordinateToSlot, hc] at h
    exact ⟨table, h, Or.inl rfl, fun c hc' => by cases hc'⟩
  | some c =>
    cases hl : table.lookup (coordKey c) with
    | none =>
      simp only [coordinateToSlot, hc, hl] at h
      refine ⟨_, h, Or.inr ⟨c, rfl, rfl⟩, ?_⟩
      rintro _ ⟨⟩
      rw [List.lookup_append, hl]
      simp
    | some previous =>
      by_cases he : previous = p.nodeSlot
      · simp only [coordinateToSlot, hc, hl, he, ne_eq, not_true_eq_false, if_false] at h
        refine ⟨table, h, Or.inl rfl, ?_⟩
        rintro _ ⟨⟩
        rw [hl, he]
      · simp [coordinateToSlot, hc, hl, he] at h

theorem coordinateToSlot_extends {processes : List PlacedProcess}
    {table result : List (Text × Slot)} (h : coordinateToSlot processes table = .ok result)
    {key : Text} {slot : Int} (hk : table.lookup key = some slot) :
    result.lookup key = some slot := by
  induction processes generalizing table with
  | nil =>
    simp only [coordinateToSlot, Except.ok.injEq] at h
    rwa [← h]
  | cons p rest ih =>
    obtain ⟨table', hrest, rfl | ⟨c, -, rfl⟩, -⟩ := coordinateToSlot_cons h
    · exact ih hrest hk
    · refine ih hrest ?_
      rw [List.lookup_append, hk]
      rfl

theorem coordinateToSlot_lookup {processes : List PlacedProcess} {table result : List (Text × Slot)}
    (h : coordinateToSlot processes table = .ok result) {p : PlacedProcess} (hp : p ∈ processes)
    {c : Coord} (hc : p.coordinates = some c) : result.lookup (coordKey c) = some p.nodeSlot := by
  induction processes generalizing table with
  | nil => simp at hp
  | cons q rest ih =>
    obtain ⟨table', hrest, -, hlookup⟩ := coordinateToSlot_cons h
    rcases List.mem_cons.mp hp with rfl | hp
    · exact coordinateToSlot_extends hrest (hlookup c hc)
    · exact ih hrest hp

theorem mem_coordinateToSlot {processes : List PlacedProcess} {table result : List (Text × Slot)}
    (h : coordinateToSlot processes table = .ok result) {m : Text × Slot} (hm : m ∈ result) :
    m ∈ table ∨ ∃ p ∈ processes, ∃ c, p.coordinates = some c ∧ m = (coordKey c, p.nodeSlot) := by
  induction processes generalizing table with
  | nil =>
    simp only [coordinateToSlot, Except.ok.injEq] at h
    exact Or.inl (h ▸ hm)
  | cons p rest ih =>
    obtain ⟨table', hrest, htable, -⟩ := coordinateToSlot_cons h
    rcases ih hrest with hm' | ⟨q, hq, c, hc, rfl⟩
    · rcases htable with rfl | ⟨c, hc, rfl⟩
      · exact Or.inl hm'
      · rcases List.mem_append.mp hm' with hm' | hm'
        · exact Or.inl hm'
        · exact Or.inr ⟨p, List.mem_cons_self, c, hc, List.mem_singleton.mp hm'⟩
    · exact Or.inr ⟨q, List.mem_cons_of_mem p hq, c, hc, rfl⟩

theorem generateRouting_ok {placement : Placement} {topology : Topology}
    {physical : Option (List Int)} {routing : Routing}
    (h : generateRouting placement topology physical = .ok routing) :
    coordinateToSlot placement.processes [] = .ok routing.coordinateToWorkerSlot ∧
      routing.gatewayBasePort = some 9500 := by
  unfold generateRouting at h
  split at h
  · cases h
  · cases hp : physicalSlots placement.swarmNodes physical with
    | error e => simp [hp, bind, Except.bind] at h
    | ok slots =>
      cases ht : coordinateToSlot placement.processes [] with
      | error e => simp [hp, ht, bind, Except.bind] at h
      | ok table =>
        simp only [hp, ht, bind, Except.bind, pure, Except.pure, Except.ok.injEq] at h
        subst h
        exact ⟨rfl, rfl⟩

theorem workerHost_injective {a b : Int} (h : workerHost a = workerHost b) : a = b :=
  decimal_injective (List.append_cancel_left h)

theorem RunsOn.lookup {placement : Placement} {topology : Topology} {physical : Option (List Int)}
    {routing : Routing} (h : generateRouting placement topology physical = .ok routing)
    {phase : ProcessPhase} {index : Nat} {c : Coord} {slot : Int}
    (hr : RunsOn placement phase index c slot) :
    routing.coordinateToWorkerSlot.lookup (coordKey c) = some slot ∧
      ∃ node < placement.swarmNodes, slot = Int.ofNat node := by
  obtain ⟨process, hp, hc, node, hlt, rfl, hhost⟩ := hr
  have hmem : process ∈ placement.processes :=
    (List.mem_filter.mp (List.mem_of_getLast? hp)).1
  have hslot := workerHost_injective hhost
  refine ⟨?_, node, hlt, rfl⟩
  rw [← hslot]
  exact coordinateToSlot_lookup (generateRouting_ok h).1 hmem hc

theorem mem_supervisorGateways {slot : Int} {topology : Topology} {base : Int}
    {g : GatewayProcess} :
    g ∈ supervisorGateways slot topology base ↔
      g.channel ∈ topology.channels ∧ g.port = base + g.peer ∧
      ((g.connect = false ∧ g.channel.listenerSlot = slot ∧ g.channel.connectorSlot = g.peer) ∨
       (g.connect = true ∧ g.channel.connectorSlot = slot ∧ g.channel.listenerSlot = g.peer)) := by
  obtain ⟨c, peer, port, connect⟩ := g
  simp only [supervisorGateways, List.mem_append, List.mem_map, List.mem_filter, decide_eq_true_eq,
    GatewayProcess.mk.injEq]
  constructor
  · rintro (⟨d, ⟨hd, hs⟩, rfl, rfl, rfl, rfl⟩ | ⟨d, ⟨hd, hs⟩, rfl, rfl, rfl, rfl⟩)
    · exact ⟨hd, rfl, Or.inl ⟨rfl, hs, rfl⟩⟩
    · exact ⟨hd, rfl, Or.inr ⟨rfl, hs, rfl⟩⟩
  · rintro ⟨hc, rfl, ⟨rfl, hs, rfl⟩ | ⟨rfl, hs, rfl⟩⟩
    · exact Or.inl ⟨c, ⟨hc, hs⟩, rfl, rfl, rfl, rfl⟩
    · exact Or.inr ⟨c, ⟨hc, hs⟩, rfl, rfl, rfl, rfl⟩

theorem find_gateway {topology : Topology} {nodes : Nat} (ht : OneChannelPerPair topology nodes)
    {a b : Nat} (ha : a < nodes) (hb : b < nodes) (hab : a ≠ b) {c : Channel}
    (hc : c ∈ topology.channels) (hj : Joins c a b) (base : Int) :
    ∃ g, (supervisorGateways a topology base).find? (·.port = base + (b : Int)) = some g ∧
      g.channel = c ∧ g.peer = b ∧ g.port = base + (b : Int) := by
  obtain ⟨c₀, _, _, huniq⟩ := ht.2 a b ha hb hab
  have hex : ∃ g ∈ supervisorGateways a topology base, g.port = base + (b : Int) := by
    rcases hj with ⟨hl, hr⟩ | ⟨hl, hr⟩
    · exact ⟨⟨c, b, base + b, false⟩, mem_supervisorGateways.mpr ⟨hc, rfl, Or.inl ⟨rfl, hl, hr⟩⟩,
        rfl⟩
    · exact ⟨⟨c, b, base + b, true⟩, mem_supervisorGateways.mpr ⟨hc, rfl, Or.inr ⟨rfl, hr, hl⟩⟩,
        rfl⟩
  cases hf : (supervisorGateways a topology base).find? (·.port = base + (b : Int)) with
  | none =>
    obtain ⟨g, hg, hp⟩ := hex
    have := List.find?_eq_none.mp hf g hg
    simp [hp] at this
  | some g =>
    have hport : g.port = base + (b : Int) := by simpa using List.find?_some hf
    obtain ⟨hmem, hp, hside⟩ := mem_supervisorGateways.mp (List.mem_of_find?_eq_some hf)
    have hpeer : g.peer = b := Int.add_left_cancel (hp.symm.trans hport)
    have hgj : Joins g.channel a b := by
      rcases hside with ⟨_, hl, hr⟩ | ⟨_, hl, hr⟩
      · exact Or.inl ⟨hl, hr.trans hpeer⟩
      · exact Or.inr ⟨hr.trans hpeer, hl⟩
    exact ⟨g, rfl, (huniq _ hmem hgj).trans (huniq _ hc hj).symm, hpeer, hport⟩

theorem addressed_name {topology : Topology} {routing : Routing} {slot : Int} {op : Op}
    {name : Text} {key : QueueKey} (h : addressed topology routing slot op name = some key) :
    key.name = name := by
  unfold addressed at h
  dsimp only at h
  split at h
  · cases h
  · split at h
    · rw [← Option.some.inj h, QueueKey.name]
    · simp only [Option.bind_eq_bind, Option.bind_eq_some_iff] at h
      obtain ⟨port, _, g, _, h⟩ := h
      cases op <;> rw [← Option.some.inj h, QueueKey.name]

theorem addressed_local {topology : Topology} {routing : Routing} {slot : Int} {s d : Coord}
    (hs : routing.coordinateToWorkerSlot.lookup (coordKey s) = some slot)
    (hd : routing.coordinateToWorkerSlot.lookup (coordKey d) = some slot) (op : Op) :
    addressed topology routing slot op (pipeName s d) = some (.here slot (pipeName s d)) := by
  have hp : (Router.init slot routing).peerFor op (pipeName s d) = .ok slot := by
    cases op
    · exact peerFor_pipeName hd
    · exact peerFor_pipeName hs
  simp [addressed, hp]

theorem addressed_remote {topology : Topology} {routing : Routing} {nodes : Nat}
    (ht : OneChannelPerPair topology nodes) (hbase : routing.gatewayBasePort = some 9500)
    {a b : Nat} (ha : a < nodes) (hb : b < nodes) (hab : a ≠ b) {c : Channel}
    (hc : c ∈ topology.channels) (hj : Joins c a b) {key name : Text} {op : Op}
    (hkey : routing.coordinateToWorkerSlot.lookup key = some (b : Int))
    (hpeer : (Router.init (a : Int) routing).peerFor op name = .ok (b : Int)) :
    addressed topology routing a op name =
        some (.channel c (match op with | .W => a | .R => b) name) ∧
      ∃ g ∈ supervisorGateways a topology defaultGatewayBasePort, g.channel = c ∧ g.peer = b ∧
        (Router.init (a : Int) routing).gatewayPorts.lookup (b : Int) = some g.port := by
  obtain ⟨g, hg, hgc, hgp, hgport⟩ := find_gateway ht ha hb hab hc hj defaultGatewayBasePort
  have hne : (b : Int) ≠ a := by omega
  have hport : (Router.init (a : Int) routing).gatewayPorts.lookup (b : Int) = some g.port := by
    rw [hgport]
    simpa [hbase, defaultGatewayBasePort] using gatewayPorts_lookup hkey hne
  refine ⟨?_, g, List.mem_of_find?_eq_some hg, hgc, hgp, hport⟩
  rw [← hgport] at hg
  simp only [addressed, hpeer, hne, if_false, hport, Option.bind_eq_bind, Option.bind_some, hg,
    hgc, hgp]
  cases op <;> rfl

section

variable {placement : Placement} {topology : Topology} {physical : Option (List Int)}
  {routing : Routing}

/-- Both ends of a pipe meet in one queue: the deque of their common slot, or
the one channel between their slots, reached on each side through the port the
supervisor gave that gateway. Distinct pipes never share a queue. -/
theorem write_read_address_same_queue
    (hgen : generateRouting placement topology physical = .ok routing)
    (htop : OneChannelPerPair topology placement.swarmNodes)
    {phase phase' : ProcessPhase} {i j : Nat} {s d : Coord} {a b : Int}
    (hs : RunsOn placement phase i s a) (hd : RunsOn placement phase' j d b) :
    ∃ key,
      addressed topology routing a .W (pipeName s d) = some key ∧
      addressed topology routing b .R (pipeName s d) = some key ∧
      (a = b → key = .here a (pipeName s d)) ∧
      (a ≠ b → ∃ c ∈ topology.channels, Joins c a b ∧
        (∀ c' ∈ topology.channels, Joins c' a b → c' = c) ∧
        key = .channel c a (pipeName s d) ∧
        (∃ g ∈ supervisorGateways a topology defaultGatewayBasePort, g.channel = c ∧ g.peer = b ∧
          (Router.init a routing).gatewayPorts.lookup b = some g.port) ∧
        ∃ g ∈ supervisorGateways b topology defaultGatewayBasePort, g.channel = c ∧ g.peer = a ∧
          (Router.init b routing).gatewayPorts.lookup a = some g.port) ∧
      ∀ slot op s' d', (s', d') ≠ (s, d) →
        addressed topology routing slot op (pipeName s' d') ≠ some key := by
  obtain ⟨hls, m, hm, rfl⟩ := hs.lookup hgen
  obtain ⟨hld, n, hn, rfl⟩ := hd.lookup hgen
  have hbase := (generateRouting_ok hgen).2
  have hdistinct : ∀ key, addressed topology routing (Int.ofNat m) .W (pipeName s d) = some key →
      ∀ slot op s' d', (s', d') ≠ (s, d) →
        addressed topology routing slot op (pipeName s' d') ≠ some key := by
    intro key hkey slot op s' d' hne he
    apply hne
    obtain ⟨h1, h2⟩ := pipeName_injective ((addressed_name he).symm.trans (addressed_name hkey))
    rw [h1, h2]
  by_cases hab : m = n
  · subst hab
    have hw : addressed topology routing (Int.ofNat m) .W (pipeName s d) = _ :=
      addressed_local hls hld .W
    exact ⟨_, hw, addressed_local hls hld .R, fun _ => rfl, fun h => absurd rfl h,
      hdistinct _ hw⟩
  · obtain ⟨c, hc, hj, huniq⟩ := htop.2 m n hm hn hab
    have hj' : Joins c n m := hj.elim Or.inr Or.inl
    have hpw : (Router.init (m : Int) routing).peerFor .W (pipeName s d) = .ok (n : Int) :=
      peerFor_pipeName hld
    have hpr : (Router.init (n : Int) routing).peerFor .R (pipeName s d) = .ok (m : Int) :=
      peerFor_pipeName hls
    obtain ⟨hw, hgw⟩ := addressed_remote htop hbase hm hn hab hc hj hld hpw
    obtain ⟨hr, hgr⟩ := addressed_remote htop hbase hn hm (Ne.symm hab) hc hj' hls hpr
    exact ⟨_, hw, hr, fun h => absurd (Int.ofNat.inj h) hab,
      fun _ => ⟨c, hc, hj, huniq, rfl, hgw, hgr⟩, hdistinct _ hw⟩

def twoWorkerPlacement : Placement :=
  { swarmNodes := 2
    processes :=
      [⟨.phase1, 0, 0, some (0, 0)⟩, ⟨.phase1, 1, 1, some (1, 0)⟩, ⟨.phase2, 0, 0, none⟩] }

def twoWorkerTopology : Topology := ⟨[0, 1], [channelOf 9700 ((0, 1), 0)]⟩

def twoWorkerRouting : Routing :=
  ⟨[(coordKey (0, 0), 0), (coordKey (1, 0), 1)], [(0, 0), (1, 0)], some 9500⟩

theorem write_read_address_same_queue_two_workers :
    generateTopology 2 9700 = .ok twoWorkerTopology ∧
    generateRouting twoWorkerPlacement twoWorkerTopology none = .ok twoWorkerRouting ∧
    ∃ key,
      addressed twoWorkerTopology twoWorkerRouting 0 .W (pipeName (0, 0) (1, 0)) = some key ∧
      addressed twoWorkerTopology twoWorkerRouting 1 .R (pipeName (0, 0) (1, 0)) = some key := by
  have htop : generateTopology 2 9700 = .ok twoWorkerTopology := rfl
  have hgen : generateRouting twoWorkerPlacement twoWorkerTopology none = .ok twoWorkerRouting :=
    rfl
  have hs : RunsOn twoWorkerPlacement .phase1 0 (0, 0) 0 :=
    ⟨⟨.phase1, 0, 0, some (0, 0)⟩, rfl, rfl, 0, by decide, rfl, rfl⟩
  have hd : RunsOn twoWorkerPlacement .phase1 1 (1, 0) 1 :=
    ⟨⟨.phase1, 1, 1, some (1, 0)⟩, rfl, rfl, 1, by decide, rfl, rfl⟩
  obtain ⟨key, hw, hr, _⟩ :=
    write_read_address_same_queue hgen (generateTopology_oneChannelPerPair htop) hs hd
  exact ⟨htop, hgen, key, hw, hr⟩

end

end ChipSystemSim
