import ChipSystemSim.Placements

/-! One deployment from its workload: the placement, the topology, the routing
table and the services of the stack are generated one after the other, and the
names that one of them uses are resolved by the others. -/

namespace ChipSystemSim

def placementOf (nodes : Nat) (records : List PlacementRecord) : Placement :=
  ⟨nodes, records.map PlacementRecord.placed⟩

structure StackOptions where
  image : Text
  workloadTarget : Text := "/opt/legosim/workload.yml".toList
  topologyWidth : Int
  flitSize : Int
  transportPtrace : Bool := false
  mlpDpIterations : Option Int := none
  mlpDpRanks : Option Int := none
  mlpDpSamples : Option Int := none
  mnsimFastInputSize : Option Int := none
  workerReadyTimeout : Int := 180
  baseifReadyTimeout : Int := 300
  baseifConnectTimeout : Int := 180

structure StackService where
  name : Text
  image : Text
  command : List Text
  configs : List (Text × Text)
  aliases : List Text
  environment : List (Text × Text)
  capAdd : List Text
  constraint : Text
  deriving DecidableEq

def tooSmall (least : Int) : Option Int → Bool
  | none => false
  | some n => n < least

def StackOptions.check (o : StackOptions) (placement : Placement) (topology : Topology)
    (routing : Routing) : Except String Unit :=
  if o.workloadTarget.head? ≠ some '/' then
    .error "--workload-target must be an absolute container path"
  else if topology.workers.length ≠ placement.swarmNodes ∨
    routing.coordinateToWorkerSlot.length = 0 then
    .error "placement, topology, and routing must describe the same non-empty experiment"
  else if tooSmall 1 o.mlpDpIterations then .error "--mlp-dp-iterations must be positive"
  else if tooSmall 1 o.mlpDpRanks then .error "--mlp-dp-ranks must be positive"
  else if tooSmall 1 o.mlpDpSamples then .error "--mlp-dp-samples must be positive"
  else if tooSmall 3 o.mnsimFastInputSize then .error "--mnsim-fast-input-size must be at least 3"
  else if o.workerReadyTimeout < 1 then .error "--worker-ready-timeout must be positive"
  else if o.baseifReadyTimeout < 1 ∨ o.baseifConnectTimeout < 1 then
    .error "BaseIf timeout arguments must be positive"
  else .ok ()

def optionalSetting (name : String) : Option Int → List (Text × Text)
  | none => []
  | some n => [(name.toList, decimal n)]

def coordinatorService (o : StackOptions) : StackService where
  name := "coordinator".toList
  image := o.image
  command :=
    [o.workloadTarget, "-w".toList, decimal o.topologyWidth, "-f".toList, decimal o.flitSize]
  configs :=
    [("workload".toList, o.workloadTarget), ("routing".toList, "/run/config/routing.json".toList)]
  aliases := ["coordinator".toList]
  environment :=
    [("LEGOSIM_WORKER_READY_TIMEOUT_SECONDS".toList, decimal o.workerReadyTimeout),
      ("LEGOSIM_ARTIFACT_DIR".toList, "/legosim-artifacts".toList),
      ("LEGOSIM_ARTIFACT_RUN_ID".toList, "coordinator".toList)] ++
      optionalSetting "LEGOSIM_MNSIM_FAST_INPUT_SIZE" o.mnsimFastInputSize
  capAdd := []
  constraint := "node.role == manager".toList

def environmentPrefix : Text :=
  "export CUDA_INSTALL_PATH=$\x7bCUDA_INSTALL_PATH:-/usr\x7d; ".toList ++
    "source /opt/legosim/gpgpu-sim/setup_environment && exec ".toList

def transportHost (slot : Int) : Text := "transport-".toList ++ decimal slot

def labelConstraint (label : Text) : Text := "node.labels.".toList ++ label ++ " == true".toList

def transportService (o : StackOptions) (slot : Nat) : StackService where
  name := transportHost slot
  image := o.image
  command := ["/bin/bash".toList, "-lc".toList,
    environmentPrefix ++
      "python3 /opt/chipsystemsim-distributed/simbricks_worker_supervisor.py ".toList ++
      "--slot ".toList ++ decimal slot ++
      " --topology /run/config/topology.json --routing /run/config/routing.json".toList]
  configs := [("topology".toList, "/run/config/topology.json".toList),
    ("routing".toList, "/run/config/routing.json".toList)]
  aliases := [workerHost slot, transportHost slot]
  environment :=
    [("LEGOSIM_BASEIF_READY_TIMEOUT_SECONDS".toList, decimal o.baseifReadyTimeout),
      ("LEGOSIM_BASEIF_CONNECT_TIMEOUT_SECONDS".toList, decimal o.baseifConnectTimeout)] ++
      optionalSetting "LEGOSIM_MLP_DP_ITERATIONS" o.mlpDpIterations ++
      optionalSetting "LEGOSIM_MLP_DP_RANKS" o.mlpDpRanks ++
      optionalSetting "LEGOSIM_MLP_DP_SAMPLES" o.mlpDpSamples ++
      optionalSetting "LEGOSIM_MNSIM_FAST_INPUT_SIZE" o.mnsimFastInputSize
  capAdd := if o.transportPtrace then ["SYS_PTRACE".toList] else []
  constraint := labelConstraint (nodeLabel slot)

def generateStack (o : StackOptions) (placement : Placement) (topology : Topology)
    (routing : Routing) : Except String (List StackService) := do
  o.check placement topology routing
  return coordinatorService o :: (List.range placement.swarmNodes).map (transportService o)

/-- `placements_by_phase[phase][index]['node_slot']`, in the worker name of the proxy. -/
def wrappedWorker (placement : Placement) (phase : ProcessPhase) (index : Nat) :
    Except String Text :=
  match placementFor placement phase index with
  | none => .error "KeyError"
  | some process => .ok (workerHost process.nodeSlot)

def wrappedWorkers (placement : Placement) (phase : ProcessPhase) (processes : List SourceProcess) :
    Except String (List Text) :=
  (List.range processes.length).mapM (wrappedWorker placement phase)

def remoteWorkers (remotePhase2 : Bool) (placement : Placement) (processes : List SourceProcess) :
    Except String (List Text) :=
  if remotePhase2 then wrappedWorkers placement .phase2 processes else .ok []

structure GeneratedRun where
  records : List PlacementRecord
  topology : Topology
  routing : Routing
  phase1Workers : List Text
  phase2Workers : List Text
  services : List StackService

def defaultBasePort : Int := 9700

def orMessage {ε α : Type*} (message : ε → String) : Except ε α → Except String α
  | .error e => .error (message e)
  | .ok a => .ok a

/-- The generators that prepare a run, in the order of their callers. The workers of
Phase 2 are looked up when that phase is remote. -/
def generateRun (workload : Text) (policy : PlacementPolicy) (nodes : Nat) (config : SourceConfig)
    (remotePhase2 : Bool) (options : StackOptions) : Except String GeneratedRun := do
  let records ← orMessage PlacementError.message (generatePlacement workload policy nodes config)
  let placement := placementOf nodes records
  let topology ← orMessage TopologyError.message (generateTopology nodes defaultBasePort)
  let routing ← orMessage RoutingError.message (generateRouting placement topology none)
  let phase1Workers ← wrappedWorkers placement .phase1 config.phase1
  let phase2Workers ← remoteWorkers remotePhase2 placement config.phase2
  let services ← generateStack options placement topology routing
  return { records, topology, routing, phase1Workers, phase2Workers, services }

/-- The name belongs to one service of the stack. -/
def ResolvesTo (services : List StackService) (host : Text) (service : StackService) : Prop :=
  service ∈ services ∧ host ∈ service.aliases ∧ ∀ s ∈ services, host ∈ s.aliases → s = service

theorem orMessage_eq_ok {ε α : Type*} {message : ε → String} {x : Except ε α} {a : α} :
    orMessage message x = .ok a ↔ x = .ok a := by
  cases x <;> simp [orMessage]

theorem bind_eq_ok {α β : Type} {x : Except String α} {f : α → Except String β} {b : β} :
    x >>= f = .ok b ↔ ∃ a, x = .ok a ∧ f a = .ok b := by
  cases x <;> simp [bind, Except.bind]

section Placed

variable {nodes : Nat} {records : List PlacementRecord}

theorem placementFor_record (hnodup : (records.map PlacementRecord.identity).Nodup)
    {r : PlacementRecord} (hr : r ∈ records) :
    placementFor (placementOf nodes records) r.placed.phase r.placed.processIndex =
      some r.placed := by
  have hkeys :
      ((records.map PlacementRecord.placed).map fun p => (p.phase, p.processIndex)).Nodup := by
    rwa [List.map_map]
  have hfilter := filter_key_eq hkeys (List.mem_map_of_mem hr)
  simp only [Prod.mk.injEq] at hfilter
  rw [placementFor, placementOf, hfilter]
  rfl

end Placed

/-- No coordinate is on two slots. -/
def OneSlotPerCoordinate (processes : List PlacedProcess) : Prop :=
  ∀ p ∈ processes, ∀ q ∈ processes, p.coordinates ≠ none → p.coordinates = q.coordinates →
    p.nodeSlot = q.nodeSlot

theorem coordinateToSlot_isOk {processes : List PlacedProcess} {table : List (Text × Slot)}
    (hone : OneSlotPerCoordinate processes)
    (htable : ∀ p ∈ processes, ∀ c, p.coordinates = some c →
      ∀ slot, table.lookup (coordKey c) = some slot →
      slot = p.nodeSlot) :
    ∃ result, coordinateToSlot processes table = .ok result := by
  induction processes generalizing table with
  | nil => exact ⟨table, rfl⟩
  | cons p rest ih =>
    have hone' : OneSlotPerCoordinate rest :=
      fun a ha b hb => hone a (List.mem_cons_of_mem p ha) b (List.mem_cons_of_mem p hb)
    have hrest : ∀ q ∈ rest, ∀ c, q.coordinates = some c →
        ∀ slot, table.lookup (coordKey c) = some slot →
        slot = q.nodeSlot := fun q hq => htable q (List.mem_cons_of_mem p hq)
    cases hc : p.coordinates with
    | none =>
      simp only [coordinateToSlot, hc]
      exact ih hone' hrest
    | some c =>
      cases hl : table.lookup (coordKey c) with
      | none =>
        simp only [coordinateToSlot, hc, hl]
        apply ih hone'
        intro q hq d hd slot hslot
        rw [List.lookup_append] at hslot
        cases hold : table.lookup (coordKey d) with
        | some old =>
          rw [hold] at hslot
          exact hrest q hq d hd slot (by rw [hold]; exact hslot)
        | none =>
          rw [hold, Option.none_or, List.lookup_cons] at hslot
          by_cases hkey : coordKey d = coordKey c
          · obtain rfl := coordKey_injective hkey
            simp only [beq_self_eq_true, Option.some.injEq] at hslot
            rw [← hslot]
            exact hone p List.mem_cons_self q (List.mem_cons_of_mem p hq) (by simp [hc])
              (hc.trans hd.symm)
          · rw [beq_eq_false_iff_ne.mpr hkey] at hslot
            cases hslot
      | some previous =>
        have hprevious := htable p List.mem_cons_self c hc previous hl
        simp only [coordinateToSlot, hc, hl, hprevious, ne_eq, not_true_eq_false, if_false]
        exact ih hone' hrest

theorem coordinateToSlot_isOk_iff {processes : List PlacedProcess} :
    (∃ result, coordinateToSlot processes [] = .ok result) ↔ OneSlotPerCoordinate processes := by
  constructor
  · rintro ⟨result, h⟩ p hp q hq hne heq
    obtain ⟨c, hc⟩ := Option.ne_none_iff_exists'.mp hne
    have hlookup := coordinateToSlot_lookup h hp hc
    rw [coordinateToSlot_lookup h hq (heq.symm.trans hc)] at hlookup
    exact (Option.some.inj hlookup).symm
  · intro hone
    apply coordinateToSlot_isOk hone
    intro p hp c hc slot hslot
    cases hslot

theorem generateTopology_isOk {nodes : Nat} (h : nodes ∈ nodeChoices) :
    ∃ topology, generateTopology nodes defaultBasePort = .ok topology ∧
    topology.workers.length = nodes := by
  simp only [nodeChoices, List.mem_cons, List.not_mem_nil, or_false] at h
  rcases h with rfl | rfl | rfl | rfl <;> exact ⟨_, rfl, rfl⟩

theorem generateRouting_isOk_iff {placement : Placement} {topology : Topology}
    (h : topology.workers.length = placement.swarmNodes) :
    (∃ routing, generateRouting placement topology none = .ok routing) ↔
      OneSlotPerCoordinate placement.processes := by
  rw [← coordinateToSlot_isOk_iff]
  cases ht : coordinateToSlot placement.processes [] <;>
    simp [generateRouting, h, physicalSlots, ht, bind, Except.bind, pure, Except.pure]

theorem table_empty_iff {processes : List PlacedProcess} {table : List (Text × Slot)}
    (h : coordinateToSlot processes [] = .ok table) :
    table.length = 0 ↔ ∀ p ∈ processes, p.coordinates = none := by
  rw [List.length_eq_zero_iff]
  constructor
  · rintro rfl p hp
    by_contra hne
    obtain ⟨c, hc⟩ := Option.ne_none_iff_exists'.mp hne
    cases coordinateToSlot_lookup h hp hc
  · intro hnone
    rw [List.eq_nil_iff_forall_not_mem]
    intro m hm
    rcases mem_coordinateToSlot h hm with hm | ⟨p, hp, c, hc, _⟩
    · cases hm
    · rw [hnone p hp] at hc
      cases hc

/-- The two ends of a pipe are led to one queue. -/
theorem addressed_meet {topology : Topology} {routing : Routing} {nodes : Nat}
    (ht : OneChannelPerPair topology nodes)
    (hbase : routing.gatewayBasePort = some 9500) {a b : Nat} (ha : a < nodes) (hb : b < nodes)
    {s d : Coord} (hs : routing.coordinateToWorkerSlot.lookup (coordKey s) = some (a : Int))
    (hd : routing.coordinateToWorkerSlot.lookup (coordKey d) = some (b : Int)) :
    ∃ key, key.name = pipeName s d ∧ addressed topology routing a .W (pipeName s d) = some key ∧
      addressed topology routing b .R (pipeName s d) = some key := by
  by_cases hab : a = b
  · subst hab
    exact ⟨_, rfl, addressed_local hs hd .W, addressed_local hs hd .R⟩
  · obtain ⟨c, hc, hj, _⟩ := ht.2 a b ha hb hab
    have hpw : (Router.init (a : Int) routing).peerFor .W (pipeName s d) = .ok (b : Int) :=
      peerFor_pipeName hd
    have hpr : (Router.init (b : Int) routing).peerFor .R (pipeName s d) = .ok (a : Int) :=
      peerFor_pipeName hs
    have hw := addressed_remote ht hbase ha hb hab hc hj hd hpw
    have hr := addressed_remote ht hbase hb ha (Ne.symm hab) hc (hj.elim Or.inr Or.inl) hs hpr
    exact ⟨_, rfl, hw.1, hr.1⟩

theorem transportHost_injective {a b : Int} (h : transportHost a = transportHost b) : a = b :=
  decimal_injective (List.append_cancel_left h)

theorem workerHost_ne_transportHost (a b : Int) : workerHost a ≠ transportHost b := by
  intro h
  cases congrArg List.head? h

def StackOptions.Valid (o : StackOptions) : Prop :=
  o.workloadTarget.head? = some '/' ∧ tooSmall 1 o.mlpDpIterations = false ∧
  tooSmall 1 o.mlpDpRanks = false ∧
    tooSmall 1 o.mlpDpSamples = false ∧ tooSmall 3 o.mnsimFastInputSize = false ∧
    1 ≤ o.workerReadyTimeout ∧
    1 ≤ o.baseifReadyTimeout ∧ 1 ≤ o.baseifConnectTimeout

theorem unless_eq_ok {α : Type} {p : Prop} [Decidable p] {message : String}
    {x : Except String α} {a : α} : (if p then .error message else x) = .ok a ↔ ¬p ∧ x = .ok a := by
  by_cases hp : p <;> simp [hp]

theorem generateStack_ok_iff {o : StackOptions} {placement : Placement} {topology : Topology}
    {routing : Routing} {services : List StackService} :
    generateStack o placement topology routing = .ok services ↔
      o.Valid ∧ topology.workers.length = placement.swarmNodes ∧
      routing.coordinateToWorkerSlot.length ≠ 0 ∧
        services = coordinatorService o :: (List.range placement.swarmNodes).map
          (transportService o) := by
  simp only [generateStack, StackOptions.check, StackOptions.Valid, bind_eq_ok, unless_eq_ok, pure,
    Except.pure, Except.ok.injEq, not_not, not_or, Int.not_lt, Bool.not_eq_true, ne_eq, and_true]
  constructor
  · rintro ⟨_, ⟨htarget, ⟨hworkers, htable⟩, hiterations, hranks, hsamples, hinput, hworker,
      hready⟩, rfl⟩
    exact ⟨⟨htarget, hiterations, hranks, hsamples, hinput, hworker, hready⟩, hworkers, htable, rfl⟩
  · rintro ⟨⟨htarget, hiterations, hranks, hsamples, hinput, hworker, hready⟩, hworkers,
      htable, rfl⟩
    exact ⟨(), ⟨htarget, ⟨hworkers, htable⟩, hiterations, hranks, hsamples, hinput, hworker,
      hready⟩, rfl⟩

section Services

variable {o : StackOptions} {nodes : Nat}

theorem coordinator_alias {slot : Int} : workerHost slot ∉ (coordinatorService o).aliases ∧
    transportHost slot ∉ (coordinatorService o).aliases := by
  constructor <;>
  · intro h
    cases congrArg List.head? (List.mem_singleton.mp h)

theorem mem_transport_aliases {node slot : Nat} :
    (workerHost slot ∈ (transportService o node).aliases ↔ node = slot) ∧
      (transportHost slot ∈ (transportService o node).aliases ↔ node = slot) := by
  simp only [transportService, List.mem_cons, List.not_mem_nil, or_false]
  constructor
  · refine ⟨?_, fun h => Or.inl (by rw [h])⟩
    rintro (h | h)
    · exact (Int.ofNat_inj.mp (workerHost_injective h)).symm
    · exact absurd h (workerHost_ne_transportHost _ _)
  · refine ⟨?_, fun h => Or.inr (by rw [h])⟩
    rintro (h | h)
    · exact absurd h.symm (workerHost_ne_transportHost _ _)
    · exact (Int.ofNat_inj.mp (transportHost_injective h)).symm

theorem resolves {slot : Nat} (h : slot < nodes) {host : Text}
    (hcoordinator : host ∉ (coordinatorService o).aliases)
    (hhost : ∀ node : Nat, host ∈ (transportService o node).aliases ↔ node = slot) :
    ResolvesTo (coordinatorService o :: (List.range nodes).map (transportService o)) host
      (transportService o slot) := by
  refine ⟨?_, (hhost slot).mpr rfl, ?_⟩
  · exact List.mem_cons_of_mem _ (List.mem_map_of_mem (List.mem_range.mpr h))
  · intro s hs halias
    rcases List.mem_cons.mp hs with rfl | hs
    · exact absurd halias hcoordinator
    · obtain ⟨node, _, rfl⟩ := List.mem_map.mp hs
      rw [(hhost node).mp halias]

end Services

section Chain

variable {workload : Text} {policy : PlacementPolicy} {nodes : Nat} {config : SourceConfig}
  {records : List PlacementRecord} {options : StackOptions} {remotePhase2 : Bool}
    {run : GeneratedRun}

/-- One source process and what the generators made of it. -/
theorem exists_record (h : generatePlacement workload policy nodes config = .ok records)
    {identity : ProcessIdentity} {process : SourceProcess}
    (hp : (identity, process) ∈ config.processes) :
    ∃ r ∈ records, ∃ node < nodes, r.identity = identity ∧ r.placed.nodeSlot = Int.ofNat node ∧
      r.nodeLabel = nodeLabel node ∧
      placementFor (placementOf nodes records) identity.1 identity.2 = some r.placed ∧
      (identity.1 = .phase1 → ∃ args c, process.args = some args ∧ r.placed.coordinates = some c ∧
        FirstNumericPair args c) := by
  have hmem : identity ∈ records.map PlacementRecord.identity :=
    (records_identities h).mem_iff.mpr (List.mem_map.mpr ⟨_, hp, rfl⟩)
  obtain ⟨r, hr, rfl⟩ := List.mem_map.mp hmem
  obtain ⟨node, hnode, hslot, hlabel⟩ := record_node h hr
  refine ⟨r, hr, node, hnode, rfl, hslot, hlabel, placementFor_record (records_nodup h) hr, ?_⟩
  intro hphase
  obtain ⟨source, hsource, hpair, _⟩ := record_source h hr
  have hfound := byIdentity_eq_some (processes_nodup config) hsource
  rw [byIdentity_eq_some (processes_nodup config) hp, Option.some.injEq] at hfound
  subst hfound
  exact hpair hphase

theorem phase1_mem {i : Nat} {process : SourceProcess} (h : config.phase1[i]? = some process) :
    (((.phase1, i), process) : SourceEntry) ∈ config.processes := by
  apply List.mem_append_left
  exact List.mem_map.mpr ⟨(process, i), List.mk_mem_zipIdx_iff_getElem?.mpr h, rfl⟩

theorem phase2_mem {i : Nat} {process : SourceProcess} (h : config.phase2[i]? = some process) :
    (((.phase2, i), process) : SourceEntry) ∈ config.processes := by
  apply List.mem_append_right
  exact List.mem_map.mpr ⟨(process, i), List.mk_mem_zipIdx_iff_getElem?.mpr h, rfl⟩

def workerName (placement : Placement) (phase : ProcessPhase) (index : Nat) : Text :=
  ((placementFor placement phase index).map fun p => workerHost p.nodeSlot).getD []

theorem wrappedWorkers_eq {placement : Placement} {phase : ProcessPhase}
    {processes : List SourceProcess}
    (h : ∀ i process, processes[i]? = some process → ∃ p, placementFor placement phase i = some p) :
    wrappedWorkers placement phase processes =
      .ok ((List.range processes.length).map (workerName placement phase)) := by
  apply mapM_eq_ok
  intro i hi
  obtain ⟨p, hp⟩ := h i _ (List.getElem?_eq_getElem (List.mem_range.mp hi))
  rw [wrappedWorker, workerName, hp]
  rfl

theorem wrapped_workers (h : generatePlacement workload policy nodes config = .ok records) :
    wrappedWorkers (placementOf nodes records) .phase1 config.phase1 =
        .ok ((List.range config.phase1.length).map
          (workerName (placementOf nodes records) .phase1)) ∧
      wrappedWorkers (placementOf nodes records) .phase2 config.phase2 =
        .ok ((List.range config.phase2.length).map
          (workerName (placementOf nodes records) .phase2)) := by
  constructor
  · apply wrappedWorkers_eq
    intro i process hi
    obtain ⟨r, _, _, _, _, _, _, hfor, _⟩ := exists_record h (phase1_mem hi)
    exact ⟨r.placed, hfor⟩
  · apply wrappedWorkers_eq
    intro i process hi
    obtain ⟨r, _, _, _, _, _, _, hfor, _⟩ := exists_record h (phase2_mem hi)
    exact ⟨r.placed, hfor⟩

theorem generateRun_ok (h : generateRun workload policy nodes config remotePhase2
    options = .ok run) :
    generatePlacement workload policy nodes config = .ok run.records ∧
      generateTopology nodes defaultBasePort = .ok run.topology ∧
      generateRouting (placementOf nodes run.records) run.topology none = .ok run.routing ∧
      wrappedWorkers (placementOf nodes run.records) .phase1 config.phase1 = .ok run.phase1Workers ∧
      remoteWorkers remotePhase2 (placementOf nodes run.records) config.phase2 =
        .ok run.phase2Workers ∧
      generateStack options (placementOf nodes run.records) run.topology run.routing =
        .ok run.services := by
  simp only [generateRun, bind_eq_ok, orMessage_eq_ok, pure, Except.pure, Except.ok.injEq] at h
  obtain ⟨records, hrecords, topology, htopology, routing, hrouting, one, hone, two, htwo, services,
      hservices, rfl⟩ := h
  exact ⟨hrecords, htopology, hrouting, hone, htwo, hservices⟩

theorem table_nonempty_iff (h : generatePlacement workload policy nodes config = .ok records)
    {table : List (Text × Slot)}
    (ht : coordinateToSlot (placementOf nodes records).processes [] = .ok table) :
    table.length ≠ 0 ↔ config.phase1 ≠ [] := by
  rw [Ne, table_empty_iff ht]
  constructor
  · intro hsome hnil
    apply hsome
    intro p hp
    obtain ⟨r, hr, rfl⟩ := List.mem_map.mp hp
    obtain ⟨process, hmem, _, hnone⟩ := record_source h hr
    apply hnone
    rw [SourceConfig.processes, hnil, List.zipIdx_nil, List.map_nil, List.nil_append] at hmem
    obtain ⟨_, _, heq⟩ := List.mem_map.mp hmem
    exact (congrArg (fun e : SourceEntry => e.1.1) heq).symm
  · intro hne hnone
    obtain ⟨process, hprocess⟩ := List.exists_mem_of_ne_nil _ hne
    obtain ⟨i, hi⟩ := List.getElem?_of_mem hprocess
    obtain ⟨r, hr, _, _, _, _, _, _, hpair⟩ := exists_record h (phase1_mem hi)
    obtain ⟨args, c, _, hc, _⟩ := hpair rfl
    rw [hnone r.placed (List.mem_map_of_mem hr)] at hc
    cases hc

theorem generateRun_isOk (hvalid : options.Valid) (hne : config.phase1 ≠ [])
    (hplace : generatePlacement workload policy nodes config = .ok records)
    (hone : OneSlotPerCoordinate (records.map PlacementRecord.placed)) :
    ∃ run, generateRun workload policy nodes config remotePhase2 options = .ok run ∧
    run.records = records := by
  obtain ⟨topology, htopology, hworkers⟩ := generateTopology_isOk (generatePlacement_ok hplace).1
  obtain ⟨routing, hroute⟩ : ∃ routing, generateRouting (placementOf nodes records) topology none =
      .ok routing :=
    (generateRouting_isOk_iff hworkers).mpr hone
  have hphase1 := (wrapped_workers hplace).1
  obtain ⟨workers, hremote⟩ :
      ∃ workers, remoteWorkers remotePhase2 (placementOf nodes records) config.phase2 =
        .ok workers := by
    cases remotePhase2 with
    | false => exact ⟨[], rfl⟩
    | true => exact ⟨_, (wrapped_workers hplace).2⟩
  have htable := (table_nonempty_iff hplace (generateRouting_ok hroute).1).mpr hne
  obtain ⟨services, hstack⟩ :
      ∃ services, generateStack options (placementOf nodes records) topology routing =
        .ok services :=
    ⟨_, generateStack_ok_iff.mpr ⟨hvalid, hworkers, htable, rfl⟩⟩
  refine ⟨⟨records, topology, routing,
    (List.range config.phase1.length).map (workerName (placementOf nodes records) .phase1), workers,
    services⟩, ?_, rfl⟩
  simp only [generateRun, bind_eq_ok, orMessage_eq_ok]
  exact ⟨records, hplace, topology, htopology, routing, hroute, _, hphase1, workers, hremote,
    services, hstack, rfl⟩

/-- The chain fails only where the placement fails, a coordinate is put on two slots,
no process has a coordinate, or the options of the stack are wrong. -/
theorem generateRun_isOk_iff :
    (∃ run, generateRun workload policy nodes config remotePhase2 options = .ok run) ↔
      options.Valid ∧ config.phase1 ≠ [] ∧ ∃ records,
        generatePlacement workload policy nodes config = .ok records ∧
        OneSlotPerCoordinate (records.map PlacementRecord.placed) := by
  constructor
  · rintro ⟨run, h⟩
    obtain ⟨hplace, _, hroute, _, _, hstack⟩ := generateRun_ok h
    obtain ⟨hvalid, _, htable, _⟩ := generateStack_ok_iff.mp hstack
    have hslots := (generateRouting_ok hroute).1
    exact ⟨hvalid, (table_nonempty_iff hplace hslots).mp htable, run.records, hplace,
      coordinateToSlot_isOk_iff.mp ⟨_, hslots⟩⟩
  · rintro ⟨hvalid, hne, records, hplace, hone⟩
    obtain ⟨run, h, _⟩ := generateRun_isOk hvalid hne hplace hone
    exact ⟨run, h⟩

theorem channel_slots {topology : Topology} {basePort : Int}
    (h : generateTopology nodes basePort = .ok topology) {channel : Channel}
    (hc : channel ∈ topology.channels) :
    ∃ listener connector : Nat, listener < connector ∧ connector < nodes ∧
      channel.listenerSlot = Int.ofNat listener ∧ channel.connectorSlot = Int.ofNat connector := by
  have hchannels : topology.channels = (workerPairs nodes).zipIdx.map (channelOf basePort) := by
    unfold generateTopology at h
    split at h
    · cases h
    · split at h
      · cases h
      · rw [← Except.ok.inj h]
  rw [hchannels] at hc
  obtain ⟨⟨⟨left, right⟩, index⟩, hz, rfl⟩ := List.mem_map.mp hc
  have hpair := mem_workerPairs.mp (List.fst_mem_of_mem_zipIdx hz)
  exact ⟨left, right, hpair.1, hpair.2, rfl, rfl⟩

theorem record_slot_lookup {topology : Topology} {routing : Routing}
    (hroute : generateRouting (placementOf nodes records) topology none = .ok routing)
    {r : PlacementRecord} (hr : r ∈ records) {c : Coord} (hc : r.placed.coordinates = some c) :
    routing.coordinateToWorkerSlot.lookup (coordKey c) = some r.placed.nodeSlot :=
  coordinateToSlot_lookup (generateRouting_ok hroute).1 (List.mem_map_of_mem hr) hc

/-- Whatever name or coordinate one generated file uses, the others lead it to the same
slot: the proxy of a process reaches the service on the node of its record, a connector
resolves its listener, and the routers of two processes lead a pipe between them to one
queue. -/
theorem generated_run_connects
    (h : generateRun workload policy nodes config remotePhase2 options = .ok run) :
    (∀ i process, config.phase1[i]? = some process → ∃ args c node, process.args = some args ∧
      FirstNumericPair args c ∧ node < nodes ∧
      (∃ r ∈ run.records, r.placed = ⟨.phase1, i, Int.ofNat node, some c⟩ ∧
        (transportService options node).constraint = labelConstraint r.nodeLabel) ∧
      run.phase1Workers[i]? = some (workerHost (Int.ofNat node)) ∧
      ResolvesTo run.services (workerHost (Int.ofNat node)) (transportService options node) ∧
      run.routing.coordinateToWorkerSlot.lookup (coordKey c) = some (Int.ofNat node)) ∧
    (∀ channel ∈ run.topology.channels, ∃ listener connector : Nat, listener < connector ∧
      connector < nodes ∧
      channel.listenerSlot = Int.ofNat listener ∧ channel.connectorSlot = Int.ofNat connector ∧
      ResolvesTo run.services (transportHost channel.listenerSlot)
        (transportService options listener)) ∧
    ∀ r ∈ run.records, ∀ r' ∈ run.records, ∀ s d, r.placed.coordinates = some s →
      r'.placed.coordinates = some d → ∃ key, key.name = pipeName s d ∧
        addressed run.topology run.routing r.placed.nodeSlot .W (pipeName s d) = some key ∧
        addressed run.topology run.routing r'.placed.nodeSlot .R (pipeName s d) = some key := by
  obtain ⟨hplace, htop, hroute, hone, _, hstack⟩ := generateRun_ok h
  obtain ⟨_, _, _, hservices⟩ := generateStack_ok_iff.mp hstack
  rw [hservices]
  refine ⟨?_, ?_, ?_⟩
  · intro i process hi
    obtain ⟨r, hr, node, hnode, hid, hslot, hlabel, hfor, hpair⟩ :=
      exists_record hplace (phase1_mem hi)
    obtain ⟨args, c, hargs, hc, hfirst⟩ := hpair rfl
    have hplaced : r.placed = ⟨.phase1, i, Int.ofNat node, some c⟩ := by
      obtain ⟨hphase, hindex⟩ := Prod.mk.inj hid
      rw [← hphase, ← hindex, ← hslot, ← hc]
    refine ⟨args, c, node, hargs, hfirst, hnode, ⟨r, hr, hplaced, by rw [hlabel]; rfl⟩, ?_, ?_, ?_⟩
    · rw [(wrapped_workers hplace).1, Except.ok.injEq] at hone
      rw [← hone, List.getElem?_map, List.getElem?_range (List.getElem?_eq_some_iff.mp hi).1,
        Option.map_some, workerName, hfor, Option.map_some, hslot]
      rfl
    · exact resolves hnode coordinator_alias.1 fun _ => mem_transport_aliases.1
    · rw [record_slot_lookup hroute hr hc, hslot]
  · intro channel hc
    obtain ⟨listener, connector, hlt, hconnector, hlistener, hslot⟩ := channel_slots htop hc
    refine ⟨listener, connector, hlt, hconnector, hlistener, hslot, ?_⟩
    rw [hlistener]
    exact resolves (hlt.trans hconnector) coordinator_alias.2 fun _ => mem_transport_aliases.2
  · intro r hr r' hr' s d hs hd
    obtain ⟨a, ha, haslot, _⟩ := record_node hplace hr
    obtain ⟨b, hb, hbslot, _⟩ := record_node hplace hr'
    have hsource := record_slot_lookup hroute hr hs
    have hdestination := record_slot_lookup hroute hr' hd
    rw [haslot] at hsource ⊢
    rw [hbslot] at hdestination ⊢
    exact addressed_meet (generateTopology_oneChannelPerPair htop) (generateRouting_ok hroute).2
      ha hb hsource
      hdestination

end Chain

def nativeOptions : StackOptions where
  image := "legosim".toList
  topologyWidth := 6
  flitSize := 4

theorem generated_run_connects_mlp :
    ∃ run, generateRun mlpName .rankAware 2 mlpConfig false nativeOptions = .ok run ∧
      ∃ key, addressed run.topology run.routing 0 .W (pipeName (5, 5) (2, 0)) = some key ∧
        addressed run.topology run.routing 1 .R (pipeName (5, 5) (2, 0)) = some key := by
  have hplace : generatePlacement mlpName .rankAware 2 mlpConfig = .ok mlpRecords := rfl
  have hvalid : nativeOptions.Valid := by
    unfold StackOptions.Valid
    decide
  have hone : OneSlotPerCoordinate (mlpRecords.map PlacementRecord.placed) := by
    unfold OneSlotPerCoordinate
    decide
  obtain ⟨run, h, hrecords⟩ :
      ∃ run, generateRun mlpName .rankAware 2 mlpConfig false nativeOptions = .ok run ∧
      run.records = mlpRecords := generateRun_isOk hvalid (List.cons_ne_nil _ _) hplace hone
  obtain ⟨_, _, hpipes⟩ := generated_run_connects h
  rw [hrecords] at hpipes
  have hcpu : (⟨⟨.phase1, 4, 0, some (5, 5)⟩, nodeLabel 0⟩ : PlacementRecord) ∈ mlpRecords :=
    List.mem_cons_self
  have hdsa : (⟨⟨.phase1, 5, 1, some (2, 0)⟩, nodeLabel 1⟩ : PlacementRecord) ∈ mlpRecords :=
    List.mem_of_getElem? (i := 6) rfl
  obtain ⟨key, _, hw, hr⟩ := hpipes _ hcpu _ hdsa _ _ rfl rfl
  exact ⟨run, h, key, hw, hr⟩

end ChipSystemSim
