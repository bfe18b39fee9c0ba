import ChipSystemSim.PhaseTwoDelays

/-! The main function of the ns-3 adapter, and its two modes compared: with
`--localize-cross-worker-network` the same run is written out differently. -/

namespace ChipSystemSim

structure Summary where
  records : Nat
  normalRecords : Nat
  specialRecords : Nat
  payloadBytes : Nat
  cycleNs : Nat
  flitBytes : Nat
  linkRate : String
  linkDelayNs : Nat
  localizeCrossWorkerNetwork : Bool
  localizedCrossWorkerRecords : Nat
  sourceDelayCycles : Nat
  destinationDelayCycles : Nat
  destinationBlockCycles : Nat

def summarize (cfg : PhaseTwoConfig) (acc : Summary) (st : TraceState) : Except String Summary := do
  let acc := { acc with
    payloadBytes := asUInt64 (acc.payloadBytes + st.bench.flits * cfg.flitBytes)
    specialRecords := acc.specialRecords + if st.special then 1 else 0
    normalRecords := acc.normalRecords + if st.special then 0 else 1 }
  let localized ← isLocalizedCrossWorker cfg st
  if localized then
    return { acc with localizedCrossWorkerRecords := acc.localizedCrossWorkerRecords + 1 }
  else if st.special then
    return acc
  else
    let startNs := asInt64 (st.bench.sourceCycle * cfg.cycleNs)
    let sourceDelay := ceilNanosecondsToCycles (st.forward.transmitFinishNs - startNs) cfg.cycleNs
    let forwardDelay := ceilNanosecondsToCycles (st.forward.arrivalNs - startNs) cfg.cycleNs
    let arrival := asUInt64 (st.bench.sourceCycle + forwardDelay)
    return { acc with
      sourceDelayCycles := asUInt64 (acc.sourceDelayCycles + sourceDelay)
      destinationDelayCycles := asUInt64 (acc.destinationDelayCycles + forwardDelay)
      destinationBlockCycles :=
        if st.bench.destinationCycle < arrival
        then asUInt64 (acc.destinationBlockCycles + (arrival - st.bench.destinationCycle))
        else acc.destinationBlockCycles }

def emptySummary (cfg : PhaseTwoConfig) : Summary where
  records := cfg.bench.length
  normalRecords := 0
  specialRecords := 0
  payloadBytes := 0
  cycleNs := cfg.cycleNs
  flitBytes := cfg.flitBytes
  linkRate := cfg.linkRate
  linkDelayNs := cfg.linkDelayNs
  localizeCrossWorkerNetwork := cfg.localizeCrossWorkerNetwork
  localizedCrossWorkerRecords := 0
  sourceDelayCycles := 0
  destinationDelayCycles := 0
  destinationBlockCycles := 0

def writeSummaryJson (cfg : PhaseTwoConfig) (s : PhaseTwo) : Except String Summary :=
  (List.range cfg.bench.length).foldlM (fun acc trace => summarize cfg acc (s.states trace))
    (emptySummary cfg)

/-- The arguments of `main`, with the records and edges that `ReadBench` and
`ReadTopology` return and the entries found in the routing file. -/
structure PhaseTwoArguments where
  bench : List BenchRecord
  edges : List (Nat × Nat)
  nodes : Nat
  cycleNs : Nat
  flitBytes : Nat
  maxDatagramBytes : Nat
  linkRate : String
  linkDelayNs : Nat
  workerRouting : Option (List (Nat × Nat × Nat))
  localizeCrossWorkerNetwork : Bool

def readSlots (width : Nat) : List (Nat × Nat × Nat) → (Nat → Option Nat) →
    Except String (Nat → Option Nat)
  | [], slots => .ok slots
  | (x, y, slot) :: entries, slots =>
    if width ≤ x ∨ width ≤ y then
      .error "worker routing contains a coordinate outside the chiplet topology"
    else
      match slots (y * width + x) with
      | none => readSlots width entries (Function.update slots (y * width + x) (some slot))
      | some other =>
        if other ≠ slot then .error "worker routing maps one chiplet to multiple workers"
        else readSlots width entries slots

def readWorkerRouting (entries : List (Nat × Nat × Nat)) (nodes : Nat) :
    Except String (Nat → Option Nat) :=
  if nodes.sqrt = 0 ∨ nodes.sqrt * nodes.sqrt ≠ nodes then
    .error "counterfactual worker routing requires a square chiplet topology"
  else if entries = [] then .error "worker routing has no coordinate_to_worker_slot entries"
  else readSlots nodes.sqrt entries fun _ => none

namespace PhaseTwoArguments

variable (a : PhaseTwoArguments)

def check : Except String Unit := do
  if a.nodes = 0 then throw "--nodes must be positive"
  a.edges.zipIdx.forM fun (edge, subnet) =>
    if a.nodes ≤ edge.1 ∨ a.nodes ≤ edge.2 then
      throw "topology edge references a node outside --nodes"
    else if 254 * 254 ≤ subnet then throw "topology has too many point-to-point links"
    else pure ()
  (List.range a.nodes).forM fun node =>
    if a.edges.any fun edge => edge.1 == node || edge.2 == node then pure ()
    else throw ("topology leaves node " ++ toString node ++ " disconnected")
  a.bench.forM fun record =>
    if a.nodes ≤ record.source ∨ a.nodes ≤ record.destination then
      throw "bench record references a node outside --nodes"
    else pure ()

def config (workerSlots : Nat → Option Nat) : PhaseTwoConfig where
  bench := a.bench
  cycleNs := a.cycleNs
  flitBytes := a.flitBytes
  maxDatagramBytes := a.maxDatagramBytes
  linkRate := a.linkRate
  linkDelayNs := a.linkDelayNs
  workerSlots := workerSlots
  localizeCrossWorkerNetwork := a.localizeCrossWorkerNetwork

def workerSlots : Except String (Nat → Option Nat) :=
  if a.localizeCrossWorkerNetwork then
    match a.workerRouting with
    | none => .error "--localize-cross-worker-network requires --worker-routing"
    | some entries => readWorkerRouting entries a.nodes
  else .ok fun _ => none

def prepare : Except String PhaseTwoConfig :=
  if 65000 < a.maxDatagramBytes then .error "--max-datagram-bytes must fit in an IPv4 UDP datagram"
  else a.workerSlots.bind fun slots => a.check.map fun _ => a.config slots

/-- The same arguments with or without `--localize-cross-worker-network`. -/
def withMode (localize : Bool) : PhaseTwoArguments :=
  { a with localizeCrossWorkerNetwork := localize }

end PhaseTwoArguments

/-- A deterministic ns-3: the next event is a function of the events so far and
of the calls made to it. No event means that `Simulator::Run` returns. -/
abbrev Ns3 := List Ns3Event → (Nat → Ns3Trace) → Option Ns3Event

def simulate (cfg : PhaseTwoConfig) (ns3 : Ns3) :
    Nat → List Ns3Event → PhaseTwo → Option (Except String PhaseTwo)
  | 0, _, _ => none
  | fuel + 1, events, s =>
    match ns3 events s.net with
    | none => some (.ok s)
    | some e =>
      match PhaseTwo.apply cfg s e with
      | .ok t => simulate cfg ns3 fuel (events ++ [e]) t
      | .error message => some (.error message)

structure PhaseTwoOutput where
  delayInfo : List DelayLine
  summary : Summary

def writeOutput (cfg : PhaseTwoConfig) (s : PhaseTwo) : Except String PhaseTwoOutput := do
  PhaseTwo.runResult cfg s
  let delayInfo ← writeDelayInfo cfg s
  let summary ← writeSummaryJson cfg s
  return { delayInfo, summary }

/-- `main`, as far as it gets with the given number of ns-3 events. -/
def phaseTwoMain (a : PhaseTwoArguments) (ns3 : Ns3) (fuel : Nat) :
    Option (Except String PhaseTwoOutput) :=
  match a.prepare with
  | .error message => some (.error message)
  | .ok cfg => (simulate cfg ns3 fuel [] (PhaseTwo.start cfg)).map fun result =>
    result >>= writeOutput cfg

section Runs

variable {cfg : PhaseTwoConfig} {slots : Nat → Option Nat} {ns3 : Ns3} {s t : PhaseTwo}

def PhaseTwoConfig.counterfactual (cfg : PhaseTwoConfig) (slots : Nat → Option Nat) :
    PhaseTwoConfig :=
  { cfg with workerSlots := slots, localizeCrossWorkerNetwork := true }

theorem apply_counterfactual (e : Ns3Event) :
    PhaseTwo.apply (cfg.counterfactual slots) s e = PhaseTwo.apply cfg s e := by
  cases e <;> rfl

theorem simulate_counterfactual (fuel : Nat) (events : List Ns3Event) (s : PhaseTwo) :
    simulate (cfg.counterfactual slots) ns3 fuel events s = simulate cfg ns3 fuel events s := by
  induction fuel generalizing events s with
  | zero => rfl
  | succ fuel ih => simp only [simulate, apply_counterfactual, ih]

theorem acknowledgeArrival_bench {now : Nat} {b : Bool} {st : TraceState} {net : Ns3Trace} :
    (acknowledgeArrival cfg now b st net).1.bench = st.bench := by
  unfold acknowledgeArrival scheduleAcknowledgement
  split
  · split <;> rfl
  · rfl

theorem sendDirection_bench {now : Nat} {b : Bool} {st : TraceState} {net : Ns3Trace} :
    (sendDirection cfg now b st net).1.bench = st.bench := by
  unfold sendDirection
  dsimp only
  split
  · rw [acknowledgeArrival_bench, TraceState.setDirection_bench]
  · rfl

theorem onTransmitEnd_bench {now node f : Nat} {b : Bool} {st : TraceState} :
    (onTransmitEnd now node b f st).bench = st.bench := by
  unfold onTransmitEnd
  dsimp only
  split
  · rfl
  · rw [TraceState.setDirection_bench]

theorem onReceive_bench {now node f : Nat} {b : Bool} {st : TraceState} {net : Ns3Trace} :
    (onReceive cfg now node b f st net).1.bench = st.bench := by
  unfold onReceive
  dsimp only
  split
  · rfl
  · split
    · rw [TraceState.setDirection_bench]
    · rw [acknowledgeArrival_bench, TraceState.setDirection_bench]

theorem set_bench {trace : Nat} {r : TraceState × Ns3Trace}
    (h : r.1.bench = (s.states trace).bench) (i : Nat) :
    ((s.set trace r).states i).bench = (s.states i).bench := by
  by_cases hi : i = trace
  · subst hi
    simpa only [PhaseTwo.set, Function.update_self] using h
  · simp only [PhaseTwo.set, Function.update_of_ne hi]

theorem apply_bench {e : Ns3Event} (h : PhaseTwo.apply cfg s e = .ok t) (i : Nat) :
    (t.states i).bench = (s.states i).bench := by
  cases e with
  | advance time =>
    cases h
    rfl
  | send trace b refused =>
    simp only [PhaseTwo.apply] at h
    split at h
    · cases h
    · cases h
      exact set_bench sendDirection_bench i
  | transmitEnd node trace b f =>
    cases h
    exact set_bench onTransmitEnd_bench i
  | receive node trace b f =>
    cases h
    exact set_bench onReceive_bench i

theorem simulate_bench {fuel : Nat} {events : List Ns3Event}
    (h : simulate cfg ns3 fuel events s = some (.ok t)) (i : Nat) :
    (t.states i).bench = (s.states i).bench := by
  induction fuel generalizing events s with
  | zero => cases h
  | succ fuel ih =>
    simp only [simulate] at h
    split at h
    · cases h
      rfl
    · split at h
      · rename_i u hu
        exact (ih h).trans (apply_bench hu i)
      · cases h

end Runs

section Files

variable {cfg : PhaseTwoConfig} {slots : Nat → Option Nat} {s : PhaseTwo}

theorem summarize_localized (acc : Summary) {st : TraceState} {localized : Bool}
    (h : isLocalizedCrossWorker cfg st = .ok localized) : ∃ acc', summarize cfg acc st = .ok acc' ∧
      acc'.localizedCrossWorkerRecords = acc.localizedCrossWorkerRecords + localized.toNat := by
  unfold summarize
  rw [h]
  cases localized with
  | true => exact ⟨_, rfl, rfl⟩
  | false =>
    cases hspecial : st.special with
    | true => exact ⟨_, rfl, rfl⟩
    | false => exact ⟨_, rfl, rfl⟩

theorem foldlM_summarize {l : List Nat} {localized : Nat → Bool}
    (h : ∀ i ∈ l, isLocalizedCrossWorker cfg (s.states i) = .ok (localized i)) (acc : Summary) :
    ∃ acc', l.foldlM (fun acc i => summarize cfg acc (s.states i)) acc = .ok acc' ∧
      acc'.localizedCrossWorkerRecords = acc.localizedCrossWorkerRecords + l.countP localized := by
  induction l generalizing acc with
  | nil => exact ⟨acc, rfl, rfl⟩
  | cons i l ih =>
    obtain ⟨acc₁, h₁, hcount₁⟩ := summarize_localized acc (h i List.mem_cons_self)
    obtain ⟨acc₂, h₂, hcount₂⟩ := ih (fun j hj => h j (List.mem_cons_of_mem _ hj)) acc₁
    refine ⟨acc₂, ?_, ?_⟩
    · rw [List.foldlM_cons, h₁]
      exact h₂
    · have hone : (localized i).toNat = if localized i then 1 else 0 := by
        cases localized i <;> rfl
      rw [hcount₂, hcount₁, List.countP_cons, hone]
      omega

theorem writeOutput_eq {localized : Nat → Bool} (hrun : PhaseTwo.runResult cfg s = .ok ())
    (h : ∀ i < cfg.bench.length, isLocalizedCrossWorker cfg (s.states i) = .ok (localized i)) :
    ∃ summary, writeOutput cfg s = .ok ⟨(List.range cfg.bench.length).map fun i =>
        lineOf cfg (s.states i) (localized i), summary⟩ ∧
      summary.localizedCrossWorkerRecords = (List.range cfg.bench.length).countP localized := by
  have h' : ∀ i ∈ List.range cfg.bench.length, isLocalizedCrossWorker cfg (s.states i) =
      .ok (localized i) :=
    fun i hi => h i (List.mem_range.mp hi)
  obtain ⟨summary, hsummary, hcount⟩ := foldlM_summarize h' (emptySummary cfg)
  refine ⟨summary, ?_, by simpa [emptySummary] using hcount⟩
  have hlines : writeDelayInfo cfg s = .ok ((List.range cfg.bench.length).map fun i =>
      lineOf cfg (s.states i) (localized i)) := mapM_eq_ok fun i hi => delayLine_eq (h' i hi)
  simp only [writeOutput, hrun, hlines, writeSummaryJson, hsummary]
  rfl

end Files

def crossWorker (slots : Nat → Option Nat) (l : DelayLine) : Bool :=
  slots l.source != slots l.destination

/-- How the two files and the second summary are related. -/
structure Counterfactual (slots : Nat → Option Nat) (out out' : PhaseTwoOutput) : Prop where
  length_eq : out'.delayInfo.length = out.delayInfo.length
  line : ∀ {i : Nat} {l l' : DelayLine}, out.delayInfo[i]? = some l → out'.delayInfo[i]? = some l' →
    l'.columns.take 5 = l.columns.take 5 ∧ (crossWorker slots l = false → l' = l) ∧
      (crossWorker slots l = true → ∀ delay ∈ l'.delays, delay = 0)
  count : out'.summary.localizedCrossWorkerRecords = out'.delayInfo.countP (crossWorker slots)

section Law

variable {cfg : PhaseTwoConfig} {slots : Nat → Option Nat} {s : PhaseTwo}

theorem isLocalizedCrossWorker_counterfactual {st : TraceState}
    (h₁ : (slots st.bench.source).isSome) (h₂ : (slots st.bench.destination).isSome) :
    isLocalizedCrossWorker (cfg.counterfactual slots) st =
      .ok (slots st.bench.source != slots st.bench.destination) := by
  obtain ⟨a, ha⟩ := Option.isSome_iff_exists.mp h₁
  obtain ⟨c, hc⟩ := Option.isSome_iff_exists.mp h₂
  simp only [isLocalizedCrossWorker, PhaseTwoConfig.counterfactual, if_true, ha, hc]
  rfl

theorem writeOutput_counterfactual (hplain : cfg.localizeCrossWorkerNetwork = false)
    (hcover : ∀ i < cfg.bench.length, (slots (s.states i).bench.source).isSome ∧
      (slots (s.states i).bench.destination).isSome) (hrun : PhaseTwo.runResult cfg s = .ok ()) :
    ∃ out out', writeOutput cfg s = .ok out ∧ writeOutput (cfg.counterfactual slots) s = .ok out' ∧
      Counterfactual slots out out' ∧
      ∀ l ∈ out.delayInfo, ∃ i < cfg.bench.length, l = lineOf cfg (s.states i) false := by
  let cross : Nat → Bool :=
    fun i => slots (s.states i).bench.source != slots (s.states i).bench.destination
  have hno : ∀ i < cfg.bench.length, isLocalizedCrossWorker cfg (s.states i) = .ok false := by
    intro i _
    simp only [isLocalizedCrossWorker, hplain, Bool.false_eq_true, if_false]
  have hyes : ∀ i < cfg.bench.length, isLocalizedCrossWorker (cfg.counterfactual slots)
      (s.states i) =
      .ok (cross i) := fun i hi => isLocalizedCrossWorker_counterfactual (hcover i hi).1
        (hcover i hi).2
  obtain ⟨summary, hout, _⟩ := writeOutput_eq hrun hno
  obtain ⟨summary', hout', hcount⟩ :=
    writeOutput_eq (show PhaseTwo.runResult (cfg.counterfactual slots) s = .ok () from hrun) hyes
  refine ⟨_, _, hout, hout', ⟨?_, ?_, ?_⟩, ?_⟩
  · simp [PhaseTwoConfig.counterfactual]
  · intro i l l' hl hl'
    have hi : i < cfg.bench.length := by
      by_contra hge
      simp [not_lt.mp hge] at hl
    have hcf : (cfg.counterfactual slots).bench.length = cfg.bench.length := rfl
    rw [List.getElem?_map, List.getElem?_range hi] at hl
    rw [List.getElem?_map, hcf, List.getElem?_range hi] at hl'
    cases hl
    cases hl'
    refine ⟨rfl, fun hsame => ?_, fun hdiff => ?_⟩
    · have hcross : cross i = false := hsame
      simp only [hcross]
      rfl
    · have hcross : cross i = true := hdiff
      intro delay hdelay
      simp only [lineOf, hcross, if_true] at hdelay
      exact List.eq_of_mem_replicate hdelay
  · rw [hcount, List.countP_map]
    rfl
  · intro l hl
    obtain ⟨i, hi, rfl⟩ := List.mem_map.mp hl
    exact ⟨i, List.mem_range.mp hi, rfl⟩

theorem Counterfactual.delayInfo_eq {out out' : PhaseTwoOutput} (h : Counterfactual slots out out')
    (hsame : ∀ l ∈ out.delayInfo, crossWorker slots l = false) :
    out'.delayInfo = out.delayInfo := by
  refine List.ext_getElem h.length_eq ?_
  intro i hi' hi
  exact (h.line (List.getElem?_eq_getElem hi) (List.getElem?_eq_getElem hi')).2.1
    (hsame _ (List.getElem_mem hi))

end Law

section Main

variable {a : PhaseTwoArguments} {entries : List (Nat × Nat × Nat)} {slots : Nat → Option Nat}

theorem prepare_withMode {localize : Bool}
    (hslots : (a.withMode localize).workerSlots = .ok slots) :
    (a.withMode localize).prepare =
      if 65000 < a.maxDatagramBytes then
        .error "--max-datagram-bytes must fit in an IPv4 UDP datagram"
      else a.check.map fun _ => (a.withMode localize).config slots := by
  rw [PhaseTwoArguments.prepare, hslots]
  rfl

theorem prepare_localized (hrouting : a.workerRouting = some entries)
    (hslots : readWorkerRouting entries a.nodes = .ok slots) :
    (a.withMode true).prepare = (a.withMode false).prepare.map fun cfg =>
      cfg.counterfactual slots := by
  have hlocalized : (a.withMode true).workerSlots = .ok slots := by
    simp only [PhaseTwoArguments.workerSlots, PhaseTwoArguments.withMode, if_true, hrouting, hslots]
  have hplain : (a.withMode false).workerSlots = .ok fun _ => none := rfl
  rw [prepare_withMode hlocalized, prepare_withMode hplain]
  split
  · rfl
  · cases a.check <;> rfl

theorem prepare_plain {cfg : PhaseTwoConfig} (h : (a.withMode false).prepare = .ok cfg) :
    cfg.localizeCrossWorkerNetwork = false ∧ cfg.bench = a.bench := by
  have hplain : (a.withMode false).workerSlots = .ok fun _ => none := rfl
  rw [prepare_withMode hplain] at h
  split at h
  · cases h
  · cases hcheck : a.check with
    | error message =>
      rw [hcheck] at h
      cases h
    | ok _ =>
      rw [hcheck] at h
      cases h
      exact ⟨rfl, rfl⟩

theorem phaseTwoMain_ok {ns3 : Ns3} {fuel : Nat} {out : PhaseTwoOutput} :
    phaseTwoMain a ns3 fuel = some (.ok out) ↔ ∃ cfg s, a.prepare = .ok cfg ∧
      simulate cfg ns3 fuel [] (PhaseTwo.start cfg) = some (.ok s) ∧
      writeOutput cfg s = .ok out := by
  unfold phaseTwoMain
  constructor
  · intro h
    split at h
    · cases h
    · rename_i cfg hcfg
      obtain ⟨result, hresult, hout⟩ := Option.map_eq_some_iff.mp h
      cases result with
      | error message => cases hout
      | ok s => exact ⟨cfg, s, hcfg, hresult, hout⟩
  · rintro ⟨cfg, s, hcfg, hs, hout⟩
    rw [hcfg]
    simp only [hs, Option.map_some]
    exact congrArg some hout

theorem runResult_of_writeOutput {cfg : PhaseTwoConfig} {s : PhaseTwo} {out : PhaseTwoOutput}
    (h : writeOutput cfg s = .ok out) : PhaseTwo.runResult cfg s = .ok () := by
  unfold writeOutput at h
  cases hrun : PhaseTwo.runResult cfg s with
  | ok _ => rfl
  | error message =>
    rw [hrun] at h
    cases h

theorem counterfactual_runs {ns3 : Ns3} {fuel : Nat} {cfg : PhaseTwoConfig} {s : PhaseTwo}
    (hcover : ∀ record ∈ a.bench, (slots record.source).isSome ∧ (slots record.destination).isSome)
    (hcfg : (a.withMode false).prepare = .ok cfg)
    (hs : simulate cfg ns3 fuel [] (PhaseTwo.start cfg) = some (.ok s))
    (hrun : PhaseTwo.runResult cfg s = .ok ()) :
    ∃ out out', writeOutput cfg s = .ok out ∧ writeOutput (cfg.counterfactual slots) s = .ok out' ∧
      Counterfactual slots out out' ∧ ∀ l ∈ out.delayInfo, ∃ record ∈ a.bench,
        l.source = record.source ∧ l.destination = record.destination := by
  obtain ⟨hplain, hbench⟩ := prepare_plain hcfg
  have hrecord : ∀ i < cfg.bench.length, (s.states i).bench ∈ a.bench := by
    intro i hi
    rw [simulate_bench hs i, ← hbench]
    exact record_mem hi
  obtain ⟨out, out', hout, hout', hlaw, hlines⟩ :=
    writeOutput_counterfactual hplain (fun i hi => hcover _ (hrecord i hi)) hrun
  refine ⟨out, out', hout, hout', hlaw, ?_⟩
  intro l hl
  obtain ⟨i, hi, rfl⟩ := hlines l hl
  exact ⟨_, hrecord i hi, rfl, rfl⟩

theorem counterfactual_law {ns3 : Ns3} {fuel : Nat} (hrouting : a.workerRouting = some entries)
    (hslots : readWorkerRouting entries a.nodes = .ok slots)
    (hcover : ∀ record ∈ a.bench, (slots record.source).isSome ∧
      (slots record.destination).isSome) :
    (∀ out, phaseTwoMain (a.withMode false) ns3 fuel = some (.ok out) →
      ∃ out', phaseTwoMain (a.withMode true) ns3 fuel = some (.ok out') ∧
        Counterfactual slots out out' ∧
        ((∃ w, ∀ record ∈ a.bench, slots record.source = some w ∧
          slots record.destination = some w) →
          out'.delayInfo = out.delayInfo)) ∧
    (∀ out', phaseTwoMain (a.withMode true) ns3 fuel = some (.ok out') →
      ∃ out, phaseTwoMain (a.withMode false) ns3 fuel = some (.ok out)) := by
  have hprepare := prepare_localized hrouting hslots
  constructor
  · intro out hmain
    obtain ⟨cfg, s, hcfg, hs, hout⟩ := phaseTwoMain_ok.mp hmain
    obtain ⟨out₁, out', hout₁, hout', hlaw, hlines⟩ :=
      counterfactual_runs hcover hcfg hs (runResult_of_writeOutput hout)
    obtain rfl : out₁ = out := Except.ok.inj (hout₁.symm.trans hout)
    refine ⟨out', phaseTwoMain_ok.mpr ⟨cfg.counterfactual slots, s, ?_, ?_, hout'⟩, hlaw, ?_⟩
    · rw [hprepare, hcfg]
      rfl
    · rw [simulate_counterfactual]
      exact hs
    · rintro ⟨w, hw⟩
      refine hlaw.delayInfo_eq fun l hl => ?_
      obtain ⟨record, hmem, hsource, hdestination⟩ := hlines l hl
      rw [crossWorker, hsource, hdestination, (hw record hmem).1, (hw record hmem).2]
      exact bne_self_eq_false _
  · intro out' hmain
    obtain ⟨cfg', s, hcfg', hs, hout'⟩ := phaseTwoMain_ok.mp hmain
    rw [hprepare] at hcfg'
    cases hcfg : (a.withMode false).prepare with
    | error message =>
      rw [hcfg] at hcfg'
      cases hcfg'
    | ok cfg =>
      rw [hcfg] at hcfg'
      cases hcfg'
      rw [simulate_counterfactual] at hs
      have hrun : PhaseTwo.runResult (cfg.counterfactual slots) s = .ok () :=
        runResult_of_writeOutput hout'
      obtain ⟨out, _, hout, _⟩ := counterfactual_runs hcover hcfg hs hrun
      exact ⟨out, phaseTwoMain_ok.mpr ⟨cfg, s, hcfg, hs, hout⟩⟩

def twoWorkers : PhaseTwoArguments where
  bench := [⟨0, 0, 0, 0, 1, 0⟩, ⟨1, 2, 0, 3, 1, 0⟩]
  edges := [(0, 1), (0, 2), (1, 3), (2, 3)]
  nodes := 4
  cycleNs := 1
  flitBytes := 32
  maxDatagramBytes := 1400
  linkRate := "128Gbps"
  linkDelayNs := 1
  workerRouting := some [(0, 0, 0), (1, 0, 0), (0, 1, 1), (1, 1, 1)]
  localizeCrossWorkerNetwork := false

def twoWorkersNs3 : Ns3 := fun events _ =>
  [Ns3Event.send 0 false false, .advance 1, .send 1 false false, .advance 2,
    .transmitEnd 0 1 false 0, .advance 3, .receive 3 1 false 0][events.length]?

theorem counterfactual_law_two_workers : ∃ slots out out',
    readWorkerRouting [(0, 0, 0), (1, 0, 0), (0, 1, 1), (1, 1, 1)] 4 = .ok slots ∧
    phaseTwoMain (twoWorkers.withMode false) twoWorkersNs3 8 = some (.ok out) ∧
    phaseTwoMain (twoWorkers.withMode true) twoWorkersNs3 8 = some (.ok out') ∧
      Counterfactual slots out out' := by
  have hsqrt : Nat.sqrt 4 = 2 := Nat.sqrt_eq 2
  obtain ⟨slots, hslots⟩ : ∃ slots, readSlots 2 [(0, 0, 0), (1, 0, 0), (0, 1, 1), (1, 1, 1)]
      (fun _ => none) =
      .ok slots := ⟨_, rfl⟩
  have hrouting : readWorkerRouting [(0, 0, 0), (1, 0, 0), (0, 1, 1), (1, 1, 1)] 4 = .ok slots := by
    rw [readWorkerRouting, hsqrt]
    exact hslots
  obtain ⟨out, hout⟩ : ∃ out, phaseTwoMain (twoWorkers.withMode false) twoWorkersNs3 8 =
      some (.ok out) :=
    ⟨_, rfl⟩
  have hcover : ∀ record ∈ twoWorkers.bench,
      (slots record.source).isSome ∧ (slots record.destination).isSome := by
    cases hslots
    decide
  obtain ⟨out', hout', hlaw, _⟩ := (counterfactual_law rfl hrouting hcover).1 out hout
  exact ⟨slots, out, out', hrouting, hout, hout', hlaw⟩

end Main

end ChipSystemSim
