import ChipSystemSim.Decimal
import ChipSystemSim.PhaseTwoTiming

/-! What a finished run writes: times that are set stay, and the delays follow
from them. -/

namespace ChipSystemSim

open Collect

section Stable

variable {cfg : PhaseTwoConfig} {record : BenchRecord} {now : Nat} {st st' : TraceState}
  {net : Ns3Trace}

def DirectionState.Keeps (d d' : DirectionState) : Prop :=
  (0 ≤ d.transmitFinishNs → d'.transmitFinishNs = d.transmitFinishNs) ∧
    (0 ≤ d.arrivalNs → d'.arrivalNs = d.arrivalNs)

theorem DirectionState.Keeps.refl (d : DirectionState) : d.Keeps d := ⟨fun _ => rfl, fun _ => rfl⟩

theorem DirectionState.Keeps.trans {d d' d'' : DirectionState} (h : d.Keeps d')
    (h' : d'.Keeps d'') : d.Keeps d'' := by
  constructor
  · intro hset
    have heq := h.1 hset
    rw [← heq] at hset ⊢
    exact h'.1 hset
  · intro hset
    have heq := h.2 hset
    rw [← heq] at hset ⊢
    exact h'.2 hset

def TraceState.Keeps (st st' : TraceState) : Prop := ∀ b, (st.direction b).Keeps (st'.direction b)

theorem TraceState.Keeps.refl (st : TraceState) : st.Keeps st := fun _ => .refl _

theorem keeps_setDirection {b : Bool} {d : DirectionState} (h : (st.direction b).Keeps d) :
    st.Keeps (st.setDirection b d) := by
  intro c
  rw [TraceState.direction_setDirection]
  by_cases hc : c = b
  · subst hc
    rwa [Function.update_self]
  · rw [Function.update_of_ne hc]
    exact .refl _

theorem keeps_acknowledgeArrival {b : Bool} (h : st.Keeps st') :
    st.Keeps (acknowledgeArrival cfg now b st' net).1 := by
  have hsame : (acknowledgeArrival cfg now b st' net).1.direction = st'.direction := by
    unfold acknowledgeArrival scheduleAcknowledgement
    split
    · split <;> rfl
    · rfl
  intro c
  rw [hsame]
  exact h c

theorem keeps_onTransmitEnd {node f : Nat} {b : Bool} :
    st.Keeps (onTransmitEnd now node b f st) := by
  unfold onTransmitEnd
  dsimp only
  split
  · exact .refl st
  · rename_i hpending
    refine keeps_setDirection ⟨fun hset => ?_, fun _ => rfl⟩
    exact absurd (Or.inr hset) hpending

theorem keeps_onReceive {node f : Nat} {b : Bool} :
    st.Keeps (onReceive cfg now node b f st net).1 := by
  unfold onReceive
  dsimp only
  split
  · exact .refl st
  · rename_i hpending
    split
    · exact keeps_setDirection ⟨fun _ => rfl, fun _ => rfl⟩
    · refine keeps_acknowledgeArrival (keeps_setDirection ⟨fun _ => rfl, fun hset => ?_⟩)
      exact absurd (Or.inr hset) hpending

theorem TraceOk.keeps_sendDirection {b : Bool} (h : TraceOk cfg record now st net)
    (hdue : now ∈ net.scheduled b) {net' : Ns3Trace} :
    st.Keeps (ChipSystemSim.sendDirection cfg now b st net').1 := by
  unfold ChipSystemSim.sendDirection
  dsimp only
  split
  · rename_i hd
    refine keeps_acknowledgeArrival (keeps_setDirection ?_)
    rcases ((h.direction b).within hd).times with ⟨_, hfinish, harrival⟩ | ⟨u, hu, _⟩
    · constructor
      · intro hset
        omega
      · intro hset
        omega
    · rw [(h.due hdue).2.1] at hu
      cases hu
  · exact .refl st

namespace PhaseTwo

variable {s t : PhaseTwo}

theorem keeps_set {trace : Nat} {r : TraceState × Ns3Trace}
    (h : (s.states trace).Keeps r.1) (i : Nat) : (s.states i).Keeps ((s.set trace r).states i) := by
  by_cases hi : i = trace
  · subst hi
    simpa only [PhaseTwo.set, Function.update_self] using h
  · simpa only [PhaseTwo.set, Function.update_of_ne hi] using .refl _

theorem Invariant.keeps_step (h : Invariant cfg s) (hstep : Step cfg s t) (i : Nat) :
    (s.states i).Keeps (t.states i) := by
  obtain ⟨hallowed, happly⟩ := hstep
  rename_i e
  cases e with
  | advance time =>
    cases happly
    exact .refl _
  | send trace b refused =>
    simp only [apply] at happly
    split at happly
    · cases happly
    · cases happly
      exact keeps_set ((h.trace trace hallowed.1).keeps_sendDirection hallowed.2.1) i
  | transmitEnd node trace b f =>
    cases happly
    exact keeps_set keeps_onTransmitEnd i
  | receive node trace b f =>
    cases happly
    exact keeps_set keeps_onReceive i

theorem Invariant.keeps_steps (h : Invariant cfg s) (hsteps : Steps cfg s t) (i : Nat) :
    (s.states i).Keeps (t.states i) := by
  have hboth : Invariant cfg t ∧ (s.states i).Keeps (t.states i) := by
    induction hsteps with
    | refl => exact ⟨h, .refl _⟩
    | tail _ hstep ih =>
      exact ⟨ih.1.step hstep, fun b => (ih.2 b).trans (ih.1.keeps_step hstep i b)⟩
  exact hboth.2

end PhaseTwo

end Stable

section Delays

variable {cfg : PhaseTwoConfig} {now : Nat} {d : DirectionState} {sentAt : List Nat}
  {packets : List (Nat × Nat)} {left reached : Nat → Option Nat}

theorem DirectionOk.times_lt (h : DirectionOk cfg now d sentAt packets left reached) {u : Nat}
    (hsent : ∀ v ∈ sentAt, v = u) (hfinish : 0 ≤ d.transmitFinishNs) (harrival : 0 ≤ d.arrivalNs)
    (hnow : now < 2 ^ 63) (hcycle : 0 < cfg.cycleNs) :
    (u : Int) < d.transmitFinishNs ∧ d.transmitFinishNs ≤ d.arrivalNs ∧ d.arrivalNs < 2 ^ 63 := by
  by_cases hd : d.source = d.destination
  · rcases (h.within hd).times with ⟨_, hunset, _⟩ | ⟨v, hv, hbound, h₁, h₂⟩
    · omega
    · obtain rfl := hsent v (by rw [hv]; exact List.mem_singleton_self v)
      omega
  · have hok := h.remote hd
    obtain ⟨t, ht⟩ := Int.eq_ofNat_of_zero_le hfinish
    obtain ⟨a, ha⟩ := Int.eq_ofNat_of_zero_le harrival
    have hlast := (hok.transmit.finish_iff t).mp ht
    have hlast' := (hok.arrive.finish_iff a).mp ha
    have hlt : t < a := hlast.lt hlast' fun x v hx => (hok.reached_after hx).2
    obtain ⟨_, x, _, hx⟩ := hlast
    obtain ⟨_, y, _, hy⟩ := hlast'
    obtain ⟨_, hne, hafter⟩ := hok.left_after hx
    have hy := (hok.reached_after hy).1
    obtain ⟨v, hv⟩ := List.exists_mem_of_ne_nil sentAt hne
    have hvt := hafter v hv
    rw [hsent v hv] at hvt
    omega

theorem ceilNanosecondsToCycles_eq {ns : Int} {c : Nat} (hpos : 0 < ns) (hns : ns < 2 ^ 63)
    (hc : 0 < c) (hmax : c < 2 ^ 63) : ceilNanosecondsToCycles ns c = (ns.toNat + c - 1) / c := by
  have hlt : ns.toNat + c - 1 < 2 ^ 64 := by omega
  rw [ceilNanosecondsToCycles, if_neg (by omega), ceilDivide, asUInt64, Nat.mod_eq_of_lt hlt]

/-- The delays come in pairs: at least one cycle at the source, and no less at
the destination. -/
def PairedDelays : List Nat → Prop
  | [] => True
  | [_] => False
  | source :: destination :: rest => 1 ≤ source ∧ source ≤ destination ∧ PairedDelays rest

theorem pairedDelays_append {l l' : List Nat} (h : PairedDelays l) (h' : PairedDelays l') :
    PairedDelays (l ++ l') := by
  induction l using PairedDelays.induct with
  | case1 => exact h'
  | case2 x => exact h.elim
  | case3 a c rest ih => exact ⟨h.1, h.2.1, ih h.2.2⟩

theorem pairedDelays_direction {startNs : Int} (hstart : 0 ≤ startNs) (hcycle : 0 < cfg.cycleNs)
    (hmax : cfg.cycleNs < 2 ^ 63) (h₁ : startNs < d.transmitFinishNs)
    (h₂ : d.transmitFinishNs ≤ d.arrivalNs) (h₃ : d.arrivalNs < 2 ^ 63) :
    PairedDelays (directionDelays cfg startNs d) := by
  unfold directionDelays
  rw [ceilNanosecondsToCycles_eq (by omega) (by omega) hcycle hmax,
    ceilNanosecondsToCycles_eq (by omega) (by omega) hcycle hmax]
  refine ⟨?_, Nat.div_le_div_right (by omega), trivial⟩
  rw [Nat.one_le_div_iff hcycle]
  omega

theorem asInt64_of_lt {n : Nat} (h : n < 2 ^ 63) : asInt64 n = n := by
  unfold asInt64
  exact Int.bmod_eq_of_le_mul_two (by omega) (by omega)

end Delays

section Output

theorem forM_eq_ok {α ε : Type} {f : α → Except ε Unit} {l : List α} (h : l.forM f = .ok ()) :
    ∀ x ∈ l, f x = .ok () := by
  induction l with
  | nil => simp
  | cons x l ih =>
    change (f x >>= fun _ => l.forM f) = .ok () at h
    cases hx : f x with
    | error e =>
      rw [hx] at h
      cases h
    | ok u =>
      rw [hx] at h
      intro y hy
      rcases List.mem_cons.mp hy with rfl | hy
      · exact hx
      · exact ih h y hy

variable {cfg : PhaseTwoConfig} {st : TraceState}

def lineOf (cfg : PhaseTwoConfig) (st : TraceState) (localized : Bool) : DelayLine where
  sourceCycle := st.bench.sourceCycle
  source := st.bench.source
  destination := st.bench.destination
  descriptor := st.bench.descriptor
  count := if st.special then 4 else 2
  delays := if localized then List.replicate (if st.special then 4 else 2) 0
    else networkDelays cfg st

theorem delayLine_eq {localized : Bool} (h : isLocalizedCrossWorker cfg st = .ok localized) :
    delayLine cfg st = .ok (lineOf cfg st localized) := by
  rw [delayLine, h]
  rfl

theorem length_networkDelays : (networkDelays cfg st).length = if st.special then 4 else 2 := by
  unfold networkDelays
  split <;> rfl

theorem length_delays {localized : Bool} :
    (lineOf cfg st localized).delays.length = (lineOf cfg st localized).count := by
  cases localized
  · exact length_networkDelays
  · simp [lineOf]

/-- The worker routing names the worker of every endpoint, if it is needed. -/
def PhaseTwoConfig.Covered (cfg : PhaseTwoConfig) : Prop :=
  cfg.localizeCrossWorkerNetwork = true →
    ∀ record ∈ cfg.bench, (cfg.workerSlots record.source).isSome ∧
    (cfg.workerSlots record.destination).isSome

theorem record_mem {i : Nat} (hi : i < cfg.bench.length) : cfg.record i ∈ cfg.bench := by
  simp only [PhaseTwoConfig.record, List.getD_eq_getElem?_getD, List.getElem?_eq_getElem hi,
    Option.getD_some]
  exact List.getElem_mem hi

theorem PhaseTwoConfig.Covered.localized (h : cfg.Covered) (hmem : st.bench ∈ cfg.bench) :
    ∃ localized, isLocalizedCrossWorker cfg st = .ok localized := by
  unfold isLocalizedCrossWorker
  split
  · rename_i hflag
    obtain ⟨h₁, h₂⟩ := h hflag st.bench hmem
    obtain ⟨a, ha⟩ := Option.isSome_iff_exists.mp h₁
    obtain ⟨c, hc⟩ := Option.isSome_iff_exists.mp h₂
    exact ⟨a != c, by rw [ha, hc]⟩
  · exact ⟨false, rfl⟩

end Output

namespace PhaseTwo

variable {cfg : PhaseTwoConfig} {s : PhaseTwo} {record : BenchRecord} {now : Nat} {st : TraceState}
  {net : Ns3Trace}

theorem complete_of_runResult (h : runResult cfg s = .ok ()) {i : Nat} (hi : i < cfg.bench.length) :
    (0 ≤ (s.states i).forward.transmitFinishNs ∧ 0 ≤ (s.states i).forward.arrivalNs) ∧
    ((s.states i).special = true →
      0 ≤ (s.states i).acknowledgement.transmitFinishNs ∧
      0 ≤ (s.states i).acknowledgement.arrivalNs) := by
  have hi := forM_eq_ok h i (List.mem_range.mpr hi)
  dsimp only at hi
  split at hi
  · cases hi
  · rename_i hforward
    split at hi
    · cases hi
    · rename_i hack
      refine ⟨by omega, fun hspecial => ?_⟩
      have hack : ¬((s.states i).acknowledgement.transmitFinishNs < 0 ∨
          (s.states i).acknowledgement.arrivalNs < 0) := fun hneg => hack ⟨hspecial, hneg⟩
      omega

theorem pairedDelays_networkDelays (h : TraceOk cfg record now st net) (hnow : now < 2 ^ 63)
    (hcycle : 0 < cfg.cycleNs) (hmax : cfg.cycleNs < 2 ^ 63)
    (hsource : record.sourceCycle * cfg.cycleNs < 2 ^ 63)
    (hforward : 0 ≤ st.forward.transmitFinishNs ∧ 0 ≤ st.forward.arrivalNs)
    (hack : st.special = true → 0 ≤ st.acknowledgement.transmitFinishNs ∧
      0 ≤ st.acknowledgement.arrivalNs) :
    PairedDelays (networkDelays cfg st) := by
  have hbench := h.bench_eq
  have hstart : ∀ u ∈ net.sentAt false, u = record.sourceCycle * cfg.cycleNs := by
    intro u hu
    have hmem : u ∈ net.scheduled false ++ net.sentAt false := List.mem_append_right _ hu
    rw [h.forwardCall, List.mem_singleton, PhaseTwoConfig.startNs, asUInt64,
      Nat.mod_eq_of_lt (by omega)] at hmem
    exact hmem
  have hpair : PairedDelays
      (directionDelays cfg (asInt64 (st.bench.sourceCycle * cfg.cycleNs)) st.forward) := by
    obtain ⟨h₁, h₂, h₃⟩ := (h.direction false).times_lt hstart hforward.1 hforward.2 hnow hcycle
    rw [hbench, asInt64_of_lt hsource]
    exact pairedDelays_direction (by omega) hcycle hmax h₁ h₂ h₃
  unfold networkDelays
  dsimp only
  split
  · rename_i hspecial
    have hscheduled := h.scheduled_iff.mpr ⟨hspecial, hforward.2⟩
    have hnonneg : 0 ≤ acknowledgementStartNs cfg st := le_max_of_le_left hforward.2
    have hack' : ∀ u ∈ net.sentAt true, u = (acknowledgementStartNs cfg st).toNat := by
      intro u hu
      have hmem : u ∈ net.scheduled true ++ net.sentAt true := List.mem_append_right _ hu
      rwa [h.acknowledgementCall, if_pos hscheduled, List.mem_singleton] at hmem
    obtain ⟨hset₁, hset₂⟩ := hack hspecial
    obtain ⟨h₁, h₂, h₃⟩ := (h.direction true).times_lt hack' hset₁ hset₂ hnow hcycle
    rw [Int.toNat_of_nonneg hnonneg] at h₁
    exact pairedDelays_append hpair (pairedDelays_direction hnonneg hcycle hmax h₁ h₂ h₃)
  · exact hpair

theorem Invariant.acknowledgement_sent (h : Invariant cfg s) {i : Nat} (hi : i < cfg.bench.length) :
    ((s.net i).sentAt true).length ≤ 1 ∧
    ∀ u ∈ (s.net i).sentAt true, isSpecial (cfg.record i).descriptor = true ∧
      0 ≤ (s.states i).forward.arrivalNs ∧
      (u : Int) = max (s.states i).forward.arrivalNs (cfg.destinationNs (cfg.record i)) := by
  have hok := h.trace i hi
  have hcall := hok.acknowledgementCall
  split at hcall
  · rename_i hflag
    obtain ⟨hspecial, hset⟩ := hok.scheduled_iff.mp hflag
    have hnonneg : 0 ≤ acknowledgementStartNs cfg (s.states i) := le_max_of_le_left hset
    have hlength := congrArg List.length hcall
    rw [List.length_append, List.length_singleton] at hlength
    refine ⟨by omega, ?_⟩
    intro u hu
    have hmem : u ∈ (s.net i).scheduled true ++ (s.net i).sentAt true := List.mem_append_right _ hu
    rw [hcall, List.mem_singleton] at hmem
    refine ⟨hok.special_eq ▸ hspecial, hset, ?_⟩
    rw [hmem, Int.toNat_of_nonneg hnonneg, acknowledgementStartNs, hok.bench_eq]
  · rw [(List.append_eq_nil_iff.mp hcall).2]
    exact ⟨Nat.zero_le _, fun u hu => by cases hu⟩

theorem Invariant.writeDelayInfo (h : Invariant cfg s) (hrun : runResult cfg s = .ok ())
    (hcycle : 0 < cfg.cycleNs) (hmax : cfg.cycleNs < 2 ^ 63)
    (hsource : ∀ record ∈ cfg.bench, record.sourceCycle * cfg.cycleNs < 2 ^ 63)
    (hcovered : cfg.Covered) :
    ∃ lines, ChipSystemSim.writeDelayInfo cfg s = .ok lines ∧ lines.length = cfg.bench.length ∧
      ∀ i < cfg.bench.length, ∃ l, lines[i]? = some l ∧ l.sourceCycle = (cfg.record i).sourceCycle ∧
        l.source = (cfg.record i).source ∧ l.destination = (cfg.record i).destination ∧
        l.descriptor = (cfg.record i).descriptor ∧
        l.count = (if isSpecial (cfg.record i).descriptor then 4 else 2) ∧
        l.delays.length = l.count ∧
        (isLocalizedCrossWorker cfg (s.states i) = .ok false → PairedDelays l.delays) := by
  have hlocalized : ∀ i, ∃ localized, i < cfg.bench.length →
      isLocalizedCrossWorker cfg (s.states i) = .ok localized := by
    intro i
    by_cases hi : i < cfg.bench.length
    · have hmem : (s.states i).bench ∈ cfg.bench := by
        rw [(h.trace i hi).bench_eq]
        exact record_mem hi
      obtain ⟨localized, hl⟩ := hcovered.localized hmem
      exact ⟨localized, fun _ => hl⟩
    · exact ⟨false, fun hi' => absurd hi' hi⟩
  choose localized hl using hlocalized
  refine ⟨(List.range cfg.bench.length).map fun i => lineOf cfg (s.states i) (localized i), ?_,
    by simp, ?_⟩
  · exact mapM_eq_ok fun i hi => delayLine_eq (hl i (List.mem_range.mp hi))
  · intro i hi
    have hok := h.trace i hi
    refine ⟨lineOf cfg (s.states i) (localized i), by simp [hi],
      congrArg BenchRecord.sourceCycle hok.bench_eq, congrArg BenchRecord.source hok.bench_eq,
      congrArg BenchRecord.destination hok.bench_eq, congrArg BenchRecord.descriptor hok.bench_eq,
      by rw [← hok.special_eq]; rfl, length_delays, ?_⟩
    intro hfalse
    have hnot : localized i = false := Except.ok.inj ((hl i hi).symm.trans hfalse)
    obtain ⟨hforward, hack⟩ := complete_of_runResult hrun hi
    rw [hnot]
    exact pairedDelays_networkDelays hok h.clock hcycle hmax (hsource _ (record_mem hi))
      hforward hack

theorem phase_two_timing (hs : Steps cfg (start cfg) s) :
    (∀ i < cfg.bench.length, (s.states i).fixed = (cfg.traceState (cfg.record i)).fixed ∧
      ∀ b, let d := (s.states i).direction b
        (d.source ≠ d.destination → ∀ t : Nat,
          (d.transmitFinishNs = t ↔ LastAt (Finset.range d.fragments) ((s.net i).left b) t) ∧
          (d.arrivalNs = t ↔ LastAt (Finset.range d.fragments) ((s.net i).reached b) t)) ∧
        (d.source = d.destination →
          ((s.net i).sentAt b = [] ∧ d.transmitFinishNs = -1 ∧ d.arrivalNs = -1) ∨
          ∃ u : Nat, (s.net i).sentAt b = [u] ∧ d.transmitFinishNs = u + cfg.cycleNs ∧
            d.arrivalNs = u + cfg.cycleNs)) ∧
    (∀ t, Steps cfg s t → ∀ i, (s.states i).Keeps (t.states i)) ∧
    (∀ i < cfg.bench.length, ((s.net i).sentAt true).length ≤ 1 ∧
      ∀ u ∈ (s.net i).sentAt true, isSpecial (cfg.record i).descriptor = true ∧
        0 ≤ (s.states i).forward.arrivalNs ∧
        (u : Int) = max (s.states i).forward.arrivalNs (cfg.destinationNs (cfg.record i))) ∧
    (runResult cfg s = .ok () → 0 < cfg.cycleNs → cfg.cycleNs < 2 ^ 63 →
      (∀ record ∈ cfg.bench, record.sourceCycle * cfg.cycleNs < 2 ^ 63) → cfg.Covered →
      ∃ lines, ChipSystemSim.writeDelayInfo cfg s = .ok lines ∧ lines.length = cfg.bench.length ∧
        ∀ i < cfg.bench.length, ∃ l, lines[i]? = some l ∧
        l.sourceCycle = (cfg.record i).sourceCycle ∧
          l.source = (cfg.record i).source ∧ l.destination = (cfg.record i).destination ∧
          l.descriptor = (cfg.record i).descriptor ∧
          l.count = (if isSpecial (cfg.record i).descriptor then 4 else 2) ∧
          l.delays.length = l.count ∧
          (isLocalizedCrossWorker cfg (s.states i) = .ok false → PairedDelays l.delays)) := by
  have hinv := invariant_steps hs
  refine ⟨?_, fun t ht i => hinv.keeps_steps ht i, fun i hi => hinv.acknowledgement_sent hi,
    hinv.writeDelayInfo⟩
  intro i hi
  have hok := hinv.trace i hi
  refine ⟨hok.fixed, fun b => ⟨fun hd t => ?_, fun hd => ?_⟩⟩
  · have hremote := (hok.direction b).remote hd
    exact ⟨hremote.transmit.finish_iff t, hremote.arrive.finish_iff t⟩
  · rcases ((hok.direction b).within hd).times with hunset | ⟨u, hu, _, h₁, h₂⟩
    · exact Or.inl hunset
    · exact Or.inr ⟨u, hu, h₁, h₂⟩

def barrierTrace : PhaseTwoConfig where
  bench := [⟨1, 5, 3, 2, 2, 0x20000⟩]
  cycleNs := 2
  flitBytes := 32
  maxDatagramBytes := 32
  workerSlots := fun _ => none
  localizeCrossWorkerNetwork := false

def barrierEvents : List Ns3Event :=
  [.advance 2, .send 0 false false, .advance 3, .transmitEnd 3 0 false 0, .advance 4,
    .transmitEnd 3 0 false 1, .transmitEnd 1 0 false 0, .advance 5,
    .receive 0 0 false 0, .advance 6, .receive 0 0 false 1, .advance 10, .send 0 true false,
    .advance 12, .transmitEnd 0 0 true 0, .advance 14, .receive 3 0 true 0]

theorem phase_two_timing_barrier : ∃ s lines, Steps barrierTrace (start barrierTrace) s ∧
    (s.net 0).sentAt true = [10] ∧ ChipSystemSim.writeDelayInfo barrierTrace s = .ok lines ∧
    lines.length = 1 := by
  obtain ⟨s, hs⟩ : ∃ s, exec barrierTrace (start barrierTrace) barrierEvents = some s :=
    Option.isSome_iff_exists.mp (by decide)
  have hsteps := exec_steps _ hs
  have hsent : (exec barrierTrace (start barrierTrace) barrierEvents).map
      (fun s => (s.net 0).sentAt true) =
      some [10] := by decide
  have hrun : (exec barrierTrace (start barrierTrace) barrierEvents).map
      (fun s => (runResult barrierTrace s).isOk) = some true := by decide
  rw [hs] at hsent hrun
  have hok : runResult barrierTrace s = .ok () := by
    cases hr : runResult barrierTrace s with
    | ok _ => rfl
    | error e => simp [hr, Except.isOk, Except.toBool] at hrun
  obtain ⟨lines, hlines, hlength, _⟩ :=
    (phase_two_timing hsteps).2.2.2 hok (by decide) (by decide) (by decide)
    (by intro hflag; cases hflag)
  exact ⟨s, lines, hsteps, Option.some.inj hsent, hlines, hlength⟩

def sameNodeTrace : PhaseTwoConfig where
  bench := [⟨0, 0, 3, 3, 1, 0⟩]
  cycleNs := 1
  flitBytes := 32
  maxDatagramBytes := 1400
  workerSlots := fun _ => none
  localizeCrossWorkerNetwork := false

/-- Its times are set when it is sent, and nothing leaves or arrives. -/
theorem same_node_times_without_fragments :
    ¬∀ s, Steps sameNodeTrace (start sameNodeTrace) s → ∀ t : Nat,
      (s.states 0).forward.transmitFinishNs = t →
        LastAt (Finset.range (s.states 0).forward.fragments) ((s.net 0).left false) t := by
  intro hlast
  obtain ⟨s, hs⟩ : ∃ s, exec sameNodeTrace (start sameNodeTrace) [.send 0 false false] = some s :=
    Option.isSome_iff_exists.mp (by decide)
  have hset : (exec sameNodeTrace (start sameNodeTrace) [.send 0 false false]).map
      (fun s => ((s.states 0).forward.transmitFinishNs, (s.net 0).left false 0,
        (s.states 0).forward.fragments)) =
        some (1, none, 1) := by decide
  rw [hs] at hset
  simp only [Option.map_some, Option.some.injEq, Prod.mk.injEq] at hset
  obtain ⟨hfinish, hleft, hfragments⟩ := hset
  obtain ⟨_, x, hx, hxt⟩ := hlast s (exec_steps _ hs) 1 hfinish
  rw [hfragments, Finset.mem_range, Nat.lt_one_iff] at hx
  rw [hx, hleft] at hxt
  cases hxt

end PhaseTwo

end ChipSystemSim
