import ChipSystemSim.PhaseTwoDelays

/-! The packets of a forward transfer: what their sizes add up to, with the product in 64
bits and the number of fragments in 32. -/

namespace ChipSystemSim

open Collect

section Sizes

/-- A prefix of the fragments holds as much of the payload as fits. -/
theorem sum_fragment_sizes (size bytes n : Nat) :
    ((List.range n).map fun fragment => min size (bytes - fragment * size)).sum =
      min (n * size) bytes := by
  induction n with
  | zero => simp
  | succ n ih =>
    rw [List.range_succ, List.map_append, List.sum_append, ih, List.map_singleton,
      List.sum_singleton, Nat.succ_mul]
    omega

theorem ceilDivide_of_lt {n d : Nat} (h : n + d - 1 < 2 ^ 64) :
    ceilDivide n d = (n + d - 1) / d := by
  rw [ceilDivide, asUInt64, Nat.mod_eq_of_lt h]

/-- A fragment before the last one that is counted ends before the payload does. -/
theorem mul_lt_of_lt_ceilDivide {n d k : Nat} (hd : 0 < d) (h : k < ceilDivide n d) :
    k * d < n := by
  have hmod : asUInt64 (n + d - 1) ≤ n + d - 1 := Nat.mod_le _ _
  have hdiv : (k + 1) * d ≤ asUInt64 (n + d - 1) := (Nat.le_div_iff_mul_le hd).mp h
  rw [Nat.succ_mul] at hdiv
  omega

variable {cfg : PhaseTwoConfig} {bytes fragment : Nat}

theorem fragmentCount_lt : cfg.fragmentCount bytes < 2 ^ 32 := Nat.mod_lt _ (by decide)

theorem fragment_offset_le (hmin : 1 ≤ cfg.maxDatagramBytes)
    (h : fragment < cfg.fragmentCount bytes) : fragment * cfg.maxDatagramBytes ≤ bytes := by
  have hcount : fragment < max 1 (ceilDivide bytes cfg.maxDatagramBytes) :=
    h.trans_le (Nat.mod_le _ _)
  rcases Nat.eq_zero_or_pos fragment with rfl | hpos
  · omega
  · exact (mul_lt_of_lt_ceilDivide hmin (by omega)).le

/-- The subtraction of `FragmentBytes` does not wrap. -/
theorem fragmentBytes_eq (hmin : 1 ≤ cfg.maxDatagramBytes) (hbytes : bytes < 2 ^ 64)
    (h : fragment < cfg.fragmentCount bytes) :
    cfg.fragmentBytes bytes fragment = min cfg.maxDatagramBytes
      (bytes - fragment * cfg.maxDatagramBytes) := by
  have hle := fragment_offset_le hmin h
  have hoffset : asUInt64 (fragment * cfg.maxDatagramBytes) = fragment * cfg.maxDatagramBytes :=
    Nat.mod_eq_of_lt (by omega)
  rw [PhaseTwoConfig.fragmentBytes, hoffset]
  congr 1
  rw [asUInt64]
  omega

end Sizes

section Forward

variable {cfg : PhaseTwoConfig} {record : BenchRecord} {now : Nat} {net : Ns3Trace}

def BenchRecord.payloadBytes (record : BenchRecord) (cfg : PhaseTwoConfig) : Nat :=
  record.flits * cfg.flitBytes

/-- The fragments that the 64-bit product is cut into. -/
def PhaseTwoConfig.forwardFragments (cfg : PhaseTwoConfig) (record : BenchRecord) : Nat :=
  cfg.fragmentCount (asUInt64 (record.payloadBytes cfg))

def PhaseTwoConfig.forwardSizes (cfg : PhaseTwoConfig) (record : BenchRecord) (now : Nat)
    (net : Ns3Trace) : List Nat :=
  ((sendDirection cfg now false (cfg.traceState record) net).2.packets false).map Prod.snd

theorem forwardSizes_eq (hmin : 1 ≤ cfg.maxDatagramBytes) (hmax : cfg.maxDatagramBytes ≤ 65000)
    (hroute : record.source ≠ routingDestination record) :
    cfg.forwardSizes record now net = (List.range (cfg.forwardFragments record)).map fun fragment =>
      min cfg.maxDatagramBytes (asUInt64 (record.payloadBytes cfg) - fragment *
        cfg.maxDatagramBytes) := by
  have hpackets : cfg.forwardSizes record now net = (List.range (cfg.forwardFragments record)).map
      fun fragment =>
      cfg.fragmentBytes (asUInt64 (record.payloadBytes cfg)) fragment % 2 ^ 32 := by
    simp only [PhaseTwoConfig.forwardSizes, sendDirection, TraceState.direction,
      PhaseTwoConfig.traceState, Bool.false_eq_true, if_false, if_neg hroute, Function.update_self,
      List.map_map]
    rfl
  rw [hpackets]
  apply List.map_congr_left
  intro fragment hfragment
  have hbytes : asUInt64 (record.payloadBytes cfg) < 2 ^ 64 := Nat.mod_lt _ (by decide)
  rw [fragmentBytes_eq hmin hbytes (List.mem_range.mp hfragment)]
  exact Nat.mod_eq_of_lt (by omega)

theorem sum_forwardSizes (hmin : 1 ≤ cfg.maxDatagramBytes) (hmax : cfg.maxDatagramBytes ≤ 65000)
    (hroute : record.source ≠ routingDestination record) :
    (cfg.forwardSizes record now net).sum =
      min (cfg.forwardFragments record * cfg.maxDatagramBytes)
        (asUInt64 (record.payloadBytes cfg)) := by
  rw [forwardSizes_eq hmin hmax hroute, sum_fragment_sizes]

def PhaseTwoConfig.PayloadFits (cfg : PhaseTwoConfig) (record : BenchRecord) : Prop :=
  record.payloadBytes cfg + cfg.maxDatagramBytes - 1 < 2 ^ 64 ∧
    (record.payloadBytes cfg + cfg.maxDatagramBytes - 1) / cfg.maxDatagramBytes < 2 ^ 32

instance (cfg : PhaseTwoConfig) (record : BenchRecord) : Decidable (cfg.PayloadFits record) :=
  inferInstanceAs (Decidable (_ ∧ _))

theorem forwardFragments_of_fits (hmin : 1 ≤ cfg.maxDatagramBytes)
    (hpos : 1 ≤ record.payloadBytes cfg) (hfits : cfg.PayloadFits record) :
    asUInt64 (record.payloadBytes cfg) = record.payloadBytes cfg ∧
      cfg.forwardFragments record = ceilDivide (record.payloadBytes cfg) cfg.maxDatagramBytes ∧
      cfg.forwardFragments record = (record.payloadBytes cfg + cfg.maxDatagramBytes - 1) /
        cfg.maxDatagramBytes := by
  have hbytes : asUInt64 (record.payloadBytes cfg) = record.payloadBytes cfg := by
    have hlt := hfits.1
    exact Nat.mod_eq_of_lt (by omega)
  have hceil := ceilDivide_of_lt hfits.1
  have hone : 1 ≤ (record.payloadBytes cfg + cfg.maxDatagramBytes - 1) / cfg.maxDatagramBytes :=
    (Nat.one_le_div_iff hmin).mpr (by omega)
  have hcount : cfg.forwardFragments record = ceilDivide (record.payloadBytes cfg)
      cfg.maxDatagramBytes := by
    rw [PhaseTwoConfig.forwardFragments, hbytes, PhaseTwoConfig.fragmentCount, hceil,
      max_eq_right hone]
    exact Nat.mod_eq_of_lt hfits.2
  exact ⟨hbytes, hcount, hcount.trans hceil⟩

theorem forwardSizes_of_fits (hmin : 1 ≤ cfg.maxDatagramBytes) (hmax : cfg.maxDatagramBytes ≤ 65000)
    (hroute : record.source ≠ routingDestination record) (hpos : 1 ≤ record.payloadBytes cfg)
    (hfits : cfg.PayloadFits record) :
    (∀ size ∈ cfg.forwardSizes record now net, 1 ≤ size ∧ size ≤ cfg.maxDatagramBytes) ∧
      (cfg.forwardSizes record now net).sum = record.payloadBytes cfg := by
  obtain ⟨hbytes, hcount, hnumber⟩ := forwardFragments_of_fits hmin hpos hfits
  constructor
  · intro size hsize
    rw [forwardSizes_eq hmin hmax hroute, hbytes, List.mem_map] at hsize
    obtain ⟨fragment, hfragment, rfl⟩ := hsize
    rw [List.mem_range, hcount] at hfragment
    have hlt := mul_lt_of_lt_ceilDivide hmin hfragment
    omega
  · have hcovers : record.payloadBytes cfg ≤ cfg.forwardFragments record *
        cfg.maxDatagramBytes := by
      have hdiv := Nat.lt_mul_div_succ (record.payloadBytes cfg + cfg.maxDatagramBytes - 1) hmin
      rw [← hnumber, Nat.mul_succ, Nat.mul_comm] at hdiv
      omega
    rw [sum_forwardSizes hmin hmax hroute, hbytes, min_eq_right hcovers]

/-- Fewer than 2^32 fragments of an allowed size hold less than 2^48 bytes. -/
theorem fits_of_sum (hmin : 1 ≤ cfg.maxDatagramBytes) (hmax : cfg.maxDatagramBytes ≤ 65000)
    (hroute : record.source ≠ routingDestination record)
    (h : (cfg.forwardSizes record now net).sum = record.payloadBytes cfg) :
    cfg.PayloadFits record := by
  rw [sum_forwardSizes hmin hmax hroute] at h
  have hlt : cfg.forwardFragments record < 2 ^ 32 := fragmentCount_lt
  have hcovers : record.payloadBytes cfg ≤ cfg.forwardFragments record *
      cfg.maxDatagramBytes := by omega
  have hsmall : cfg.forwardFragments record * cfg.maxDatagramBytes ≤ 2 ^ 32 * 65000 :=
    Nat.mul_le_mul hlt.le hmax
  refine ⟨by omega, ?_⟩
  calc (record.payloadBytes cfg + cfg.maxDatagramBytes - 1) / cfg.maxDatagramBytes
    _ ≤ cfg.forwardFragments record := by
        apply Nat.le_of_lt_succ
        rw [Nat.div_lt_iff_lt_mul hmin, Nat.succ_mul]
        omega
    _ < 2 ^ 32 := hlt

end Forward

namespace PhaseTwo

variable {cfg : PhaseTwoConfig} {s : PhaseTwo} {trace : Nat}

theorem Invariant.forward (h : Invariant cfg s) (htrace : trace < cfg.bench.length)
    (hroute : (cfg.record trace).source ≠ routingDestination (cfg.record trace)) :
    (s.states trace).forward.fragments = cfg.forwardFragments (cfg.record trace) ∧
      RemoteOk s.now (s.states trace).forward ((s.net trace).sentAt false)
        ((s.net trace).packets false)
        ((s.net trace).left false) ((s.net trace).reached false) := by
  have hroutes := congrFun (congrArg (fun x => x.2.2) (h.trace trace htrace).fixed) false
  simp only [TraceState.fixed, DirectionState.route, TraceState.direction,
    PhaseTwoConfig.traceState, Bool.false_eq_true, if_false, Prod.mk.injEq] at hroutes
  obtain ⟨hsource, hdestination, hfragments⟩ := hroutes
  refine ⟨hfragments, ((h.trace trace htrace).direction false).remote ?_⟩
  show (s.states trace).forward.source ≠ (s.states trace).forward.destination
  rw [hsource, hdestination]
  exact hroute

/-- Nothing ever finishes without fragments. -/
theorem runResult_of_no_fragments (h : Invariant cfg s) (htrace : trace < cfg.bench.length)
    (hroute : (cfg.record trace).source ≠ routingDestination (cfg.record trace))
    (hzero : cfg.forwardFragments (cfg.record trace) = 0) : runResult cfg s ≠ .ok () := by
  intro hrun
  obtain ⟨hfragments, hremote⟩ := h.forward htrace hroute
  obtain ⟨⟨hfinish, -⟩, -⟩ := complete_of_runResult hrun htrace
  obtain ⟨time, htime⟩ := Int.eq_ofNat_of_zero_le hfinish
  obtain ⟨-, fragment, hfragment, -⟩ := (hremote.transmit.finish_iff time).mp htime
  rw [hfragments, hzero] at hfragment
  simp at hfragment

theorem forward_complete (h : Invariant cfg s) (htrace : trace < cfg.bench.length)
    (hroute : (cfg.record trace).source ≠ routingDestination (cfg.record trace))
    (hsome : cfg.forwardFragments (cfg.record trace) ≠ 0)
    (hall : ∀ fragment < cfg.forwardFragments (cfg.record trace),
      ((s.net trace).left false fragment).isSome ∧ ((s.net trace).reached false fragment).isSome) :
    0 ≤ (s.states trace).forward.transmitFinishNs ∧ 0 ≤ (s.states trace).forward.arrivalNs := by
  obtain ⟨hfragments, hremote⟩ := h.forward htrace hroute
  have hne : (Finset.range (s.states trace).forward.fragments).Nonempty := by
    rw [hfragments]
    exact Finset.nonempty_range_iff.mpr hsome
  rw [← hfragments] at hall
  constructor
  · obtain ⟨time, htime⟩ := exists_lastAt hne fun fragment hmem =>
      Option.isSome_iff_exists.mp (hall fragment (Finset.mem_range.mp hmem)).1
    rw [(hremote.transmit.finish_iff time).mpr htime]
    exact Int.natCast_nonneg time
  · obtain ⟨time, htime⟩ := exists_lastAt hne fun fragment hmem =>
      Option.isSome_iff_exists.mp (hall fragment (Finset.mem_range.mp hmem)).2
    rw [(hremote.arrive.finish_iff time).mpr htime]
    exact Int.natCast_nonneg time

/-- A transfer between two nodes carries its payload exactly when the arithmetic does not
wrap. Otherwise it completes all the same, unless the number of its fragments is zero in 32
bits. -/
theorem forward_packets_iff (cfg : PhaseTwoConfig) (trace : Nat) (htrace : trace < cfg.bench.length)
    (hflits : 1 ≤ (cfg.record trace).flits) (hflitBytes : 1 ≤ cfg.flitBytes)
    (hmin : 1 ≤ cfg.maxDatagramBytes) (hmax : cfg.maxDatagramBytes ≤ 65000)
    (hroute : (cfg.record trace).source ≠ routingDestination (cfg.record trace)) :
    (∀ now net,
      ((∀ size ∈ cfg.forwardSizes (cfg.record trace) now net, 1 ≤ size ∧
      size ≤ cfg.maxDatagramBytes) ∧
      (cfg.forwardSizes (cfg.record trace) now net).sum = (cfg.record trace).flits *
        cfg.flitBytes) ↔
        (cfg.record trace).flits * cfg.flitBytes + cfg.maxDatagramBytes - 1 < 2 ^ 64 ∧
          ((cfg.record trace).flits * cfg.flitBytes + cfg.maxDatagramBytes - 1) /
            cfg.maxDatagramBytes < 2 ^ 32) ∧
    (cfg.forwardFragments (cfg.record trace) = 0 →
      ∀ now net, cfg.forwardSizes (cfg.record trace) now net = []) ∧
    ∀ s, Steps cfg (start cfg) s →
      if cfg.forwardFragments (cfg.record trace) = 0 then runResult cfg s ≠ .ok ()
      else (∀ fragment < cfg.forwardFragments (cfg.record trace),
          ((s.net trace).left false fragment).isSome ∧
          ((s.net trace).reached false fragment).isSome) →
        0 ≤ (s.states trace).forward.transmitFinishNs ∧ 0 ≤ (s.states trace).forward.arrivalNs := by
  refine ⟨fun now net => ⟨fun h => fits_of_sum hmin hmax hroute h.2, fun h => ?_⟩,
    fun hzero now net => ?_, fun s hs => ?_⟩
  · exact forwardSizes_of_fits hmin hmax hroute (Nat.mul_pos hflits hflitBytes) h
  · rw [forwardSizes_eq hmin hmax hroute, hzero]
    rfl
  · split
    · rename_i hzero
      exact runResult_of_no_fragments (invariant_steps hs) htrace hroute hzero
    · rename_i hsome
      exact forward_complete (invariant_steps hs) htrace hroute hsome

def singleTransfer (flits flitBytes maxDatagramBytes : Nat) : PhaseTwoConfig where
  bench := [⟨0, 0, 1, 0, flits, 0⟩]
  cycleNs := 1
  flitBytes
  maxDatagramBytes
  workerSlots := fun _ => none
  localizeCrossWorkerNetwork := false

theorem forward_packets_three :
    ((singleTransfer 3 32 40).forwardSizes ⟨0, 0, 1, 0, 3, 0⟩ 0
      ((start (singleTransfer 3 32 40)).net 0)).sum = 96 := by
  have h :=
    (forward_packets_iff (singleTransfer 3 32 40) 0 (by decide) (by decide) (by decide)
    (by decide) (by decide)
    (by decide)).1 0 ((start (singleTransfer 3 32 40)).net 0)
  exact (h.mpr (by decide)).2

/-- With 2^32 fragments of one byte none is sent, and the run is not silent about it. -/
theorem no_fragments_reported :
    ¬∀ flits flitBytes maxDatagramBytes : Nat, 1 ≤ flits → 1 ≤ flitBytes → 1 ≤ maxDatagramBytes →
      maxDatagramBytes ≤ 65000 → ¬(singleTransfer flits flitBytes maxDatagramBytes).PayloadFits
        ⟨0, 0, 1, 0, flits, 0⟩ →
        ∃ s, Steps (singleTransfer flits flitBytes maxDatagramBytes)
          (start (singleTransfer flits flitBytes maxDatagramBytes)) s ∧
            runResult (singleTransfer flits flitBytes maxDatagramBytes) s = .ok () := by
  intro hsilent
  obtain ⟨s, hs, hrun⟩ := hsilent (2 ^ 32) 1 1 (by decide) (by decide) (by decide)
    (by decide) (by decide)
  have htrace : 0 < (singleTransfer (2 ^ 32) 1 1).bench.length := by decide
  exact runResult_of_no_fragments (invariant_steps hs) htrace (by decide) (by decide) hrun

end PhaseTwo

end ChipSystemSim
