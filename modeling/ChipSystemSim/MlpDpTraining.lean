import ChipSystemSim.MlpDpRun
import Mathlib.Algebra.BigOperators.Pi
import Mathlib.Algebra.Field.Rat

/-! What the MLP benchmark computes and that it always can: the ranks agree with
serial gradient descent after each iteration, and no schedule blocks. -/

namespace ChipSystemSim

open Finset

theorem isPowerOfTwo_of_pow (k : Nat) : isPowerOfTwo (2 ^ k) = true := by
  obtain ⟨hne, hand⟩ := Nat.ne_zero_and_sub_one_eq_zero_iff_isPowerOfTwo.mpr ⟨k, rfl⟩
  simp only [isPowerOfTwo, Bool.and_eq_true, decide_eq_true_eq, beq_iff_eq]
  exact ⟨Nat.pos_of_ne_zero hne, hand⟩

theorem sum_strided {M : Type} [AddCommMonoid M] (a b : Nat) (f : Nat → M) :
    ∑ s ∈ range (a * b), f s = ∑ r ∈ range a, ∑ q ∈ range b, f (r + a * q) := by
  induction b with
  | zero => simp
  | succ b ih =>
    have hlast : ∑ r ∈ range a, f (a * b + r) = ∑ r ∈ range a, f (r + a * b) :=
      sum_congr rfl fun r _ => by rw [Nat.add_comm]
    rw [Nat.mul_succ, sum_range_add, ih, hlast, ← sum_add_distrib]
    exact sum_congr rfl fun r _ => (sum_range_succ ..).symm

namespace Training

variable {F : Type} {T : Training F}

/-- What the environment of a run has to be: `main` and the workers check it. -/
structure Valid (T : Training F) : Prop where
  ranks : T.ranks.isPowerOfTwo
  divides : T.samples % (T.ranks * kGpusPerRank) = 0
  positive : 0 < T.samples
  bounded : T.samples ≤ kMaximumSamples

theorem Valid.ranks_pos (hT : T.Valid) : 0 < T.ranks := by
  obtain ⟨k, hk⟩ := hT.ranks
  rw [hk]
  exact Nat.two_pow_pos k

theorem Valid.samples_eq (hT : T.Valid) : T.samples = T.ranks * (2 * T.samplesPerGpu) := by
  rw [← Nat.mul_assoc, samplesPerGpu]
  exact (Nat.mul_div_cancel' (Nat.dvd_of_mod_eq_zero hT.divides)).symm

theorem Valid.samplesPerGpu_pos (hT : T.Valid) : 0 < T.samplesPerGpu := by
  rcases Nat.eq_zero_or_pos T.samplesPerGpu with h | h
  · have hsamples := hT.samples_eq
    rw [h, Nat.mul_zero] at hsamples
    exact absurd hsamples (Nat.pos_iff_ne_zero.mp hT.positive)
  · exact h

theorem Valid.samplesPerGpu_le (hT : T.Valid) : T.samplesPerGpu ≤ kMaximumSamples :=
  (Nat.div_le_self ..).trans hT.bounded

/-- The triple that reads a sample. -/
def reader (T : Training F) (s : Nat) : Nat × Nat × Nat :=
  (s % T.ranks, s / T.ranks % 2, s / T.ranks / 2)

theorem sampleIndex_reader (s : Nat) :
    T.sampleIndex (T.reader s).1 (T.reader s).2.1 (T.reader s).2.2 = s := by
  simp only [sampleIndex, reader, Nat.mod_add_div]

theorem reader_sampleIndex {rank gpuIndex i : Nat} (hr : rank < T.ranks) (hg : gpuIndex < 2) :
    T.reader (T.sampleIndex rank gpuIndex i) = (rank, gpuIndex, i) := by
  have hpos : 0 < T.ranks := by omega
  have hdiv : (rank + T.ranks * (gpuIndex + 2 * i)) / T.ranks = gpuIndex + 2 * i := by
    rw [Nat.add_mul_div_left _ _ hpos, Nat.div_eq_of_lt hr, Nat.zero_add]
  have hmod : (rank + T.ranks * (gpuIndex + 2 * i)) % T.ranks = rank := by
    rw [Nat.add_mul_mod_self_left, Nat.mod_eq_of_lt hr]
  simp only [reader, sampleIndex, hdiv, hmod, Prod.mk.injEq, true_and]
  omega

theorem Valid.existsUnique_reader (hT : T.Valid) {s : Nat} (hs : s < T.samples) :
    ∃! u : Nat × Nat × Nat, u.1 < T.ranks ∧ u.2.1 < kGpusPerRank ∧ u.2.2 < T.samplesPerGpu ∧
      T.sampleIndex u.1 u.2.1 u.2.2 = s := by
  have hpos := hT.ranks_pos
  refine ⟨T.reader s, ⟨Nat.mod_lt _ hpos, Nat.mod_lt _ (by decide), ?_, sampleIndex_reader s⟩, ?_⟩
  · rw [hT.samples_eq] at hs
    exact Nat.div_lt_of_lt_mul (Nat.div_lt_of_lt_mul hs)
  · rintro ⟨r, g, i⟩ ⟨hr, hg, _, rfl⟩
    exact (reader_sampleIndex hr hg).symm

variable [Field F]

/-- One step of serial gradient descent over all samples. -/
def serialStep (T : Training F) (model : Vec F) : Vec F := fun index =>
  model index - kLearningRate * (∑ s ∈ range T.samples, T.sampleGradient model s index) /
    (T.samples : F)

def serialModel (T : Training F) : Nat → Vec F
  | 0 => initialise
  | n + 1 => T.serialStep (T.serialModel n)

theorem calculateGradient_eq_sum (model : Vec F) (rank gpuIndex samples : Nat) :
    T.calculateGradient model rank gpuIndex samples =
      ∑ i ∈ range samples, T.sampleGradient model (T.sampleIndex rank gpuIndex i) := by
  induction samples with
  | zero => rfl
  | succ n ih =>
    rw [calculateGradient, List.range_succ, List.foldl_append, sum_range_succ, ← ih]
    rfl

theorem Valid.totalGradient_eq (hT : T.Valid) (model : Vec F) :
    T.totalGradient model = ∑ s ∈ range T.samples, T.sampleGradient model s := by
  rw [hT.samples_eq, sum_strided]
  refine sum_congr rfl fun r _ => ?_
  rw [sum_strided, sum_range_succ, sum_range_one, calculateGradient_eq_sum,
    calculateGradient_eq_sum]
  rfl

theorem Valid.applyGradient_eq (hT : T.Valid) (model : Vec F) :
    applyGradient T.samples model (T.totalGradient model) = T.serialStep model := by
  funext index
  rw [hT.totalGradient_eq, applyGradient, serialStep, Finset.sum_apply]

def stopped : Nat → Gpu F :=
  Function.update (Function.update (fun _ => .awaitHeader) 1 (.exited 0)) 2 (.exited 0)

theorem RankGoes.stop {r : Nat} {seen : List (Vec F)} (hr : r < T.ranks) :
    T.RankGoes r (stopGpuWorkers r .done) (fun _ => .awaitHeader) seen .done stopped seen := by
  have hstop : gpuOnHeader (.header (-1) 0 : Body F) = .exited 0 := rfl
  have h₁ : T.RankGoes r (stopGpuWorkers r .done) (fun _ => .awaitHeader) seen
      (sendMessage (r, 2) (r, 0) .header (.header (-1) 0) .done) _ seen :=
    RankGoes.toGpu hr (Or.inl rfl) rfl
  have h₂ : T.RankGoes r (sendMessage (r, 2) (r, 0) .header (.header (-1) 0) .done)
      (Function.update (fun _ => .awaitHeader) 1 (.exited 0)) seen .done _ seen :=
    RankGoes.toGpu hr (Or.inr rfl) rfl
  exact h₁.trans h₂

theorem Goes.training (hT : T.Valid) {next : Nat → Prog F} (n i : Nat)
    (models : Nat → List (Vec F)) :
    T.Goes (fun r => T.trainingLoop r n i (T.serialModel i) (next r))
      (fun _ _ => .awaitHeader) models
      next (fun _ _ => .awaitHeader)
      (fun r => if r < T.ranks then models r ++ (List.range' (i + 1) n).map T.serialModel
        else models r) := by
  induction n generalizing i models with
  | zero =>
    simp only [List.range'_zero, List.map_nil, List.append_nil, ite_self]
    exact Goes.of_eq fun r _ => rfl
  | succ n ih =>
    obtain ⟨k, hk⟩ := hT.ranks
    refine (Goes.iteration hk hT.samplesPerGpu_pos hT.samplesPerGpu_le).trans ?_
    rw [hT.applyGradient_eq]
    refine (congrArg (fun m => T.Goes _ _ _ next _ m) (funext fun r => ?_)).mp (ih (i + 1) _)
    by_cases hr : r < T.ranks
    · simp only [hr, if_true, List.range'_succ, List.map_cons, List.append_assoc,
        List.singleton_append]
      rfl
    · simp only [hr, if_false]

theorem Goes.main (hT : T.Valid) :
    T.Goes T.cpuMain (fun _ _ => .awaitHeader) (fun _ => []) (fun _ => .done) (fun _ => stopped)
      fun r => if r < T.ranks then (List.range' 1 T.iterations).map T.serialModel else [] := by
  have hpos := hT.ranks_pos
  have hpower : isPowerOfTwo T.ranks = true := by
    obtain ⟨k, hk⟩ := hT.ranks
    rw [hk, isPowerOfTwo_of_pow]
  have hmain : ∀ r < T.ranks, T.cpuMain r = startMeasurementBarrier r T.ranks
      (T.trainingLoop r T.iterations 0 initialise
        (finishMeasurementBarrier r T.ranks (stopGpuWorkers r .done))) := by
    intro r hr
    have hok : ¬(isPowerOfTwo T.ranks = false ∨ T.samples % (T.ranks * kGpusPerRank) ≠ 0 ∨
        T.ranks ≤ r) := by
      simp [hpower, hT.divides, hr]
    rw [cpuMain, if_neg hok]
  refine (Goes.of_eq hmain).trans ((Goes.startBarrier hpos).trans ?_)
  refine (Goes.training hT T.iterations 0 _).trans ((Goes.finishBarrier hpos).trans ?_)
  let held : Nat → List (Vec F) := fun r =>
    if r < T.ranks then [] ++ (List.range' 1 T.iterations).map T.serialModel else []
  have hstop : T.Goes (fun r => stopGpuWorkers r .done) (fun _ _ => .awaitHeader) held
      (fun _ => .done)
      (fun _ => stopped) fun r => if r < T.ranks then held r else held r :=
    Goes.all fun r hr => RankGoes.stop hr
  simp only [ite_self] at hstop
  exact hstop

theorem Valid.complete (hT : T.Valid) : ∃ final, Kahn.Steps T.tagged T.start final ∧
    Kahn.Finished T.network final ∧ (∀ c, final.chan c = []) ∧
    (∀ r < T.ranks, ∀ y, y = 1 ∨ y = 2 → final.proc (r, y) = .gpu (.exited 0)) ∧
    ∀ r < T.ranks, final.emitted (r, 0) = (List.range' 1 T.iterations).map T.serialModel := by
  obtain ⟨received, hrun⟩ := Goes.main hT fun _ => []
  have hstart : T.start = ⟨T.world T.cpuMain fun _ _ => .awaitHeader, fun _ => [], fun _ => [],
      observed fun _ => []⟩ := by
    have hobs : (observed fun _ => [] : Place → List (Vec F)) = fun _ => [] :=
      funext fun _ => ite_self _
    rw [hobs, start]
  rw [← hstart] at hrun
  have hexited : ∀ r < T.ranks, ∀ y, y = 1 ∨ y = 2 →
      T.world (fun _ => .done) (fun _ => stopped) (r, y) = .gpu (.exited 0) := by
    intro r hr y hy
    rw [world_gpu hr hy]
    rcases hy with rfl | rfl <;> rfl
  refine ⟨_, hrun, ?_, fun _ => rfl, hexited, ?_⟩
  · rintro ⟨r, y⟩
    by_cases hr : r < T.ranks
    · by_cases hy : y = 1 ∨ y = 2
      · simp [network, act, gpuAct, hexited r hr y hy]
      · have hcpu : T.world (fun _ => .done) (fun _ => stopped) (r, y) = .cpu .done := by
          by_cases h0 : y = 0
          · simp [world, hr, h0]
          · have h2 : ¬y ≤ 2 := by omega
            simp [world, hr, h0, h2, kGpusPerRank]
        simp [network, act, hcpu]
    · simp [network, act, world, hr]
  · intro r hr
    simp only [observed, hr, if_true]

theorem network_steps {s t : Kahn.State Place Link (Msg F) (Vec F) (Proc F)}
    (h : Kahn.Steps T.tagged s t) : Kahn.Steps T.network s t :=
  Kahn.steps_of_accepting (fun _ _ hw => (Bool.and_eq_true_iff.mp hw).1) h

theorem Valid.tagged_steps (hT : T.Valid) {t : Kahn.State Place Link (Msg F) (Vec F) (Proc F)}
    (ht : Kahn.Steps T.network T.start t) : Kahn.Steps T.tagged T.start t := by
  obtain ⟨final, hrun, hfin, _⟩ := hT.complete
  exact Kahn.steps_accepting hrun hfin ht

theorem training_never_blocks (hT : T.Valid) {t : Kahn.State Place Link (Msg F) (Vec F) (Proc F)}
    (ht : Kahn.Steps T.network T.start t) :
    (∀ p c want k m rest, T.network.act p (t.proc p) = .recv c want k → t.chan c = m :: rest →
      m.body.size = want.bytes ∧ m.tag = want.tag) ∧
    (¬Kahn.Finished T.network t → ∃ p u, T.network.step t p = some u) ∧
    (Kahn.Finished T.network t → (∀ c, t.chan c = []) ∧
      ∀ r < T.ranks, ∀ y, y = 1 ∨ y = 2 → t.proc (r, y) = .gpu (.exited 0)) := by
  obtain ⟨final, hrun, hfin, hempty, hexited, _⟩ := hT.complete
  have hend : Kahn.Steps T.tagged t final := Kahn.steps_final hrun hfin (hT.tagged_steps ht)
  refine ⟨?_, Kahn.not_stuck (network_steps hrun) hfin ht, ?_⟩
  · intro p c want k m rest ha hc
    have hacc := Kahn.head_accepted hend ha hc (hfin p)
    obtain ⟨hsize, htag⟩ := Bool.and_eq_true_iff.mp hacc
    exact ⟨beq_iff_eq.mp hsize, beq_iff_eq.mp htag⟩
  · intro hdone
    obtain rfl := Kahn.finished_unique ht (network_steps hrun) hdone hfin
    exact ⟨hempty, hexited⟩

def twoRanks : Training ℚ where
  ranks := 2
  samples := 8
  iterations := 2
  sampleGradient := fun model s index => model index + s

theorem twoRanks_valid : twoRanks.Valid where
  ranks := ⟨1, rfl⟩
  divides := rfl
  positive := by decide
  bounded := by decide

theorem training_never_blocks_two_ranks :
    (¬Kahn.Finished twoRanks.network twoRanks.start →
      ∃ p u, twoRanks.network.step twoRanks.start p = some u) ∧
    ∃ t, Kahn.Steps twoRanks.network twoRanks.start t ∧ Kahn.Finished twoRanks.network t ∧
      ∀ c, t.chan c = [] := by
  obtain ⟨final, hrun, hfin, _⟩ := twoRanks_valid.complete
  have hrun' := network_steps hrun
  exact ⟨(training_never_blocks twoRanks_valid .refl).2.1, final, hrun', hfin,
    ((training_never_blocks twoRanks_valid hrun').2.2 hfin).1⟩

/-- After each iteration every rank holds the model of serial gradient descent. -/
theorem training_is_serial_descent (hT : T.Valid)
    {t : Kahn.State Place Link (Msg F) (Vec F) (Proc F)} (ht : Kahn.Steps T.network T.start t) :
    (∀ r < T.ranks, ∃ n ≤ T.iterations, t.emitted (r, 0) = (List.range' 1 n).map T.serialModel ∧
      (Kahn.Finished T.network t → n = T.iterations)) ∧
    ∀ s < T.samples, ∃! u : Nat × Nat × Nat, u.1 < T.ranks ∧ u.2.1 < kGpusPerRank ∧
      u.2.2 < T.samplesPerGpu ∧ T.sampleIndex u.1 u.2.1 u.2.2 = s := by
  refine ⟨?_, fun s hs => hT.existsUnique_reader hs⟩
  intro r hr
  obtain ⟨final, hrun, hfin, _, _, hmodels⟩ := hT.complete
  have hend : Kahn.Steps T.tagged t final := Kahn.steps_final hrun hfin (hT.tagged_steps ht)
  have hpre := Kahn.emitted_mono hend (r, 0)
  rw [hmodels r hr] at hpre
  have hle : (t.emitted (r, 0)).length ≤ T.iterations := by simpa using hpre.length_le
  refine ⟨(t.emitted (r, 0)).length, hle, ?_, ?_⟩
  · have htake := List.prefix_iff_eq_take.mp hpre
    rwa [← List.map_take, List.take_range'_of_length_ge hle] at htake
  · intro hdone
    have hsame := Kahn.finished_unique (hT.tagged_steps ht) hrun hdone hfin
    rw [hsame, hmodels r hr]
    simp

theorem training_is_serial_descent_two_ranks : ∃ t, Kahn.Steps twoRanks.network twoRanks.start t ∧
    Kahn.Finished twoRanks.network t ∧
    ∀ r < 2, t.emitted (r, 0) = [twoRanks.serialModel 1, twoRanks.serialModel 2] := by
  obtain ⟨final, hrun, hfin, _⟩ := twoRanks_valid.complete
  have hrun' := network_steps hrun
  refine ⟨final, hrun', hfin, fun r hr => ?_⟩
  obtain ⟨n, _, hmodels, hn⟩ := (training_is_serial_descent twoRanks_valid hrun').1 r hr
  rw [hmodels, hn hfin]
  rfl

end Training

end ChipSystemSim
