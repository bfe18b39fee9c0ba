import ChipSystemSim.MlpDpTraining
import Mathlib.Algebra.BigOperators.Field
import Mathlib.Analysis.Calculus.FDeriv.Mul
import Mathlib.Analysis.Calculus.FDeriv.Pi
import Mathlib.Analysis.SpecialFunctions.Log.Deriv

/-! The arithmetic of a GPU worker of the MLP benchmark, and what the training that it
feeds does: each rank goes down the gradient of the mean cross-entropy over all samples. -/

namespace ChipSystemSim

section Classifier

-- the cross-entropy of a softmax, and a rectifier away from its kink
variable {E : Type*} [NormedAddCommGroup E] [NormedSpace ℝ E] {ι : Type*} [Fintype ι]

noncomputable def softmax (z : ι → ℝ) (i : ι) : ℝ := Real.exp (z i) / ∑ j, Real.exp (z j)

noncomputable def crossEntropy (z : ι → ℝ) (label : ι) : ℝ := -Real.log (softmax z label)

theorem sum_exp_pos (z : ι → ℝ) (i : ι) : 0 < ∑ j, Real.exp (z j) := by
  have : Nonempty ι := ⟨i⟩
  exact Finset.sum_pos (fun j _ => Real.exp_pos (z j)) Finset.univ_nonempty

theorem crossEntropy_eq (z : ι → ℝ) (label : ι) :
    crossEntropy z label = Real.log (∑ j, Real.exp (z j)) - z label := by
  have hsum := (sum_exp_pos z label).ne'
  rw [crossEntropy, softmax, Real.log_div (Real.exp_ne_zero _) hsum, Real.log_exp, neg_sub]

/-- The errors of the classifier weigh the derivatives of its logits. -/
theorem hasFDerivAt_crossEntropy [DecidableEq ι] {z : E → ι → ℝ} {z' : ι → E →L[ℝ] ℝ} {x : E}
    (label : ι) (hz : ∀ i, HasFDerivAt (fun y => z y i) (z' i) x) :
    HasFDerivAt (fun y => crossEntropy (z y) label)
      (∑ i, (softmax (z x) i - if label = i then 1 else 0) • z' i) x := by
  have hsum : HasFDerivAt (fun y => ∑ j, Real.exp (z y j)) (∑ j, Real.exp (z x j) • z' j) x :=
    HasFDerivAt.fun_sum fun j _ => (hz j).exp
  have hlog := (hsum.log (sum_exp_pos (z x) label).ne').sub (hz label)
  have hfun : (fun y => crossEntropy (z y) label) = fun y =>
      Real.log (∑ j, Real.exp (z y j)) - z y label :=
    funext fun y => crossEntropy_eq (z y) label
  rw [hfun]
  have hlabel : ∑ i, (if label = i then (1 : ℝ) else 0) • z' i = z' label := by
    simp
  have hsplit : ∑ i, (softmax (z x) i - if label = i then 1 else 0) • z' i =
      ∑ i, softmax (z x) i • z' i - z' label := by
    rw [← hlabel, ← Finset.sum_sub_distrib]
    exact Finset.sum_congr rfl fun i _ => sub_smul (softmax (z x) i) _ (z' i)
  apply hlog.congr_fderiv
  rw [hsplit, Finset.smul_sum]
  simp only [softmax, smul_smul, div_eq_inv_mul]

/-- Near a point where it is not at its kink, a rectifier keeps its gate. -/
theorem relu_eventuallyEq {X : Type*} [TopologicalSpace X] {v : X → ℝ} {x : X}
    (hv : ContinuousAt v x) (hne : v x ≠ 0) :
    (fun y => if 0 < v y then v y else 0) =ᶠ[nhds x] fun y => if 0 < v x then v y else 0 := by
  by_cases hpos : 0 < v x
  · filter_upwards [hv.eventually (lt_mem_nhds hpos)] with y hy
    rw [if_pos hy, if_pos hpos]
  · have hneg : v x < 0 := lt_of_le_of_ne (not_lt.mp hpos) hne
    filter_upwards [hv.eventually (gt_mem_nhds hneg)] with y hy
    rw [if_neg (not_lt.mpr hy.le), if_neg hpos]

end Classifier

theorem foldl_add_eq {ι M : Type*} [AddCommMonoid M] (l : List ι) (f : ι → M) (a : M) :
    l.foldl (fun acc i => acc + f i) a = a + (l.map f).sum := by
  induction l generalizing a with
  | nil => simp
  | cons i l ih => rw [List.foldl_cons, ih, List.map_cons, List.sum_cons, add_assoc]

theorem foldl_finRange {n : Nat} {M : Type*} [AddCommMonoid M] (f : Fin n → M) (a : M) :
    (List.finRange n).foldl (fun acc i => acc + f i) a = a + ∑ i, f i := by
  rw [foldl_add_eq, Fin.sum_univ_def]

namespace Mlp

def kFeatures : Nat := 16

def kHidden : Nat := 128

def kClasses : Nat := 3

def kW1 : Nat := kFeatures * kHidden

def kB1 : Nat := kHidden

def kW2 : Nat := kHidden * kClasses

/-- `W1`, `B1`, `W2` and `B2` give the place of a weight among the parameters. -/
def W1 (feature : Fin kFeatures) (hidden : Fin kHidden) : Fin kParameters :=
  ⟨feature * kHidden + hidden, by
    have hf := feature.isLt
    have hh := hidden.isLt
    simp only [kFeatures, kHidden, kParameters] at hf hh ⊢
    omega⟩

def B1 (hidden : Fin kHidden) : Fin kParameters :=
  ⟨kW1 + hidden, by
    have hh := hidden.isLt
    simp only [kW1, kFeatures, kHidden, kParameters] at hh ⊢
    omega⟩

def W2 (hidden : Fin kHidden) (output : Fin kClasses) : Fin kParameters :=
  ⟨kW1 + kB1 + hidden * kClasses + output, by
    have hh := hidden.isLt
    have ho := output.isLt
    simp only [kW1, kB1, kFeatures, kHidden, kClasses, kParameters] at hh ho ⊢
    omega⟩

def B2 (output : Fin kClasses) : Fin kParameters :=
  ⟨kW1 + kB1 + kW2 + output, by
    have ho := output.isLt
    simp only [kW1, kB1, kW2, kFeatures, kHidden, kClasses, kParameters] at ho ⊢
    omega⟩

section

variable {F : Type} [Field F] [LinearOrder F] (exp : F → F) (model : Vec F) (sample : Nat)

def label : Fin kClasses := ⟨sample % kClasses, Nat.mod_lt _ (by decide)⟩

def feature (f : Fin kFeatures) : F := ((((sample + 3) * (f + 5) % 17 : Nat) : F) - 8) / 8

/-- What a hidden unit is before it is rectified. -/
def hiddenValue (h : Fin kHidden) : F :=
  (List.finRange kFeatures).foldl (fun value f => value + feature sample f * model (W1 f h))
    (model (B1 h))

def hidden (h : Fin kHidden) : F :=
  if 0 < hiddenValue model sample h then hiddenValue model sample h else 0

def logits (output : Fin kClasses) : F :=
  (List.finRange kHidden).foldl (fun logit h => logit + hidden model sample h * model (W2 h output))
    (model (B2 output))

def normalizer : F :=
  (List.finRange kClasses).foldl
    (fun normalizer output => normalizer + exp (logits model sample output)) 0

def probability (output : Fin kClasses) : F :=
  exp (logits model sample output) / normalizer exp model sample

def error (output : Fin kClasses) : F :=
  probability exp model sample output - if label sample = output then 1 else 0

def backprop (h : Fin kHidden) : F :=
  if hidden model sample h = 0 then 0
  else (List.finRange kClasses).foldl
    (fun backprop output => backprop + error exp model sample output * model (W2 h output)) 0

def addAt (gradient : Vec F) (index : Fin kParameters) (x : F) : Vec F :=
  Function.update gradient index (gradient index + x)

/-- The two loops that add one sample to `gradient`. -/
def addOutputs (gradient : Vec F) : Vec F :=
  (List.finRange kClasses).foldl
    (fun gradient output =>
      (List.finRange kHidden).foldl
        (fun gradient h => addAt gradient (W2 h output)
          (hidden model sample h * error exp model sample output))
        (addAt gradient (B2 output) (error exp model sample output)))
    gradient

def addHidden (gradient : Vec F) : Vec F :=
  (List.finRange kHidden).foldl
    (fun gradient h =>
      (List.finRange kFeatures).foldl
        (fun gradient f => addAt gradient (W1 f h) (feature sample f * backprop exp model sample h))
        (addAt gradient (B1 h) (backprop exp model sample h)))
    gradient

def addSample (gradient : Vec F) : Vec F :=
  addHidden exp model sample (addOutputs exp model sample gradient)

def calculateGradient (rank gpuIndex ranks samples : Nat) : Vec F :=
  (List.range samples).foldl
    (fun gradient localSample =>
      addSample exp model (rank + ranks * (gpuIndex + 2 * localSample)) gradient)
    fun _ => 0

def sampleGradient : Vec F := addSample exp model sample 0

/-- The benchmark with the arithmetic of its workers. -/
def training (ranks samples iterations : Nat) : Training F :=
  ⟨ranks, samples, iterations, sampleGradient exp⟩

omit [LinearOrder F] in
theorem addAt_eq (gradient : Vec F) (index : Fin kParameters) (x : F) :
    addAt gradient index x = gradient + Pi.single index x := by
  funext i
  by_cases hi : i = index
  · rw [hi, addAt, Function.update_self, Pi.add_apply, Pi.single_eq_same]
  · rw [addAt, Function.update_of_ne hi, Pi.add_apply, Pi.single_eq_of_ne hi, add_zero]

theorem addOutputs_eq (gradient : Vec F) :
    addOutputs exp model sample gradient = gradient + ∑ output,
      (Pi.single (B2 output) (error exp model sample output) +
        ∑ h, Pi.single (W2 h output) (hidden model sample h * error exp model sample output)) := by
  rw [addOutputs, ← foldl_finRange]
  apply List.foldl_ext
  intro gradient output _
  simp only [addAt_eq, foldl_finRange, add_assoc]

theorem addHidden_eq (gradient : Vec F) :
    addHidden exp model sample gradient = gradient + ∑ h,
      (Pi.single (B1 h) (backprop exp model sample h) +
        ∑ f, Pi.single (W1 f h) (feature sample f * backprop exp model sample h)) := by
  rw [addHidden, ← foldl_finRange]
  apply List.foldl_ext
  intro gradient h _
  simp only [addAt_eq, foldl_finRange, add_assoc]

theorem addSample_eq (gradient : Vec F) :
    addSample exp model sample gradient = gradient + sampleGradient exp model sample := by
  simp only [sampleGradient, addSample, addOutputs_eq, addHidden_eq, zero_add, add_assoc]

/-- The worker's loop is the loop over whole sample gradients. -/
theorem calculateGradient_eq (rank gpuIndex ranks samples iterations n : Nat) :
    calculateGradient exp model rank gpuIndex ranks n =
      (training exp ranks samples iterations).calculateGradient model rank gpuIndex n := by
  have hinto : ∀ destination source : Vec F, addInto destination source = destination + source :=
    fun _ _ => rfl
  rw [calculateGradient, Training.calculateGradient]
  apply List.foldl_ext
  intro gradient localSample _
  rw [hinto, addSample_eq]
  simp only [training, Training.sampleIndex]

end

/-! The loss that the gradient is of. -/

/-- The derivative along the vector of partial derivatives `G`. -/
noncomputable def along (G : Vec ℝ) : Vec ℝ →L[ℝ] ℝ :=
  ∑ index, G index • ContinuousLinearMap.proj index

theorem along_add (G H : Vec ℝ) : along (G + H) = along G + along H := by
  simp only [along, Pi.add_apply, add_smul, Finset.sum_add_distrib]

theorem along_zero : along 0 = 0 := by
  simp [along]

theorem along_smul (c : ℝ) (G : Vec ℝ) : along (c • G) = c • along G := by
  simp only [along, Pi.smul_apply, smul_eq_mul, mul_smul, Finset.smul_sum]

theorem along_sum {ι : Type*} (s : Finset ι) (G : ι → Vec ℝ) :
    along (∑ i ∈ s, G i) = ∑ i ∈ s, along (G i) := by
  induction s using Finset.cons_induction with
  | empty => exact along_zero
  | cons i s hi ih => rw [Finset.sum_cons, Finset.sum_cons, along_add, ih]

theorem along_single (index : Fin kParameters) (x : ℝ) :
    along (Pi.single index x) = x • ContinuousLinearMap.proj index := by
  rw [along, Finset.sum_eq_single index]
  · rw [Pi.single_eq_same]
  · intro i _ hi
    rw [Pi.single_eq_of_ne hi, zero_smul]
  · intro hi
    exact absurd (Finset.mem_univ index) hi

/-- The hidden unit at `model` with the gate it has at `gate`. -/
noncomputable def gatedHidden (gate model : Vec ℝ) (sample : Nat) (h : Fin kHidden) : ℝ :=
  if 0 < hiddenValue gate sample h then hiddenValue model sample h else 0

noncomputable def gatedLogits (gate model : Vec ℝ) (sample : Nat) (output : Fin kClasses) : ℝ :=
  model (B2 output) + ∑ h, gatedHidden gate model sample h * model (W2 h output)

noncomputable def gatedLoss (gate : Vec ℝ) (samples : Nat) (model : Vec ℝ) : ℝ :=
  (∑ s ∈ Finset.range samples, crossEntropy (gatedLogits gate model s) (label s)) / samples

/-- The mean cross-entropy of the network over the first `samples` samples. -/
noncomputable def loss (samples : Nat) (model : Vec ℝ) : ℝ :=
  (∑ s ∈ Finset.range samples, crossEntropy (logits model s) (label s)) / samples

theorem logits_eq (model : Vec ℝ) (sample : Nat) :
    logits model sample = gatedLogits model model sample :=
  funext fun _ => foldl_finRange ..

theorem hasFDerivAt_weight (index : Fin kParameters) (model : Vec ℝ) :
    HasFDerivAt (fun m : Vec ℝ => m index) (ContinuousLinearMap.proj index : Vec ℝ →L[ℝ] ℝ) model :=
  hasFDerivAt_apply index model

theorem hasFDerivAt_hiddenValue (model : Vec ℝ) (sample : Nat) (h : Fin kHidden) :
    HasFDerivAt (fun m : Vec ℝ => hiddenValue m sample h)
      (along (Pi.single (B1 h) 1 + ∑ f, Pi.single (W1 f h) (feature sample f))) model := by
  have hfun : (fun m : Vec ℝ => hiddenValue m sample h) =
      fun m => m (B1 h) + ∑ f, feature sample f * m (W1 f h) :=
    funext fun m => foldl_finRange ..
  have hsum : HasFDerivAt (fun m : Vec ℝ => ∑ f, feature sample f * m (W1 f h))
      (∑ f, feature sample f • ContinuousLinearMap.proj (W1 f h)) model :=
    HasFDerivAt.fun_sum fun f _ => (hasFDerivAt_weight (W1 f h) model).const_mul _
  rw [hfun]
  apply ((hasFDerivAt_weight (B1 h) model).add hsum).congr_fderiv
  rw [along_add, along_sum, along_single, one_smul]
  simp only [along_single]

/-- What a sample says about a hidden unit, per unit of its back-propagated error. -/
noncomputable def hiddenGradient (model : Vec ℝ) (sample : Nat) (h : Fin kHidden) : Vec ℝ :=
  if 0 < hiddenValue model sample h then
    Pi.single (B1 h) 1 + ∑ f, Pi.single (W1 f h) (feature sample f)
  else 0

theorem hasFDerivAt_gatedHidden (model : Vec ℝ) (sample : Nat) (h : Fin kHidden) :
    HasFDerivAt (fun m => gatedHidden model m sample h)
      (along (hiddenGradient model sample h)) model := by
  by_cases hpos : 0 < hiddenValue model sample h
  · simp only [gatedHidden, hiddenGradient, if_pos hpos]
    exact hasFDerivAt_hiddenValue model sample h
  · simp only [gatedHidden, hiddenGradient, if_neg hpos, along_zero]
    exact hasFDerivAt_const 0 model

theorem hasFDerivAt_gatedLogits (model : Vec ℝ) (sample : Nat) (output : Fin kClasses) :
    HasFDerivAt (fun m => gatedLogits model m sample output)
      (along (Pi.single (B2 output) 1 + ∑ h, (Pi.single (W2 h output) (hidden model sample h) +
        model (W2 h output) • hiddenGradient model sample h))) model := by
  have hterm : ∀ h, HasFDerivAt (fun m : Vec ℝ => gatedHidden model m sample h * m (W2 h output))
      (hidden model sample h • ContinuousLinearMap.proj (W2 h output) +
        model (W2 h output) • along (hiddenGradient model sample h)) model := by
    intro h
    apply ((hasFDerivAt_gatedHidden model sample h).mul
      (hasFDerivAt_weight (W2 h output) model)).congr_fderiv
    rw [gatedHidden, hidden]
  have hsum : HasFDerivAt (fun m : Vec ℝ => ∑ h, gatedHidden model m sample h * m (W2 h output))
      (∑ h, (hidden model sample h • ContinuousLinearMap.proj (W2 h output) +
        model (W2 h output) • along (hiddenGradient model sample h))) model :=
    HasFDerivAt.fun_sum fun h _ => hterm h
  apply ((hasFDerivAt_weight (B2 output) model).add hsum).congr_fderiv
  rw [along_add, along_sum, along_single, one_smul]
  simp only [along_add, along_single, along_smul]

theorem probability_eq (model : Vec ℝ) (sample : Nat) (output : Fin kClasses) :
    probability Real.exp model sample output = softmax (logits model sample) output := by
  rw [probability, normalizer, foldl_finRange, zero_add, softmax]

theorem backprop_smul (model : Vec ℝ) (sample : Nat) (h : Fin kHidden) :
    ∑ output, (error Real.exp model sample output * model (W2 h output)) • hiddenGradient
      model sample h =
      Pi.single (B1 h) (backprop Real.exp model sample h) +
        ∑ f, Pi.single (W1 f h) (feature sample f * backprop Real.exp model sample h) := by
  by_cases hpos : 0 < hiddenValue model sample h
  · have hhidden : hidden model sample h ≠ 0 := by
      rw [hidden, if_pos hpos]
      exact hpos.ne'
    have hback : backprop Real.exp model sample h =
        ∑ output, error Real.exp model sample output * model (W2 h output) := by
      rw [backprop, if_neg hhidden, foldl_finRange, zero_add]
    rw [← Finset.sum_smul, ← hback, hiddenGradient, if_pos hpos, smul_add, Finset.smul_sum]
    simp only [← Pi.single_smul, smul_eq_mul, mul_one, mul_comm (feature sample _)]
  · have hback : backprop Real.exp model sample h = 0 := by
      rw [backprop, hidden, if_neg hpos, if_pos rfl]
    simp only [hback, hiddenGradient, if_neg hpos, smul_zero, mul_zero, Pi.single_zero,
      Finset.sum_const_zero, add_zero]

/-- The partial derivatives of a sample's loss are what the worker adds for it. -/
theorem hasFDerivAt_sample (model : Vec ℝ) (sample : Nat) :
    HasFDerivAt (fun m => crossEntropy (gatedLogits model m sample) (label sample))
      (along (sampleGradient Real.exp model sample)) model := by
  have herror : ∀ output, softmax (gatedLogits model model sample) output -
      (if label sample = output then 1 else 0) = error Real.exp model sample output := by
    intro output
    rw [error, probability_eq, logits_eq]
  apply (hasFDerivAt_crossEntropy (label sample) fun output =>
    hasFDerivAt_gatedLogits model sample output).congr_fderiv
  simp only [herror, ← along_smul, ← along_sum]
  congr 1
  rw [sampleGradient, addSample, addHidden_eq, addOutputs_eq, zero_add]
  simp only [← backprop_smul]
  rw [Finset.sum_comm, ← Finset.sum_add_distrib]
  refine Finset.sum_congr rfl fun output _ => ?_
  simp only [smul_add, Finset.smul_sum, Finset.sum_add_distrib, ← Pi.single_smul, smul_eq_mul,
    mul_one, smul_smul, mul_comm (hidden model sample _), add_assoc]

/-- The partial derivatives of the mean loss, as the rounds of training add them up. -/
noncomputable def meanGradient (samples : Nat) (model : Vec ℝ) : Vec ℝ :=
  (samples : ℝ)⁻¹ • ∑ s ∈ Finset.range samples, sampleGradient Real.exp model s

theorem hasFDerivAt_gatedLoss (samples : Nat) (model : Vec ℝ) :
    HasFDerivAt (gatedLoss model samples) (along (meanGradient samples model)) model := by
  have hsum : HasFDerivAt (fun m => ∑ s ∈ Finset.range samples,
      crossEntropy (gatedLogits model m s) (label s))
      (∑ s ∈ Finset.range samples, along (sampleGradient Real.exp model s)) model :=
    HasFDerivAt.fun_sum fun s _ => hasFDerivAt_sample model s
  rw [meanGradient, along_smul, along_sum]
  exact hsum.mul_const _

theorem hiddenValue_continuous (sample : Nat) (h : Fin kHidden) :
    Continuous fun m : Vec ℝ => hiddenValue m sample h :=
  continuous_iff_continuousAt.mpr fun model => (hasFDerivAt_hiddenValue model sample h).continuousAt

/-- No hidden unit is at the kink of its rectifier on the first `samples` samples. -/
def Smooth (samples : Nat) (model : Vec ℝ) : Prop :=
  ∀ s < samples, ∀ h, hiddenValue model s h ≠ 0

theorem Smooth.loss_eventuallyEq {samples : Nat} {model : Vec ℝ} (hsmooth : Smooth samples model) :
    loss samples =ᶠ[nhds model] gatedLoss model samples := by
  have hunit : ∀ s ∈ Finset.range samples, ∀ h, ∀ᶠ m in nhds model,
      hidden m s h = gatedHidden model m s h :=
    fun s hs h =>
      relu_eventuallyEq (hiddenValue_continuous s h).continuousAt
        (hsmooth s (Finset.mem_range.mp hs) h)
  have hall : ∀ᶠ m in nhds model, ∀ s ∈ Finset.range samples, ∀ h,
      hidden m s h = gatedHidden model m s h := by
    rw [Filter.eventually_all_finset]
    intro s hs
    rw [Filter.eventually_all]
    exact hunit s hs
  filter_upwards [hall] with m hm
  rw [loss, gatedLoss]
  congr 1
  apply Finset.sum_congr rfl
  intro s hs
  have hlogits : logits m s = gatedLogits model m s := by
    funext output
    rw [logits, foldl_finRange, gatedLogits]
    simp only [hm s hs]
  rw [hlogits]

/-- What a hidden unit gets from the initial model, in units of 1/800. -/
def initialUnits (sample : Nat) (h : Fin kHidden) : Int :=
  8 * ((((B1 h).val % 7 : Nat) : Int) - 3) +
    ∑ f : Fin kFeatures, ((((sample + 3) * (f + 5) % 17 : Nat) : Int) - 8) *
      ((((W1 f h).val % 7 : Nat) : Int) - 3)

theorem hiddenValue_initialise (sample : Nat) (h : Fin kHidden) :
    hiddenValue (initialise : Vec ℝ) sample h = initialUnits sample h / 800 := by
  rw [hiddenValue, foldl_finRange, initialUnits, Int.cast_add, add_div, Int.cast_sum,
    Finset.sum_div]
  congr 1
  · rw [initialise, Int.cast_mul, Int.cast_sub, Int.cast_natCast, Int.cast_ofNat, Int.cast_ofNat]
    ring
  · apply Finset.sum_congr rfl
    intro f _
    rw [feature, initialise, Int.cast_mul, Int.cast_sub, Int.cast_sub, Int.cast_natCast,
      Int.cast_natCast, Int.cast_ofNat, Int.cast_ofNat]
    ring

/-- The first eleven samples keep all units of the initial model away from their kinks,
and the next one does not. -/
theorem smooth_initialise_iff {samples : Nat} : Smooth samples initialise ↔ samples ≤ 11 := by
  have hzero : ∀ s h, hiddenValue (initialise : Vec ℝ) s h ≠ 0 ↔ initialUnits s h ≠ 0 := by
    intro s h
    rw [hiddenValue_initialise, div_ne_zero_iff, Int.cast_ne_zero]
    norm_num
  simp only [Smooth, hzero]
  constructor
  · intro hsmooth
    by_contra hlt
    exact hsmooth 11 (by omega) ⟨0, by decide⟩ (by decide +kernel)
  · intro hle s hs
    have hunits : ∀ s < 11, ∀ h, initialUnits s h ≠ 0 := by decide +kernel
    exact hunits s (by omega)

/-- One step of gradient descent on the mean loss. At a kink the gates of `model` are kept. -/
def Descends (samples : Nat) (model model' : Vec ℝ) : Prop :=
  ∃ G : Vec ℝ, model' = model - (kLearningRate : ℝ) • G ∧
    HasFDerivAt (gatedLoss model samples) (along G) model ∧
    (Smooth samples model → HasFDerivAt (loss samples) (along G) model)

theorem serialStep_descends (ranks samples iterations : Nat) (model : Vec ℝ) :
    Descends samples model ((training Real.exp ranks samples iterations).serialStep model) := by
  have hgated := hasFDerivAt_gatedLoss samples model
  refine ⟨meanGradient samples model, ?_, hgated, ?_⟩
  · funext index
    rw [Training.serialStep, Pi.sub_apply, Pi.smul_apply, meanGradient, Pi.smul_apply,
      Finset.sum_apply, smul_eq_mul, smul_eq_mul, mul_div_assoc, div_eq_inv_mul]
    simp only [training]
  · intro hsmooth
    exact hgated.congr_of_eventuallyEq hsmooth.loss_eventuallyEq

theorem emitted_eq {F : Type} [Field F] {T : Training F} (hT : T.Valid)
    {t : Kahn.State Place Link (Msg F) (Vec F) (Proc F)}
    (ht : Kahn.Steps T.network T.start t) {r : Nat} (hr : r < T.ranks) :
    ∃ n, initialise :: t.emitted (r, 0) = (List.range' 0 (n + 1)).map T.serialModel := by
  obtain ⟨final, hrun, hfin, _, _, hmodels⟩ := hT.complete
  have hpre := Kahn.emitted_mono (Kahn.steps_final hrun hfin (hT.tagged_steps ht)) (r, 0)
  rw [hmodels r hr] at hpre
  have hle : (t.emitted (r, 0)).length ≤ T.iterations := by simpa using hpre.length_le
  have htake := List.prefix_iff_eq_take.mp hpre
  rw [← List.map_take, List.take_range'_of_length_ge hle] at htake
  refine ⟨(t.emitted (r, 0)).length, ?_⟩
  rw [List.range'_succ, List.map_cons, Nat.zero_add, ← htake]
  rfl

/-- However a run is scheduled, each model a rank holds is one step of gradient descent on
the mean cross-entropy of all samples from the model before it. -/
theorem training_descends_the_loss {ranks samples iterations : Nat}
    (hT : (training Real.exp ranks samples iterations).Valid)
    {t : Kahn.State Place Link (Msg ℝ) (Vec ℝ) (Proc ℝ)}
    (ht : Kahn.Steps (training Real.exp ranks samples iterations).network
      (training Real.exp ranks samples iterations).start t) :
    (∀ r < ranks, (initialise :: t.emitted (r, 0)).IsChain (Descends samples)) ∧
    ∀ model rank gpuIndex n, (training Real.exp ranks samples iterations).calculateGradient model
      rank gpuIndex n =
      calculateGradient Real.exp model rank gpuIndex ranks n := by
  refine ⟨?_, fun model rank gpuIndex n => (calculateGradient_eq ..).symm⟩
  intro r hr
  obtain ⟨n, hn⟩ := emitted_eq hT ht hr
  rw [hn]
  apply List.isChain_map_of_isChain _ _ (List.isChain_range' 0 (n + 1) 1)
  rintro a _ rfl
  exact serialStep_descends ..

theorem training_valid_two_ranks : (training Real.exp 2 8 2).Valid where
  ranks := ⟨1, rfl⟩
  divides := rfl
  positive := by decide
  bounded := by decide

/-- On eight samples the first step goes down the true loss. -/
theorem training_descends_the_loss_two_ranks : ∃ t,
    Kahn.Steps (training Real.exp 2 8 2).network (training Real.exp 2 8 2).start t ∧
    Kahn.Finished (training Real.exp 2 8 2).network t ∧
    ∀ r < 2, ∃ first second, t.emitted (r, 0) = [first, second] ∧ Descends 8 first second ∧
      ∃ G : Vec ℝ, first = initialise - (kLearningRate : ℝ) • G ∧
      HasFDerivAt (loss 8) (along G) initialise := by
  obtain ⟨final, hrun, hfin, _, _, hmodels⟩ := training_valid_two_ranks.complete
  have hrun' := Training.network_steps hrun
  refine ⟨final, hrun', hfin, fun r hr => ?_⟩
  have hchain := (training_descends_the_loss training_valid_two_ranks hrun').1 r hr
  have hlength : (final.emitted (r, 0)).length = 2 := by
    rw [hmodels r hr, List.length_map, List.length_range']
    rfl
  obtain ⟨first, second, hemitted⟩ := List.length_eq_two.mp hlength
  rw [hemitted, List.isChain_cons_cons, List.isChain_pair] at hchain
  obtain ⟨⟨G, hstep, -, hloss⟩, hsecond⟩ := hchain
  exact ⟨first, second, hemitted, hsecond, G, hstep, hloss (smooth_initialise_iff.mpr (by decide))⟩

end Mlp

end ChipSystemSim
