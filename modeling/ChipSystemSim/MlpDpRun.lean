import ChipSystemSim.TreeReduction
import Mathlib.Algebra.BigOperators.Group.Finset.Basic
import Mathlib.Algebra.BigOperators.Intervals

/-! One complete run of the MLP benchmark, built from transfers between two
processes: the barriers token by token, the workers rank by rank, and the two
trees block by block. -/

namespace ChipSystemSim

open Finset

def Msg.want {F : Type} (m : Msg F) : Want := ⟨m.tag, m.body.size⟩

theorem Msg.accepted {F : Type} (m : Msg F) : tagMatches m.want m = true := by
  simp [tagMatches, Msg.want]

namespace Training

variable {F : Type} {T : Training F} {prog prog' prog'' : Nat → Prog F}
  {gpu gpu' gpu'' : Nat → Nat → Gpu F} {models models' models'' : Nat → List (Vec F)}

def observed (models : Nat → List (Vec F)) (p : Place) : List (Vec F) :=
  if p.2 = 0 then models p.1 else []

theorem world_congr (hprog : ∀ r < T.ranks, prog r = prog' r)
    (hgpu : ∀ r < T.ranks, gpu r = gpu' r) : T.world prog gpu = T.world prog' gpu' := by
  funext p
  unfold world
  split
  · rename_i hp
    rw [hprog _ hp, hgpu _ hp]
  · rfl

theorem world_cpu {r : Nat} (hr : r < T.ranks) : T.world prog gpu (r, 0) = .cpu (prog r) := by
  simp [world, hr]

theorem world_gpu {r y : Nat} (hr : r < T.ranks) (hy : y = 1 ∨ y = 2) :
    T.world prog gpu (r, y) = .gpu (gpu r y) := by
  rcases hy with rfl | rfl <;> simp [world, hr, kGpusPerRank]

theorem update_world_cpu {r : Nat} (hr : r < T.ranks) (x : Prog F) :
    Function.update (T.world prog gpu) (r, 0) (.cpu x) = T.world
      (Function.update prog r x) gpu := by
  funext p
  obtain ⟨q, y⟩ := p
  by_cases hq : q = r
  · subst hq
    by_cases hy : y = 0
    · subst hy
      simp [world, hr]
    · simp [world, hy]
  · simp [world, hq]

theorem update_world_gpu {r y : Nat} (hr : r < T.ranks) (hy : y = 1 ∨ y = 2) (x : Gpu F) :
    Function.update (T.world prog gpu) (r, y) (.gpu x) =
      T.world prog (Function.update gpu r (Function.update (gpu r) y x)) := by
  have hy0 : y ≠ 0 := by omega
  have hy2 : y ≤ 2 := by omega
  funext p
  obtain ⟨q, z⟩ := p
  by_cases hq : q = r
  · subst hq
    by_cases hz : z = y
    · subst hz
      simp [world, hr, hy0, hy2, kGpusPerRank]
    · simp [world, hz]
  · simp [world, hq]

variable [Field F]

def Goes (T : Training F) (prog : Nat → Prog F) (gpu : Nat → Nat → Gpu F)
    (models : Nat → List (Vec F)) (prog' : Nat → Prog F) (gpu' : Nat → Nat → Gpu F)
    (models' : Nat → List (Vec F)) : Prop :=
  Kahn.Settles T.tagged (T.world prog gpu) (observed models) (T.world prog' gpu') (observed models')

theorem Goes.trans (h : T.Goes prog gpu models prog' gpu' models')
    (h' : T.Goes prog' gpu' models' prog'' gpu'' models'') :
    T.Goes prog gpu models prog'' gpu'' models'' := Kahn.Settles.trans h h'

theorem Goes.of_eq (hprog : ∀ r < T.ranks, prog r = prog' r) :
    T.Goes prog gpu models prog' gpu models := by
  unfold Goes
  rw [world_congr hprog fun _ _ => rfl]
  exact Kahn.Settles.refl

theorem Goes.cpuToCpu (prog : Nat → Prog F) (gpu : Nat → Nat → Gpu F) (models : Nat → List (Vec F))
    {r q : Nat} {m : Msg F} {k : Prog F} {l : Body F → Prog F} (hr : r < T.ranks) (hq : q < T.ranks)
    (hrq : r ≠ q) (hs : prog r = .send ((r, 0), (q, 0)) m k)
    (hl : prog q = .recv ((r, 0), (q, 0)) m.want l) :
    T.Goes prog gpu models (Function.update (Function.update prog r k) q (l m.body)) gpu
      models := by
  have hne : ((r, 0) : Place) ≠ (q, 0) := by simpa using hrq
  have hp : T.tagged.act (r, 0) (T.world prog gpu (r, 0)) = .send ((r, 0), (q, 0)) m (.cpu k) := by
    rw [world_cpu hr, hs]
    simp [tagged, Kahn.Network.accepting, network, act]
  have hc : T.tagged.act (q, 0) (T.world prog gpu (q, 0)) =
      .recv ((r, 0), (q, 0)) m.want fun m => .cpu (l m.body) := by
    rw [world_cpu hq, hl]
    simp [tagged, Kahn.Network.accepting, network, act]
  have h : Kahn.Settles T.tagged _ (observed models) _ _ :=
    Kahn.Settles.transfer hne hp hc m.accepted
  rw [update_world_cpu hr, update_world_cpu hq] at h
  exact h

/-- What a rank can do with its workers, whatever the other ranks do. -/
def RankGoes (T : Training F) (r : Nat) (p : Prog F) (row : Nat → Gpu F) (seen : List (Vec F))
    (p' : Prog F) (row' : Nat → Gpu F) (seen' : List (Vec F)) : Prop :=
  ∀ prog gpu models, prog r = p → gpu r = row → models r = seen →
    T.Goes prog gpu models (Function.update prog r p') (Function.update gpu r row')
      (Function.update models r seen')

theorem RankGoes.trans {r : Nat} {p p' p'' : Prog F} {row row' row'' : Nat → Gpu F}
    {seen seen' seen'' : List (Vec F)} (h : T.RankGoes r p row seen p' row' seen')
    (h' : T.RankGoes r p' row' seen' p'' row'' seen'') :
    T.RankGoes r p row seen p'' row'' seen'' := by
  intro prog gpu models hp hrow hseen
  have h₂ := h' _ _ _ (Function.update_self r p' prog) (Function.update_self r row' gpu)
    (Function.update_self r seen' models)
  simp only [Function.update_idem] at h₂
  exact (h prog gpu models hp hrow hseen).trans h₂

theorem RankGoes.toGpu {r y : Nat} {m : Msg F} {k : Prog F} {l : Msg F → Gpu F} {row : Nat → Gpu F}
    {seen : List (Vec F)} (hr : r < T.ranks) (hy : y = 1 ∨ y = 2)
    (hl : T.gpuAct r y (row y) = .recv ((r, 0), (r, y)) m.want l) :
    T.RankGoes r (.send ((r, 0), (r, y)) m k) row seen k (Function.update row y (l m)) seen := by
  rintro prog gpu models hs rfl rfl
  have hne : ((r, 0) : Place) ≠ (r, y) := by
    rcases hy with rfl | rfl <;> simp
  have hp : T.tagged.act (r, 0) (T.world prog gpu (r, 0)) = .send ((r, 0), (r, y)) m (.cpu k) := by
    rw [world_cpu hr, hs]
    simp [tagged, Kahn.Network.accepting, network, act]
  have hc : T.tagged.act (r, y) (T.world prog gpu (r, y)) =
      .recv ((r, 0), (r, y)) m.want fun m => .gpu (l m) := by
    rw [world_gpu hr hy]
    simp [tagged, Kahn.Network.accepting, network, act, hl]
  have h : Kahn.Settles T.tagged _ (observed models) _ _ :=
    Kahn.Settles.transfer hne hp hc m.accepted
  rw [update_world_cpu hr, update_world_gpu hr hy] at h
  rwa [Function.update_eq_self]

theorem RankGoes.fromGpu {r y : Nat} {m : Msg F} {k : Gpu F} {l : Body F → Prog F}
    {row : Nat → Gpu F} {seen : List (Vec F)} (hr : r < T.ranks) (hy : y = 1 ∨ y = 2)
    (hs : T.gpuAct r y (row y) = .send ((r, y), (r, 0)) m k) :
    T.RankGoes r (.recv ((r, y), (r, 0)) m.want l) row seen (l m.body)
      (Function.update row y k) seen := by
  rintro prog gpu models hl rfl rfl
  have hne : ((r, y) : Place) ≠ (r, 0) := by
    rcases hy with rfl | rfl <;> simp
  have hp : T.tagged.act (r, y) (T.world prog gpu (r, y)) = .send ((r, y), (r, 0)) m (.gpu k) := by
    rw [world_gpu hr hy]
    simp [tagged, Kahn.Network.accepting, network, act, hs]
  have hc : T.tagged.act (r, 0) (T.world prog gpu (r, 0)) =
      .recv ((r, y), (r, 0)) m.want fun m => .cpu (l m.body) := by
    rw [world_cpu hr, hl]
    simp [tagged, Kahn.Network.accepting, network, act]
  have h : Kahn.Settles T.tagged _ (observed models) _ _ :=
    Kahn.Settles.transfer hne hp hc m.accepted
  rw [update_world_gpu hr hy, update_world_cpu hr] at h
  rwa [Function.update_eq_self]

theorem RankGoes.emit {r : Nat} {model : Vec F} {k : Prog F} {row : Nat → Gpu F}
    {seen : List (Vec F)} (hr : r < T.ranks) :
    T.RankGoes r (.emit model k) row seen k row (seen ++ [model]) := by
  rintro prog gpu models hs rfl rfl
  have hp : T.tagged.act (r, 0) (T.world prog gpu (r, 0)) = .emit model (.cpu k) := by
    rw [world_cpu hr, hs]
    rfl
  have h := Kahn.Settles.emit (e := observed models) hp
  rw [update_world_cpu hr] at h
  have hobs : Function.update (observed models) (r, 0) (observed models (r, 0) ++ [model]) =
      observed (Function.update models r (models r ++ [model])) := by
    funext p
    obtain ⟨q, y⟩ := p
    by_cases hq : q = r
    · subst hq
      by_cases hy : y = 0
      · subst hy
        simp [observed]
      · simp [observed, hy]
    · simp [observed, hq]
  rw [hobs] at h
  rwa [Function.update_eq_self]

/-- What each rank can do with its workers, all ranks can do. -/
theorem Goes.all {before after : Nat → Prog F} {idle idle' : Nat → Nat → Gpu F}
    {seen seen' : Nat → List (Vec F)}
    (h : ∀ r < T.ranks, T.RankGoes r (before r) (idle r) (seen r) (after r) (idle' r) (seen' r)) :
    T.Goes before idle seen after idle' fun r => if r < T.ranks then seen' r else seen r := by
  have hsome : ∀ m ≤ T.ranks, T.Goes before idle seen (fun r => if r < m then after r else before r)
      (fun r => if r < m then idle' r else idle r)
        (fun r => if r < m then seen' r else seen r) := by
    intro m hm
    induction m with
    | zero =>
      simp only [Nat.not_lt_zero, if_false]
      exact Kahn.Settles.refl
    | succ m ih =>
      have hupdate : ∀ {α : Type} (f g : Nat → α),
          Function.update (fun r => if r < m then g r else f r) m (g m) =
            fun r => if r < m + 1 then g r else f r := by
        intro α f g
        funext r
        by_cases hr : r = m
        · subst hr
          simp
        · have hlt : r < m + 1 ↔ r < m := by omega
          simp [Function.update_of_ne hr, hlt]
      have hstep := h m (by omega) (fun r => if r < m then after r else before r)
        (fun r => if r < m then idle' r else idle r) (fun r => if r < m then seen' r else seen r)
        (by simp) (by simp) (by simp)
      rw [hupdate, hupdate, hupdate] at hstep
      exact (ih (by omega)).trans hstep
  have hall := hsome T.ranks le_rfl
  unfold Goes at hall ⊢
  rwa [world_congr (fun r hr => if_pos hr) (fun r hr => if_pos hr)] at hall

theorem RankGoes.sendToGpu {r y iteration : Nat} {model : Vec F} {k : Prog F} {row : Nat → Gpu F}
    {seen : List (Vec F)} (hr : r < T.ranks) (hy : y = 1 ∨ y = 2) (hpos : 0 < T.samplesPerGpu)
    (hmax : T.samplesPerGpu ≤ kMaximumSamples) (hg : row y = .awaitHeader) :
    T.RankGoes r (ChipSystemSim.sendToGpu r y iteration T.samplesPerGpu model k) row seen k
      (Function.update row y (.sendGradient (T.calculateGradient model r (y - 1) T.samplesPerGpu)))
        seen := by
  have hheader : T.gpuAct r y (row y) =
      .recv ((r, 0), (r, y)) ⟨.header, 16⟩ fun m => gpuOnHeader m.body := by rw [hg]; rfl
  have hitem : gpuOnHeader (.header iteration T.samplesPerGpu : Body F) =
      .awaitModel T.samplesPerGpu := by
    have h₁ : ¬((iteration : Int) < 0) := by omega
    have h₂ : ¬((T.samplesPerGpu : Int) ≤ 0 ∨ (kMaximumSamples : Int) < T.samplesPerGpu) := by omega
    simp only [gpuOnHeader, h₁, h₂, if_false]
  have hmodel : T.gpuAct r y (Function.update row y (.awaitModel T.samplesPerGpu) y) =
      .recv ((r, 0), (r, y)) ⟨.model, kParameters * 8⟩ fun m =>
        T.gpuOnModel r y T.samplesPerGpu m.body := by
    simp [gpuAct]
  have h₁ : T.RankGoes r (ChipSystemSim.sendToGpu r y iteration T.samplesPerGpu model k) row seen
      (sendMessage (r, y) (r, 0) .model (.vec model) k) _ seen := RankGoes.toGpu hr hy hheader
  have h₂ : T.RankGoes r (sendMessage (r, y) (r, 0) .model (.vec model) k) _ seen k _ seen :=
    RankGoes.toGpu hr hy hmodel
  rw [hitem] at h₁
  simp only [Function.update_idem, gpuOnModel, Int.toNat_natCast] at h₂
  exact h₁.trans h₂

theorem RankGoes.receiveGradient {r y : Nat} {gradient : Vec F} {k : Vec F → Prog F}
    {row : Nat → Gpu F} {seen : List (Vec F)} (hr : r < T.ranks) (hy : y = 1 ∨ y = 2)
    (hg : row y = .sendGradient gradient) :
    T.RankGoes r (ChipSystemSim.receiveGradient r y k) row seen (k gradient)
      (Function.update row y .awaitHeader) seen := by
  have hsend : T.gpuAct r y (row y) =
      .send ((r, y), (r, 0)) ⟨.gradient, .vec gradient⟩ .awaitHeader := by
    rw [hg]; rfl
  exact RankGoes.fromGpu hr hy hsend

theorem RankGoes.work {r iteration : Nat} {model : Vec F} {k : Vec F → Vec F → Prog F}
    {seen : List (Vec F)} (hr : r < T.ranks) (hpos : 0 < T.samplesPerGpu)
    (hmax : T.samplesPerGpu ≤ kMaximumSamples) :
    T.RankGoes r (ChipSystemSim.sendToGpu r 1 iteration T.samplesPerGpu model
      (ChipSystemSim.sendToGpu r 2 iteration T.samplesPerGpu model
        (ChipSystemSim.receiveGradient r 1 fun g => ChipSystemSim.receiveGradient r 2
          fun g' => k g g')))
      (fun _ => .awaitHeader) seen
      (k (T.calculateGradient model r 0 T.samplesPerGpu)
        (T.calculateGradient model r 1 T.samplesPerGpu))
      (fun _ => .awaitHeader) seen := by
  refine RankGoes.trans (RankGoes.sendToGpu hr (Or.inl rfl) hpos hmax rfl) ?_
  refine RankGoes.trans (RankGoes.sendToGpu hr (Or.inr rfl) hpos hmax (by simp)) ?_
  refine RankGoes.trans (RankGoes.receiveGradient hr (Or.inl rfl) (by simp; rfl)) ?_
  have hidle : Function.update (Function.update (Function.update (Function.update
      (fun _ => (.awaitHeader : Gpu F)) 1
      (.sendGradient (T.calculateGradient model r 0 T.samplesPerGpu))) 2
      (.sendGradient (T.calculateGradient model r 1 T.samplesPerGpu))) 1 .awaitHeader) 2
        .awaitHeader =
      fun _ => .awaitHeader := by
    funext y
    simp only [Function.update_apply]
    split_ifs <;> rfl
  refine (congrArg (fun row => T.RankGoes r _ _ seen _ row seen) hidle).mp ?_
  exact RankGoes.receiveGradient hr (Or.inr rfl) (by simp)

theorem Goes.peers {exchange : List Nat → Prog F} {before after : Nat → Prog F}
    (hstep : ∀ peer rest prog, 1 ≤ peer → peer < T.ranks → prog 0 = exchange (peer :: rest) →
      prog peer = before peer → T.Goes prog gpu models
        (Function.update (Function.update prog peer (after peer)) 0 (exchange rest)) gpu models)
    (n a : Nat) (prog : Nat → Prog F) (ha : 1 ≤ a) (hn : a + n ≤ T.ranks)
    (h0 : prog 0 = exchange (List.range' a n)) (hr : ∀ r, a ≤ r → r < a + n → prog r = before r) :
    T.Goes prog gpu models
      (fun r => if r = 0 then exchange [] else if a ≤ r ∧ r < a + n then after r else prog r)
      gpu models := by
  induction n generalizing a prog with
  | zero =>
    refine Goes.of_eq ?_
    intro r _
    have hnot : ¬(a ≤ r ∧ r < a + 0) := by omega
    by_cases h : r = 0
    · subst h
      simpa using h0
    · rw [if_neg h, if_neg hnot]
  | succ n ih =>
    rw [List.range'_succ] at h0
    refine (hstep a _ prog ha (by omega) h0 (hr a le_rfl (by omega))).trans ?_
    have hrest := ih (a + 1) (Function.update (Function.update prog a (after a)) 0 _)
      (by omega) (by omega)
      (Function.update_self ..) (fun r h₁ h₂ => by
        rw [Function.update_of_ne (by omega), Function.update_of_ne (by omega)]
        exact hr r (by omega) (by omega))
    refine (congrArg (fun p => T.Goes _ gpu models p gpu models) (funext fun r => ?_)).mp hrest
    by_cases h : r = 0
    · simp [h]
    · by_cases hra : r = a
      · subst hra
        simp [h]
      · have hiff : (a + 1 ≤ r ∧ r < a + 1 + n) ↔ (a ≤ r ∧ r < a + (n + 1)) := by omega
        simp only [h, if_false, hiff, Function.update_of_ne h, Function.update_of_ne hra]

/-- All ranks go from `before` to `after` once rank 0 has dealt with every peer. -/
theorem Goes.barrier (exchange : List Nat → Prog F) {before after : Nat → Prog F}
    (hpos : 0 < T.ranks) (hstep : ∀ peer rest prog, 1 ≤ peer → peer < T.ranks →
      prog 0 = exchange (peer :: rest) →
      prog peer = before peer → T.Goes prog gpu models
        (Function.update (Function.update prog peer (after peer)) 0 (exchange rest)) gpu models)
    (hbefore : before 0 = exchange (List.range' 1 (T.ranks - 1))) (hafter : after 0 = exchange []) :
    T.Goes before gpu models after gpu models := by
  refine (Goes.peers hstep (T.ranks - 1) 1 before le_rfl (by omega) hbefore fun _ _ _ => rfl).trans
    ?_
  refine Goes.of_eq ?_
  intro r hr
  by_cases h : r = 0
  · rw [if_pos h, h, hafter]
  · rw [if_neg h, if_pos (by omega)]

theorem Goes.startBarrier {k : Nat → Prog F} (hpos : 0 < T.ranks) :
    T.Goes (fun r => startMeasurementBarrier r T.ranks (k r)) gpu models k gpu models := by
  let released : Nat → Prog F := fun r =>
    if r = 0 then sendTokens (List.range' 1 (T.ranks - 1)) (k 0)
    else receiveMessage (r, 0) (0, 0) .release 4 fun _ => k r
  have hready : T.Goes (fun r => startMeasurementBarrier r T.ranks (k r)) gpu models released gpu
      models := by
    refine Goes.barrier
      (fun l => receiveTokens .ready l (sendTokens (List.range' 1 (T.ranks - 1)) (k 0)))
      hpos ?_ rfl rfl
    intro peer rest prog hp hlt h0 hpeer
    have hne : peer ≠ 0 := by omega
    simp only [startMeasurementBarrier, released, hne, if_false] at hpeer ⊢
    exact Goes.cpuToCpu prog gpu models hlt hpos hne hpeer h0
  have hrelease : T.Goes released gpu models k gpu models := by
    refine Goes.barrier (fun l => sendTokens l (k 0)) hpos ?_ rfl rfl
    intro peer rest prog hp hlt h0 hpeer
    have hne : peer ≠ 0 := by omega
    simp only [released, hne, if_false] at hpeer
    rw [Function.update_comm hne]
    exact Goes.cpuToCpu prog gpu models hpos hlt hne.symm h0 hpeer
  exact hready.trans hrelease

theorem Goes.finishBarrier {k : Nat → Prog F} (hpos : 0 < T.ranks) :
    T.Goes (fun r => finishMeasurementBarrier r T.ranks (k r)) gpu models k gpu models := by
  refine Goes.barrier (fun l => receiveTokens .finished l (k 0)) hpos ?_ rfl rfl
  intro peer rest prog hp hlt h0 hpeer
  have hne : peer ≠ 0 := by omega
  simp only [finishMeasurementBarrier, hne, if_false] at hpeer
  exact Goes.cpuToCpu prog gpu models hlt hpos hne hpeer h0

theorem treeSum_eq (g : Nat → Vec F) (j b : Nat) :
    treeSum (· + ·) g j b = ∑ i ∈ range (2 ^ j), g (b + i) := by
  induction j generalizing b with
  | zero => simp [treeSum]
  | succ j ih =>
    rw [treeSum, ih, ih, ← two_mul_pow, two_mul, sum_range_add]
    simp only [Nat.add_assoc]
    rfl

theorem Goes.exchange : Exchange T.ranks fun prog prog' =>
    T.Goes prog gpu models prog' gpu models where
  of_eq := Goes.of_eq
  trans := Goes.trans
  message prog _ _ _ _ _ hr hq hrq hs hl := Goes.cpuToCpu prog gpu models hr hq hrq hs hl

theorem Goes.broadcast {next : Nat → Vec F → Prog F} {model : Vec F} {old : Nat → Vec F}
    (j fuel : Nat) (hj : j ≤ fuel) (b : Nat) (prog : Nat → Prog F) (hb : 2 ^ j ∣ b)
    (hle : b + 2 ^ j ≤ T.ranks)
    (hbase : prog b = broadcastLoop b T.ranks fuel (2 ^ j / 2) model (next b))
    (hprog : ∀ r, b < r → r < b + 2 ^ j →
      prog r = broadcastLoop r T.ranks fuel (2 ^ j / 2) (old r) (next r)) :
    T.Goes prog gpu models (fun r => if b ≤ r ∧ r < b + 2 ^ j then next r model else prog r) gpu
      models := by
  induction j generalizing fuel b prog with
  | zero =>
    refine Goes.of_eq ?_
    intro r _
    by_cases h : r = b
    · subst h
      rw [if_pos (by simp), hbase, show 2 ^ 0 / 2 = 0 from rfl, broadcastLoop_zero]
    · rw [if_neg (by rw [pow_zero]; omega)]
  | succ j ih =>
    obtain ⟨f, rfl⟩ : ∃ f, fuel = f + 1 := ⟨fuel - 1, by omega⟩
    have hpos := Nat.two_pow_pos j
    have hpow := two_mul_pow j
    have hhalf : 2 ^ (j + 1) / 2 = 2 ^ j := by omega
    have hbj : 2 ^ j ∣ b := dvd_trans (pow_dvd_pow 2 (Nat.le_succ j)) hb
    have hmod : ∀ t, t < 2 ^ (j + 1) → (b + t) % (2 * 2 ^ j) = t := by
      intro t ht
      obtain ⟨q, rfl⟩ := hb
      rw [hpow, Nat.mul_add_mod, Nat.mod_eq_of_lt ht]
    rw [hhalf] at hbase hprog
    have hmod₀ : b % (2 * 2 ^ j) = 0 := hmod 0 (by omega)
    have hsend : prog b = sendMessage (b + 2 ^ j, 0) (b, 0) .update (.vec model)
        (broadcastLoop b T.ranks f (2 ^ j / 2) model (next b)) := by
      rw [hbase, broadcastLoop_send hpos (by omega) hmod₀]
    have hrecv : prog (b + 2 ^ j) = receiveVec (b + 2 ^ j, 0) (b, 0) .update fun model =>
        broadcastLoop (b + 2 ^ j) T.ranks f (2 ^ j / 2) model (next (b + 2 ^ j)) := by
      rw [hprog _ (by omega) (by omega), broadcastLoop_recv hpos (hmod _ (by omega)),
        Nat.add_sub_cancel]
    have hothers : ∀ r, b < r → r < b + 2 ^ (j + 1) → r ≠ b + 2 ^ j →
        prog r = broadcastLoop r T.ranks f (2 ^ j / 2) (old r) (next r) := by
      intro r h₁ h₂ h₃
      have hr := hmod (r - b) (by omega)
      rw [show b + (r - b) = r by omega] at hr
      rw [hprog r h₁ h₂, broadcastLoop_skip hpos (by omega) (by omega)]
    let sent :=
      Function.update (Function.update prog b
      (broadcastLoop b T.ranks f (2 ^ j / 2) model (next b)))
      (b + 2 ^ j) (broadcastLoop (b + 2 ^ j) T.ranks f (2 ^ j / 2) model (next (b + 2 ^ j)))
    have hmsg : T.Goes prog gpu models sent gpu models :=
      Goes.cpuToCpu prog gpu models (by omega) (by omega) (by omega) hsend hrecv
    have hsent : ∀ r, r ≠ b → r ≠ b + 2 ^ j → sent r = prog r := by
      intro r h₁ h₂
      simp only [sent, Function.update_of_ne h₁, Function.update_of_ne h₂]
    have hleft := ih f (by omega) b sent hbj (by omega)
      (by simp only [sent]; rw [Function.update_of_ne (by omega), Function.update_self])
      (fun r h₁ h₂ => by
        rw [hsent r (by omega) (by omega)]
        exact hothers r h₁ (by omega) (by omega))
    let half : Nat → Prog F := fun r => if b ≤ r ∧ r < b + 2 ^ j then next r model else sent r
    have hhalfUpper : ∀ r, b + 2 ^ j ≤ r → half r = sent r := by
      intro r hr
      simp only [half]
      rw [if_neg (by omega)]
    have hright := ih f (by omega) (b + 2 ^ j) half (upper_dvd hb) (by omega)
      (by rw [hhalfUpper _ le_rfl]; simp only [sent, Function.update_self])
      (fun r h₁ h₂ => by
        rw [hhalfUpper r (by omega), hsent r (by omega) (by omega)]
        exact hothers r (by omega) (by omega) (by omega))
    refine (hmsg.trans (hleft.trans hright)).trans (Goes.of_eq ?_)
    intro r _
    simp only [half]
    by_cases hin : b ≤ r ∧ r < b + 2 ^ (j + 1)
    · rw [if_pos hin]
      by_cases hlow : r < b + 2 ^ j
      · rw [if_neg (by omega), if_pos ⟨hin.1, hlow⟩]
      · rw [if_pos (by omega)]
    · rw [if_neg hin, if_neg (by omega), if_neg (by omega), hsent r (by omega) (by omega)]

def totalGradient (T : Training F) (model : Vec F) : Vec F :=
  ∑ r ∈ range T.ranks, addInto (T.calculateGradient model r 0 T.samplesPerGpu)
    (T.calculateGradient model r 1 T.samplesPerGpu)

theorem Goes.synchronise {k : Nat} {g : Nat → Vec F} {model : Vec F} {next : Nat → Vec F → Prog F}
    (hranks : T.ranks = 2 ^ k) :
    T.Goes (fun r => synchroniseModel r T.ranks T.samples (g r) model (next r)) gpu models
      (fun r => next r (applyGradient T.samples model (∑ r ∈ range T.ranks, g r))) gpu models := by
  have hk : k ≤ T.ranks := by
    rw [hranks]
    exact Nat.lt_two_pow_self.le
  let before : Nat → Prog F := fun r => synchroniseModel r T.ranks T.samples (g r) model (next r)
  let start : Nat → Vec F → Prog F := fun r gradient =>
    broadcastModelTree r T.ranks (if r = 0 then applyGradient T.samples model gradient else model)
      (next r)
  let waiting : Nat → Prog F := fun r => broadcastModelTree r T.ranks model (next r)
  let root := reducedBy (· + ·) T.ranks start waiting g T.ranks k 0 before
  have hreduce : T.Goes before gpu models root gpu models := by
    refine Goes.exchange.reduce ?_ k hk 0 before ⟨0, rfl⟩ (by omega) fun r _ _ => rfl
    intro r hr gradient
    simp only [start, waiting, hr, if_false]
  have hbase : root 0 = broadcastLoop 0 T.ranks T.ranks (2 ^ k / 2)
      (applyGradient T.samples model (∑ r ∈ range T.ranks, g r)) (next 0) := by
    simp only [root, reducedBy, if_true, treeSum_eq]
    rw [reduceLoopBy_done (by omega)]
    simp only [start, if_true, broadcastModelTree, Nat.zero_add, hranks]
  have hothers : ∀ r, 0 < r → r < 0 + 2 ^ k →
      root r = broadcastLoop r T.ranks T.ranks (2 ^ k / 2) model (next r) := by
    intro r h₁ h₂
    simp only [root, reducedBy]
    rw [if_neg (by omega), if_pos (by omega)]
    simp only [waiting, broadcastModelTree, hranks]
  have hcast : T.Goes root gpu models _ gpu models :=
    Goes.broadcast k T.ranks hk 0 root ⟨0, rfl⟩ (by omega) hbase hothers
  refine (hreduce.trans hcast).trans (Goes.of_eq ?_)
  intro r hr
  rw [if_pos (by omega)]

theorem Goes.iteration {k remaining iteration : Nat} {model : Vec F} {next : Nat → Prog F}
    (hranks : T.ranks = 2 ^ k) (hpos : 0 < T.samplesPerGpu)
    (hmax : T.samplesPerGpu ≤ kMaximumSamples) :
    T.Goes (fun r => T.trainingLoop r (remaining + 1) iteration model (next r))
      (fun _ _ => .awaitHeader)
      models
      (fun r => T.trainingLoop r remaining (iteration + 1)
        (applyGradient T.samples model (T.totalGradient model)) (next r)) (fun _ _ => .awaitHeader)
      (fun r => if r < T.ranks then
        models r ++ [applyGradient T.samples model (T.totalGradient model)] else models r) := by
  let share : Nat → Vec F := fun r => addInto (T.calculateGradient model r 0 T.samplesPerGpu)
    (T.calculateGradient model r 1 T.samplesPerGpu)
  let rest : Nat → Vec F → Prog F := fun r model =>
    .emit model (T.trainingLoop r remaining (iteration + 1) model (next r))
  have hwork : T.Goes (fun r => T.trainingLoop r (remaining + 1) iteration model (next r))
      (fun _ _ => .awaitHeader) models
      (fun r => synchroniseModel r T.ranks T.samples (share r) model (rest r))
        (fun _ _ => .awaitHeader)
      fun r => if r < T.ranks then models r else models r :=
    Goes.all fun r hr => RankGoes.work hr hpos hmax
  simp only [ite_self] at hwork
  refine hwork.trans ((Goes.synchronise hranks).trans ?_)
  exact Goes.all fun r hr => RankGoes.emit hr

end Training

end ChipSystemSim
