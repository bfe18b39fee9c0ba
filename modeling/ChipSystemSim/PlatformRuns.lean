import ChipSystemSim.PlatformNode

/-! What the platform has done when its controller reports a measurement, and that it comes
to that. The work of one GPU simlet is followed through every interleaving as one thread of
the controller's requests. -/

namespace ChipSystemSim

namespace Platform

open Coroutine

variable (c : Config)

section Work

variable {c} {next : NodeTask} {p : NodeEvent → Bool}

def delayEvents (c : Config) (bytes : Nat) (source destination : Role) : List NodeEvent :=
  if hostForRole c source = hostForRole c destination then []
  else (hostForRole c .ns3).toList.map (.simulated · bytes)

def transferEvents (c : Config) (bytes : Nat) (source destination : Role) : List NodeEvent :=
  delayEvents c bytes source destination ++ [.transferred source destination bytes]

def roundEvents (c : Config) (cpuIndex gpuIndex : Nat) : List NodeEvent :=
  (List.replicate c.workload.inputMessagesPerRound
    (transferEvents c c.workload.payloadBytes (.cpu cpuIndex) (.gpu gpuIndex))).flatten ++
  ((hostForRole c (.gpu gpuIndex)).toList.map (.computed · (.gpu gpuIndex)) ++
    transferEvents c c.workload.resultBytes (.gpu gpuIndex) (.cpu cpuIndex))

def workEvents (c : Config) (cpuIndex gpuIndex : Nat) : List NodeEvent :=
  (List.replicate c.workload.rounds (roundEvents c cpuIndex gpuIndex)).flatten

/-- The task emits these events of the kind `p` first, and then those of `next`. -/
def Emits (p : NodeEvent → Bool) (events : List NodeEvent) (task next : NodeTask) : Prop :=
  task.Passes → next.Passes ∧ task.events.filter p = events.filter p ++ next.events.filter p

theorem Emits.trans {events more : List NodeEvent} {task middle : NodeTask}
    (h : Emits p events task middle) (h' : Emits p more middle next) :
    Emits p (events ++ more) task next := by
  intro ht
  obtain ⟨hm, heq⟩ := h ht
  obtain ⟨hn, heq'⟩ := h' hm
  refine ⟨hn, ?_⟩
  rw [heq, heq', List.filter_append, List.append_assoc]

theorem emits_act (e : NodeEvent) : Emits p [e] (.act e next) next := by
  intro ht
  refine ⟨ht, ?_⟩
  rw [← List.filter_append]
  rfl

theorem emits_foldr {f : Nat → NodeTask → NodeTask} {events : List NodeEvent}
    (h : ∀ index next, Emits p events (f index next) next) (indices : List Nat) :
    Emits p (List.replicate indices.length events).flatten (indices.foldr f next) next := by
  induction indices with
  | nil => exact fun ht => ⟨ht, rfl⟩
  | cons index rest ih =>
    rw [List.length_cons, List.replicate_succ, List.flatten_cons, List.foldr_cons]
    exact (h index _).trans ih

/-- Which proxy passes a request on is left out of account. -/
def Unforwarded (p : NodeEvent → Bool) : Prop := ∀ proxy target, p (.forwarded proxy target) = false

theorem emits_routedRequest (hp : Unforwarded p) {serve : Nat → Role → NodeTask} {role : Role}
    {payload : Message} (sequence : Nat) (f : Nat → List NodeEvent)
    (h : ∀ target, hostForRole c role = some target → (dispatch c serve payload target).Passes →
      (dispatch c serve payload target).events.filter p = (f target).filter p) :
    Emits p ((hostForRole c role).toList.flatMap f)
      (routedRequest c serve role payload sequence next) next := by
  intro ht
  rcases @routedRequest_cases c serve next role payload sequence with hr |
    ⟨target, htarget, hr | ⟨proxy, -, hr⟩⟩
  · rw [hr] at ht
    exact ht.elim
  · rw [hr] at ht ⊢
    refine ⟨ht.2, ?_⟩
    rw [htarget, Option.toList_some, List.flatMap_singleton, ← h target htarget ht.1,
      ← List.filter_append]
    rfl
  · rw [hr] at ht ⊢
    refine ⟨ht.2, ?_⟩
    rw [htarget, Option.toList_some, List.flatMap_singleton, ← h target htarget ht.1.1]
    simp only [events, List.append_nil, List.filter_append, List.filter_cons, hp proxy target]
    rfl

theorem emits_transfer (hp : Unforwarded p) (bytes : Nat) (source destination : Role)
    (sequence : Nat) :
    Emits p (transferEvents c bytes source destination)
      (transfer c bytes source destination sequence next) next := by
  have hact := @emits_act next p (.transferred source destination bytes)
  unfold transfer transferEvents networkDelay delayEvents
  cases hs : hostForRole c source with
  | none => exact fun ht => ht.elim
  | some a =>
    cases hd : hostForRole c destination with
    | none => exact fun ht => ht.elim
    | some b =>
      dsimp only
      by_cases hab : a = b
      · rw [if_pos hab, if_pos (congrArg some hab)]
        exact hact
      · rw [if_neg hab, if_neg fun heq => hab (Option.some.inj heq), List.map_eq_flatMap]
        apply Emits.trans _ hact
        exact emits_routedRequest hp sequence (fun target => [.simulated target bytes])
          fun _ _ _ => rfl

theorem emits_gpuRound (hp : Unforwarded p) (cpuIndex gpuIndex roundIndex : Nat) :
    Emits p (roundEvents c cpuIndex gpuIndex)
      (gpuRound c cpuIndex gpuIndex roundIndex next) next := by
  unfold gpuRound roundEvents
  rw [List.map_eq_flatMap]
  apply Emits.trans
  · have hinputs := fun middle : NodeTask => @emits_foldr middle p
      (fun message => transfer c c.workload.payloadBytes (.cpu cpuIndex) (.gpu gpuIndex)
        (gpuIndex * 1000 + roundIndex * 10 + message)) _
      (fun _ _ => emits_transfer hp _ _ _ _) (List.range c.workload.inputMessagesPerRound)
    rw [List.length_range] at hinputs
    exact hinputs _
  · refine Emits.trans ?_ (emits_transfer hp _ _ _ (gpuIndex * 1000 + roundIndex * 10 + 9))
    apply emits_routedRequest hp _ fun target => [.computed target (.gpu gpuIndex)]
    intro target htarget _
    rw [dispatch, if_pos (hostForRole_roles htarget)]
    rfl

theorem emits_runGpu (hp : Unforwarded p) (cpuIndex gpuIndex : Nat) :
    Emits p (workEvents c cpuIndex gpuIndex) (runGpu c cpuIndex gpuIndex) .done := by
  have h := @emits_foldr .done p (gpuRound c cpuIndex gpuIndex) _
    (fun _ _ => emits_gpuRound hp _ _ _)
    (List.range c.workload.rounds)
  rwa [List.length_range] at h

theorem routedRequest_passes {serve : Nat → Role → NodeTask} {role : Role} {payload : Message}
    {sequence : Nat} (h : (routedRequest c serve role payload sequence next).Passes) :
    ∃ target, hostForRole c role = some target ∧ (dispatch c serve payload target).Passes ∧
    next.Passes := by
  rcases @routedRequest_cases c serve next role payload sequence with hr |
    ⟨target, htarget, hr | ⟨proxy, -, hr⟩⟩
  · rw [hr] at h
    exact h.elim
  · rw [hr] at h
    exact ⟨target, htarget, h.1, h.2⟩
  · rw [hr] at h
    exact ⟨target, htarget, h.1.1, h.2⟩

theorem cpuWorkload_eq {index target : Nat} (h : hostForRole c (.cpu index) = some target) :
    cpuWorkload c target (.cpu index) = gather
      [runGpu c index (index * 2), runGpu c index (index * 2 + 1)] .done :=
  if_pos (hostForRole_roles h)

theorem cpuRequest_passes {index : Nat} (h : (cpuRequest c index).Passes) :
    (hostForRole c (.cpu index)).isSome ∧ (runGpu c index (index * 2)).Passes ∧
      (runGpu c index (index * 2 + 1)).Passes := by
  obtain ⟨target, htarget, hd, -⟩ := routedRequest_passes h
  rw [dispatch, cpuWorkload_eq htarget] at hd
  exact ⟨Option.isSome_of_eq_some htarget, gather_passes hd _ (by simp),
    gather_passes hd _ (by simp)⟩

/-- Both GPUs of a CPU simlet. -/
theorem cpuRequest_events (hp : Unforwarded p) {index : Nat} (h : (cpuRequest c index).Passes) :
    (cpuRequest c index).events.filter p =
      (workEvents c index (index * 2) ++ workEvents c index (index * 2 + 1)).filter p := by
  obtain ⟨hhost, hleft, hright⟩ := cpuRequest_passes h
  obtain ⟨host, hhost⟩ := Option.isSome_iff_exists.mp hhost
  have hpair : ∀ target, hostForRole c (.cpu index) = some target →
      (dispatch c (cpuWorkload c) (.cpuWorkload (.cpu index)) target).events.filter p =
        (workEvents c index (index * 2) ++ workEvents c index (index * 2 + 1)).filter p := by
    intro target htarget
    rw [dispatch, cpuWorkload_eq htarget, gather_events, List.filter_append,
      List.flatMap_cons, List.flatMap_singleton, List.filter_append,
      (emits_runGpu hp index (index * 2) hleft).2, (emits_runGpu hp index (index * 2 + 1) hright).2]
    simp only [events, List.filter_nil, List.append_nil]
  have hemits : Emits p _ (cpuRequest c index) .done :=
    emits_routedRequest hp index
      (fun _ => workEvents c index (index * 2) ++ workEvents c index (index * 2 + 1))
      fun target htarget _ => hpair target htarget
  rw [hhost] at hemits
  simpa only [Option.toList_some, List.flatMap_singleton, events, List.filter_nil,
    List.append_nil] using (hemits h).2

def workload (c : Config) : NodeTask := gather ((List.range 4).map (cpuRequest c)) .done

theorem workload_events (hp : Unforwarded p) (h : (workload c).Passes) :
    (workload c).events.filter p =
      ((List.range 8).flatMap fun g => workEvents c (g / 2) g).filter p := by
  have hall : ∀ index < 4, (cpuRequest c index).Passes := fun index hlt =>
    gather_passes h _ (List.mem_map_of_mem (List.mem_range.mpr hlt))
  unfold workload
  rw [gather_events]
  have hrange : List.range 4 = [0, 1, 2, 3] := rfl
  have hrange' : List.range 8 = [0, 1, 2, 3, 4, 5, 6, 7] := rfl
  rw [hrange, hrange']
  simp only [List.map_cons, List.map_nil, List.flatMap_cons, List.flatMap_nil, List.append_nil,
    List.filter_append, cpuRequest_events hp (hall 0 (by omega)),
    cpuRequest_events hp (hall 1 (by omega)), cpuRequest_events hp (hall 2 (by omega)),
    cpuRequest_events hp (hall 3 (by omega)), List.append_assoc]

end Work

section Threads

variable {c} {p : NodeEvent → Bool}

/-- The loops of the simlets and of the shutdown put one request before what follows. -/
theorem foldr_keeps {P : NodeTask → Prop} {f : Nat → NodeTask → NodeTask}
    (h : ∀ index next, P next → P (f index next)) (indices : List Nat) {next : NodeTask}
    (hn : P next) : P (indices.foldr f next) := by
  induction indices with
  | nil => exact hn
  | cons index rest ih => exact h index _ ih

theorem transfer_straight (bytes : Nat) (source destination : Role) (sequence : Nat)
    {next : NodeTask} (hn : next.Straight Working) :
    (transfer c bytes source destination sequence next).Straight Working := by
  have hact : (Coroutine.act (NodeEvent.transferred source destination bytes) next).Straight
      Working :=
    .act (working_transferred source destination bytes) hn
  unfold transfer networkDelay
  split
  · split
    · exact hact
    · exact routedRequest_straight sequence
        (fun target => .act (working_simulated target bytes) .done) hact
  · exact .fail .done

theorem runGpu_straight (cpuIndex gpuIndex : Nat) :
    (runGpu c cpuIndex gpuIndex).Straight Working := by
  apply foldr_keeps _ _ .done
  intro index next hn
  apply foldr_keeps fun _ _ h => transfer_straight _ _ _ _ h
  apply routedRequest_straight _ _ (transfer_straight _ _ _ _ hn)
  intro target
  unfold dispatch
  by_cases hrole : Role.gpu gpuIndex ∈ rolesOf c target
  · rw [if_pos hrole]
    exact .act (working_computed target (.gpu gpuIndex)) .done
  · rw [if_neg hrole]
    exact .fail .done

def cpuPair (c : Config) (index : Nat) : NodeTask :=
  gather [runGpu c index (index * 2), runGpu c index (index * 2 + 1)] .done

theorem cpuRequest_cases (c : Config) (index : Nat) :
    cpuRequest c index = .fail .done ∨ cpuRequest c index = .call (cpuPair c index) .done ∨
      ∃ proxy target, cpuRequest c index =
        .call (.act (.forwarded proxy target) (.call (cpuPair c index) .done)) .done := by
  rcases @routedRequest_cases c (cpuWorkload c) .done (.cpu index)
    (.cpuWorkload (.cpu index)) index with
    h | ⟨target, htarget, h | ⟨proxy, -, h⟩⟩
  · exact Or.inl h
  · rw [dispatch, cpuWorkload_eq htarget] at h
    exact Or.inr (Or.inl h)
  · rw [dispatch, cpuWorkload_eq htarget] at h
    exact Or.inr (Or.inr ⟨proxy, target, h⟩)

theorem cpuPair_owed (lossy : Bool) (index : Nat) :
    (cpuPair c index).owed lossy = (cpuPair c index).events := by
  unfold cpuPair
  rw [gather_owed, gather_events]
  simp only [List.flatMap_cons, List.flatMap_nil, (runGpu_straight _ _).owed_eq]

theorem cpuPair_working (index : Nat) : ∀ e ∈ (cpuPair c index).events, Working e := by
  unfold cpuPair
  rw [gather_events]
  intro e he
  obtain ⟨t, ht, he⟩ := List.mem_flatMap.mp he
  rcases List.mem_cons.mp ht with rfl | ht
  · exact (runGpu_straight _ _).mem e he
  · rw [List.mem_singleton.mp ht] at he
    exact (runGpu_straight _ _).mem e he

theorem cpuRequest_owed (lossy : Bool) (index : Nat) :
    (cpuRequest c index).owed lossy = (cpuRequest c index).events := by
  rcases cpuRequest_cases c index with h | h | ⟨proxy, target, h⟩ <;> rw [h] <;>
    simp only [owed, events, cpuPair_owed]

theorem cpuRequest_working (index : Nat) : ∀ e ∈ (cpuRequest c index).events, Working e := by
  intro e he
  rcases cpuRequest_cases c index with h | h | ⟨proxy, target, h⟩ <;> rw [h] at he
  · cases he
  · simp only [events, List.append_nil] at he
    exact cpuPair_working index e he
  · simp only [events, List.append_nil, List.mem_cons] at he
    rcases he with rfl | he
    · exact working_forwarded proxy target
    · exact cpuPair_working index e he

theorem workload_owed (lossy : Bool) : (workload c).owed lossy = (workload c).events := by
  unfold workload
  rw [gather_owed, gather_events, List.flatMap_map, List.flatMap_map]
  simp only [cpuRequest_owed]

theorem workload_working : ∀ e ∈ (workload c).events, Working e := by
  unfold workload
  rw [gather_events, List.flatMap_map]
  intro e he
  obtain ⟨index, -, he⟩ := List.mem_flatMap.mp he
  exact cpuRequest_working index e he

/-- No GPU works for two CPU simlets, so that its events come from one side of every pair. -/
theorem workload_sequential (hp : Unforwarded p) {g : Nat} (h : (workload c).Passes)
    (hfree : ∀ i j, j ≠ g → (workEvents c i j).filter p = []) : (workload c).Sequential p := by
  have hall : ∀ index < 4, (cpuRequest c index).Passes := fun index hlt =>
    gather_passes h _ (List.mem_map_of_mem (List.mem_range.mpr hlt))
  have hother : ∀ index < 4, index ≠ g / 2 → (cpuRequest c index).events.filter p = [] := by
    intro index hlt hne
    rw [cpuRequest_events hp (hall index hlt), List.filter_append, hfree _ _ (by omega),
      hfree _ _ (by omega)]
    rfl
  apply gather_sequential
  · rw [List.pairwise_map]
    apply List.pairwise_lt_range.imp_of_mem
    intro i j hi hj hlt
    by_cases hne : i = g / 2
    · exact Or.inr (hother j (List.mem_range.mp hj) (by omega))
    · exact Or.inl (hother i (List.mem_range.mp hi) hne)
  · intro t ht
    obtain ⟨index, hindex, rfl⟩ := List.mem_map.mp ht
    have hpair : (cpuPair c index).Sequential p := by
      obtain ⟨-, hleft, hright⟩ := cpuRequest_passes (hall index (List.mem_range.mp hindex))
      have hl := (emits_runGpu hp index (index * 2) hleft).2
      have hr := (emits_runGpu hp index (index * 2 + 1) hright).2
      apply gather_sequential
      · rw [List.pairwise_pair]
        by_cases heq : index * 2 = g
        · right
          rw [hr, hfree _ _ (by omega)]
          rfl
        · left
          rw [hl, hfree _ _ heq]
          rfl
      · intro t ht
        rcases List.mem_cons.mp ht with rfl | ht
        · exact (runGpu_straight _ _).sequential p
        · rw [List.mem_singleton.mp ht]
          exact (runGpu_straight _ _).sequential p
    rcases cpuRequest_cases c index with h | h | ⟨proxy, target, h⟩
    · rw [h]; trivial
    · rw [h]; exact ⟨hpair, trivial⟩
    · rw [h]; exact ⟨⟨hpair, trivial⟩, trivial⟩

end Threads

section Counts

variable {c}

/-- The events that one GPU simlet is the worker of. -/
def ofGpu (g : Nat) : NodeEvent → Bool
  | .transferred (.cpu _) (.gpu j) _ => j == g
  | .transferred (.gpu j) (.cpu _) _ => j == g
  | .computed _ (.gpu j) => j == g
  | _ => false

def isSimulated : NodeEvent → Bool
  | .simulated _ _ => true
  | _ => false

def isSimulation (bytes : Nat) : NodeEvent → Bool
  | .simulated _ amount => amount == bytes
  | _ => false

/-- A transfer of this size between two nodes. -/
def isCrossing (c : Config) (bytes : Nat) : NodeEvent → Bool
  | .transferred source destination amount =>
    amount == bytes && decide (hostForRole c source ≠ hostForRole c destination)
  | _ => false

def gpuRoundEvents (c : Config) (g : Nat) : List NodeEvent :=
  List.replicate c.workload.inputMessagesPerRound
    (.transferred (.cpu (g / 2)) (.gpu g) c.workload.payloadBytes) ++
  ((hostForRole c (.gpu g)).toList.map (.computed · (.gpu g)) ++
    [.transferred (.gpu g) (.cpu (g / 2)) c.workload.resultBytes])

def gpuEvents (c : Config) (g : Nat) : List NodeEvent :=
  (List.replicate c.workload.rounds (gpuRoundEvents c g)).flatten

/-- A GPU simlet that is not on the node of its CPU simlet. -/
def Crosses (c : Config) (g : Nat) : Prop := hostForRole c (.cpu (g / 2)) ≠ hostForRole c (.gpu g)

instance (c : Config) : DecidablePred (Crosses c) := fun _ => inferInstanceAs (Decidable (_ ≠ _))

theorem ofGpu_unforwarded (g : Nat) : Unforwarded (ofGpu g) := fun _ _ => rfl

theorem isSimulated_unforwarded : Unforwarded isSimulated := fun _ _ => rfl

theorem isSimulation_unforwarded (bytes : Nat) : Unforwarded (isSimulation bytes) := fun _ _ => rfl

theorem isCrossing_unforwarded (bytes : Nat) : Unforwarded (isCrossing c bytes) := fun _ _ => rfl

theorem filter_delayEvents {p : NodeEvent → Bool}
    (hp : ∀ node bytes, p (.simulated node bytes) = false) (bytes : Nat)
    (source destination : Role) : (delayEvents c bytes source destination).filter p = [] := by
  unfold delayEvents
  by_cases h : hostForRole c source = hostForRole c destination
  · rw [if_pos h]
    rfl
  · rw [if_neg h, List.filter_eq_nil_iff]
    intro e he
    obtain ⟨node, -, rfl⟩ := List.mem_map.mp he
    simp [hp]

theorem filter_repeated (p : NodeEvent → Bool) (n : Nat) (l : List NodeEvent) :
    (List.replicate n l).flatten.filter p = (List.replicate n (l.filter p)).flatten := by
  rw [List.filter_flatten, List.map_replicate]

theorem workEvents_other {g : Nat} (i j : Nat) (hj : j ≠ g) :
    (workEvents c i j).filter (ofGpu g) = [] := by
  have hne : (j == g) = false := beq_eq_false_iff_ne.mpr hj
  have hdelay : ∀ bytes s d, (delayEvents c bytes s d).filter (ofGpu g) = [] :=
    fun bytes s d => filter_delayEvents (fun _ _ => rfl) bytes s d
  have hcomputed : ((hostForRole c (.gpu j)).toList.map (NodeEvent.computed · (.gpu j))).filter
      (ofGpu g) = [] := by
    rw [List.filter_eq_nil_iff]
    intro e he
    obtain ⟨node, -, rfl⟩ := List.mem_map.mp he
    simp [ofGpu, hj]
  unfold workEvents roundEvents transferEvents
  simp only [filter_repeated, List.filter_append, hdelay, hcomputed, List.filter_cons, ofGpu, hne,
    List.filter_nil, List.append_nil, Bool.false_eq_true, if_false, List.flatten_replicate_nil]

theorem workEvents_own (g : Nat) : (workEvents c (g / 2) g).filter (ofGpu g) = gpuEvents c g := by
  have hdelay : ∀ bytes s d, (delayEvents c bytes s d).filter (ofGpu g) = [] :=
    fun bytes s d => filter_delayEvents (fun _ _ => rfl) bytes s d
  have hcomputed : ((hostForRole c (.gpu g)).toList.map (NodeEvent.computed · (.gpu g))).filter
      (ofGpu g) =
      (hostForRole c (.gpu g)).toList.map (.computed · (.gpu g)) := by
    rw [List.filter_eq_self]
    intro e he
    obtain ⟨node, -, rfl⟩ := List.mem_map.mp he
    exact beq_self_eq_true g
  unfold workEvents roundEvents transferEvents gpuEvents gpuRoundEvents
  simp only [filter_repeated, List.filter_append, hdelay, hcomputed, List.filter_cons, ofGpu,
    beq_self_eq_true, List.filter_nil, List.nil_append, if_true, List.flatten_replicate_singleton]

theorem gathered_gpuEvents (g : Nat) {l : List Nat} (hl : l.Nodup) :
    (l.flatMap fun j => (workEvents c (j / 2) j).filter (ofGpu g)) = if g ∈ l then gpuEvents c g
      else [] := by
  induction l with
  | nil => rfl
  | cons j rest ih =>
    obtain ⟨hj, hrest⟩ := List.nodup_cons.mp hl
    rw [List.flatMap_cons, ih hrest]
    by_cases heq : j = g
    · subst heq
      rw [workEvents_own, if_neg hj, if_pos List.mem_cons_self, List.append_nil]
    · rw [workEvents_other _ _ heq, List.nil_append]
      simp only [List.mem_cons, Ne.symm heq, false_or]

theorem countP_repeated (n : Nat) (l : List NodeEvent) (p : NodeEvent → Bool) :
    (List.replicate n l).flatten.countP p = n * l.countP p := by
  induction n with
  | zero => simp
  | succ n ih =>
    rw [List.replicate_succ, List.flatten_cons, List.countP_append, ih, Nat.succ_mul, Nat.add_comm]

theorem countP_delayEvents (bytes : Nat) (source destination : Role)
    (h : hostForRole c source = hostForRole c destination ∨ (hostForRole c .ns3).isSome) :
    (delayEvents c bytes source destination).countP isSimulated =
      if hostForRole c source = hostForRole c destination then 0 else 1 := by
  unfold delayEvents
  by_cases heq : hostForRole c source = hostForRole c destination
  · rw [if_pos heq, if_pos heq]
    rfl
  · obtain ⟨node, hnode⟩ := Option.isSome_iff_exists.mp (h.resolve_left heq)
    rw [if_neg heq, if_neg heq, hnode]
    rfl

theorem countP_workEvents (g : Nat)
    (h : 0 < c.workload.rounds → hostForRole c (.cpu (g / 2)) = hostForRole c (.gpu g) ∨
      (hostForRole c .ns3).isSome) :
    (workEvents c (g / 2) g).countP isSimulated =
      if Crosses c g then c.workload.rounds * (c.workload.inputMessagesPerRound + 1) else 0 := by
  by_cases hr : 0 < c.workload.rounds
  · have hin := countP_delayEvents c.workload.payloadBytes _ _ (h hr)
    have hout := countP_delayEvents c.workload.resultBytes _ _ ((h hr).imp_left Eq.symm)
    have hcomputed : ((hostForRole c (.gpu g)).toList.map (NodeEvent.computed · (.gpu g))).countP
        isSimulated = 0 := by
      rw [List.countP_eq_zero]
      intro e he
      obtain ⟨node, -, rfl⟩ := List.mem_map.mp he
      exact Bool.false_ne_true
    unfold workEvents roundEvents transferEvents
    simp only [countP_repeated, List.countP_append, hin, hout, hcomputed, List.countP_singleton,
      isSimulated, Bool.false_eq_true, if_false]
    unfold Crosses
    by_cases heq : hostForRole c (.cpu (g / 2)) = hostForRole c (.gpu g)
    · simp [heq]
    · simp [heq, Ne.symm heq]
  · have hz : c.workload.rounds = 0 := by omega
    unfold workEvents
    simp [hz]

theorem countP_transferEvents (bytes amount : Nat) {source destination : Role}
    (h : hostForRole c source = hostForRole c destination ∨ (hostForRole c .ns3).isSome) :
    (transferEvents c amount source destination).countP (isSimulation bytes) =
      (transferEvents c amount source destination).countP (isCrossing c bytes) := by
  unfold transferEvents delayEvents
  by_cases heq : hostForRole c source = hostForRole c destination
  · simp [isSimulation, isCrossing, heq]
  · obtain ⟨node, hnode⟩ := Option.isSome_iff_exists.mp (h.resolve_left heq)
    by_cases hbytes : amount = bytes
    · simp [isSimulation, isCrossing, heq, hnode, hbytes]
    · simp [isSimulation, isCrossing, heq, hnode, hbytes]

/-- Of every size there are as many simulations as transfers between two nodes. -/
theorem countP_simulation (bytes g : Nat)
    (h : 0 < c.workload.rounds →
      hostForRole c (.cpu (g / 2)) = hostForRole c (.gpu g) ∨ (hostForRole c .ns3).isSome) :
    (workEvents c (g / 2) g).countP (isSimulation bytes) =
      (workEvents c (g / 2) g).countP (isCrossing c bytes) := by
  by_cases hr : 0 < c.workload.rounds
  · have hin := countP_transferEvents bytes c.workload.payloadBytes (h hr)
    have hout := countP_transferEvents bytes c.workload.resultBytes ((h hr).imp_left Eq.symm)
    have hcomputed : ∀ p : NodeEvent → Bool, (∀ node role, p (.computed node role) = false) →
        ((hostForRole c (.gpu g)).toList.map (NodeEvent.computed · (.gpu g))).countP p = 0 := by
      intro p hp
      rw [List.countP_eq_zero]
      intro e he
      obtain ⟨node, -, rfl⟩ := List.mem_map.mp he
      simp [hp]
    unfold workEvents roundEvents
    simp only [countP_repeated, List.countP_append, hin, hout,
      hcomputed (isSimulation bytes) fun _ _ => rfl, hcomputed (isCrossing c bytes) fun _ _ => rfl]
  · have hz : c.workload.rounds = 0 := by omega
    unfold workEvents
    simp [hz]

theorem transfer_passes {bytes : Nat} {source destination : Role} {sequence : Nat} {next : NodeTask}
    (h : (transfer c bytes source destination sequence next).Passes) :
    hostForRole c source = hostForRole c destination ∨ (hostForRole c .ns3).isSome := by
  unfold transfer networkDelay at h
  split at h
  · rename_i a b hs hd
    by_cases hab : a = b
    · left
      rw [hs, hd, hab]
    · rw [if_neg hab] at h
      obtain ⟨target, htarget, -⟩ := routedRequest_passes h
      exact Or.inr (Option.isSome_of_eq_some htarget)
  · exact h.elim

/-- A GPU simlet that has a round to do needs a host, and ns-3 unless it is on the node of
its CPU simlet. -/
theorem runGpu_passes {cpuIndex g : Nat} (hr : 0 < c.workload.rounds)
    (h : (runGpu c cpuIndex g).Passes) :
    (hostForRole c (.gpu g)).isSome ∧
      (hostForRole c (.cpu cpuIndex) = hostForRole c (.gpu g) ∨ (hostForRole c .ns3).isSome) := by
  obtain ⟨n, hn⟩ := Nat.exists_eq_succ_of_ne_zero (Nat.ne_of_gt hr)
  unfold runGpu at h
  rw [hn, Nat.succ_eq_add_one, List.range_succ_eq_map, List.foldr_cons] at h
  have hinputs :=
    (@emits_foldr _ isSimulated _ _
    (fun _ _ => emits_transfer isSimulated_unforwarded _ _ _ _) _ h).1
  obtain ⟨target, htarget, -, hnext⟩ := routedRequest_passes hinputs
  exact ⟨Option.isSome_of_eq_some htarget, (transfer_passes hnext).imp_left Eq.symm⟩

theorem countP_gathered (l : List Nat) {k : Nat} (f : Nat → List NodeEvent)
    (h : ∀ g ∈ l, (f g).countP isSimulated = if Crosses c g then k else 0) :
    (l.flatMap f).countP isSimulated = l.countP (Crosses c ·) * k := by
  induction l with
  | nil => simp
  | cons g rest ih =>
    rw [List.flatMap_cons, List.countP_append, h g List.mem_cons_self,
      ih fun x hx => h x (List.mem_cons_of_mem _ hx), List.countP_cons]
    by_cases hg : Crosses c g
    · simp only [hg, if_true, decide_true]
      rw [Nat.add_mul, Nat.one_mul, Nat.add_comm]
    · simp [hg]

end Counts

section Runs

variable {c} {self : Nat} {lossy : Bool} {trace : List NodeEvent} {u : NodeTask}

def shutdownEvents (c : Config) (self : Nat) : List NodeEvent :=
  (c.nodes.filter (· ≠ self) ++ [self]).map .stopped

/-- What the nodes have done for a measurement: every GPU simlet all of its rounds, in order
and on the first node that lists it, and ns-3, which is then hosted, one run of the size of
each transfer between two nodes. -/
structure CoversWorkload (c : Config) (before : List NodeEvent) : Prop where
  cpus : ∀ index < 4, (hostForRole c (.cpu index)).isSome
  gpus : 0 < c.workload.rounds → ∀ g < 8, (hostForRole c (.gpu g)).isSome
  work : ∀ g < 8, before.filter (ofGpu g) = gpuEvents c g
  simulations : before.countP isSimulated =
    (List.range 8).countP (Crosses c ·) *
      (c.workload.rounds * (c.workload.inputMessagesPerRound + 1))
  sizes : ∀ bytes, before.countP (isSimulation bytes) = before.countP (isCrossing c bytes)
  simulator : ∀ node bytes, .simulated node bytes ∈ before → hostForRole c .ns3 = some node
  network : 0 < c.workload.rounds → ∀ g < 8, Crosses c g → (hostForRole c .ns3).isSome

def tail (c : Config) (self : Nat) : NodeTask :=
  .act .reported (shutdownOthers c self c.nodes (.act (.stopped self) .done))

theorem simulated_mem {g node bytes : Nat} (i : Nat)
    (h : .simulated node bytes ∈ workEvents c i g) : hostForRole c .ns3 = some node := by
  have hdelay : ∀ {amount s d}, .simulated node bytes ∈ delayEvents c amount s d →
      hostForRole c .ns3 = some node := by
    intro amount s d hmem
    unfold delayEvents at hmem
    split at hmem
    · cases hmem
    · obtain ⟨host, hhost, heq⟩ := List.mem_map.mp hmem
      injection heq with heq
      rw [← heq]
      exact Option.mem_toList.mp hhost
  unfold workEvents roundEvents transferEvents at h
  obtain ⟨l, hl, h⟩ := List.mem_flatten.mp h
  rw [List.eq_of_mem_replicate hl] at h
  rcases List.mem_append.mp h with h | h
  · obtain ⟨l, hl, h⟩ := List.mem_flatten.mp h
    rw [List.eq_of_mem_replicate hl] at h
    rcases List.mem_append.mp h with h | h
    · exact hdelay h
    · simp at h
  · rcases List.mem_append.mp h with h | h
    · simp at h
    · rcases List.mem_append.mp h with h | h
      · exact hdelay h
      · simp at h

theorem workload_covers {before : List NodeEvent} (h : Run lossy (workload c) before .done) :
    CoversWorkload c before := by
  have hpasses := h.passes
  have hall : ∀ index < 4, (cpuRequest c index).Passes := fun index hlt =>
    gather_passes hpasses _ (List.mem_map_of_mem (List.mem_range.mpr hlt))
  have hgpu : ∀ g < 8, (runGpu c (g / 2) g).Passes := by
    intro g hlt
    obtain ⟨-, hleft, hright⟩ := cpuRequest_passes (hall (g / 2) (by omega))
    by_cases heven : g / 2 * 2 = g
    · rwa [heven] at hleft
    · rwa [show g / 2 * 2 + 1 = g by omega] at hright
  refine ⟨fun index hlt => (cpuRequest_passes (hall index hlt)).1, fun hr g hlt =>
    (runGpu_passes hr (hgpu g hlt)).1,
    ?_, ?_, fun bytes => ?_, ?_, fun hr g hlt hcross =>
      (runGpu_passes hr (hgpu g hlt)).2.resolve_left hcross⟩
  · intro g hlt
    rw [h.filter_eq (workload_sequential (ofGpu_unforwarded g) hpasses fun i j =>
      workEvents_other i j)
      (workload_owed lossy), workload_events (ofGpu_unforwarded g) hpasses, List.filter_flatMap]
    rw [gathered_gpuEvents g List.nodup_range, if_pos (List.mem_range.mpr hlt)]
  · have hevents := congrArg List.length (workload_events isSimulated_unforwarded hpasses)
    rw [← List.countP_eq_length_filter, ← List.countP_eq_length_filter] at hevents
    rw [h.countP_eq (workload_owed lossy), hevents]
    apply countP_gathered
    intro g hg
    exact countP_workEvents g fun hr => (runGpu_passes hr (hgpu g (List.mem_range.mp hg))).2
  · have hcount : ∀ p, Unforwarded p → before.countP p =
        (((List.range 8).map fun g => (workEvents c (g / 2) g).countP p).sum) := by
      intro p hp
      rw [h.countP_eq (workload_owed lossy), List.countP_eq_length_filter,
        workload_events hp hpasses, ← List.countP_eq_length_filter, List.countP_flatMap]
      rfl
    rw [hcount _ (isSimulation_unforwarded bytes), hcount _ (isCrossing_unforwarded bytes)]
    apply congrArg List.sum
    apply List.map_congr_left
    intro g hg
    exact countP_simulation bytes g fun hr => (runGpu_passes hr (hgpu g (List.mem_range.mp hg))).2
  · intro node bytes hmem
    have hfilter : .simulated node bytes ∈ (workload c).events.filter isSimulated :=
      List.mem_filter.mpr ⟨h.mem_events hmem, rfl⟩
    rw [workload_events isSimulated_unforwarded hpasses] at hfilter
    obtain ⟨g, -, hg⟩ := List.mem_flatMap.mp (List.mem_filter.mp hfilter).1
    exact simulated_mem _ hg

theorem runController_eq (c : Config) (self : Nat) :
    runController c self = (workload c).followedBy (tail c self) :=
  gather_followedBy _ _

theorem shutdownOthers_events (nodes : List Nat) (next : NodeTask) :
    (shutdownOthers c self nodes next).events = (nodes.filter (· ≠ self)).map .stopped ++
      next.events := by
  induction nodes with
  | nil => rfl
  | cons node rest ih =>
    unfold shutdownOthers at ih ⊢
    rw [List.foldr_cons]
    by_cases hne : node = self
    · rw [if_neg fun h => h hne, ih, List.filter_cons_of_neg (by simpa using hne)]
    · rw [if_pos hne, List.filter_cons_of_pos (by simpa using hne)]
      show _ :: _ = _
      rw [ih]
      rfl

theorem shutdownOthers_keeps {P : NodeTask → Prop}
    (h : ∀ node next, P next → P (.attempt (.act (.stopped node) .done) next)) (nodes : List Nat)
    {next : NodeTask} (hn : P next) : P (shutdownOthers c self nodes next) := by
  apply foldr_keeps _ _ hn
  intro node next hnext
  by_cases hne : node = self
  · rwa [if_neg fun h => h hne]
  · rw [if_pos hne]
    exact h node next hnext

theorem tail_events (c : Config) (self : Nat) :
    (tail c self).events = .reported :: shutdownEvents c self := by
  unfold tail shutdownEvents
  rw [List.map_append]
  show NodeEvent.reported :: (shutdownOthers c self c.nodes _).events = _
  rw [shutdownOthers_events]
  rfl

theorem tail_sequential (p : NodeEvent → Bool) : (tail c self).Sequential p :=
  @shutdownOthers_keeps c self (Sequential p) (fun _ _ h => ⟨trivial, h⟩) c.nodes _ trivial

/-- The first event after the workload is the report. -/
theorem tail_run (h : Run lossy (tail c self) trace u) :
    trace = [] ∨ ∃ after, trace = .reported :: after ∧ after.Sublist (shutdownEvents c self) := by
  have hsub := h.filter_sublist (tail_sequential fun _ => true)
  rw [List.filter_true, List.filter_true, tail_events, List.filter_true] at hsub
  cases h with
  | refl _ => exact Or.inl rfl
  | step hstep hrun =>
    cases hstep with
    | act _ _ =>
      have hshort := (List.sublist_append_left _ _).trans hsub
      exact Or.inr ⟨_, rfl, List.cons_sublist_cons.mp hshort⟩

/-- Every simlet and ns-3 have a node, and every proxy is one. -/
structure Hosted (c : Config) : Prop where
  cpus : ∀ index < 4, (hostForRole c (.cpu index)).isSome
  gpus : ∀ g < 8, (hostForRole c (.gpu g)).isSome
  simulator : (hostForRole c .ns3).isSome
  proxies : ∀ x ∈ c.proxies, x ∈ c.nodes

theorem Hosted.transfer (hc : Hosted c) {source destination : Role}
    (hs : (hostForRole c source).isSome) (hd : (hostForRole c destination).isSome)
    (bytes sequence : Nat) {next : NodeTask} (hn : next.Sound) :
    (transfer c bytes source destination sequence next).Sound := by
  obtain ⟨a, ha⟩ := Option.isSome_iff_exists.mp hs
  obtain ⟨b, hb⟩ := Option.isSome_iff_exists.mp hd
  have hact : (Coroutine.act (NodeEvent.transferred source destination bytes) next).Sound := hn
  unfold Platform.transfer networkDelay
  rw [ha, hb]
  dsimp only
  by_cases hab : a = b
  · rwa [if_pos hab]
  · rw [if_neg hab]
    exact routedRequest_sound sequence hc.proxies hc.simulator (fun _ _ => trivial) hact

theorem Hosted.runGpu (hc : Hosted c) {index g : Nat} (hi : index < 4) (hg : g < 8) :
    (runGpu c index g).Sound := by
  have hcpu := hc.cpus index hi
  have hgpu := hc.gpus g hg
  apply foldr_keeps _ _ (show (Coroutine.done : NodeTask).Sound from trivial)
  intro roundIndex next hn
  apply foldr_keeps fun _ _ h => hc.transfer hcpu hgpu _ _ h
  apply routedRequest_sound _ hc.proxies hgpu _ (hc.transfer hgpu hcpu _ _ hn)
  intro target htarget
  rw [dispatch, if_pos (hostForRole_roles htarget)]
  trivial

theorem Hosted.runController (hc : Hosted c) (self : Nat) : (runController c self).Sound := by
  apply gather_sound
  · intro t ht
    obtain ⟨index, hindex, rfl⟩ := List.mem_map.mp ht
    have hi := List.mem_range.mp hindex
    apply routedRequest_sound _ hc.proxies (hc.cpus index hi) _
      (show (Coroutine.done : NodeTask).Sound from trivial)
    intro target htarget
    rw [dispatch, cpuWorkload_eq htarget]
    apply gather_sound _ _ (show (Coroutine.done : NodeTask).Sound from trivial)
    intro t ht
    rcases List.mem_cons.mp ht with rfl | ht
    · exact hc.runGpu hi (by omega)
    · rw [List.mem_singleton.mp ht]
      exact hc.runGpu hi (by omega)
  · exact @shutdownOthers_keeps c self Sound (fun _ _ h => ⟨trivial, h⟩) c.nodes _ trivial

theorem done_run (h : Run false (runController c self) trace .done) :
    ∃ before, trace = before ++ .reported :: shutdownEvents c self ∧ CoversWorkload c before := by
  rw [runController_eq] at h
  rcases h.followedBy with ⟨t', -, heq⟩ | ⟨before, after, rfl, hbefore, hafter⟩
  · cases t' <;> cases heq
  · have hall := hafter.filter_eq (tail_sequential fun _ => true) (owed_false _)
    rw [List.filter_true, List.filter_true, tail_events] at hall
    rw [hall]
    exact ⟨before, rfl, workload_covers hbefore⟩

theorem runConfig_hosted (workload : Workload) {containerCount : Nat}
    {placement : List (Nat × List Role)} (h : placementFor containerCount = some placement) :
    Hosted (runConfig workload h) := by
  have hcpus : ∀ index < 4,
      ((placement.find? fun x => Role.cpu index ∈ x.2).map Prod.fst).isSome := by
    unfold placementFor at h
    split at h <;> cases h <;> decide
  have hgpus : ∀ g < 8, ((placement.find? fun x => Role.gpu g ∈ x.2).map Prod.fst).isSome := by
    unfold placementFor at h
    split at h <;> cases h <;> decide
  have hsimulator : ((placement.find? fun x => Role.ns3 ∈ x.2).map Prod.fst).isSome := by
    unfold placementFor at h
    split at h <;> cases h <;> decide
  exact ⟨hcpus, hgpus, hsimulator, nofun⟩

/-- Whatever is lost and whichever way the calls interleave: nobody is told to stop and
nothing is reported before the whole workload is done, wherever its simlets and proxies are
placed. -/
theorem measurement_covers_workload (c : Config) (self : Nat) {lossy : Bool}
    {trace : List NodeEvent} {u : NodeTask} (h : Run lossy (runController c self) trace u) :
    (∀ e ∈ trace, e ≠ .reported ∧ ∀ node, e ≠ .stopped node) ∨
      ∃ before after, trace = before ++ .reported :: after ∧ CoversWorkload c before ∧
        after.Sublist (shutdownEvents c self) := by
  rw [runController_eq] at h
  rcases h.followedBy with ⟨t', hrun, -⟩ | ⟨before, after, rfl, hbefore, hafter⟩
  · exact Or.inl fun e he => workload_working e (hrun.mem_events he)
  · rcases tail_run hafter with rfl | ⟨rest, rfl, hrest⟩
    · rw [List.append_nil]
      exact Or.inl fun e he => workload_working e (hbefore.mem_events he)
    · exact Or.inr ⟨before, rest, rfl, workload_covers hbefore, hrest⟩

def eightNodes : Config :=
  runConfig
    { rounds := 6
      inputMessagesPerRound := 2
      payloadBytes := 262144
      resultBytes := 32768 }
    (show placementFor 8 = some _ from rfl)

theorem measurement_covers_workload_eight :
    ∃ before after, Run false (runController eightNodes 0) (before ++ .reported :: after) .done ∧
      CoversWorkload eightNodes before := by
  obtain ⟨trace, hrun⟩ :=
    (Hosted.runController (runConfig_hosted _ rfl) 0 : (runController eightNodes 0).Sound).completes
  obtain ⟨begun, heq, -⟩ := done_run hrun
  rcases measurement_covers_workload eightNodes 0 hrun with hnone | ⟨before, after, rfl, hcovers, -⟩
  · exact absurd rfl (hnone .reported (by rw [heq]; simp)).1
  · exact ⟨before, after, hrun, hcovers⟩

/-- No run goes on forever, wherever the simlets are placed and whatever is lost; and where
everything is hosted and nothing is lost every run ends with the measurement of the whole
workload and all nodes stopped. -/
theorem hosted_controller_completes (c : Config) (self : Nat) :
    (¬∃ f : Nat → NodeTask, f 0 = runController c self ∧
      ∀ i, ∃ lossy events, Step lossy (f i) events (f (i + 1))) ∧
    (Hosted c → ∀ trace u, Run false (runController c self) trace u →
      ∃ rest before, Run false u rest .done ∧
        trace ++ rest = before ++ .reported :: shutdownEvents c self ∧
        CoversWorkload c before) := by
  refine ⟨fun ⟨f, _, hf⟩ => no_infinite_run f hf, fun hc trace u h => ?_⟩
  obtain ⟨rest, hrest⟩ := (h.sound (hc.runController self)).completes
  obtain ⟨before, heq, hcovers⟩ := done_run (h.trans hrest)
  exact ⟨rest, before, hrest, heq, hcovers⟩

theorem hosted_controller_completes_eight :
    ∃ trace before, Run false (runController eightNodes 0) trace .done ∧
      trace = before ++ .reported :: shutdownEvents eightNodes 0 ∧
      CoversWorkload eightNodes before := by
  have h := (hosted_controller_completes eightNodes 0).2 (runConfig_hosted _ rfl) [] _ (.refl _)
  obtain ⟨rest, before, hrun, heq, hcovers⟩ := h
  exact ⟨rest, before, hrun, heq, hcovers⟩

end Runs

end Platform

end ChipSystemSim
