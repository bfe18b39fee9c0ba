import ChipSystemSim.ForkJoin

/-! The workload adapter of the platform: a controller, four CPU simlets and eight GPU simlets that
call each other across the nodes they are placed on. Times and byte contents are left out. -/

namespace ChipSystemSim

namespace Platform

open Coroutine

inductive Role where
  | cpu (index : Nat)
  | gpu (index : Nat)
  | ns3
  deriving DecidableEq

structure Workload where
  rounds : Nat
  inputMessagesPerRound : Nat
  payloadBytes : Nat
  resultBytes : Nat

/-- `SIM_CONFIG`; the placement is an object, so that no node is in it twice. -/
structure Config where
  placement : List (Nat × List Role)
  distinct : (placement.map Prod.fst).Nodup
  proxies : List Nat
  workload : Workload

inductive Message where
  | forward (target : Nat) (payload : Message)
  | networkDelay (bytes : Nat)
  | gpuCompute (role : Role)
  | cpuWorkload (role : Role)
  | shutdown

inductive NodeEvent where
  | forwarded (proxy target : Nat)
  | simulated (node bytes : Nat)
  | transferred (source destination : Role) (bytes : Nat)
  | computed (node : Nat) (role : Role)
  | reported
  | stopped (node : Nat)
  deriving DecidableEq

abbrev NodeTask : Type := Coroutine NodeEvent

variable (c : Config)

def Config.nodes : List Nat := c.placement.map Prod.fst

def rolesOf (node : Nat) : List Role := (c.placement.lookup node).getD []

def hostForRole (role : Role) : Option Nat := (c.placement.find? fun x => role ∈ x.2).map Prod.fst

def proxyFor (sequence : Nat) : Option Nat := c.proxies[sequence % c.proxies.length]?

/-- `Node.dispatch` on the node of that number, with the handler of `cpu_workload`. -/
def dispatch (cpuWorkload : Nat → Role → NodeTask) : Message → Nat → NodeTask
  | .forward target payload, node =>
    .act (.forwarded node target)
      (if target ∈ c.nodes then .call (dispatch cpuWorkload payload target) .done else .fail .done)
  | .networkDelay bytes, node => .act (.simulated node bytes) .done
  | .gpuCompute role, node =>
    if role ∈ rolesOf c node then .act (.computed node role) .done else .fail .done
  | .cpuWorkload role, node => cpuWorkload node role
  | .shutdown, node => .act (.stopped node) .done

/-- A request to a node that nobody runs times out. -/
def request (cpuWorkload : Nat → Role → NodeTask) (host : Nat) (payload : Message)
    (next : NodeTask) : NodeTask :=
  if host ∈ c.nodes then .call (dispatch c cpuWorkload payload host) next else .fail .done

def routedRequest (cpuWorkload : Nat → Role → NodeTask) (role : Role) (payload : Message)
    (sequence : Nat) (next : NodeTask) : NodeTask :=
  match hostForRole c role with
  | none => .fail .done
  | some target =>
    match proxyFor c sequence with
    | none => request c cpuWorkload target payload next
    | some proxy => request c cpuWorkload proxy (.forward target payload) next

/-- What a CPU simlet sends carries no CPU workload. -/
def noWorkload : Nat → Role → NodeTask := fun _ _ => .fail .done

def networkDelay (bytes : Nat) (source destination : Role) (sequence : Nat)
    (next : NodeTask) : NodeTask :=
  match hostForRole c source, hostForRole c destination with
  | some a, some b =>
    if a = b then next else routedRequest c noWorkload .ns3 (.networkDelay bytes) sequence next
  | _, _ => .fail .done

def transfer (bytes : Nat) (source destination : Role) (sequence : Nat)
    (next : NodeTask) : NodeTask :=
  networkDelay c bytes source destination sequence
    (.act (.transferred source destination bytes) next)

/-- The body of the loop of `run_gpu`. -/
def gpuRound (cpuIndex gpuIndex roundIndex : Nat) (next : NodeTask) : NodeTask :=
  (List.range c.workload.inputMessagesPerRound).foldr
    (fun message => transfer c c.workload.payloadBytes (.cpu cpuIndex) (.gpu gpuIndex)
      (gpuIndex * 1000 + roundIndex * 10 + message))
    (routedRequest c noWorkload (.gpu gpuIndex) (.gpuCompute (.gpu gpuIndex))
      (gpuIndex * 1000 + roundIndex * 10 + 8)
      (transfer c c.workload.resultBytes (.gpu gpuIndex) (.cpu cpuIndex)
        (gpuIndex * 1000 + roundIndex * 10 + 9) next))

def runGpu (cpuIndex gpuIndex : Nat) : NodeTask :=
  (List.range c.workload.rounds).foldr (gpuRound c cpuIndex gpuIndex) .done

def cpuWorkload (node : Nat) (role : Role) : NodeTask :=
  if role ∈ rolesOf c node then
    match role with
    | .cpu index => gather [runGpu c index (index * 2), runGpu c index (index * 2 + 1)] .done
    | _ => .fail .done
  else .fail .done

/-- An `OSError` of a shutdown request is ignored, a lost answer is not. -/
def shutdownOthers (self : Nat) (nodes : List Nat) (next : NodeTask) : NodeTask :=
  nodes.foldr
    (fun node next => if node ≠ self then .attempt (dispatch c noWorkload .shutdown node) next
      else next) next

def cpuRequest (index : Nat) : NodeTask :=
  routedRequest c (cpuWorkload c) (.cpu index) (.cpuWorkload (.cpu index)) index .done

def runController (self : Nat) : NodeTask :=
  gather ((List.range 4).map (cpuRequest c))
    (.act .reported (shutdownOthers c self c.nodes (.act (.stopped self) .done)))

/-- `placement_for` -/
def placementFor : Nat → Option (List (Nat × List Role))
  | 1 => some [(0, (List.range 4).map .cpu ++ (List.range 8).map .gpu ++ [.ns3])]
  | 2 => some [(0, [.cpu 0, .cpu 1, .gpu 0, .gpu 2, .gpu 4, .gpu 6]),
      (1, [.cpu 2, .cpu 3, .gpu 1, .gpu 3, .gpu 5, .gpu 7, .ns3])]
  | 4 => some [(0, [.cpu 0, .gpu 0, .gpu 3]), (1, [.cpu 1, .gpu 2, .gpu 5]),
      (2, [.cpu 2, .gpu 4, .gpu 7]), (3, [.cpu 3, .gpu 6, .gpu 1, .ns3])]
  | 8 => some [(0, [.cpu 0, .gpu 0]), (1, [.cpu 1, .gpu 2]), (2, [.cpu 2, .gpu 4]),
      (3, [.cpu 3, .gpu 6]), (4, [.gpu 1]), (5, [.gpu 3]), (6, [.gpu 5]), (7, [.gpu 7, .ns3])]
  | _ => none

theorem placementFor_distinct {containerCount : Nat} {placement : List (Nat × List Role)}
    (h : placementFor containerCount = some placement) : (placement.map Prod.fst).Nodup := by
  unfold placementFor at h
  split at h <;> cases h <;> decide

/-- The configuration of `write_run_files`. -/
def runConfig (workload : Workload) {containerCount : Nat} {placement : List (Nat × List Role)}
    (h : placementFor containerCount = some placement) : Config where
  placement := placement
  distinct := placementFor_distinct h
  proxies := []
  workload := workload

section Placements

variable {c}

theorem hostForRole_mem {role : Role} {host : Nat} (h : hostForRole c role = some host) :
    host ∈ c.nodes := by
  unfold hostForRole at h
  obtain ⟨x, hx, rfl⟩ := Option.map_eq_some_iff.mp h
  exact List.mem_map_of_mem (List.mem_of_find?_eq_some hx)

theorem lookup_of_mem {l : List (Nat × List Role)} (hl : (l.map Prod.fst).Nodup)
    {x : Nat × List Role} (hx : x ∈ l) : l.lookup x.1 = some x.2 := by
  induction l with
  | nil => cases hx
  | cons y rest ih =>
    rw [List.map_cons, List.nodup_cons] at hl
    rcases List.mem_cons.mp hx with rfl | hx
    · exact List.lookup_cons_self
    · have hne : (x.1 == y.1) = false := by
        rw [beq_eq_false_iff_ne]
        intro heq
        exact hl.1 (heq ▸ List.mem_map_of_mem hx)
      rw [List.lookup_cons, hne]
      exact ih hl.2 hx

/-- The first node that lists a role is a node that has it. -/
theorem hostForRole_roles {role : Role} {host : Nat} (h : hostForRole c role = some host) :
    role ∈ rolesOf c host := by
  unfold hostForRole at h
  obtain ⟨x, hx, rfl⟩ := Option.map_eq_some_iff.mp h
  have hrole := List.find?_some hx
  unfold rolesOf
  rw [lookup_of_mem c.distinct (List.mem_of_find?_eq_some hx)]
  exact of_decide_eq_true hrole

end Placements

section Requests

variable {c} {serve : Nat → Role → NodeTask} {next : NodeTask}

theorem request_host {host : Nat} (h : host ∈ c.nodes) (payload : Message) :
    request c serve host payload next = .call (dispatch c serve payload host) next :=
  if_pos h

/-- A request fails at once, goes to the host of its role, or goes there over a proxy. -/
theorem routedRequest_cases (role : Role) (payload : Message) (sequence : Nat) :
    routedRequest c serve role payload sequence next = .fail .done ∨
      ∃ target, hostForRole c role = some target ∧
        (routedRequest c serve role payload sequence next = .call
          (dispatch c serve payload target) next ∨
          ∃ proxy ∈ c.proxies, routedRequest c serve role payload sequence next =
            .call (.act (.forwarded proxy target) (.call (dispatch c serve payload target) .done))
              next) := by
  unfold routedRequest
  cases hhost : hostForRole c role with
  | none => exact Or.inl rfl
  | some target =>
    have htarget := hostForRole_mem hhost
    cases hproxy : proxyFor c sequence with
    | none => exact Or.inr ⟨target, rfl, Or.inl (request_host htarget payload)⟩
    | some proxy =>
      by_cases hmem : proxy ∈ c.nodes
      · refine Or.inr ⟨target, rfl, Or.inr ⟨proxy, List.mem_of_getElem? hproxy, ?_⟩⟩
        show request c serve proxy (.forward target payload) next = _
        rw [request_host hmem, dispatch, if_pos htarget]
      · exact Or.inl (if_neg hmem)

/-- When every proxy runs, only a missing host lets a request fail. -/
theorem routedRequest_sound {role : Role} {payload : Message} (sequence : Nat)
    (hproxies : ∀ x ∈ c.proxies, x ∈ c.nodes) (hhost : (hostForRole c role).isSome)
    (hserve : ∀ target, hostForRole c role = some target → (dispatch c serve payload target).Sound)
    (hn : next.Sound) : (routedRequest c serve role payload sequence next).Sound := by
  obtain ⟨target, htarget⟩ := Option.isSome_iff_exists.mp hhost
  have hmem := hostForRole_mem htarget
  have hs := hserve target htarget
  unfold routedRequest
  rw [htarget]
  dsimp only
  cases hproxy : proxyFor c sequence with
  | none =>
    dsimp only
    rw [request_host hmem]
    exact ⟨hs, hn⟩
  | some proxy =>
    dsimp only
    rw [request_host (hproxies proxy (List.mem_of_getElem? hproxy)), dispatch, if_pos hmem]
    exact ⟨⟨hs, trivial⟩, hn⟩

def Working (e : NodeEvent) : Prop := e ≠ .reported ∧ ∀ node, e ≠ .stopped node

theorem working_forwarded (proxy target : Nat) :
    Working (.forwarded proxy target) := by simp [Working]

theorem working_simulated (node bytes : Nat) : Working (.simulated node bytes) := by simp [Working]

theorem working_transferred (source destination : Role) (bytes : Nat) :
    Working (.transferred source destination bytes) := by simp [Working]

theorem working_computed (node : Nat) (role : Role) :
    Working (.computed node role) := by simp [Working]

theorem routedRequest_straight {role : Role} {payload : Message} (sequence : Nat)
    (hserve : ∀ target, (dispatch c serve payload target).Straight Working)
    (hn : next.Straight Working) :
    (routedRequest c serve role payload sequence next).Straight Working := by
  rcases @routedRequest_cases c serve next role payload sequence with
    h | ⟨target, -, h | ⟨proxy, -, h⟩⟩
  · rw [h]
    exact .fail .done
  · rw [h]
    exact .call (hserve target) hn
  · rw [h]
    exact .call (.act (working_forwarded proxy target) (.call (hserve target) .done)) hn

end Requests

end Platform

end ChipSystemSim
