import ChipSystemSim.Supervisor

/-! The order in which a supervisor starts its processes, and what is left of them when it
is over. Every question to the operating system leaves the started processes and the lists
kept about them alone. -/

namespace ChipSystemSim

namespace Supervisor

open Script

def startedGateways (history : List Event) : List GatewayProcess :=
  (started history).filterMap fun
    | .gateway g => some g
    | _ => none

/-- The socket transport on the supervisor's side of a gateway's channel. -/
def HasTransport (commands : List Command) (g : GatewayProcess) : Prop :=
  if g.connect then ∃ peerIp, Command.connector g.peer peerIp g.channel.tcpPort ∈ commands
  else Command.listener g.peer g.channel.tcpPort ∈ commands

structure Ready (o : Options) (history : List Event) : Prop where
  gateways : startedGateways history = supervisorGateways o.slot o.topology o.gatewayBasePort
  handshakes : ∀ g ∈ startedGateways history, Event.looked (readyPath g.peer) true ∈ history
  transports : ∀ g ∈ startedGateways history, HasTransport (started history) g
  router : Command.router ∈ started history

def WorkerAfterReady (o : Options) (history : List Event) : Prop :=
  ∀ before process after, history = before ++ .popen .worker (some process) :: after →
    Ready o before

def Exited (history : List Event) (process : Nat) : Prop :=
  ∃ code, Event.polled process (some code) ∈ history

def ToldToExit (history : List Event) (process : Nat) : Prop :=
  Exited history process ∨ .terminated process ∈ history

/-- The process exited by itself, or it was told to and then waited for, and it was killed
where it had not exited in time. -/
def Settled (history : List Event) (process : Nat) : Prop :=
  Exited history process ∨ ∃ before after, history = before ++ .terminated process :: after ∧
    (.waited process true ∈ after ∨ ∃ between rest,
      after = between ++ .waited process false :: .killed process :: rest)

/-- A connector that lives on without its socket is in no list when `wait_for_path` gives up
on it. -/
def Abandoned (history : List Event) (e : Error) (process : Nat) : Prop :=
  ∃ peer peerIp tcpPort, (started history)[process]? = some (.connector peer peerIp tcpPort) ∧
    e = .notCreated (socketPath peer)

def Owned (m : Machine) (process : Nat) : Prop := process ∈ m.children ∨ Exited m.history process

/-- `pending` gateways are still to be started, `bare` ones have no transport yet, and the process
`loose` is not yet one of the children. -/
structure Held (o : Options) (pending : List GatewayProcess) (loose : Option Nat)
    (bare : List GatewayProcess) (m : Machine) : Prop where
  gateways : startedGateways m.history ++ pending = supervisorGateways o.slot o.topology
    o.gatewayBasePort
  worker : WorkerAfterReady o m.history
  owned : ∀ p < (started m.history).length, loose = some p ∨ Owned m p
  readyPaths : m.readyPaths.map Prod.fst = (startedGateways m.history).map fun g => readyPath g.peer
  transports : ∀ g ∈ startedGateways m.history, g ∈ bare ∨ HasTransport (started m.history) g

def Ordered (o : Options) (m : Machine) : Prop :=
  startedGateways m.history <+: supervisorGateways o.slot o.topology o.gatewayBasePort ∧
    WorkerAfterReady o m.history

def WorkerExit (history : List Event) (e : Error) : Prop :=
  ∀ code, e = .exit code →
    ∃ p, (started history)[p]? = some .worker ∧ Event.polled p (some code) ∈ history

/-- How `body` may end before its clean-up. -/
def Fails (o : Options) : Option Error → Machine → Prop
  | none, m => Ordered o m
  | some e, m =>
    Ordered o m ∧ (∀ p < (started m.history).length, Owned m p ∨ Abandoned m.history e p) ∧
    WorkerExit m.history e

def Ended (o : Options) : Option Error → Machine → Prop
  | none, m => Ordered o m
  | some e, m =>
    Ordered o m ∧ (∀ p < (started m.history).length, Settled m.history p ∨
      Abandoned m.history e p) ∧
      WorkerExit m.history e

def Event.Quiet (e : Event) : Prop := ∀ command process, e ≠ .popen command (some process)

/-- Kept by every event that starts no process. -/
def Stable (P : Machine → Prop) : Prop := ∀ m e, e.Quiet → P m → P (m.record e)

section Events

theorem started_quiet {e : Event} (he : e.Quiet) (history : List Event) :
    started (history ++ [e]) = started history := by
  have hnone : started [e] = [] := by
    cases e with
    | popen command process =>
      cases process with
      | none => rfl
      | some process => exact absurd rfl (he command process)
    | _ => rfl
  unfold started at hnone ⊢
  rw [List.filterMap_append, hnone, List.append_nil]

theorem started_popen (history : List Event) (command : Command) (process : Nat) :
    started (history ++ [.popen command (some process)]) = started history ++ [command] := by
  unfold started
  rw [List.filterMap_append]
  rfl

theorem startedGateways_quiet {e : Event} (he : e.Quiet) (history : List Event) :
    startedGateways (history ++ [e]) = startedGateways history := by
  unfold startedGateways
  rw [started_quiet he]

theorem startedGateways_gateway (history : List Event) (g : GatewayProcess) (process : Nat) :
    startedGateways (history ++ [.popen (.gateway g) (some process)]) =
      startedGateways history ++ [g] := by
  unfold startedGateways
  rw [started_popen, List.filterMap_append]
  rfl

theorem startedGateways_other {command : Command} (hc : ∀ g, command ≠ .gateway g)
    (history : List Event) (process : Nat) :
    startedGateways (history ++ [.popen command (some process)]) = startedGateways history := by
  unfold startedGateways
  rw [started_popen, List.filterMap_append]
  cases command with
  | gateway g => exact absurd rfl (hc g)
  | _ => simp

theorem WorkerAfterReady.append {o : Options} {history : List Event} {e : Event}
    (h : WorkerAfterReady o history)
    (he : ∀ process, e = .popen .worker (some process) → Ready o history) :
    WorkerAfterReady o (history ++ [e]) := by
  intro before process after hsplit
  rcases List.eq_nil_or_concat after with rfl | ⟨after, last, rfl⟩
  · obtain ⟨hbefore, hlast⟩ := List.append_inj' hsplit rfl
    rw [← hbefore]
    exact he process (List.cons.inj hlast).1
  · rw [List.concat_eq_append, ← List.cons_append, ← List.append_assoc] at hsplit
    exact h before process after (List.append_inj' hsplit rfl).1

theorem HasTransport.append {commands : List Command} {g : GatewayProcess}
    (h : HasTransport commands g) (more : List Command) : HasTransport (commands ++ more) g := by
  unfold HasTransport at h ⊢
  by_cases hc : g.connect = true
  · rw [if_pos hc] at h ⊢
    exact h.imp fun _ hmem => List.mem_append_left _ hmem
  · rw [if_neg hc] at h ⊢
    exact List.mem_append_left _ h

theorem Exited.append {history : List Event} {process : Nat} (h : Exited history process)
    (e : Event) : Exited (history ++ [e]) process :=
  h.imp fun _ hmem => List.mem_append_left _ hmem

end Events

section Stability

variable {o : Options} {P Q : Machine → Prop}

theorem Stable.and (hP : Stable P) (hQ : Stable Q) : Stable fun m => P m ∧ Q m :=
  fun m e he h => ⟨hP m e he h.1, hQ m e he h.2⟩

theorem stable_mem (e : Event) :
    Stable fun m => e ∈ m.history := fun _ _ _ h => List.mem_append_left _ h

theorem stable_started (X : List Command → Prop) : Stable fun m => X (started m.history) := by
  intro m e he h
  show X (started (m.history ++ [e]))
  rwa [started_quiet he]

theorem stable_readyPaths (paths : List (Text × Nat)) : Stable fun m => m.readyPaths = paths :=
  fun _ _ _ h => h

theorem stable_children (children : List Nat) : Stable fun m => m.children = children :=
  fun _ _ _ h => h

theorem Owned.record {m : Machine} {process : Nat} (h : Owned m process) (e : Event) :
    Owned (m.record e) process :=
  h.imp id fun hexit => hexit.append e

theorem stable_held (pending : List GatewayProcess) (loose : Option Nat)
    (bare : List GatewayProcess) : Stable (Held o pending loose bare) := by
  intro m e he h
  have hs : started (m.record e).history = started m.history := started_quiet he m.history
  have hg : startedGateways (m.record e).history = startedGateways m.history :=
    startedGateways_quiet he m.history
  refine ⟨?_, ?_, ?_, ?_, ?_⟩
  · rw [hg]
    exact h.gateways
  · exact h.worker.append fun process heq => absurd heq (he _ _)
  · intro p hp
    rw [hs] at hp
    exact (h.owned p hp).imp id fun howned => howned.record e
  · rw [hg]
    exact h.readyPaths
  · rw [hg, hs]
    exact h.transports

theorem stable_fails (e : Error) : Stable (Fails o (some e)) := by
  rintro m event he ⟨⟨hsofar, hworker⟩, howned, hexit⟩
  have hs : started (m.record event).history = started m.history := started_quiet he m.history
  refine ⟨⟨?_, hworker.append fun process heq => absurd heq (he _ _)⟩, ?_, ?_⟩
  · show startedGateways (m.history ++ [event]) <+: _
    rwa [startedGateways_quiet he]
  · intro p hp
    rw [hs] at hp
    unfold Abandoned
    rw [hs]
    exact (howned p hp).imp (fun h => h.record event) id
  · intro code hcode
    obtain ⟨p, hp, hmem⟩ := hexit code hcode
    rw [hs]
    exact ⟨p, hp, List.mem_append_left _ hmem⟩

end Stability

section Questions

variable {sys : System} {o : Options} {fuel : Nat} {P : Machine → Prop}
  {E : Option Error → Machine → Prop}

theorem ask_ends {α : Type} {answer : List Event → α} {event : α → Event} (hP : Stable P)
    (hq : ∀ a, (event a).Quiet) :
    Ends P (ask answer event) (fun a m => P m ∧ event a ∈ m.history) E := by
  apply Ends.call
  intro m hm
  exact ⟨hP m _ (hq _) hm, List.mem_append_right _ (List.mem_singleton_self _)⟩

theorem monotonic_ends (hP : Stable P) : Ends P (monotonic sys) (fun _ => P) E :=
  (ask_ends hP fun _ _ _ => by simp).mono (fun _ h => h) (fun _ _ h => h.1) fun _ _ h => h

theorem pathExists_ends (hP : Stable P) (path : Text) :
    Ends P (pathExists sys path) (fun b m => P m ∧ .looked path b ∈ m.history) E :=
  ask_ends hP fun _ _ _ => by simp

theorem poll_ends (hP : Stable P) (process : Nat) :
    Ends P (poll sys process) (fun code m => P m ∧ .polled process code ∈ m.history) E :=
  ask_ends hP fun _ _ _ => by simp

theorem sleep_ends (hP : Stable P) (milliseconds : Int) :
    Ends P (sleep milliseconds) (fun _ => P) E :=
  Ends.change fun m hm => hP m _ (fun _ _ => by simp) hm

theorem unlink_ends (hP : Stable P) (path : Text) (hE : ∀ m, P m → E (some .cannotUnlink) m) :
    Ends P (unlink sys path) (fun _ => P) E := by
  apply Ends.bind (ask_ends hP fun _ _ _ => by simp)
  intro done
  apply Ends.ite
  · exact fun _ => Ends.pure fun _ h => h.1
  · exact fun _ => Ends.raise fun m h => hE m h.1

theorem unlinkIfPresent_ends (hP : Stable P) (path : Text)
    (hE : ∀ m, P m → E (some .cannotUnlink) m) :
    Ends P (unlinkIfPresent sys path) (fun _ => P) E := by
  apply Ends.bind (pathExists_ends hP path)
  intro present
  apply Ends.ite
  · exact fun _ => (unlink_ends hP path hE).mono (fun _ h => h.1) (fun _ _ h => h) fun _ _ h => h
  · exact fun _ => Ends.pure fun _ h => h.1

theorem waitForPath_ends (hP : Stable P) (path : Text) (process : Nat)
    (hexited : ∀ code m, P m → Exited m.history process → E (some (.exitedBefore path code)) m)
    (hmissing : ∀ m, P m → E (some (.notCreated path)) m) (hrunning : ∀ m, P m → E none m) :
    Ends P (waitForPath sys fuel path process) (fun _ => P) E := by
  apply Ends.bind (monotonic_ends hP)
  intro begun
  apply Ends.repeatUntil fuel _ hrunning
  apply Ends.bind (pathExists_ends hP path)
  intro present
  apply Ends.ite
  · exact fun _ => Ends.pure fun _ h => h.1
  · intro _
    apply Ends.bind ((poll_ends hP process).mono (fun _ h => h.1) (fun _ _ h => h) fun _ _ h => h)
    intro code
    cases code with
    | some code => exact Ends.raise fun m h => hexited code m h.1 ⟨code, h.2⟩
    | none =>
      apply Ends.bind ((monotonic_ends hP).mono (fun _ h => h.1) (fun _ _ h => h) fun _ _ h => h)
      intro now
      apply Ends.ite
      · exact fun _ => Ends.raise hmissing
      · exact fun _ => Ends.bind (sleep_ends hP 100) fun _ => Ends.pure fun _ h => h

theorem anyMissing_ends (hP : Stable P) (paths : List (Text × Nat)) :
    Ends P (anyMissing sys paths)
      (fun b m => P m ∧ (b = false → ∀ x ∈ paths, Event.looked x.1 true ∈ m.history)) E := by
  induction paths generalizing P with
  | nil => exact Ends.pure fun _ h => ⟨h, fun _ _ hx => nomatch hx⟩
  | cons x rest ih =>
    apply Ends.bind (pathExists_ends hP x.1)
    intro present
    apply Ends.ite
    · intro hpresent
      rw [hpresent]
      apply (ih (hP.and (stable_mem (.looked x.1 true)))).mono (fun _ h => h) _ fun _ _ h => h
      intro b m h
      refine ⟨h.1.1, fun hb y hy => ?_⟩
      rcases List.mem_cons.mp hy with rfl | hy
      · exact h.1.2
      · exact h.2 hb y hy
    · exact fun _ => Ends.pure fun _ h => ⟨h.1, nofun⟩

theorem missingPaths_ends (hP : Stable P) (paths : List (Text × Nat)) :
    Ends P (missingPaths sys paths) (fun _ => P) E := by
  induction paths with
  | nil => exact Ends.pure fun _ h => h
  | cons x rest ih =>
    apply Ends.bind (pathExists_ends hP x.1)
    intro present
    apply Ends.bind (ih.mono (fun _ h => h.1) (fun _ _ h => h) fun _ _ h => h)
    exact fun _ => Ends.pure fun _ h => h

/-- What a step establishes for its element, and no quiet event takes back, holds of all of them. -/
theorem each_ends {β : Type} {f : β → Run Unit} {F : β → Machine → Prop} (hF : ∀ x, Stable (F x))
    (l : List β) (h : ∀ x ∈ l, ∀ Q, Stable Q → (∀ m, Q m → P m) →
      Ends Q (f x) (fun _ m => Q m ∧ F x m) E)
    {Q : Machine → Prop} (hQ : Stable Q) (hQP : ∀ m, Q m → P m) :
    Ends Q (each f l) (fun _ m => Q m ∧ ∀ x ∈ l, F x m) E := by
  induction l generalizing Q with
  | nil => exact Ends.pure fun _ h => ⟨h, fun _ hx => nomatch hx⟩
  | cons x rest ih =>
    apply Ends.bind (h x List.mem_cons_self Q hQ hQP)
    intro _
    apply (ih (fun y hy => h y (List.mem_cons_of_mem x hy)) (hQ.and (hF x)) fun m hm =>
      hQP m hm.1).mono
      (fun _ h => h) _ fun _ _ h => h
    intro _ m h
    refine ⟨h.1.1, fun y hy => ?_⟩
    rcases List.mem_cons.mp hy with rfl | hy
    · exact h.1.2
    · exact h.2 y hy

theorem watch_ends (hP : Stable P) (exited : Text → Int → Error) (l : List (Text × Nat))
    (hE : ∀ description code m, P m → E (some (exited description code)) m) :
    Ends P (watch sys exited l) (fun _ => P) E := by
  apply (each_ends (P := P) (F := fun _ _ => True) (fun _ _ _ _ h => h) l _ hP fun _ h => h).mono
    (fun _ h => h) (fun _ _ h => h.1) fun _ _ h => h
  intro x _ Q hQ hQP
  apply Ends.bind (poll_ends hQ x.2)
  intro code
  cases code with
  | some code => exact Ends.raise fun m h => hE _ _ m (hQP m h.1)
  | none => exact Ends.pure fun _ h => ⟨h.1, trivial⟩

end Questions

section Starting

variable {sys : System} {o : Options} {fuel : Nat}

theorem Held.ordered {pending bare : List GatewayProcess} {loose : Option Nat} {m : Machine}
    (h : Held o pending loose bare m) : Ordered o m :=
  ⟨⟨pending, h.gateways⟩, h.worker⟩

theorem Held.allStarted {bare : List GatewayProcess} {loose : Option Nat} {m : Machine}
    (h : Held o [] loose bare m) :
    startedGateways m.history = supervisorGateways o.slot o.topology o.gatewayBasePort := by
  rw [← h.gateways, List.append_nil]

theorem Held.fails {pending bare : List GatewayProcess} {m : Machine}
    (h : Held o pending none bare m) {e : Error} (he : ∀ code, e ≠ .exit code) :
    Fails o (some e) m :=
  ⟨h.ordered, fun p hp => Or.inl ((h.owned p hp).resolve_left nofun), fun code hcode =>
    absurd hcode (he code)⟩

theorem Held.settle {pending bare : List GatewayProcess} {process : Nat} {m : Machine}
    (h : Held o pending (some process) bare m) (hp : Owned m process) :
    Held o pending none bare m := by
  refine ⟨h.gateways, h.worker, fun p hlt => Or.inr ?_, h.readyPaths, h.transports⟩
  rcases h.owned p hlt with heq | howned
  · rwa [← Option.some.inj heq]
  · exact howned

theorem Held.addChild {pending bare : List GatewayProcess} {process : Nat} {m : Machine}
    (h : Held o pending (some process) bare m) : Held o pending none bare (m.addChild process) := by
  refine ⟨h.gateways, h.worker, fun p hlt => Or.inr ?_, h.readyPaths, h.transports⟩
  rcases h.owned p hlt with heq | howned
  · rw [← Option.some.inj heq]
    exact Or.inl (List.mem_append_right _ (List.mem_singleton_self _))
  · exact howned.imp (List.mem_append_left _) id

theorem Held.link {pending : List GatewayProcess} {g : GatewayProcess} {m : Machine}
    (h : Held o pending none [g] m) (hg : HasTransport (started m.history) g) :
    Held o pending none [] m := by
  refine ⟨h.gateways, h.worker, h.owned, h.readyPaths, fun x hx => Or.inr ?_⟩
  rcases h.transports x hx with hbare | htransport
  · rwa [List.mem_singleton.mp hbare]
  · exact htransport

theorem owned_popen {m : Machine}
    (h : ∀ p < (started m.history).length, (none : Option Nat) = some p ∨ Owned m p)
    (command : Command) :
    ∀ p < (started (m.record (.popen command (some (started m.history).length))).history).length,
      some (started m.history).length = some p ∨
      Owned (m.record (.popen command (some (started m.history).length))) p := by
  intro p hp
  have hs : started (m.record (.popen command (some (started m.history).length))).history =
      started m.history ++ [command] := started_popen _ _ _
  rw [hs, List.length_append, List.length_singleton] at hp
  by_cases hlast : p = (started m.history).length
  · exact Or.inl (congrArg some hlast.symm)
  · have hlt : p < (started m.history).length := by omega
    exact Or.inr (((h p hlt).resolve_left nofun).record _)

theorem Held.popen {pending bare : List GatewayProcess} {m : Machine}
    (h : Held o pending none bare m) {command : Command} (hgateway : ∀ g, command ≠ .gateway g)
    (hworker : command = .worker → Ready o m.history) :
    Held o pending (some (started m.history).length) bare
      (m.record (.popen command (some (started m.history).length))) := by
  have hs : started (m.record (.popen command (some (started m.history).length))).history =
      started m.history ++ [command] := started_popen _ _ _
  have hg : startedGateways (m.record (.popen command (some (started m.history).length))).history =
      startedGateways m.history := startedGateways_other hgateway _ _
  refine ⟨?_, ?_, owned_popen h.owned command, ?_, ?_⟩
  · rw [hg]
    exact h.gateways
  · apply h.worker.append
    intro process heq
    injection heq with heq
    exact hworker heq
  · rw [hg]
    exact h.readyPaths
  · rw [hg, hs]
    exact fun g hmem => (h.transports g hmem).imp id fun htransport => htransport.append _

theorem Held.startGateway {pending : List GatewayProcess} {g : GatewayProcess} {m : Machine}
    (h : Held o (g :: pending) none [] m) :
    Held o pending none [g]
      (((m.record (.popen (.gateway g) (some (started m.history).length))).addChild
      (started m.history).length).addReady (readyPath g.peer) (started m.history).length) := by
  have hs : started (m.record (.popen (.gateway g) (some (started m.history).length))).history =
      started m.history ++ [.gateway g] := started_popen _ _ _
  have hg : startedGateways
      (m.record (.popen (.gateway g) (some (started m.history).length))).history =
      startedGateways m.history ++ [g] := startedGateways_gateway _ _ _
  refine ⟨?_, ?_, ?_, ?_, ?_⟩
  · show startedGateways
        (m.record (.popen (.gateway g) (some (started m.history).length))).history ++ pending = _
    rw [hg, List.append_assoc]
    exact h.gateways
  · exact h.worker.append fun process heq => by injection heq with heq; cases heq
  · intro p hp
    refine Or.inr ?_
    rcases owned_popen h.owned (.gateway g) p hp with heq | howned
    · rw [← Option.some.inj heq]
      exact Or.inl (List.mem_append_right _ (List.mem_singleton_self _))
    · exact howned.imp (List.mem_append_left _) id
  · show (m.readyPaths ++ [(readyPath g.peer, _)]).map Prod.fst =
      (startedGateways
        (m.record (.popen (.gateway g) (some (started m.history).length))).history).map _
    rw [hg, List.map_append, List.map_append, h.readyPaths]
    rfl
  · show ∀ x ∈ startedGateways
        (m.record (.popen (.gateway g) (some (started m.history).length))).history,
      x ∈ [g] ∨
      HasTransport
      (started (m.record (.popen (.gateway g) (some (started m.history).length))).history) x
    rw [hg, hs]
    intro x hx
    rcases List.mem_append.mp hx with hx | hx
    · exact Or.inr (((h.transports x hx).resolve_left nofun).append _)
    · exact Or.inl hx

theorem start_ends {P : Machine → Prop} (hP : Stable P) (command : Command)
    {E : Option Error → Machine → Prop} (hE : ∀ m, P m → E (some .cannotStart) m) :
    Ends P (start sys o command)
      (fun process m => ∃ m₀, P m₀ ∧ process = (started m₀.history).length ∧
        m = m₀.record (.popen command (some process))) E := by
  apply Ends.bind (Q := fun process m => ∃ m₀, P m₀ ∧
    (∀ p, process = some p → p = (started m₀.history).length) ∧
    m = m₀.record (.popen command process))
  · apply Ends.call
    intro m hm
    refine ⟨m, hm, fun p hp => ?_, rfl⟩
    dsimp only at hp
    split at hp
    · exact (Option.some.inj hp).symm
    · cases hp
  · intro process
    cases process with
    | some process => exact Ends.pure fun m h => h.imp fun m₀ h => ⟨h.1, h.2.1 process rfl, h.2.2⟩
    | none =>
      apply Ends.raise
      rintro m ⟨m₀, hm₀, -, rfl⟩
      exact hE _ (hP m₀ _ (fun _ _ => by simp) hm₀)

theorem startGateway_ends {pending : List GatewayProcess} (g : GatewayProcess)
    {X : List Command → Prop} (hX : ∀ commands command, X commands → X (commands ++ [command])) :
    Ends (fun m => Held o (g :: pending) none [] m ∧ X (started m.history)) (startGateway sys o g)
      (fun _ m => Held o pending none [g] m ∧ X (started m.history)) (Fails o) := by
  apply Ends.bind (start_ends ((stable_held _ _ _).and (stable_started X)) _ fun m h =>
    h.1.fails nofun)
  intro gateway
  apply Ends.bind (Q := fun _ m => ∃ m₀,
    (Held o (g :: pending) none [] m₀ ∧ X (started m₀.history)) ∧
    gateway = (started m₀.history).length ∧
    m = (m₀.record (.popen (.gateway g) (some gateway))).addChild gateway)
  · apply Ends.change
    rintro m ⟨m₀, h, hlen, rfl⟩
    exact ⟨m₀, h, hlen, rfl⟩
  · intro _
    apply Ends.bind (Q := fun _ m => Held o pending none [g] m ∧ X (started m.history))
    · apply Ends.change
      rintro m ⟨m₀, ⟨hheld, hx⟩, rfl, rfl⟩
      refine ⟨hheld.startGateway, ?_⟩
      show X (started (m₀.record (.popen (.gateway g) (some (started m₀.history).length))).history)
      rw [show started
        (m₀.record (.popen (.gateway g) (some (started m₀.history).length))).history =
        started m₀.history ++ [.gateway g] from started_popen _ _ _]
      exact hX _ _ hx
    · exact fun _ => Ends.pure fun _ h => h

/-- A process other than a gateway, before it is among the children. -/
theorem startLoose_ends {pending bare : List GatewayProcess} (command : Command)
    (hgateway : ∀ g, command ≠ .gateway g) {X : List Event → Prop}
    (hX : ∀ history e, X history → X (history ++ [e]))
    (hworker : ∀ m, Held o pending none bare m → X m.history → command = .worker →
    Ready o m.history) :
    Ends (fun m => Held o pending none bare m ∧ X m.history) (start sys o command)
      (fun process m => Held o pending (some process) bare m ∧ X m.history ∧
        (started m.history)[process]? = some command) (Fails o) := by
  apply (start_ends ((stable_held _ _ _).and fun m e _ h => hX m.history e h) command
    fun m h => h.1.fails nofun).mono (fun _ h => h) _ fun _ _ h => h
  rintro process m ⟨m₀, ⟨hheld, hx⟩, rfl, rfl⟩
  refine ⟨hheld.popen hgateway (hworker m₀ hheld hx), hX _ _ hx, ?_⟩
  rw [show started (m₀.record (.popen command (some (started m₀.history).length))).history =
    started m₀.history ++ [command] from started_popen _ _ _]
  exact List.getElem?_concat_length

theorem startTransport_ends {pending bare : List GatewayProcess} (command : Command)
    (hgateway : ∀ g, command ≠ .gateway g) (hworker : command ≠ .worker) :
    Ends (Held o pending none bare) (start sys o command)
      (fun process m => Held o pending (some process) bare m ∧
        (started m.history)[process]? = some command)
      (Fails o) :=
  (startLoose_ends (X := fun _ => True) command hgateway (fun _ _ h => h) fun _ _ _ h =>
    absurd h hworker).mono
    (fun _ h => ⟨h, trivial⟩) (fun _ _ h => ⟨h.1, h.2.2⟩) fun _ _ h => h

theorem keepTransport_ends {pending bare : List GatewayProcess} (kind : String)
    (peer : Int) (net : Nat) (X : List Command → Prop) :
    Ends (fun m => Held o pending (some net) bare m ∧ X (started m.history))
      (keepTransport o kind peer net)
      (fun _ m => Held o pending none bare m ∧ X (started m.history)) (Fails o) := by
  apply Ends.bind (Q := fun _ m => Held o pending none bare m ∧ X (started m.history))
  · exact Ends.change fun m h => ⟨h.1.addChild, h.2⟩
  · exact fun _ => Ends.change fun m h =>
      ⟨⟨h.1.gateways, h.1.worker, h.1.owned, h.1.readyPaths, h.1.transports⟩, h.2⟩

theorem connectorRounds_ends {pending : List GatewayProcess} (peer tcpPort : Int) (peerIp : Text)
    (timeoutSeconds deadline : Int) (rounds : Nat) (lastReturnCode : Option Int) :
    Ends (Held o pending none [])
      (connectorRounds sys o fuel (.connector peer peerIp tcpPort) (socketPath peer)
        timeoutSeconds deadline
        rounds lastReturnCode)
      (fun process m => Held o pending (some process) [] m ∧
        (started m.history)[process]? = some (.connector peer peerIp tcpPort)) (Fails o) := by
  have hheld : Stable (Held o pending none []) := stable_held _ _ _
  induction rounds generalizing lastReturnCode with
  | zero => exact fun m h => h.ordered
  | succ rounds ih =>
    apply Ends.bind (monotonic_ends hheld)
    intro now
    apply Ends.ite
    · intro _
      apply Ends.bind (unlinkIfPresent_ends hheld _ fun m h => h.fails nofun)
      intro _
      apply Ends.bind (startTransport_ends (.connector peer peerIp tcpPort) nofun nofun)
      intro connector
      have hloose : Stable fun m => Held o pending (some connector) [] m ∧
          (started m.history)[connector]? = some (.connector peer peerIp tcpPort) :=
        (stable_held _ _ _).and (stable_started fun commands => commands[connector]? = _)
      apply Ends.bind (waitForPath_ends hloose _ connector
        (fun code m h hexit => (h.1.settle (Or.inr hexit)).fails nofun)
        (fun m h => ⟨h.1.ordered, fun p hp => ?_, nofun⟩) fun m h => h.1.ordered)
      · intro _
        apply Ends.bind (sleep_ends hloose 500)
        intro _
        apply Ends.bind (poll_ends hloose connector)
        intro code
        cases code with
        | none => exact Ends.pure fun m h => h.1
        | some code =>
          apply Ends.bind ((unlinkIfPresent_ends hheld _ fun m h => h.fails nofun).mono
            (fun m h => h.1.1.settle (Or.inr ⟨code, h.2⟩)) (fun _ _ h => h) fun _ _ h => h)
          intro _
          apply Ends.bind (sleep_ends hheld 1000)
          exact fun _ => ih (some code)
      · rcases h.1.owned p hp with heq | howned
        · rw [← Option.some.inj heq]
          exact Or.inr ⟨peer, peerIp, tcpPort, h.2, rfl⟩
        · exact Or.inl howned
    · exact fun _ => Ends.raise fun m h => h.fails nofun

theorem resolveTransportService_ends {P : Machine → Prop} {E : Option Error → Machine → Prop}
    (hP : Stable P) (service : Text) (hunresolved : ∀ m, P m → E (some (.unresolved service)) m)
    (hrunning : ∀ m, P m → E none m) :
    Ends P (resolveTransportService sys fuel service) (fun _ => P) E := by
  apply Ends.bind (monotonic_ends hP)
  intro begun
  apply Ends.repeatUntil fuel _ hrunning
  apply Ends.bind (monotonic_ends hP)
  intro now
  apply Ends.ite
  · intro _
    apply Ends.bind ((ask_ends hP fun _ _ _ => by simp).mono (fun _ h => h) (fun _ _ h => h.1)
      fun _ _ h => h)
    intro address
    cases address with
    | some address => exact Ends.pure fun _ h => h
    | none => exact Ends.bind (sleep_ends hP 1000) fun _ => Ends.pure fun _ h => h
  · exact fun _ => Ends.raise hunresolved

theorem startListener_ends {c : Channel} (hc : o.slot = c.listenerSlot)
    {pending : List GatewayProcess} :
    Ends (Held o (listenerGateway o c :: pending) none []) (startListener sys o fuel c)
      (fun _ => Held o pending none []) (Fails o) := by
  have hheld : Stable (Held o pending none [listenerGateway o c]) := stable_held _ _ _
  unfold startListener
  rw [if_neg fun hne => hne hc]
  apply Ends.bind
    ((startGateway_ends (listenerGateway o c) (X := fun _ => True) fun _ _ h => h).mono
    (fun _ h => ⟨h, trivial⟩) (fun _ _ h => h.1) fun _ _ h => h)
  intro gateway
  apply Ends.bind (waitForPath_ends hheld _ gateway (fun code m h _ => h.fails nofun)
    (fun m h => h.fails nofun)
    fun m h => h.ordered)
  intro _
  apply Ends.bind (startTransport_ends (.listener c.connectorSlot c.tcpPort) nofun nofun)
  intro net
  apply (keepTransport_ends "listener-" c.connectorSlot net
    fun commands => commands[net]? = some (.listener c.connectorSlot c.tcpPort)).mono
    (fun _ h => h) (fun _ m h => h.1.link ?_) fun _ _ h => h
  exact List.mem_of_getElem? h.2

theorem startConnector_ends {c : Channel} (hc : o.slot = c.connectorSlot)
    {pending : List GatewayProcess} :
    Ends (Held o (connectorGateway o c :: pending) none []) (startConnector sys o fuel c)
      (fun _ => Held o pending none []) (Fails o) := by
  unfold startConnector
  rw [if_neg fun hne => hne hc]
  apply Ends.bind (resolveTransportService_ends (stable_held _ _ _) _ (fun m h => h.fails nofun)
    fun m h => h.ordered)
  intro peerIp
  apply Ends.bind (Ends.bind (monotonic_ends (stable_held _ _ _))
    fun _ => connectorRounds_ends c.listenerSlot c.tcpPort peerIp _ _ fuel none)
  intro net
  apply Ends.bind (keepTransport_ends "connector-" c.listenerSlot net fun commands =>
    commands[net]? = _)
  intro _
  apply Ends.bind ((startGateway_ends (connectorGateway o c)
    (X := fun commands => .connector c.listenerSlot peerIp c.tcpPort ∈ commands)
    fun _ _ h => List.mem_append_left _ h).mono
      (fun m h => ⟨h.1, List.mem_of_getElem? h.2⟩) (fun _ _ h => h) fun _ _ h => h)
  exact fun _ => Ends.pure fun m h => h.1.link ⟨peerIp, h.2⟩

def listenerGateways (o : Options) (channels : List Channel) : List GatewayProcess :=
  (channels.filter fun c => o.slot = c.listenerSlot).map (listenerGateway o)

def connectorGateways (o : Options) (channels : List Channel) : List GatewayProcess :=
  (channels.filter fun c => o.slot = c.connectorSlot).map (connectorGateway o)

theorem listenerGateways_connectorGateways (o : Options) :
    listenerGateways o (localChannels o) ++ connectorGateways o (localChannels o) =
      supervisorGateways o.slot o.topology o.gatewayBasePort := by
  unfold listenerGateways connectorGateways localChannels supervisorGateways
  congr 1
  · rw [List.filter_filter]
    apply congrArg (List.map _)
    apply List.filter_congr
    intro c _
    by_cases hc : o.slot = c.listenerSlot
    · simp [hc]
    · simp [hc, Ne.symm hc]
  · rw [List.filter_filter]
    apply congrArg (List.map _)
    apply List.filter_congr
    intro c _
    by_cases hc : o.slot = c.connectorSlot
    · simp [hc]
    · simp [hc, Ne.symm hc]

theorem startListeners_ends {pending : List GatewayProcess} (channels : List Channel) :
    Ends (Held o (listenerGateways o channels ++ pending) none [])
      (each (startListener sys o fuel) channels)
      (fun _ => Held o pending none []) (Fails o) := by
  apply Ends.each fun rest => Held o (listenerGateways o rest ++ pending) none []
  intro c rest _
  by_cases hc : o.slot = c.listenerSlot
  · have hcons : listenerGateways o (c :: rest) = listenerGateway o c ::
        listenerGateways o rest := by
      unfold listenerGateways
      rw [List.filter_cons_of_pos (by simpa using hc), List.map_cons]
    rw [hcons]
    exact startListener_ends hc
  · have hskip : listenerGateways o (c :: rest) = listenerGateways o rest := by
      unfold listenerGateways
      rw [List.filter_cons_of_neg (by simpa using hc)]
    unfold startListener
    rw [hskip, if_pos hc]
    exact Ends.pure fun _ h => h

theorem startConnectors_ends (channels : List Channel) :
    Ends (Held o (connectorGateways o channels) none []) (each (startConnector sys o fuel) channels)
      (fun _ => Held o [] none []) (Fails o) := by
  apply Ends.each fun rest => Held o (connectorGateways o rest) none []
  intro c rest _
  by_cases hc : o.slot = c.connectorSlot
  · have hcons : connectorGateways o (c :: rest) = connectorGateway o c ::
        connectorGateways o rest := by
      unfold connectorGateways
      rw [List.filter_cons_of_pos (by simpa using hc), List.map_cons]
    rw [hcons]
    exact startConnector_ends hc
  · have hskip : connectorGateways o (c :: rest) = connectorGateways o rest := by
      unfold connectorGateways
      rw [List.filter_cons_of_neg (by simpa using hc)]
    unfold startConnector
    rw [hskip, if_pos hc]
    exact Ends.pure fun _ h => h

def HandshakesSeen (o : Options) (history : List Event) : Prop :=
  ∀ g ∈ supervisorGateways o.slot o.topology o.gatewayBasePort,
    Event.looked (readyPath g.peer) true ∈ history

theorem HandshakesSeen.append {history : List Event} (h : HandshakesSeen o history) (e : Event) :
    HandshakesSeen o (history ++ [e]) :=
  fun g hg => List.mem_append_left _ (h g hg)

theorem waitForReady_ends (timeoutSeconds : Int) :
    Ends (Held o [] none []) (waitForReady sys fuel timeoutSeconds)
      (fun _ m => Held o [] none [] m ∧ HandshakesSeen o m.history) (Fails o) := by
  apply Ends.bind (Q := fun paths m => Held o [] none [] m ∧ m.readyPaths = paths)
  · exact Ends.read fun m h => ⟨h, rfl⟩
  · intro paths
    have hP : Stable fun m => Held o [] none [] m ∧ m.readyPaths = paths :=
      (stable_held _ _ _).and (stable_readyPaths paths)
    apply Ends.bind (monotonic_ends hP)
    intro begun
    apply Ends.repeatUntil fuel _ fun m h => h.1.ordered
    apply Ends.bind (anyMissing_ends hP paths)
    intro missing
    apply Ends.ite
    · intro _
      apply Ends.bind ((watch_ends hP .gatewayExited paths fun _ _ m h => h.1.fails nofun).mono
        (fun _ h => h.1)
        (fun _ _ h => h) fun _ _ h => h)
      intro _
      apply Ends.bind (monotonic_ends hP)
      intro now
      apply Ends.ite
      · intro _
        apply Ends.bind (missingPaths_ends hP paths)
        exact fun absent => Ends.raise fun m h => h.1.fails nofun
      · exact fun _ => Ends.bind (sleep_ends hP 100) fun _ => Ends.pure fun _ h => h
    · intro hpresent
      apply Ends.pure
      rintro m ⟨⟨hheld, hpaths⟩, hseen⟩
      refine ⟨hheld, fun g hg => ?_⟩
      have hname : readyPath g.peer ∈ m.readyPaths.map Prod.fst := by
        rw [hheld.readyPaths, hheld.allStarted]
        exact List.mem_map_of_mem hg
      obtain ⟨x, hx, hpath⟩ := List.mem_map.mp hname
      rw [← hpath]
      exact hseen (Bool.not_eq_true _ ▸ hpresent) x (hpaths ▸ hx)

theorem waitForStable_ends {P : Machine → Prop} {E : Option Error → Machine → Prop} (hP : Stable P)
    (timeoutSeconds : Int) (hexited : ∀ description code m, P m →
      E (some (.exitedAfterReady description code)) m)
    (hrunning : ∀ m, P m → E none m) :
    Ends P (waitForStable sys fuel timeoutSeconds) (fun _ => P) E := by
  apply Ends.bind (Q := fun _ => P) (Ends.read fun _ h => h)
  intro processes
  apply Ends.bind (monotonic_ends hP)
  intro begun
  apply Ends.repeatUntil fuel _ hrunning
  apply Ends.bind (monotonic_ends hP)
  intro now
  apply Ends.ite
  · intro _
    apply Ends.bind (watch_ends hP .exitedAfterReady processes hexited)
    exact fun _ => Ends.bind (sleep_ends hP 100) fun _ => Ends.pure fun _ h => h
  · exact fun _ => Ends.pure fun _ h => h

theorem startKept_ends (command : Command) (hgateway : ∀ g, command ≠ .gateway g)
    {X : List Event → Prop} (hX : ∀ history e, X history → X (history ++ [e]))
    (hworker : ∀ m, Held o [] none [] m → X m.history → command = .worker → Ready o m.history) :
    Ends (fun m => Held o [] none [] m ∧ X m.history) (startKept sys o command)
      (fun process m => Held o [] none [] m ∧ X m.history ∧
        (started m.history)[process]? = some command)
      (Fails o) := by
  apply Ends.bind (startLoose_ends command hgateway hX hworker)
  intro process
  apply Ends.bind (Q := fun _ m => Held o [] none [] m ∧ X m.history ∧
    (started m.history)[process]? = some command)
  · exact Ends.change fun m h => ⟨h.1.addChild, h.2⟩
  · exact fun _ => Ends.pure fun _ h => h

/-- The supervisor only leaves this loop with an exception. -/
theorem superviseWorker_ends (worker : Nat) :
    Ends (fun m => Held o [] none [] m ∧ (started m.history)[worker]? = some .worker)
      (superviseWorker sys fuel worker)
      (fun _ _ => False) (Fails o) := by
  have hP : Stable fun m => Held o [] none [] m ∧ (started m.history)[worker]? = some .worker :=
    (stable_held _ _ _).and (stable_started fun commands => commands[worker]? = some .worker)
  apply Ends.bind (Q := fun _ m => Held o [] none [] m ∧
    (started m.history)[worker]? = some .worker)
    (Ends.read fun _ h => h)
  intro processes
  apply Ends.repeatUntil fuel _ fun m h => h.1.ordered
  apply Ends.bind (poll_ends hP worker)
  intro code
  cases code with
  | some code =>
    apply Ends.raise
    rintro m ⟨⟨hheld, hstarted⟩, hpolled⟩
    refine ⟨hheld.ordered, fun p hp => Or.inl ((hheld.owned p hp).resolve_left nofun), ?_⟩
    intro code' heq
    injection heq with heq
    exact ⟨worker, hstarted, heq ▸ hpolled⟩
  | none =>
    apply Ends.bind
      ((watch_ends hP .exitedWhileRunning processes fun _ _ m h => h.1.fails nofun).mono
      (fun _ h => h.1) (fun _ _ h => h) fun _ _ h => h)
    exact fun _ => Ends.bind (sleep_ends hP 200) fun _ => Ends.pure fun _ h => h

theorem started_append (history : List Event) (e : Event) {command : Command}
    (h : command ∈ started history) : command ∈ started (history ++ [e]) := by
  unfold started at h ⊢
  rw [List.filterMap_append]
  exact List.mem_append_left _ h

theorem body_ends :
    Ends (Held o (supervisorGateways o.slot o.topology o.gatewayBasePort) none []) (body sys o fuel)
      (fun _ _ => False)
      (Fails o) := by
  rw [← listenerGateways_connectorGateways]
  apply Ends.bind (startListeners_ends (localChannels o))
  intro _
  apply Ends.bind (Q := fun _ => Held o (connectorGateways o (localChannels o)) none [])
  · apply Ends.ite
    · exact fun _ => Ends.raise fun m h => h.fails nofun
    · exact fun _ => sleep_ends (stable_held _ _ _) _
  intro _
  apply Ends.bind (startConnectors_ends (localChannels o))
  intro _
  apply Ends.bind (waitForReady_ends o.readyTimeoutSeconds)
  intro _
  apply Ends.bind (waitForStable_ends ((stable_held _ _ _).and fun m e _ h => h.append e)
    o.stabilityTimeoutSeconds
    (fun _ _ m h => h.1.fails nofun) fun m h => h.1.ordered)
  intro _
  apply Ends.bind (startKept_ends .router nofun (fun _ e h => h.append e) nofun)
  intro router
  have hkept : ∀ history e, (HandshakesSeen o history ∧ .router ∈ started history) →
      HandshakesSeen o (history ++ [e]) ∧ .router ∈ started (history ++ [e]) :=
    fun history e h => ⟨h.1.append e, started_append history e h.2⟩
  have hready : ∀ m, Held o [] none [] m →
      (HandshakesSeen o m.history ∧ .router ∈ started m.history) →
      Command.worker = .worker → Ready o m.history := by
    intro m hheld hx _
    refine ⟨hheld.allStarted, fun g hg => hx.1 g (hheld.allStarted ▸ hg), fun g hg => ?_, hx.2⟩
    exact (hheld.transports g hg).resolve_left nofun
  apply Ends.bind (Q := fun worker m => Held o [] none [] m ∧
    (started m.history)[worker]? = some .worker)
  · exact (startKept_ends .worker nofun hkept hready).mono
      (fun m h => ⟨h.1, h.2.1, List.mem_of_getElem? h.2.2⟩)
      (fun _ _ h => ⟨h.1, h.2.2⟩) fun _ _ h => h
  · exact superviseWorker_ends

end Starting

section Cleanup

variable {sys : System} {o : Options} {fuel : Nat}

theorem terminateIfRunning_ends {P : Machine → Prop} (hP : Stable P) (child : Nat)
    {E : Option Error → Machine → Prop} :
    Ends P (terminateIfRunning sys child) (fun _ m => P m ∧ ToldToExit m.history child) E := by
  apply Ends.bind (poll_ends hP child)
  intro code
  cases code with
  | some code => exact Ends.pure fun m h => ⟨h.1, Or.inl ⟨code, h.2⟩⟩
  | none =>
    apply Ends.change
    intro m h
    exact ⟨hP m _ (fun _ _ => by simp) h.1,
      Or.inr (List.mem_append_right _ (List.mem_singleton_self _))⟩

theorem Settled.append {history : List Event} {process : Nat} (h : Settled history process)
    (e : Event) : Settled (history ++ [e]) process := by
  rcases h with hexited | ⟨before, after, rfl, hreaped⟩
  · exact Or.inl (hexited.append e)
  · refine Or.inr ⟨before, after ++ [e], by simp, ?_⟩
    rcases hreaped with hwaited | ⟨between, rest, rfl⟩
    · exact Or.inl (List.mem_append_left _ hwaited)
    · exact Or.inr ⟨between, rest ++ [e], by simp⟩

theorem ToldToExit.settled {history : List Event} {child : Nat} (h : ToldToExit history child) :
    Settled (history ++ [.waited child true]) child ∧
      Settled (history ++ [.waited child false] ++ [.killed child]) child := by
  rcases h with hexited | hterminated
  · exact ⟨Or.inl (hexited.append _), Or.inl ((hexited.append _).append _)⟩
  · obtain ⟨before, after, rfl⟩ := List.append_of_mem hterminated
    constructor
    · exact Or.inr ⟨before, after ++ [.waited child true], by simp, Or.inl (by simp)⟩
    · exact Or.inr ⟨before, after ++ [.waited child false, .killed child], by simp,
        Or.inr ⟨after, [], rfl⟩⟩

theorem waitOrKill_ends {P : Machine → Prop} (hP : Stable P) (child : Nat)
    (htold : ∀ m, P m → ToldToExit m.history child) {E : Option Error → Machine → Prop} :
    Ends P (waitOrKill sys child) (fun _ m => P m ∧ Settled m.history child) E := by
  apply Ends.bind (Q := fun exited m => ∃ m₀, P m₀ ∧ m = m₀.record (.waited child exited))
  · exact Ends.call fun m hm => ⟨m, hm, rfl⟩
  intro exited
  apply Ends.ite
  · rintro rfl
    apply Ends.pure
    rintro m ⟨m₀, hm, rfl⟩
    exact ⟨hP m₀ _ (fun _ _ => by simp) hm, (htold m₀ hm).settled.1⟩
  · intro hexited
    rw [Bool.not_eq_true] at hexited
    subst hexited
    apply Ends.change
    rintro m ⟨m₀, hm, rfl⟩
    exact ⟨hP _ _ (fun _ _ => by simp) (hP m₀ _ (fun _ _ => by simp) hm), (htold m₀ hm).settled.2⟩

theorem stopChildren_ends (e : Error) :
    Ends (Fails o (some e)) (stopChildren sys) (fun _ => Ended o (some e)) (fun _ _ => False) := by
  have htold : ∀ child, Stable fun m => ToldToExit m.history child := fun child m e _ h =>
    h.imp (fun hexit => hexit.append e) (List.mem_append_left _)
  have hsettled : ∀ child, Stable fun m => Settled m.history child :=
    fun child m e _ h => h.append e
  have hall {children : List Nat} : Stable fun m => ∀ child ∈ children,
      ToldToExit m.history child :=
    fun m event he h child hc => htold child m event he (h child hc)
  apply Ends.bind (Q := fun children m => Fails o (some e) m ∧ m.children = children)
  · exact Ends.read fun m h => ⟨h, rfl⟩
  intro children
  apply Ends.bind (each_ends (P := fun _ => True) htold children.reverse
    (fun child _ Q hQ _ => terminateIfRunning_ends hQ child)
    ((stable_fails e).and (stable_children children)) fun _ _ => trivial)
  intro _
  apply (each_ends (P := fun m => ∀ child ∈ children.reverse, ToldToExit m.history child) hsettled
    children.reverse (fun child hchild Q hQ hQP => waitOrKill_ends hQ child fun m hm =>
      hQP m hm child hchild)
    (((stable_fails e).and (stable_children children)).and hall) fun _ hm => hm.2).mono
    (fun _ h => h) _ fun _ _ h => h
  rintro _ m ⟨⟨⟨⟨hordered, howned, hexit⟩, hchildren⟩, -⟩, hsettled⟩
  refine ⟨hordered, fun p hp => ?_, hexit⟩
  rcases howned p hp with (hchild | hexited) | habandoned
  · exact Or.inl (hsettled p (List.mem_reverse.mpr (hchildren ▸ hchild)))
  · exact Or.inl (Or.inl hexited)
  · exact Or.inr habandoned

theorem main_ends : Ends (· = {}) (main sys o fuel) (fun _ _ => False) (Ended o) := by
  have hempty : Held o (supervisorGateways o.slot o.topology o.gatewayBasePort) none [] {} :=
    ⟨rfl, fun before process after h => (by simp at h), nofun, rfl, nofun⟩
  have hearly : ∀ setting, Ends (· = {}) (raise (.notPositive setting) : Run Unit)
      (fun _ _ => False) (Ended o) := by
    intro setting
    apply Ends.raise
    rintro m rfl
    exact ⟨hempty.ordered, nofun, nofun⟩
  apply Ends.ite fun _ => hearly _
  intro _
  apply Ends.ite fun _ => hearly _
  intro _
  apply Ends.ite fun _ => hearly _
  intro _
  apply Ends.finally_ (body_ends.mono (fun m h => h ▸ hempty) (fun _ _ h => h) fun _ _ h => h)
  · exact fun _ _ h => h.elim
  · exact fun e => (stopChildren_ends e).mono (fun _ h => h) (fun _ _ h => h) fun _ _ h => h.elim
  · exact fun _ h => h

end Cleanup

end Supervisor

end ChipSystemSim
