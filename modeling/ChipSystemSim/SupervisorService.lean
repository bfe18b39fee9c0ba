import ChipSystemSim.SupervisorRuns

/-! A supervisor on a system that answers as it should: every process starts, files and
services are there, and time passes while the supervisor sleeps. Then the worker is started
and watched to its end. -/

namespace ChipSystemSim

namespace Supervisor

open Script

def slept (history : List Event) : Int :=
  (history.filterMap fun
    | .slept milliseconds => some milliseconds
    | _ => none).sum

/-- The files that a process makes. -/
def Command.files : Command → List Text
  | .gateway g => [socketPath g.peer, readyPath g.peer]
  | .connector peer _ _ => [socketPath peer]
  | _ => []

/-- The worker runs until the clock shows `finish`, and its return code is `code`. -/
structure System.Cooperates (sys : System) (code finish : Int) : Prop where
  starts : ∀ history argv environment, sys.starts history argv environment = true
  worker : ∀ history p, (started history)[p]? = some .worker →
    sys.poll history p = if finish ≤ slept history then some code else none
  lives : ∀ history p, (started history)[p]? ≠ some .worker → sys.poll history p = none
  present : ∀ history, ∀ command ∈ started history, ∀ path ∈ command.files,
    sys.pathExists history path = true
  unlinks : ∀ history path, sys.unlink history path = true
  resolves : ∀ history service, ∃ address, sys.resolve history service = some address
  clock : ∀ history, sys.monotonic history = slept history

/-- The settings that `main` accepts. -/
structure Options.Valid (o : Options) : Prop where
  ready : 1 ≤ o.readyTimeoutSeconds
  connector : 1 ≤ o.connectorTimeoutSeconds
  stability : 1 ≤ o.stabilityTimeoutSeconds
  slot : 0 ≤ o.slot

/-- Kept by every event that starts no process and takes no time. -/
def Still (P : Machine → Prop) : Prop :=
  ∀ m e, e.Quiet → (∀ milliseconds, e ≠ .slept milliseconds) → P m → P (m.record e)

/-- The lists that the supervisor watches hold gateways with their ready files, and no worker. -/
structure Watched (m : Machine) : Prop where
  ready : ∀ x ∈ m.readyPaths, ∃ g, (started m.history)[x.2]? = some (.gateway g) ∧
    x.1 = readyPath g.peer
  transports : ∀ x ∈ m.transportProcesses, ∃ command,
    (started m.history)[x.2]? = some command ∧ command ≠ .worker
  clock : 0 ≤ slept m.history

theorem slept_append (history : List Event) (e : Event) :
    slept (history ++ [e]) = slept history + slept [e] := by
  simp only [slept, List.filterMap_append, List.sum_append]

theorem slept_still {e : Event} (he : ∀ milliseconds, e ≠ .slept milliseconds)
    (history : List Event) : slept (history ++ [e]) = slept history := by
  have hnone : slept [e] = 0 := by
    cases e with
    | slept milliseconds => exact absurd rfl (he milliseconds)
    | _ => rfl
  rw [slept_append, hnone, add_zero]

theorem slept_sleep (history : List Event) (milliseconds : Int) :
    slept (history ++ [.slept milliseconds]) = slept history + milliseconds := by
  rw [slept_append]
  simp [slept]

theorem Stable.still {P : Machine → Prop} (h : Stable P) : Still P := fun m e he _ hm => h m e he hm

theorem Still.and {P Q : Machine → Prop} (hP : Still P) (hQ : Still Q) : Still fun m => P m ∧ Q m :=
  fun m e he hs h => ⟨hP m e he hs h.1, hQ m e he hs h.2⟩

theorem still_slept (X : Int → Prop) : Still fun m => X (slept m.history) := by
  intro m e _ hs h
  show X (slept (m.history ++ [e]))
  rwa [slept_still hs]

theorem watched_record {m : Machine} {e : Event} (h : Watched m) (he : e.Quiet)
    (hclock : 0 ≤ slept (m.history ++ [e])) : Watched (m.record e) := by
  have hs : started (m.record e).history = started m.history := started_quiet he m.history
  refine ⟨?_, ?_, hclock⟩
  · rw [hs]
    exact h.ready
  · rw [hs]
    exact h.transports

theorem still_watched : Still Watched := fun m e he hs h =>
  watched_record h he (by rw [slept_still hs]; exact h.clock)

theorem Watched.popen {m : Machine} (h : Watched m) (command : Command) (process : Nat) :
    Watched (m.record (.popen command (some process))) := by
  have hs : started (m.record (.popen command (some process))).history =
      started m.history ++ [command] := started_popen _ _ _
  have hkept : ∀ {p : Nat} {c : Command}, (started m.history)[p]? = some c →
      (started m.history ++ [command])[p]? = some c := fun hp =>
    (List.getElem?_append_left (List.getElem?_eq_some_iff.mp hp).1).trans hp
  refine ⟨fun x hx => ?_, fun x hx => ?_, ?_⟩
  · rw [hs]
    obtain ⟨g, hg, hpath⟩ := h.ready x hx
    exact ⟨g, hkept hg, hpath⟩
  · rw [hs]
    obtain ⟨c, hc, hne⟩ := h.transports x hx
    exact ⟨c, hkept hc, hne⟩
  · show 0 ≤ slept (m.history ++ [_])
    rw [slept_still (fun _ h => by cases h)]
    exact h.clock

section Answers

variable {sys : System} {o : Options} {fuel : Nat} {code finish : Int} {P : Machine → Prop}
  {E : Option Error → Machine → Prop}

/-- A question whose answer is known in advance. -/
theorem ask_still {α : Type} {answer : List Event → α} {event : α → Event} {R : α → Machine → Prop}
    (hP : Still P) (hq : ∀ a, (event a).Quiet)
    (hs : ∀ a milliseconds, event a ≠ .slept milliseconds)
    (hR : ∀ m, P m → R (answer m.history) (m.record (event (answer m.history)))) :
    Ends P (ask answer event) (fun a m => P m ∧ R a m) E := by
  apply Ends.call
  intro m hm
  exact ⟨hP m _ (hq _) (hs _) hm, hR m hm⟩

theorem monotonic_slept (h : sys.Cooperates code finish) (hP : Still P) :
    Ends P (monotonic sys) (fun now m => P m ∧ now = slept m.history) E :=
  ask_still hP (fun _ _ _ => by simp) (fun _ _ => by simp) fun m _ =>
    (h.clock m.history).trans (slept_still (fun _ => by simp) m.history).symm

theorem pathExists_present (h : sys.Cooperates code finish) (hP : Still P) {path : Text}
    (hmade : ∀ m, P m → ∃ command ∈ started m.history, path ∈ command.files) :
    Ends P (pathExists sys path) (fun b m => P m ∧ b = true) E :=
  ask_still (R := fun b _ => b = true) hP (fun _ _ _ => by simp) (fun _ _ => by simp) fun m hm => by
    obtain ⟨command, hcommand, hpath⟩ := hmade m hm
    exact h.present m.history command hcommand path hpath

theorem poll_lives (h : sys.Cooperates code finish) (hP : Still P) {process : Nat}
    (hother : ∀ m, P m → (started m.history)[process]? ≠ some .worker) :
    Ends P (poll sys process) (fun answer m => P m ∧ answer = none) E :=
  ask_still (R := fun answer _ => answer = none) hP (fun _ _ _ => by simp)
    (fun _ _ => by simp) fun m hm =>
    h.lives m.history process (hother m hm)

theorem sleep_watched {milliseconds : Int} (hpos : 0 ≤ milliseconds) {Q : Machine → Prop}
    (hP : ∀ m, P m → Watched m) (hQ : ∀ m, P m → Watched (m.record (.slept milliseconds)) →
      Q (m.record (.slept milliseconds))) :
    Ends P (sleep milliseconds) (fun _ => Q) E := by
  apply Ends.change
  intro m hm
  refine hQ m hm (watched_record (hP m hm) (fun _ _ => by simp) ?_)
  rw [slept_sleep]
  have := (hP m hm).clock
  omega

theorem waitForPath_present (h : sys.Cooperates code finish) (hfuel : 0 < fuel) (hP : Still P)
    {path : Text} (hmade : ∀ m, P m → ∃ command ∈ started m.history, path ∈ command.files)
    (process : Nat) : Ends P (waitForPath sys fuel path process) (fun _ => P) E := by
  apply Ends.bind ((monotonic_slept h hP).mono (fun _ h => h) (fun _ _ h => h.1) fun _ _ h => h)
  intro begun
  apply Ends.repeatUntil_variant (I := fun _ => P) _ hfuel
  intro n
  apply Ends.bind (pathExists_present h hP hmade)
  intro present
  apply Ends.ite
  · exact fun _ => Ends.pure fun _ hm => hm.1
  · exact fun habsent _ hm => absurd hm.2 habsent

theorem watch_lives (h : sys.Cooperates code finish) (hP : Still P) (exited : Text → Int → Error)
    {l : List (Text × Nat)}
    (hother : ∀ m, P m → ∀ x ∈ l, (started m.history)[x.2]? ≠ some .worker) :
    Ends P (watch sys exited l) (fun _ => P) E := by
  apply Ends.each fun _ => P
  rintro x rest ⟨before, rfl⟩
  apply Ends.bind (poll_lives h hP fun m hm => hother m hm x (by simp))
  intro answer
  cases answer with
  | none => exact Ends.pure fun _ hm => hm.1
  | some code => exact fun _ hm => absurd hm.2 (by simp)

theorem anyMissing_present (h : sys.Cooperates code finish) (hP : Still P)
    {paths : List (Text × Nat)}
    (hmade : ∀ m, P m → ∀ x ∈ paths, ∃ command ∈ started m.history, x.1 ∈ command.files) :
    Ends P (anyMissing sys paths) (fun b m => P m ∧ b = false) E := by
  induction paths with
  | nil => exact Ends.pure fun _ hm => ⟨hm, rfl⟩
  | cons x rest ih =>
    apply Ends.bind (pathExists_present h hP fun m hm => hmade m hm x List.mem_cons_self)
    intro present
    apply Ends.ite
    · exact fun _ => (ih fun m hm y hy => hmade m hm y (List.mem_cons_of_mem x hy)).mono
        (fun _ hm => hm.1) (fun _ _ hm => hm) fun _ _ hm => hm
    · exact fun habsent _ hm => absurd hm.2 habsent

theorem start_popen (h : sys.Cooperates code finish) (command : Command) :
    Ends P (start sys o command)
      (fun process m => ∃ m₀, P m₀ ∧ process = (started m₀.history).length ∧
        m = m₀.record (.popen command (some process))) E := by
  apply Ends.bind (Q := fun process m => ∃ m₀, P m₀ ∧ process = some (started m₀.history).length ∧
    m = m₀.record (.popen command process))
  · apply Ends.call
    intro m hm
    refine ⟨m, hm, ?_, rfl⟩
    exact if_pos (h.starts m.history _ _)
  · intro process
    cases process with
    | some process =>
      apply Ends.pure
      rintro m ⟨m₀, hm, hprocess, hrecord⟩
      exact ⟨m₀, hm, Option.some.inj hprocess, hrecord⟩
    | none =>
      rintro m ⟨m₀, -, hprocess, -⟩
      cases hprocess

theorem start_watched (h : sys.Cooperates code finish) (command : Command) :
    Ends Watched (start sys o command)
      (fun process m => Watched m ∧ (started m.history)[process]? = some command) E := by
  apply (start_popen h command).mono (fun _ hm => hm) _ fun _ _ hm => hm
  rintro process m ⟨m₀, hm, rfl, rfl⟩
  refine ⟨hm.popen command _, ?_⟩
  rw [show started (m₀.record (.popen command (some (started m₀.history).length))).history =
    started m₀.history ++ [command] from started_popen _ _ _]
  exact List.getElem?_concat_length

theorem still_started (X : List Command → Prop) : Still fun m => X (started m.history) :=
  (stable_started X).still

end Answers

section Service

variable {sys : System} {o : Options} {fuel : Nat} {code finish : Int}
  {E : Option Error → Machine → Prop}

theorem startGateway_watched (h : sys.Cooperates code finish) (g : GatewayProcess) :
    Ends Watched (startGateway sys o g)
      (fun _ m => Watched m ∧ Command.gateway g ∈ started m.history) E := by
  apply Ends.bind (start_watched h (.gateway g))
  intro gateway
  apply Ends.bind (Q := fun _ m => Watched m ∧ (started m.history)[gateway]? = some (.gateway g))
  · exact Ends.change fun m hm => ⟨⟨hm.1.ready, hm.1.transports, hm.1.clock⟩, hm.2⟩
  · intro _
    apply Ends.bind (Q := fun _ m => Watched m ∧ Command.gateway g ∈ started m.history)
    · apply Ends.change
      rintro m ⟨hm, hg⟩
      refine ⟨⟨fun x hx => ?_, hm.transports, hm.clock⟩, List.mem_of_getElem? hg⟩
      rcases List.mem_append.mp hx with hx | hx
      · exact hm.ready x hx
      · rw [List.mem_singleton.mp hx]
        exact ⟨g, hg, rfl⟩
    · exact fun _ => Ends.pure fun _ hm => hm

theorem keepTransport_watched (kind : String) (peer : Int) (net : Nat) {command : Command}
    (hne : command ≠ .worker) :
    Ends (fun m => Watched m ∧ (started m.history)[net]? = some command)
      (keepTransport o kind peer net) (fun _ => Watched) E := by
  apply Ends.bind (Q := fun _ m => Watched m ∧ (started m.history)[net]? = some command)
  · exact Ends.change fun m hm => ⟨⟨hm.1.ready, hm.1.transports, hm.1.clock⟩, hm.2⟩
  · intro _
    apply Ends.change
    rintro m ⟨hm, hnet⟩
    refine ⟨hm.ready, fun x hx => ?_, hm.clock⟩
    rcases List.mem_append.mp hx with hx | hx
    · exact hm.transports x hx
    · rw [List.mem_singleton.mp hx]
      exact ⟨command, hnet, hne⟩

theorem startListener_watched (h : sys.Cooperates code finish) (hfuel : 0 < fuel) (c : Channel) :
    Ends Watched (startListener sys o fuel c) (fun _ => Watched) E := by
  apply Ends.ite
  · exact fun _ => Ends.pure fun _ hm => hm
  · intro _
    apply Ends.bind (startGateway_watched h (listenerGateway o c))
    intro gateway
    apply Ends.bind ((waitForPath_present h hfuel
      (still_watched.and (still_started fun commands => .gateway (listenerGateway o c) ∈ commands))
      (fun m hm => ⟨_, hm.2, by simp [Command.files, listenerGateway]⟩) gateway).mono
      (fun _ hm => hm) (fun _ _ hm => hm.1) fun _ _ hm => hm)
    intro _
    apply Ends.bind (start_watched h (.listener c.connectorSlot c.tcpPort))
    exact fun net => keepTransport_watched "listener-" c.connectorSlot net fun heq => by cases heq

theorem resolveTransportService_answers (h : sys.Cooperates code finish) (hfuel : 0 < fuel)
    (service : Text) : Ends Watched (resolveTransportService sys fuel service)
      (fun _ => Watched) E := by
  apply Ends.bind (monotonic_slept h still_watched)
  intro begun
  have hP : Still fun m => Watched m ∧ begun = slept m.history :=
    still_watched.and (still_slept fun time => begun = time)
  apply Ends.repeatUntil_variant (I := fun _ m => Watched m ∧ begun = slept m.history) _ hfuel
  intro n
  apply Ends.bind (monotonic_slept h hP)
  intro now
  apply Ends.ite
  · intro _
    apply Ends.bind ((ask_still (R := fun address _ => ∃ a, address = some a) hP
      (fun _ _ _ => by simp) (fun _ _ => by simp) fun m _ => h.resolves m.history service).mono
      (fun _ hm => hm.1) (fun _ _ hm => hm) fun _ _ hm => hm)
    intro address
    cases address with
    | some address => exact Ends.pure fun _ hm => hm.1.1
    | none => exact fun _ hm => absurd hm.2 (by simp)
  · intro hlate m hm
    have hbegun := hm.1.2
    have hnow := hm.2
    omega

theorem unlinkIfPresent_unlinks (h : sys.Cooperates code finish) {P : Machine → Prop} (hP : Still P)
    (path : Text) : Ends P (unlinkIfPresent sys path) (fun _ => P) E := by
  apply Ends.bind ((ask_still (R := fun _ _ => True) hP (fun _ _ _ => by simp) (fun _ _ => by simp)
    fun _ _ => trivial).mono (fun _ hm => hm) (fun _ _ hm => hm.1) fun _ _ hm => hm)
  intro present
  apply Ends.ite
  · intro _
    apply Ends.bind (ask_still (R := fun b _ => b = true) hP (fun _ _ _ => by simp)
      (fun _ _ => by simp) fun m _ => h.unlinks m.history path)
    intro done
    apply Ends.ite
    · exact fun _ => Ends.pure fun _ hm => hm.1
    · exact fun hnot _ hm => absurd hm.2 hnot
  · exact fun _ => Ends.pure fun _ hm => hm

/-- The first attempt of a connector succeeds. -/
theorem startConnectorWithRetry_watched (h : sys.Cooperates code finish) (hfuel : 0 < fuel)
    (peer tcpPort : Int) (peerIp : Text) {timeoutSeconds : Int} (htimeout : 1 ≤ timeoutSeconds) :
    Ends Watched
      (startConnectorWithRetry sys o fuel (.connector peer peerIp tcpPort) (socketPath peer)
        timeoutSeconds)
      (fun process m => Watched m ∧
        (started m.history)[process]? = some (.connector peer peerIp tcpPort)) E := by
  apply Ends.bind (monotonic_slept h still_watched)
  intro begun
  have hP : Still fun m => Watched m ∧ begun = slept m.history :=
    still_watched.and (still_slept fun time => begun = time)
  obtain ⟨rounds, rfl⟩ := Nat.exists_eq_succ_of_ne_zero hfuel.ne'
  apply Ends.bind (monotonic_slept h hP)
  intro now
  apply Ends.ite
  · intro _
    apply Ends.bind ((unlinkIfPresent_unlinks h still_watched _).mono (fun _ hm => hm.1.1)
      (fun _ _ hm => hm) fun _ _ hm => hm)
    intro _
    apply Ends.bind (start_watched h (.connector peer peerIp tcpPort))
    intro connector
    have hstarted : Still fun m => Watched m ∧
        (started m.history)[connector]? = some (.connector peer peerIp tcpPort) :=
      still_watched.and (still_started fun commands => commands[connector]? = _)
    apply Ends.bind (waitForPath_present h hfuel hstarted
      (fun m hm => ⟨_, List.mem_of_getElem? hm.2, by simp [Command.files]⟩) connector)
    intro _
    apply Ends.bind (sleep_watched (Q := fun m => Watched m ∧
      (started m.history)[connector]? = some (.connector peer peerIp tcpPort)) (by decide)
      (fun _ hm => hm.1) fun m hm hw => ⟨hw, by
        rw [show started (m.record (.slept 500)).history = started m.history from
          started_quiet (fun _ _ => by simp) m.history]
        exact hm.2⟩)
    intro _
    apply Ends.bind (poll_lives h hstarted fun m hm => by rw [hm.2]; simp)
    intro answer
    cases answer with
    | none => exact Ends.pure fun _ hm => hm.1
    | some code => exact fun _ hm => absurd hm.2 (by simp)
  · intro hlate m hm
    have hbegun := hm.1.2
    have hnow := hm.2
    omega

theorem startConnector_watched (h : sys.Cooperates code finish) (hfuel : 0 < fuel)
    (htimeout : 1 ≤ o.connectorTimeoutSeconds) (c : Channel) :
    Ends Watched (startConnector sys o fuel c) (fun _ => Watched) E := by
  apply Ends.ite
  · exact fun _ => Ends.pure fun _ hm => hm
  · intro _
    apply Ends.bind (resolveTransportService_answers h hfuel _)
    intro peerIp
    apply Ends.bind (startConnectorWithRetry_watched h hfuel c.listenerSlot c.tcpPort
      peerIp htimeout)
    intro net
    have hne : Command.connector c.listenerSlot peerIp c.tcpPort ≠ .worker :=
      fun heq => by cases heq
    apply Ends.bind (keepTransport_watched "connector-" c.listenerSlot net hne)
    intro _
    apply Ends.bind ((startGateway_watched h (connectorGateway o c)).mono (fun _ hm => hm)
      (fun _ _ hm => hm.1) fun _ _ hm => hm)
    exact fun _ => Ends.pure fun _ hm => hm

theorem Watched.transports_live {m : Machine} (h : Watched m) :
    ∀ x ∈ m.transportProcesses, (started m.history)[x.2]? ≠ some .worker := by
  intro x hx hworker
  obtain ⟨command, hcommand, hne⟩ := h.transports x hx
  rw [hcommand] at hworker
  exact hne (Option.some.inj hworker)

theorem waitForReady_watched (h : sys.Cooperates code finish) (hfuel : 0 < fuel)
    (timeoutSeconds : Int) :
    Ends Watched (waitForReady sys fuel timeoutSeconds) (fun _ => Watched) E := by
  apply Ends.bind (Q := fun paths m => Watched m ∧ m.readyPaths = paths)
    (Ends.read fun m hm => ⟨hm, rfl⟩)
  intro paths
  have hP : Still fun m => Watched m ∧ m.readyPaths = paths :=
    still_watched.and (stable_readyPaths paths).still
  apply Ends.bind ((monotonic_slept h hP).mono (fun _ hm => hm) (fun _ _ hm => hm.1)
    fun _ _ hm => hm)
  intro begun
  apply Ends.repeatUntil_variant (I := fun _ m => Watched m ∧ m.readyPaths = paths) _ hfuel
  intro n
  apply Ends.bind (anyMissing_present h hP ?_)
  · intro missing
    apply Ends.ite
    · exact fun hmissing _ hm => absurd (hm.2.symm.trans hmissing) (by decide)
    · exact fun _ => Ends.pure fun _ hm => hm.1.1
  · rintro m ⟨hm, hpaths⟩ x hx
    obtain ⟨g, hg, hpath⟩ := hm.ready x (hpaths ▸ hx)
    exact ⟨_, List.mem_of_getElem? hg, by simp [Command.files, hpath]⟩

theorem waitForStable_watched (h : sys.Cooperates code finish) {timeoutSeconds : Int}
    (hpos : 0 < fuel) (hfuel : timeoutSeconds * 10 < fuel) :
    Ends Watched (waitForStable sys fuel timeoutSeconds) (fun _ => Watched) E := by
  apply Ends.bind (Q := fun processes m => Watched m ∧ m.transportProcesses = processes)
    (Ends.read fun m hm => ⟨hm, rfl⟩)
  intro processes
  have hlist : Still fun m => Watched m ∧ m.transportProcesses = processes :=
    still_watched.and fun _ _ _ _ hm => hm
  apply Ends.bind (monotonic_slept h hlist)
  intro begun
  -- what is left of the time is the variant, in rounds of 100 ms
  have hround : ∀ n : Nat, Still fun m => (Watched m ∧ m.transportProcesses = processes) ∧
      begun + timeoutSeconds * 1000 - slept m.history ≤ 100 * n := fun n =>
    hlist.and
      (still_slept fun time => begun + timeoutSeconds * 1000 - time ≤ 100 * n)
  refine (Ends.repeatUntil_variant (I := fun n m => (Watched m ∧ m.transportProcesses = processes) ∧
    begun + timeoutSeconds * 1000 - slept m.history ≤ 100 * n) (Q := fun _ => Watched) (fun n => ?_)
    (n := (timeoutSeconds * 10).toNat) (by omega)).mono
    (fun m hm => ⟨hm.1, by have := hm.2; omega⟩) (fun _ _ hm => hm) fun _ _ hm => hm
  apply Ends.bind (monotonic_slept h (hround n))
  intro now
  apply Ends.ite
  · intro hearly
    apply Ends.bind (watch_lives h ((hround n).and (still_slept fun time => now = time)) _
      fun m hm x hx => hm.1.1.1.transports_live x (hm.1.1.2 ▸ hx))
    intro _
    apply Ends.bind (sleep_watched (by decide) (fun _ hm => hm.1.1.1)
      (Q := fun m => ∃ k < n, (Watched m ∧ m.transportProcesses = processes) ∧
        begun + timeoutSeconds * 1000 - slept m.history ≤ 100 * k) ?_)
    · exact fun _ => Ends.pure fun _ hm => hm
    · rintro m ⟨⟨⟨-, hprocesses⟩, hleft⟩, hnow⟩ hw
      have hclock : slept (m.record (.slept 100)).history = slept m.history + 100 := slept_sleep _ _
      refine ⟨n - 1, by omega, ⟨hw, hprocesses⟩, ?_⟩
      rw [hclock]
      omega
  · exact fun _ => Ends.pure fun _ hm => hm.1.1.1

theorem startKept_watched (h : sys.Cooperates code finish) (command : Command) :
    Ends Watched (startKept sys o command)
      (fun process m => Watched m ∧ (started m.history)[process]? = some command) E := by
  apply Ends.bind (start_watched h command)
  intro process
  apply Ends.bind (Q := fun _ m => Watched m ∧ (started m.history)[process]? = some command)
  · exact Ends.change fun m hm => ⟨⟨hm.1.ready, hm.1.transports, hm.1.clock⟩, hm.2⟩
  · exact fun _ => Ends.pure fun _ hm => hm

/-- The worker is watched until it exits, and its code ends the supervisor. -/
theorem superviseWorker_exits (h : sys.Cooperates code finish) (hfuel : finish + 200 ≤ 200 * fuel)
    (hpos : 0 < fuel) (worker : Nat) {Q : Unit → Machine → Prop}
    (hE : ∀ m, E (some (.exit code)) m) :
    Ends (fun m => Watched m ∧ (started m.history)[worker]? = some .worker)
      (superviseWorker sys fuel worker) Q E := by
  apply Ends.bind (Q := fun processes m =>
    (Watched m ∧ (started m.history)[worker]? = some .worker) ∧ m.transportProcesses = processes)
    (Ends.read fun m hm => ⟨hm, rfl⟩)
  intro processes
  have hround : ∀ n : Nat, Still fun m =>
      ((Watched m ∧ (started m.history)[worker]? = some .worker) ∧
        m.transportProcesses = processes) ∧
        finish - slept m.history ≤ 200 * n := fun n =>
    ((still_watched.and (still_started fun commands => commands[worker]? = _)).and
      fun _ _ _ _ hm => hm).and (still_slept fun time => finish - time ≤ 200 * n)
  refine (Ends.repeatUntil_variant (I := fun n m =>
    ((Watched m ∧ (started m.history)[worker]? = some .worker) ∧ m.transportProcesses = processes) ∧
      finish - slept m.history ≤ 200 * n) (Q := Q) (fun n => ?_) (n := fuel - 1) (by omega)).mono
    (fun m hm => ⟨hm, by have := hm.1.1.clock; omega⟩) (fun _ _ hm => hm) fun _ _ hm => hm
  apply Ends.bind (Q := fun answer m =>
    (((Watched m ∧ (started m.history)[worker]? = some .worker) ∧
      m.transportProcesses = processes) ∧
      finish - slept m.history ≤ 200 * n) ∧
        answer = if finish ≤ slept m.history then some code else none)
  · refine ask_still (R := fun answer m =>
      answer = if finish ≤ slept m.history then some code else none) (hround n)
        (fun _ _ _ => by simp)
      (fun _ _ => by simp) fun m hm => ?_
    have hclock : slept (m.record (.polled worker (sys.poll m.history worker))).history =
        slept m.history := slept_still (fun _ => by simp) m.history
    rw [hclock]
    exact h.worker m.history worker hm.1.1.2
  intro answer
  cases answer with
  | some answer =>
    apply Ends.raise
    rintro m ⟨-, hanswer⟩
    split at hanswer
    · rw [Option.some.inj hanswer]
      exact hE m
    · cases hanswer
  | none =>
    have hbusy : Still fun m =>
        (((Watched m ∧ (started m.history)[worker]? = some .worker) ∧
          m.transportProcesses = processes) ∧
          finish - slept m.history ≤ 200 * n) ∧ slept m.history < finish :=
      (hround n).and (still_slept fun time => time < finish)
    apply Ends.bind ((watch_lives h hbusy _
      fun m hm x hx => hm.1.1.1.1.transports_live x (hm.1.1.2 ▸ hx)).mono _ (fun _ _ hm => hm)
      fun _ _ hm => hm)
    · intro _
      apply Ends.bind (sleep_watched (by decide) (fun _ hm => hm.1.1.1.1)
        (Q := fun m => ∃ k < n, ((Watched m ∧ (started m.history)[worker]? = some .worker) ∧
          m.transportProcesses = processes) ∧ finish - slept m.history ≤ 200 * k) ?_)
      · exact fun _ => Ends.pure fun _ hm => hm
      · rintro m ⟨⟨⟨⟨-, hworker⟩, hprocesses⟩, hleft⟩, hbefore⟩ hw
        have hclock : slept (m.record (.slept 200)).history = slept m.history + 200 :=
          slept_sleep _ _
        have hs : started (m.record (.slept 200)).history = started m.history :=
          started_quiet (fun _ _ => by simp) m.history
        refine ⟨n - 1, by omega, ⟨⟨hw, by rw [hs]; exact hworker⟩, hprocesses⟩, ?_⟩
        rw [hclock]
        omega
    · rintro m ⟨hm, hanswer⟩
      refine ⟨hm, ?_⟩
      split at hanswer
      · cases hanswer
      · omega

theorem body_exits (h : sys.Cooperates code finish) (ho : o.Valid)
    (hstable : o.stabilityTimeoutSeconds * 10 < fuel) (hfinish : finish + 200 ≤ 200 * fuel)
    {Q : Unit → Machine → Prop} (hE : ∀ m, E (some (.exit code)) m) :
    Ends Watched (body sys o fuel) Q E := by
  have hfuel : 0 < fuel := by
    have := ho.stability
    omega
  apply Ends.bind (Ends.each (fun _ => Watched) fun c _ _ => startListener_watched h hfuel c)
  intro _
  apply Ends.bind (Q := fun _ => Watched)
  · apply Ends.ite
    · exact fun hneg => absurd ho.slot (by omega)
    · exact fun _ => sleep_watched (by have := ho.slot; omega) (fun _ hm => hm) fun _ _ hw => hw
  intro _
  apply Ends.bind (Ends.each (fun _ => Watched) fun c _ _ =>
    startConnector_watched h hfuel ho.connector c)
  intro _
  apply Ends.bind (waitForReady_watched h hfuel o.readyTimeoutSeconds)
  intro _
  apply Ends.bind (waitForStable_watched h hfuel hstable)
  intro _
  apply Ends.bind ((startKept_watched h .router).mono (fun _ hm => hm) (fun _ _ hm => hm.1)
    fun _ _ hm => hm)
  intro _
  apply Ends.bind (startKept_watched h .worker)
  exact fun worker => superviseWorker_exits h hfinish hfuel worker hE

/-- The clean-up raises nothing. -/
theorem stopChildren_done {P : Prop} :
    Ends (fun _ => P) (stopChildren sys) (fun _ _ => P) (fun _ _ => False) := by
  have hP : Stable fun _ => P := fun _ _ _ hm => hm
  apply Ends.bind (Q := fun _ _ => P) (Ends.read fun _ hm => hm)
  intro children
  apply Ends.bind (Ends.each (fun _ _ => P) fun child _ _ =>
    (terminateIfRunning_ends hP child).mono (fun _ hm => hm) (fun _ _ hm => hm.1) fun _ _ hm => hm)
  intro _
  apply Ends.each fun _ _ => P
  intro child _ _
  apply Ends.bind (ask_ends hP fun _ _ _ => by simp)
  intro exited
  apply Ends.ite
  · exact fun _ => Ends.pure fun _ hm => hm.1
  · exact fun _ => Ends.change fun _ hm => hm.1

theorem main_exits (h : sys.Cooperates code finish) (ho : o.Valid)
    (hstable : o.stabilityTimeoutSeconds * 10 < fuel) (hfinish : finish + 200 ≤ 200 * fuel) :
    Ends (· = {}) (main sys o fuel) (fun _ _ => False) (fun e _ => e = some (.exit code)) := by
  apply Ends.ite fun hbad => absurd ho.ready (by omega)
  intro _
  apply Ends.ite fun hbad => absurd ho.connector (by omega)
  intro _
  apply Ends.ite fun hbad => absurd ho.stability (by omega)
  intro _
  have hstart : ∀ m : Machine, m = {} → Watched m := by
    rintro m rfl
    exact ⟨nofun, nofun, le_refl _⟩
  have hbody : Ends (· = {}) (body sys o fuel) (fun _ _ => False) fun e _ =>
      e = some (.exit code) :=
    (body_exits h ho hstable hfinish fun _ => rfl).mono hstart (fun _ _ hm => hm) fun _ _ hm => hm
  apply Ends.finally_ hbody
  · exact fun _ _ hm => hm.elim
  · exact fun e => stopChildren_done.mono (fun _ hm => hm) (fun _ _ hm => hm) fun _ _ hm => hm.elim
  · exact fun _ hm => hm

end Service

theorem mem_started {history : List Event} {command : Command} :
    command ∈ started history ↔
      ∃ before process after, history = before ++ .popen command (some process) :: after := by
  constructor
  · intro h
    obtain ⟨e, he, hcommand⟩ := List.mem_filterMap.mp h
    obtain ⟨before, after, hsplit⟩ := List.append_of_mem he
    cases e with
    | popen c process =>
      cases process with
      | none => cases hcommand
      | some process => exact ⟨before, process, after, Option.some.inj hcommand ▸ hsplit⟩
    | _ => cases hcommand
  · rintro ⟨before, process, after, rfl⟩
    exact List.mem_filterMap.mpr ⟨.popen command (some process), by simp, rfl⟩

/-- What was ready when the worker started is ready at the end, and no other gateway follows. -/
theorem Ready.append {o : Options} {before after : List Event} (h : Ready o before)
    (hgateways : startedGateways (before ++ after) <+:
      supervisorGateways o.slot o.topology o.gatewayBasePort) : Ready o (before ++ after) := by
  have hcommands : started (before ++ after) = started before ++ started after :=
    List.filterMap_append
  have hsplit : startedGateways (before ++ after) = startedGateways before ++
      startedGateways after := by
    rw [startedGateways, hcommands, List.filterMap_append]
    rfl
  have hnone : startedGateways after = [] := by
    have hlen := hgateways.length_le
    rw [hsplit, h.gateways, List.length_append] at hlen
    exact List.eq_nil_of_length_eq_zero (by omega)
  rw [hnone, List.append_nil] at hsplit
  refine ⟨hsplit.trans h.gateways, fun g hg => ?_, fun g hg => ?_, ?_⟩
  · rw [hsplit] at hg
    exact List.mem_append_left _ (h.handshakes g hg)
  · rw [hsplit] at hg
    rw [hcommands]
    exact (h.transports g hg).append _
  · rw [hcommands]
    exact List.mem_append_left _ h.router

/-- Whatever the operating system answers, the gateways start in the topology's order, the
worker only after every handshake was seen, and a supervisor that is over leaves no process
behind but a connector it gave up on. Where the system cooperates, all gateways, transports,
the router and the worker start, and the supervisor ends with the worker's code. -/
theorem supervisor_is_orderly {sys : System} {o : Options} {fuel : Nat}
    {outcome : Ending Error Unit} {m : Machine} (hrun : main sys o fuel {} = (outcome, m)) :
    startedGateways m.history <+: supervisorGateways o.slot o.topology o.gatewayBasePort ∧
      (∀ before process after, m.history = before ++ .popen .worker (some process) :: after →
        Ready o before) ∧
      (match outcome with
      | .done _ => False
      | .running => True
      | .raised e =>
        (∀ p < (started m.history).length, Settled m.history p ∨ Abandoned m.history e p) ∧
          ∀ code, e = .exit code → ∃ p, (started m.history)[p]? = some .worker ∧
            Event.polled p (some code) ∈ m.history) ∧
      ∀ code finish, sys.Cooperates code finish → o.Valid →
        o.stabilityTimeoutSeconds * 10 < fuel → finish + 200 ≤ 200 * fuel →
        outcome = .raised (.exit code) ∧ Ready o m.history ∧ .worker ∈ started m.history := by
  have h := @main_ends sys o fuel {} rfl
  have hserved := fun code finish (hsys : sys.Cooperates code finish) (ho : o.Valid)
    (hstable : o.stabilityTimeoutSeconds * 10 < fuel) (hfinish : finish + 200 ≤ 200 * fuel) =>
      main_exits hsys ho hstable hfinish {} rfl
  rw [hrun] at h hserved
  cases outcome with
  | done _ => exact h.elim
  | running =>
    refine ⟨h.1, h.2, trivial, fun code finish hsys ho hstable hfinish => ?_⟩
    exact absurd (hserved code finish hsys ho hstable hfinish) (by simp)
  | raised e =>
    refine ⟨h.1.1, h.1.2, h.2, fun code finish hsys ho hstable hfinish => ?_⟩
    have he : e = .exit code := Option.some.inj (hserved code finish hsys ho hstable hfinish)
    obtain ⟨p, hp, -⟩ := h.2.2 code he
    have hworker := List.mem_of_getElem? hp
    obtain ⟨before, process, after, hsplit⟩ := mem_started.mp hworker
    have hready := h.1.2 before process after hsplit
    have hgateways := h.1.1
    rw [hsplit] at hgateways
    refine ⟨by rw [he], ?_, hworker⟩
    rw [hsplit]
    exact hready.append hgateways

/-- The middle one of three workers listens for one peer and connects to the other. -/
def middleWorker : Options where
  slot := 1
  topology := ⟨[0, 1, 2], [⟨"c0".toList, 0, 1, 9600⟩, ⟨"c1".toList, 1, 2, 9601⟩]⟩
  routing := "/routing.json".toList

/-- Every process starts, and the worker exits after ten seconds. -/
def cooperatingSystem : System where
  starts := fun _ _ _ => true
  poll := fun history p =>
    if (started history)[p]? = some .worker ∧ 10000 ≤ slept history then some 3 else none
  pathExists := fun _ _ => true
  unlink := fun _ _ => true
  resolve := fun _ service => some service
  monotonic := slept
  exitsInTime := fun _ p => p ≠ 0

theorem cooperatingSystem_cooperates : cooperatingSystem.Cooperates 3 10000 where
  starts := fun _ _ _ => rfl
  worker := fun history p hp => by simp [cooperatingSystem, hp]
  lives := fun history p hp => by simp [cooperatingSystem, hp]
  present := fun _ _ _ _ _ => rfl
  unlinks := fun _ _ => rfl
  resolves := fun _ service => ⟨service, rfl⟩
  clock := fun _ => rfl

theorem supervisor_is_orderly_middle :
    ∃ m, main cooperatingSystem middleWorker 60 {} = (.raised (.exit 3), m) ∧
      startedGateways m.history = [⟨⟨"c1".toList, 1, 2, 9601⟩, 2, 9502, false⟩,
        ⟨⟨"c0".toList, 0, 1, 9600⟩, 0, 9500, true⟩] ∧
      (∀ g ∈ startedGateways m.history, HasTransport (started m.history) g) ∧
      .router ∈ started m.history ∧ .worker ∈ started m.history ∧
      ∀ p < (started m.history).length, Settled m.history p := by
  obtain ⟨outcome, m, hrun⟩ : ∃ outcome m,
      main cooperatingSystem middleWorker 60 {} = (outcome, m) := ⟨_, _, Prod.mk.eta.symm⟩
  obtain ⟨-, -, hended, hserved⟩ := supervisor_is_orderly hrun
  obtain ⟨rfl, hready, hworker⟩ := hserved 3 10000 cooperatingSystem_cooperates
    ⟨by decide, by decide, by decide, by decide⟩ (by decide) (by decide)
  refine ⟨m, hrun, hready.gateways.trans (by decide), hready.transports, hready.router, hworker,
    fun p hp => ?_⟩
  exact (hended.1 p hp).resolve_right fun ⟨_, _, _, _, heq⟩ => by cases heq

end Supervisor

end ChipSystemSim
