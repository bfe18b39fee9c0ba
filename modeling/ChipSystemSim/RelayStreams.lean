import ChipSystemSim.RelayFrames

/-! The streams of the relay, whatever the order of its steps: what the proxy has passed on
of what was sent, what reached the stdin of the child, and how its stderr begins. -/

namespace ChipSystemSim

namespace Relay

variable {cfg : Setting} {s t : State}

section Connection

theorem put_proxy (who : Sender) (m : Message) :
    ((s.put who m).proxy, (s.put who m).processed) = (s.proxy, s.processed) := by
  unfold State.put
  split <;> rfl

/-- What a step does to the connection of the worker and to the proxy. -/
theorem step_connection (h : Step cfg s t) :
    (∃ who m, t.sent = (s.put who m).sent ∧ t.toProxy = (s.put who m).toProxy ∧
      (t.proxy, t.processed) = (s.proxy, s.processed)) ∨
    (t.sent = s.sent ∧ t.toProxy = s.toProxy ∧ (t.proxy, t.processed) = (s.proxy, s.processed)) ∨
    (s.proxy.phase.active = true ∧ ∃ raw, nextLine s.down s.toProxy = some (raw, t.toProxy) ∧
      t.sent = s.sent ∧
      (t.proxy, t.processed) = (s.proxy.takeLine cfg raw, s.processed + 1)) ∨
    t.proxy.phase = .raised := by
  cases h with
  | sendChunk => exact Or.inl ⟨_, _, rfl, rfl, put_proxy _ _⟩
  | sendDiagnostic => exact Or.inl ⟨_, _, rfl, rfl, put_proxy _ _⟩
  | sendStarted => exact Or.inl ⟨_, _, rfl, rfl, put_proxy _ _⟩
  | sendMarker => exact Or.inl ⟨_, _, rfl, rfl, put_proxy _ _⟩
  | sendExit => exact Or.inl ⟨_, _, rfl, rfl, put_proxy _ _⟩
  | sendError => exact Or.inl ⟨_, _, rfl, rfl, put_proxy _ _⟩
  | @readLine raw rest =>
    refine Or.inr (Or.inl ?_)
    rcases takeLine_cases s raw with heq | heq | ⟨error, heq⟩ | ⟨data, heq⟩
    all_goals
      rw [heq]
      exact ⟨rfl, rfl, rfl⟩
  | proxyLine hactive hline => exact Or.inr (Or.inr (Or.inl ⟨hactive, _, hline, rfl, rfl⟩))
  | proxyRaises => exact Or.inr (Or.inr (Or.inr rfl))
  | _ => exact Or.inr (Or.inl ⟨rfl, rfl, rfl⟩)

/-- The proxy has passed on the first messages, and the others are on the connection. -/
structure PassedOn (s : State) : Prop where
  count : s.processed ≤ s.sent.length
  pending : s.toProxy = frames (s.sent.drop s.processed)
  stdout : s.proxy.stdout = dataOf .stdout (s.sent.take s.processed)
  stderr : relayedBytes s.proxy.stderr = dataOf .stderr (s.sent.take s.processed)
  last : ∀ returnCode, s.proxy.phase = .finished returnCode →
    ∃ front, s.sent.take s.processed = front ++ [.exit returnCode]

theorem PassedOn.congr (h : PassedOn s) (hsent : t.sent = s.sent) (hpending : t.toProxy = s.toProxy)
    (hproxy : (t.proxy, t.processed) = (s.proxy, s.processed)) : PassedOn t := by
  obtain ⟨hproxy, hprocessed⟩ := Prod.mk.inj hproxy
  constructor
  · rw [hprocessed, hsent]
    exact h.count
  · rw [hpending, hsent, hprocessed]
    exact h.pending
  · rw [hproxy, hsent, hprocessed]
    exact h.stdout
  · rw [hproxy, hsent, hprocessed]
    exact h.stderr
  · rw [hproxy, hsent, hprocessed]
    exact h.last

theorem PassedOn.put (h : PassedOn s) (who : Sender) (m : Message) : PassedOn (s.put who m) := by
  cases hdown : s.down with
  | true =>
    rw [put_down hdown]
    exact h.congr rfl rfl rfl
  | false =>
    rw [put_up hdown]
    have htake : (s.sent ++ [m]).take s.processed = s.sent.take s.processed :=
      List.take_append_of_le_length h.count
    have hdrop : (s.sent ++ [m]).drop s.processed = s.sent.drop s.processed ++ [m] :=
      List.drop_append_of_le_length h.count
    constructor
    · show s.processed ≤ (s.sent ++ [m]).length
      rw [List.length_append]
      exact h.count.trans (Nat.le_add_right _ _)
    · show s.toProxy ++ frameBytes m.value = frames ((s.sent ++ [m]).drop s.processed)
      rw [hdrop, h.pending, frames, frames, List.flatMap_append]
      simp
    · show s.proxy.stdout = dataOf .stdout ((s.sent ++ [m]).take s.processed)
      rw [htake]
      exact h.stdout
    · show relayedBytes s.proxy.stderr = dataOf .stderr ((s.sent ++ [m]).take s.processed)
      rw [htake]
      exact h.stderr
    · show ∀ returnCode, s.proxy.phase = .finished returnCode →
          ∃ front, (s.sent ++ [m]).take s.processed = front ++ [.exit returnCode]
      rw [htake]
      exact h.last

theorem PassedOn.line (h : PassedOn s) (hactive : s.proxy.phase.active = true) {raw : Bytes}
    (hline : nextLine s.down s.toProxy = some (raw, t.toProxy)) (hsent : t.sent = s.sent)
    (hproxy : (t.proxy, t.processed) = (s.proxy.takeLine cfg raw, s.processed + 1)) :
    t.proxy.phase = .raised ∨ PassedOn t := by
  obtain ⟨hproxy, hprocessed⟩ := Prod.mk.inj hproxy
  rw [h.pending] at hline
  cases hrest : s.sent.drop s.processed with
  | nil =>
    rw [hrest] at hline
    change nextLine s.down [] = _ at hline
    rw [nextLine_nil] at hline
    split at hline
    · have hraw : [] = raw := (Prod.mk.inj (Option.some.inj hline)).1
      left
      rw [hproxy, ← hraw]
      exact takeLine_nil
    · cases hline
  | cons m rest =>
    rw [hrest] at hline
    change nextLine s.down (frameBytes m.value ++ frames rest) = _ at hline
    rw [nextLine_frame] at hline
    simp only [Option.some.injEq, Prod.mk.injEq] at hline
    obtain ⟨rfl, hpending⟩ := hline
    have hsplit : s.sent = (s.sent.take s.processed ++ [m]) ++ rest := by
      rw [List.append_assoc, List.singleton_append, ← hrest, List.take_append_drop]
    have hlength : (s.sent.take s.processed ++ [m]).length = s.processed + 1 := by
      rw [List.length_append, List.length_take, min_eq_left h.count, List.length_singleton]
    have htake : t.sent.take t.processed = s.sent.take s.processed ++ [m] := by
      rw [hsent, hprocessed]
      conv_lhs => rw [hsplit]
      exact List.take_left' hlength
    have hdrop : t.sent.drop t.processed = rest := by
      rw [hsent, hprocessed]
      conv_lhs => rw [hsplit]
      exact List.drop_left' hlength
    rcases @takeLine_message cfg s.proxy hactive m with hraised | htook
    · left
      rw [hproxy]
      exact hraised
    · right
      rw [← hproxy] at htook
      constructor
      · have hcount := congrArg List.length hsplit
        rw [List.length_append, hlength] at hcount
        rw [hsent, hprocessed, hcount]
        exact Nat.le_add_right _ _
      · rw [hdrop, hpending]
      · rw [htake, dataOf_concat, ← h.stdout]
        exact htook.stdout
      · rw [htake, dataOf_concat, ← h.stderr]
        exact htook.stderr
      · intro returnCode hfinished
        rw [htake, htook.finished returnCode hfinished]
        exact ⟨_, rfl⟩

def ProxyOk (s : State) : Prop := s.proxy.phase = .raised ∨ PassedOn s

theorem ProxyOk.step (h : ProxyOk s) (hstep : Step cfg s t) : ProxyOk t := by
  rcases step_connection hstep with ⟨who, m, hsent, hpending, hproxy⟩ | ⟨hsent, hpending, hproxy⟩ |
    ⟨hactive, raw, hline, hsent, hproxy⟩ | hraised
  · rcases h with hraised | h
    · left
      rw [(Prod.mk.inj hproxy).1]
      exact hraised
    · exact Or.inr ((h.put who m).congr hsent hpending (hproxy.trans (put_proxy who m).symm))
  · rcases h with hraised | h
    · left
      rw [(Prod.mk.inj hproxy).1]
      exact hraised
    · exact Or.inr (h.congr hsent hpending hproxy)
  · rcases h with hraised | h
    · rw [hraised] at hactive
      cases hactive
    · exact h.line hactive hline hsent hproxy
  · exact Or.inl hraised

theorem proxyOk_init : ProxyOk cfg.init :=
  Or.inr ⟨Nat.le_refl _, rfl, rfl, rfl, fun _ h => by cases h⟩

end Connection

section Stdin

/-- The coroutine has left its loop for the handler of exceptions. -/
def Worker.broken : Worker → Bool
  | .failing _ => true
  | .closed => true
  | _ => false

def StdinThread.held : StdinThread → Bytes
  | .sending data => data
  | _ => []

def stdinFrames (chunks : List Bytes) : Bytes :=
  chunks.flatMap fun data => frameBytes (stdinValue data)

def State.stdin (s : State) : Bytes × Bytes × StdinThread × Bytes :=
  (s.toWorker, s.childStdin, s.thread, s.stdinRead)

theorem put_stdin (who : Sender) (m : Message) :
    (s.put who m).stdin = s.stdin ∧ (s.put who m).worker = s.worker := by
  unfold State.put
  split <;> exact ⟨rfl, rfl⟩

/-- What a step does to the stdin of the proxy and of the child. -/
theorem step_stdin (h : Step cfg s t) :
    (t.stdin = s.stdin ∧ (s.worker.broken = true → t.worker.broken = true)) ∨
    (∃ raw rest, s.worker = .relaying ∧ nextLine (!s.proxy.phase.active) s.toWorker =
      some (raw, rest) ∧
      t = { s.takeLine raw with toWorker := rest }) ∨
    t.worker = s.worker ∧ ((∃ data, s.thread = .reading ∧
        t.stdin = (s.toWorker, s.childStdin, .sending data, s.stdinRead ++ data)) ∨
      t.stdin = (s.toWorker, s.childStdin, .ended, s.stdinRead) ∨
      ∃ data, s.thread = .sending data ∧
        t.stdin = (s.toWorker ++ frameBytes (stdinValue data), s.childStdin, .reading,
          s.stdinRead)) := by
  -- a step of the coroutine starts where it is not broken
  have hleaves : ∀ {w}, s.worker = w → w.broken = false → s.worker.broken = true →
      t.worker.broken = true := by
    intro w hw hnot hbroken
    rw [hw, hnot] at hbroken
    cases hbroken
  cases h with
  | readLine hworker hline => exact Or.inr (Or.inl ⟨_, _, hworker, hline, rfl⟩)
  | stdinRead _ hthread => exact Or.inr (Or.inr ⟨rfl, Or.inl ⟨_, hthread, rfl⟩⟩)
  | stdinEnd => exact Or.inr (Or.inr ⟨rfl, Or.inr (Or.inl rfl)⟩)
  | stdinFails => exact Or.inr (Or.inr ⟨rfl, Or.inr (Or.inl rfl)⟩)
  | stdinSend hthread => exact Or.inr (Or.inr ⟨rfl, Or.inr (Or.inr ⟨_, hthread, rfl⟩)⟩)
  | sendChunk =>
    left
    obtain ⟨hstdin, hworker⟩ := @put_stdin s _ _
    exact ⟨hstdin, fun hbroken => (congrArg Worker.broken hworker).trans hbroken⟩
  | sendDiagnostic hworker => exact Or.inl ⟨(put_stdin _ _).1, hleaves hworker rfl⟩
  | sendStarted hworker => exact Or.inl ⟨(put_stdin _ _).1, hleaves hworker rfl⟩
  | sendMarker hworker => exact Or.inl ⟨(put_stdin _ _).1, hleaves hworker rfl⟩
  | sendExit hworker => exact Or.inl ⟨(put_stdin _ _).1, hleaves hworker rfl⟩
  | sendError => exact Or.inl ⟨(put_stdin _ _).1, fun _ => rfl⟩
  | launch hworker => exact Or.inl ⟨rfl, hleaves hworker rfl⟩
  | attach hworker => exact Or.inl ⟨rfl, hleaves hworker rfl⟩
  | stdinDrained hworker => exact Or.inl ⟨rfl, hleaves hworker rfl⟩
  | noticeExit hworker =>
    rcases hworker with hworker | hworker
    · exact Or.inl ⟨rfl, hleaves hworker rfl⟩
    · exact Or.inl ⟨rfl, hleaves hworker rfl⟩
  | gather hworker => exact Or.inl ⟨rfl, hleaves hworker rfl⟩
  | noMarker hworker => exact Or.inl ⟨rfl, hleaves hworker rfl⟩
  | readMarker hworker => exact Or.inl ⟨rfl, hleaves hworker rfl⟩
  | lostMain => exact Or.inl ⟨rfl, fun _ => rfl⟩
  | launchRaises => exact Or.inl ⟨rfl, fun _ => rfl⟩
  | readRaises => exact Or.inl ⟨rfl, fun _ => rfl⟩
  | stdinBroken => exact Or.inl ⟨rfl, fun _ => rfl⟩
  | gatherRaises => exact Or.inl ⟨rfl, fun _ => rfl⟩
  | markerRaises => exact Or.inl ⟨rfl, fun _ => rfl⟩
  | finish => exact Or.inl ⟨rfl, fun _ => rfl⟩
  | _ => exact Or.inl ⟨rfl, id⟩

/-- What is on the way to the child, up to where the thread has given up. -/
structure OnTheWay (s : State) (chunks : List Bytes) : Prop where
  frames : s.toWorker = stdinFrames chunks
  starts : s.childStdin ++ chunks.flatten ++ s.thread.held <+: s.stdinRead
  complete : s.thread ≠ .ended → s.childStdin ++ chunks.flatten ++ s.thread.held = s.stdinRead

def StdinOk (s : State) : Prop :=
  (∃ chunks, OnTheWay s chunks) ∨ s.worker.broken = true ∧ s.childStdin <+: s.stdinRead

theorem StdinOk.delivered (h : StdinOk s) : s.childStdin <+: s.stdinRead := by
  rcases h with ⟨chunks, h⟩ | ⟨-, h⟩
  · refine List.IsPrefix.trans ?_ h.starts
    rw [List.append_assoc]
    exact List.prefix_append _ _
  · exact h

theorem StdinOk.congr (h : StdinOk s) (hstdin : t.stdin = s.stdin)
    (hbroken : s.worker.broken = true → t.worker.broken = true) : StdinOk t := by
  simp only [State.stdin, Prod.mk.injEq] at hstdin
  obtain ⟨hframes, hchild, hthread, hread⟩ := hstdin
  rcases h with ⟨chunks, h⟩ | ⟨hworker, h⟩
  · refine Or.inl ⟨chunks, ?_, ?_, ?_⟩
    · rw [hframes, h.frames]
    · rw [hchild, hthread, hread]
      exact h.starts
    · rw [hchild, hthread, hread]
      exact h.complete
  · right
    rw [hchild, hread]
    exact ⟨hbroken hworker, h⟩

theorem StdinOk.line (h : StdinOk s) (hworker : s.worker = .relaying) {raw rest : Bytes}
    {closed : Bool} (hline : nextLine closed s.toWorker = some (raw, rest)) :
    StdinOk { s.takeLine raw with toWorker := rest } := by
  rcases h with ⟨chunks, h⟩ | ⟨hbroken, -⟩
  · rw [h.frames] at hline
    cases chunks with
    | nil =>
      change nextLine closed [] = _ at hline
      rw [nextLine_nil] at hline
      split at hline
      · cases hline
        exact Or.inl ⟨[], rfl, h.starts, h.complete⟩
      · cases hline
    | cons data chunks =>
      change nextLine closed (frameBytes (stdinValue data) ++ stdinFrames chunks) = _ at hline
      rw [nextLine_frame] at hline
      cases hline
      have hstarts := h.starts
      have hcomplete := h.complete
      rw [List.flatten_cons, ← List.append_assoc] at hstarts hcomplete
      rw [takeLine_stdin]
      split
      · refine Or.inr ⟨rfl, List.IsPrefix.trans ?_ hstarts⟩
        show s.childStdin <+: _
        rw [List.append_assoc, List.append_assoc]
        exact List.prefix_append _ _
      · exact Or.inl ⟨chunks, rfl, hstarts, hcomplete⟩
  · rw [hworker] at hbroken
    cases hbroken

theorem StdinOk.step (h : StdinOk s) (hstep : Step cfg s t) : StdinOk t := by
  rcases step_stdin hstep with ⟨hstdin, hbroken⟩ | ⟨raw, rest, hworker, hline, rfl⟩ |
    ⟨hworker, ⟨data, hthread, hstdin⟩ | hstdin | ⟨data, hthread, hstdin⟩⟩
  · exact h.congr hstdin hbroken
  · exact h.line hworker hline
  all_goals
    simp only [State.stdin, Prod.mk.injEq] at hstdin
    obtain ⟨hframes, hchild, hnext, hread⟩ := hstdin
  · rcases h with ⟨chunks, h⟩ | ⟨hbroken, h⟩
    · have hcomplete := h.complete (by rw [hthread]; exact StdinThread.noConfusion)
      have hall : t.childStdin ++ chunks.flatten ++ t.thread.held = t.stdinRead := by
        rw [hchild, hnext, hread, ← hcomplete, hthread]
        simp [StdinThread.held]
      exact Or.inl ⟨chunks, hframes.trans h.frames, hall ▸ List.prefix_refl _, fun _ => hall⟩
    · right
      rw [hworker, hchild, hread]
      exact ⟨hbroken, h.trans (List.prefix_append _ _)⟩
  · rcases h with ⟨chunks, h⟩ | ⟨hbroken, h⟩
    · refine Or.inl ⟨chunks, hframes.trans h.frames, ?_, fun hended => absurd hnext hended⟩
      rw [hchild, hnext, hread]
      show s.childStdin ++ chunks.flatten ++ [] <+: s.stdinRead
      rw [List.append_nil]
      exact (List.prefix_append _ _).trans h.starts
    · right
      rw [hworker, hchild, hread]
      exact ⟨hbroken, h⟩
  · rcases h with ⟨chunks, h⟩ | ⟨hbroken, h⟩
    · have hcomplete := h.complete (by rw [hthread]; exact StdinThread.noConfusion)
      have hall : t.childStdin ++ (chunks ++ [data]).flatten ++ t.thread.held = t.stdinRead := by
        rw [hchild, hnext, hread, ← hcomplete, hthread]
        simp [StdinThread.held]
      refine Or.inl ⟨chunks ++ [data], ?_, hall ▸ List.prefix_refl _, fun _ => hall⟩
      rw [hframes, h.frames, stdinFrames, stdinFrames, List.flatMap_append]
      simp
    · right
      rw [hworker, hchild, hread]
      exact ⟨hbroken, h⟩

theorem stdinOk_init : StdinOk cfg.init := Or.inl ⟨[], rfl, List.prefix_refl _, fun _ => rfl⟩

end Stdin

section Launch

def State.child (s : State) : Bytes × Bytes × Bytes :=
  (s.launch, s.childErr, (s.pipe .stderr).written)

theorem put_child (who : Sender) (m : Message) : (s.put who m).child = s.child := by
  unfold State.put
  split <;> rfl

theorem setPipe_same (ch : Channel) (p : ChildPipe) :
    (s.setPipe ch p).pipe ch = p := Function.update_self _ _ _

theorem setPipe_other {ch other : Channel} (h : other ≠ ch) (p : ChildPipe) :
    (s.setPipe ch p).pipe other = s.pipe other :=
  Function.update_of_ne h _ _

theorem setPipe_child {ch : Channel} {p : ChildPipe} (h : p.written = (s.pipe ch).written) :
    (s.setPipe ch p).child = s.child := by
  have hwritten : ((s.setPipe ch p).pipe .stderr).written = (s.pipe .stderr).written := by
    by_cases hch : Channel.stderr = ch
    · rw [← hch, setPipe_same, h, hch]
    · rw [setPipe_other hch]
  simp only [State.child, hwritten]
  rfl

/-- What a step does to the stderr of the child. -/
theorem step_child (h : Step cfg s t) :
    t.child = s.child ∨
    (∃ n, 0 < n ∧ n ≤ s.launch.length ∧
      t.child = (s.launch.drop n, s.childErr, (s.pipe .stderr).written ++ s.launch.take n)) ∨
    ∃ b, s.launch = [] ∧ t.child = (s.launch, s.childErr ++ b, (s.pipe .stderr).written ++ b) := by
  cases h with
  | cat _ _ hn hle =>
    refine Or.inr (Or.inl ⟨_, hn, hle, ?_⟩)
    simp only [State.child, setPipe_same]
    rfl
  | @writeErr b _ hlaunched =>
    refine Or.inr (Or.inr ⟨b, hlaunched, ?_⟩)
    simp only [State.child, setPipe_same]
    rfl
  | writeOut =>
    left
    simp only [State.child, setPipe_other (show Channel.stderr ≠ .stdout by decide)]
    rfl
  | close => exact Or.inl (setPipe_child rfl)
  | read =>
    left
    show (s.setPipe _ _).child = s.child
    exact setPipe_child rfl
  | sendChunk => exact Or.inl (put_child _ _)
  | sendDiagnostic => exact Or.inl (put_child _ _)
  | sendStarted => exact Or.inl (put_child _ _)
  | sendMarker => exact Or.inl (put_child _ _)
  | sendExit => exact Or.inl (put_child _ _)
  | sendError => exact Or.inl (put_child _ _)
  | @readLine raw rest =>
    left
    rcases takeLine_cases s raw with heq | heq | ⟨error, heq⟩ | ⟨data, heq⟩
    all_goals
      rw [heq]
      rfl
  | _ => exact Or.inl rfl

/-- The stderr of the child begins with the launch text, and the command writes when that is
complete. -/
def LaunchOk (cfg : Setting) (s : State) : Prop :=
  ∃ done, cfg.launchText = done ++ s.launch ∧ (s.pipe .stderr).written = done ++ s.childErr ∧
    (s.launch ≠ [] → s.childErr = [])

theorem LaunchOk.step (h : LaunchOk cfg s) (hstep : Step cfg s t) : LaunchOk cfg t := by
  obtain ⟨done, htext, hwritten, hfirst⟩ := h
  rcases step_child hstep with hchild | ⟨n, hn, hle, hchild⟩ | ⟨b, hnone, hchild⟩
  all_goals
    simp only [State.child, Prod.mk.injEq] at hchild
    obtain ⟨hlaunch, herr, hpipe⟩ := hchild
  · refine ⟨done, ?_, ?_, ?_⟩
    · rw [hlaunch, htext]
    · rw [hpipe, herr, hwritten]
    · rw [hlaunch, herr]
      exact hfirst
  · have hempty : s.childErr = [] := by
      apply hfirst
      rintro hnone
      rw [hnone, List.length_nil] at hle
      omega
    refine ⟨done ++ s.launch.take n, ?_, ?_, ?_⟩
    · rw [hlaunch, htext, List.append_assoc, List.take_append_drop]
    · rw [hpipe, herr, hwritten, hempty, List.append_nil, List.append_nil]
    · rw [herr]
      exact fun _ => hempty
  · refine ⟨done, ?_, ?_, ?_⟩
    · rw [hlaunch, htext]
    · rw [hpipe, herr, hwritten, List.append_assoc]
    · rw [hlaunch]
      exact fun hsome => absurd hnone hsome

theorem launchOk_init : LaunchOk cfg cfg.init := ⟨[], rfl, rfl, fun _ => rfl⟩

end Launch

end Relay

end ChipSystemSim
