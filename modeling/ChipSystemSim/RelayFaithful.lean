import ChipSystemSim.RelayAccount

/-! What a run of the relay has delivered when it ends with an exit frame: the output of the
child, followed by the result marker, in the order in which it was written. -/

namespace ChipSystemSim

namespace Relay

variable {cfg : Setting} {s t : State}

section Delivery

structure Sound (cfg : Setting) (s : State) : Prop where
  proxy : ProxyOk s
  stdin : StdinOk s
  launch : LaunchOk cfg s
  progress : Progress cfg s
  exit : ∀ returnCode, s.exitCode = some returnCode → validExit returnCode = true

theorem Sound.step (h : Sound cfg s) (hstep : Step cfg s t) : Sound cfg t where
  proxy := h.proxy.step hstep
  stdin := h.stdin.step hstep
  launch := h.launch.step hstep
  progress := h.progress.step hstep
  exit := by
    rcases step_exitCode hstep with heq | ⟨code, hvalid, heq⟩
    · rw [heq]
      exact h.exit
    · intro returnCode hcode
      rw [heq] at hcode
      rw [← Option.some.inj hcode]
      exact hvalid

theorem Reach.sound (h : Reach cfg s) : Sound cfg s := by
  induction h with
  | init =>
    refine ⟨proxyOk_init, stdinOk_init, launchOk_init, progress_init, ?_⟩
    exact fun returnCode hcode => absurd hcode.symm (Option.some_ne_none returnCode)
  | step _ hstep ih => exact ih.step hstep

/-- The exit frame ends what was sent, so the proxy that has seen it has seen everything. -/
theorem Final.processed {returnCode code : Int} (h : Final cfg code s)
    (hcount : s.processed ≤ s.sent.length)
    (hlast : ∃ front, s.sent.take s.processed = front ++ [.exit returnCode]) :
    code = returnCode ∧ s.processed = s.sent.length := by
  obtain ⟨front, hsent, hnone⟩ := h.sent
  obtain ⟨seen, hseen⟩ := hlast
  have hall : s.processed = s.sent.length := by
    by_contra hshort
    have hle : s.processed ≤ front.length := by
      rw [hsent, List.length_append, List.length_singleton] at hcount hshort
      omega
    have hmem : .exit returnCode ∈ s.sent.take s.processed := by
      rw [hseen]
      exact List.mem_append_right _ (List.mem_singleton_self _)
    rw [hsent, List.take_append_of_le_length hle] at hmem
    exact hnone returnCode (List.mem_of_mem_take hmem)
  refine ⟨?_, hall⟩
  rw [hall, List.take_length, hsent] at hseen
  have hlast := (List.append_inj' hseen rfl).2
  exact Message.exit.inj (List.singleton_inj.mp hlast)

theorem status_zero {returnCode : Int} (hvalid : validExit returnCode = true) :
    (ProxyPhase.finished returnCode).status = some 0 ↔ returnCode = 0 := by
  have hrange : -64 ≤ returnCode ∧ returnCode ≤ 255 := of_decide_eq_true hvalid
  show some (returnCode % 256).toNat = some 0 ↔ _
  rw [Option.some_inj]
  omega

/-- What the proxy has done at the exit frame. -/
structure Delivered (cfg : Setting) (returnCode : Int) (s : State) : Prop where
  stdout : ∃ text, cfg.resultText = some text ∧ s.proxy.stdout = (s.pipe .stdout).written ++ text
  stderr : ∃ done, cfg.launchText = done ++ s.launch ∧ (s.launch ≠ [] → s.childErr = []) ∧
    relayedBytes s.proxy.stderr = done ++ s.childErr
  complete : ∀ ch, (s.pipe ch).closed = true
  exitLast : ∃ front, s.sent = front ++ [.exit returnCode] ∧ (∀ other, .exit other ∉ front) ∧
    s.processed = s.sent.length
  exit : s.exitCode = some returnCode
  status : s.proxy.phase.status = some 0 ↔ returnCode = 0

/-- Whatever the bytes, the chunks and the order of the steps, a run that ends with an exit
frame has delivered all. -/
theorem relay_delivers (h : Reach cfg s) :
    s.childStdin <+: s.stdinRead ∧ ∀ returnCode, s.proxy.phase = .finished returnCode →
      Delivered cfg returnCode s := by
  have hsound := h.sound
  refine ⟨hsound.stdin.delivered, ?_⟩
  intro returnCode hfinished
  have hpassed : PassedOn s := by
    rcases hsound.proxy with hraised | hpassed
    · rw [hraised] at hfinished
      cases hfinished
    · exact hpassed
  have hlast := hpassed.last returnCode hfinished
  have hmem : .exit returnCode ∈ s.sent := by
    obtain ⟨front, hfront⟩ := hlast
    apply List.mem_of_mem_take (i := s.processed)
    rw [hfront]
    exact List.mem_append_right _ (List.mem_singleton_self _)
  obtain ⟨code, hfinal⟩ : ∃ code, Final cfg code s := by
    rcases hsound.progress with hlive | hfinal | ⟨-, hnone⟩
    · exact absurd hmem (hlive.noExit returnCode)
    · exact hfinal
    · exact absurd hmem (hnone returnCode)
  obtain ⟨rfl, hall⟩ := hfinal.processed hpassed.count hlast
  have hstdout := hpassed.stdout
  have hstderr := hpassed.stderr
  rw [hall, List.take_length] at hstdout hstderr
  obtain ⟨text, htext, hout⟩ := hfinal.stdout
  obtain ⟨done, hlaunch, hwritten, hfirst⟩ := hsound.launch
  obtain ⟨front, hsent, hnone⟩ := hfinal.sent
  constructor
  · exact ⟨text, htext, hstdout.trans hout⟩
  · exact ⟨done, hlaunch, hfirst, hstderr.trans (hfinal.stderr.trans hwritten)⟩
  · exact hfinal.closed
  · exact ⟨front, hsent, hnone, hall⟩
  · exact hfinal.exit
  · rw [hfinished]
    exact status_zero (hsound.exit code hfinal.exit)

end Delivery

section Sample

/-- The proxy takes a frame that is alone on the connection. -/
theorem Reach.hear (h : Reach cfg s) {m : Message} {p : Proxy}
    (hactive : s.proxy.phase.active = true) (hqueue : s.toProxy = frameBytes m.value)
    (htake : s.proxy.takeLine cfg (frameBytes m.value) = p) :
    Reach cfg { s with proxy := p, toProxy := [], processed := s.processed + 1 } := by
  have hline : nextLine s.down s.toProxy = some (frameBytes m.value, []) := by
    rw [hqueue]
    conv_lhs => rw [← List.append_nil (frameBytes m.value)]
    rw [nextLine_frame]
  rw [← htake]
  exact h.step (.proxyLine hactive hline)

theorem takeLine_starting {p : Proxy} (hphase : p.phase = .starting) (m : Message) :
    p.takeLine cfg (frameBytes m.value) = p.takeStarting cfg m.value := by
  rw [Proxy.takeLine, parseFrame_frameBytes, hphase]

theorem takeLine_relaying {p : Proxy} (hphase : p.phase = .relaying) (m : Message) :
    p.takeLine cfg (frameBytes m.value) = p.takeRelaying cfg m.value := by
  rw [Proxy.takeLine, parseFrame_frameBytes, hphase]

def sampleSetting : Setting := ⟨[], [], 7, some (utf8Encode ['k'])⟩

theorem sampleSetting_marker : markerText (utf8Encode ['k']) = some [107] := by
  rw [markerText, utf8Decode_utf8Encode]
  rfl

/-- It writes one byte to its stdout and exits with zero. -/
theorem relay_delivers_marker :
    ∃ s, Reach sampleSetting s ∧ s.proxy.phase = .finished 0 ∧ s.proxy.stdout = [104, 107] ∧
      Delivered sampleSetting 0 s := by
  have hstart : Reach sampleSetting sampleSetting.init := .init
  -- the launch, up to the tasks
  have h1 := (hstart.step (.sendDiagnostic rfl rfl)).step (.drained rfl)
  have h2 := h1.hear rfl (List.nil_append _) (takeLine_starting rfl _)
  have h3 := ((h2.step (.launch rfl (Option.some_ne_none _).symm)).step (.sendStarted rfl rfl)).step
    (.drained rfl)
  have h4 := h3.hear rfl (List.nil_append _) (takeLine_starting rfl _)
  have h5 := h4.step (.attach rfl (Option.some_ne_none _).symm)
  -- the child
  have h6 := h5.step (.cat (n := 1) rfl rfl Nat.zero_lt_one (Nat.le_refl _))
  have h7 := h6.step (.writeOut (b := [104]) rfl rfl rfl)
  have h8 := (h7.step (@Step.close _ _ .stdout rfl (Or.inl rfl))).step
    (@Step.close _ _ .stderr rfl (Or.inl rfl))
  have h9 := h8.step (@Step.exit _ _ 0 rfl rfl rfl)
  -- its output, with the stderr first
  have h10 :=
    h9.step (@Step.read _ _ .stderr 1 rfl (Option.some_ne_none _).symm Nat.zero_lt_one (by decide)
    (Nat.le_refl _))
  have h11 := (h10.step (@Step.sendChunk _ _ .stderr _ rfl rfl)).step (.drained rfl)
  have h12 := h11.hear rfl (List.nil_append _) (takeLine_relaying rfl _)
  have h13 :=
    h12.step (@Step.read _ _ .stdout 1 rfl (Option.some_ne_none _).symm Nat.zero_lt_one (by decide)
    (Nat.le_refl _))
  have h14 := (h13.step (@Step.sendChunk _ _ .stdout _ rfl rfl)).step (.drained rfl)
  have h15 := h14.hear rfl (List.nil_append _) (takeLine_relaying rfl _)
  have h16 :=
    (h15.step (@Step.endOfStream _ _ .stdout rfl (Option.some_ne_none _).symm rfl rfl)).step
    (@Step.endOfStream _ _ .stderr rfl (Option.some_ne_none _).symm rfl rfl)
  -- the result marker and the exit frame
  have h17 := (h16.step (.noticeExit (Or.inl rfl) rfl)).step (.gather rfl (Channel.rec rfl rfl))
  have h18 :=
    ((h17.step (.readMarker rfl rfl sampleSetting_marker)).step (.sendMarker rfl rfl)).step
    (.drained rfl)
  have h19 := h18.hear rfl (List.nil_append _) (takeLine_relaying rfl _)
  have h20 := h19.step (.sendExit rfl rfl)
  have h21 := h20.hear rfl (List.nil_append _) (takeLine_relaying rfl _)
  exact ⟨_, h21, rfl, rfl, (relay_delivers h21).2 0 rfl⟩

end Sample

end Relay

end ChipSystemSim
