import ChipSystemSim.ProgramView

/-! What the processes read does not depend on where they run. -/

namespace ChipSystemSim

namespace Program

variable {P σ O : Type} {prog : Program P σ O}

structure Fits (prog : Program P σ O) : Prop where
  coords : ∀ p, (-2 ^ 31 ≤ (prog.coord p).1 ∧ (prog.coord p).1 < 2 ^ 31) ∧
    (-2 ^ 31 ≤ (prog.coord p).2 ∧ (prog.coord p).2 < 2 ^ 31)
  sends : ∀ {p st c v k}, prog.act p st = .send c v k → v.length ≤ 65000
  recvs : ∀ {p st c n k}, prog.act p st = .recv c n k → n ≤ 65000

theorem deliverable_of_coords (hfits : prog.Fits) (place : Deployment prog) {p q : P} {c : Ends}
    (hp : prog.coord p = c.1) (hq : prog.coord q = c.2) {request : Request}
    (hname : request.name = pipeOf c) (hbytes : request.byteCount ≤ 65000) :
    Deliverable place.routing request := by
  obtain ⟨hsource, hdestination⟩ := ends_of_coords place hp hq
  have h₁ := hfits.coords p
  have h₂ := hfits.coords q
  rw [hp] at h₁
  rw [hq] at h₂
  have hlength : (pipeOf c).length ≤ 53 := by
    refine pipeName_length_le ?_
    simp only [List.forall_mem_cons, List.not_mem_nil, false_implies, implies_true, and_true]
    exact ⟨h₁.1, h₁.2, h₂⟩
  refine ⟨hbytes, ?_, ?_, ?_⟩
  · rw [hname]
    exact List.append_ne_nil_of_left_ne_nil (by decide) _
  · rw [hname]
    omega
  · rw [hname]
    cases request.op with
    | W => exact ⟨_, hdestination⟩
    | R => exact ⟨_, hsource⟩

theorem request_deliverable (hfits : prog.Fits) (place : Deployment prog) {p : P} {st : σ}
    {request : Request} (h : prog.request p (prog.act p st) = some request) :
    Deliverable place.routing request := by
  cases request with
  | write path payload =>
    obtain ⟨c, k, ha, rfl⟩ := request_write h
    obtain ⟨_, hp, hq⟩ := prog.send_ends ha
    exact deliverable_of_coords hfits place hp hq (prog.path_name p c) (hfits.sends ha)
  | read path bytes =>
    obtain ⟨c, k, ha, rfl⟩ := request_read h
    obtain ⟨_, hq, hp⟩ := prog.recv_ends ha
    exact deliverable_of_coords hfits place hp hq (prog.path_name p c) (hfits.recvs ha)

theorem observed_of_received (place : Deployment prog) (S : System P σ O) (c : Ends) :
    S.observed c <+: (prog.view place S).received c := List.prefix_append ..

variable [DecidableEq P]

theorem Reach.serving (hfits : prog.Fits) {place : Deployment prog} {S : System P σ O}
    {log : List (Event (P × Nat))} (h : prog.Reach place S log) :
    Run place.config (fun _ a => a.Serving place.config) S.net log := by
  refine h.run (fun p st n request hr => ?_) ?_
  · exact ⟨request_placed place hr, request_deliverable hfits place hr⟩
  · intro a ha
    cases a with
    | connect i slot request => cases ha
    | _ => trivial

/-- Where all gateways were started and none has stopped, no process is ever
answered with an error. -/
theorem not_refused (hfits : prog.Fits) {place : Deployment prog} {S : System P σ O}
    {log : List (Event (P × Nat))} (hlinked : ∀ a b, a ≠ b → place.linked a b = true)
    (hrun : ∀ a b, (S.net.gateway a b).stopping = false) (h : prog.Reach place S log) {i : P × Nat}
    {conn : Conn} (hc : S.net.conn i = some conn) : conn.phase.failed = false := by
  exact (served_run hlinked (h.serving hfits) hrun i conn hc).2

theorem Done.view {place : Deployment prog} {S : System P σ O} {log : List (Event (P × Nat))}
    (hdone : prog.Done S) (h : prog.Reach place S log) :
    Kahn.Finished prog.network (prog.view place S) ∧ (prog.view place S).received = S.observed := by
  have hnone : ∀ p, S.net.conn (p, S.count p) = none :=
    fun p => (tracked_reach h).idle p (hdone p).1
  constructor
  · intro p
    have hproc : (prog.view place S).proc p = S.proc p := by
      simp only [Program.view, entered_of_none (hnone p), taken_of_none (hnone p), advance_idle]
    rw [hproc]
    exact (hdone p).2
  · funext c
    simp only [Program.view, taken_of_none (hnone _), unseen_none, Option.toList_none,
      List.append_nil]

/-- The same processes on any two placements and under any two schedules: what
is read from a pipe in one run is a prefix of what is read from it in the other,
and it is the same in both if both finish. An error ends a process, but while
all gateways run there are none. -/
theorem placement_independence {place₁ place₂ : Deployment prog} {S₁ S₂ : System P σ O}
    {log₁ log₂ : List (Event (P × Nat))} (h₁ : prog.Reach place₁ S₁ log₁)
    (h₂ : prog.Reach place₂ S₂ log₂) :
    (∀ c, S₁.observed c <+: S₂.observed c ∨ S₂.observed c <+: S₁.observed c) ∧
    (prog.Done S₁ → prog.Done S₂ → S₁.observed = S₂.observed ∧ S₁.emitted = S₂.emitted) ∧
    (prog.Fits → (∀ a b, a ≠ b → place₁.linked a b = true) →
      (∀ a b, (S₁.net.gateway a b).stopping = false) →
      ∀ i conn, S₁.net.conn i = some conn → conn.phase.failed = false) := by
  have hs₁ := steps_view h₁
  have hs₂ := steps_view h₂
  refine ⟨?_, ?_, fun hfits hlinked hrun i conn hc => not_refused hfits hlinked hrun h₁ hc⟩
  · intro c
    have hp₁ := observed_of_received place₁ S₁ c
    have hp₂ := observed_of_received place₂ S₂ c
    rcases Kahn.received_comparable hs₁ hs₂ c with h | h
    · exact List.prefix_or_prefix_of_prefix (hp₁.trans h) hp₂
    · exact List.prefix_or_prefix_of_prefix hp₁ (hp₂.trans h)
  · intro hd₁ hd₂
    obtain ⟨hf₁, hr₁⟩ := hd₁.view h₁
    obtain ⟨hf₂, hr₂⟩ := hd₂.view h₂
    have heq := Kahn.finished_unique hs₁ hs₂ hf₁ hf₂
    refine ⟨?_, ?_⟩
    · rw [← hr₁, ← hr₂, heq]
    · exact congrArg Kahn.State.emitted heq

end Program

def echoForth : Ends := ((0, 0), (1, 0))

def echoBack : Ends := ((1, 0), (0, 0))

/-- The step of a process and the last payload it got. -/
abbrev EchoState := Nat × Bytes

/-- One process sends two payloads of different size and the other returns the first. -/
def echoProgram : Program Bool EchoState Bytes where
  coord := fun echo => if echo then (1, 0) else (0, 0)
  act := fun echo st =>
    match echo, st with
    | false, (0, _) => .send echoForth ones (1, [])
    | false, (1, _) => .send echoForth twos (2, [])
    | false, (2, _) => .recv echoBack 4 fun data => (3, data)
    | true, (0, _) => .recv echoForth 4 fun data => (1, data)
    | true, (1, data) => .send echoBack data (2, [])
    | true, (2, _) => .recv echoForth 8 fun data => (3, data)
    | _, (3, data) => .emit data (4, data)
    | _, _ => .done
  start := fun _ => (0, [])
  producer := fun c => decide (c ≠ echoForth)
  consumer := fun c => decide (c = echoForth)
  path := fun _ c => pipeOf c
  path_name := fun _ c => lastComponent_self (slash_notMem_pipeName c.1 c.2)
  send_ends := by
    intro p st c v k h
    split at h <;> cases h <;> decide
  recv_ends := by
    intro p st c n k h
    split at h <;> cases h <;> decide

def together : Deployment echoProgram where
  routing := oneSlot.routing
  linked := oneSlot.linked
  slot := fun _ => 0
  placed := by decide +kernel

def apart : Deployment echoProgram where
  routing := twoSlots.routing
  linked := twoSlots.linked
  slot := fun echo => if echo then 1 else 0
  placed := by decide +kernel

def togetherSchedule : List (SystemAction Bool) :=
  [.issue true, .transport (.handle (true, 0)), .issue false, .transport (.handle (false, 0)),
    .transport (.wakeLocal (true, 0)), .resume false, .issue false, .transport (.handle (false, 1)),
    .resume true, .issue true, .transport (.handle (true, 1)), .resume true,
    .issue true, .transport (.handle (true, 2)), .resume true, .emit true,
    .resume false, .issue false, .transport (.handle (false, 2)), .resume false, .emit false]

def apartSchedule : List (SystemAction Bool) :=
  [.issue true, .transport (.handle (true, 0)), .transport (.accept (true, 0)),
    .issue false, .transport (.handle (false, 0)), .transport (.accept (false, 0)),
    .transport (.pick 0 1), .transport (.send 0 1), .transport (.finish 0 1),
    .transport (.receive 1 0), .transport (.notify 1 0), .transport (.wakeRead (true, 0)),
    .transport (.relay (true, 0)), .transport (.wakeWrite (false, 0)),
    .transport (.relay (false, 0)), .resume false, .issue false, .transport (.handle (false, 1)),
    .transport (.accept (false, 1)), .resume true, .issue true, .transport (.handle (true, 1)),
    .transport (.accept (true, 1)), .transport (.pick 0 1), .transport (.send 0 1),
    .transport (.finish 0 1), .transport (.pick 1 0), .transport (.send 1 0),
    .transport (.finish 1 0), .transport (.receive 1 0), .transport (.notify 1 0),
    .transport (.receive 0 1), .transport (.notify 0 1),
    .transport (.wakeWrite (false, 1)), .transport (.relay (false, 1)), .resume false,
    .issue false, .transport (.handle (false, 2)), .transport (.accept (false, 2)),
    .transport (.relay (false, 2)), .resume false, .emit false,
    .transport (.wakeWrite (true, 1)), .transport (.relay (true, 1)), .resume true,
    .issue true, .transport (.handle (true, 2)), .transport (.accept (true, 2)),
    .transport (.relay (true, 2)), .resume true, .emit true]

theorem placement_independence_echo : ∃ S₁ S₂ log₁ log₂,
    echoProgram.Reach together S₁ log₁ ∧ echoProgram.Reach apart S₂ log₂ ∧
      S₂.observed echoForth = [ones, twos] ∧ S₂.observed echoBack = [ones] ∧
      S₁.observed = S₂.observed ∧ S₁.emitted = S₂.emitted := by
  have hdone : ∀ S : System Bool EchoState Bytes,
      (∀ p, S.waiting p = false ∧ (S.proc p).1 = 4) → echoProgram.Done S := by
    rintro S hS p
    obtain ⟨hw, hp⟩ := hS p
    obtain ⟨data, hdata⟩ : ∃ data, S.proc p = (4, data) := ⟨(S.proc p).2, Prod.ext hp rfl⟩
    rw [hdata]
    exact ⟨hw, by cases p <;> rfl⟩
  have hexec₁ : (echoProgram.exec together togetherSchedule echoProgram.init []).map (fun r =>
      decide (∀ p, r.1.waiting p = false ∧ (r.1.proc p).1 = 4)) = some true := by
    decide +kernel
  have hexec₂ : (echoProgram.exec apart apartSchedule echoProgram.init []).map (fun r =>
      decide ((∀ p, r.1.waiting p = false ∧ (r.1.proc p).1 = 4) ∧
        r.1.observed echoForth = [ones, twos] ∧ r.1.observed echoBack = [ones])) = some true := by
    decide +kernel
  obtain ⟨⟨S₁, log₁⟩, he₁, hr₁⟩ := Option.map_eq_some_iff.mp hexec₁
  obtain ⟨⟨S₂, log₂⟩, he₂, hr₂⟩ := Option.map_eq_some_iff.mp hexec₂
  obtain ⟨hd₂, hthere, hback⟩ := of_decide_eq_true hr₂
  have h₁ : echoProgram.Reach together S₁ log₁ := Program.Reach.init.exec he₁
  have h₂ : echoProgram.Reach apart S₂ log₂ := Program.Reach.init.exec he₂
  have heq := (Program.placement_independence h₁ h₂).2.1 (hdone S₁ (of_decide_eq_true hr₁))
    (hdone S₂ hd₂)
  exact ⟨S₁, S₂, log₁, log₂, h₁, h₂, hthere, hback, heq.1, heq.2⟩

end ChipSystemSim
