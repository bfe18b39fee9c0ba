import ChipSystemSim.PlacementIndependence

/-! The size limits of the routers and the gateways: no process whose messages keep them
is ever refused for the size of one, and a larger message always is. -/

namespace ChipSystemSim

def Reply.oversize : Reply → Bool
  | .err (.router .invalidByteCount) => true
  | .err .invalidRequest => true
  | _ => false

/-- The request was refused by the limit of a router or of a gateway. -/
def Phase.oversize : Phase → Bool
  | .gatewayReplied reply => reply.oversize
  | .replied reply => reply.oversize
  | _ => false

section Accepted

variable {ι : Type}

theorem PhaseStep.not_oversize {cfg : Config} {s : State ι} {slot : Slot} {request : Request}
    {phase phase' : Phase} (h : PhaseStep cfg s slot request phase phase')
    (hd : Deliverable cfg.routing request) (hlinked : ∀ a b, a ≠ b → cfg.linked a b = true)
    (hph : phase.oversize = false) : phase'.oversize = false := by
  cases h with
  | reject e hr => exact absurd hr (hd.not_rejected hlinked)
  | invalid hi =>
    have hmax : maxPayloadBytes = 65197 := rfl
    have hbytes := hd.bytes
    exact absurd ⟨hd.nonempty, hd.name, by omega⟩ hi
  | relay reply => exact hph
  | _ => rfl

theorem PhaseMove.not_oversize {cfg : Config} {s : State ι} {finished : Prop} {slot : Slot}
    {request : Request} {phase phase' : Phase} {v : Option (Bool × Bytes)}
    (h : PhaseMove cfg s finished slot request phase phase' v)
    (hd : Deliverable cfg.routing request) (hlinked : ∀ a b, a ≠ b → cfg.linked a b = true)
    (hph : phase.oversize = false) : phase'.oversize = false := by
  cases h with
  | stay => exact hph
  | own h => exact h.not_oversize hd hlinked hph
  | gatewayWrite hr =>
    split
    · rfl
    · rfl
  | _ => rfl

variable [DecidableEq ι]

def Conn.Accepted (routing : Routing) (c : Conn) : Prop :=
  Deliverable routing c.request ∧ c.phase.oversize = false

theorem accepted_run {cfg : Config} {s : State ι} {log : List (Event ι)}
    (hlinked : ∀ a b, a ≠ b → cfg.linked a b = true)
    (h : Run cfg (fun _ a => a.Serving cfg) s log) :
    ∀ i c, s.conn i = some c → c.Accepted cfg.routing := by
  induction h with
  | init => simp [State.init]
  | step _ ha hs ih =>
    intro i c' hc'
    rcases (step_effect hs).connMove i with ⟨hn, _⟩ | ⟨slot, request, rfl, _, hc, _⟩ |
      ⟨c, c₁, v, hc, hc₁, _, hr, hm, _⟩
    · cases hc'.symm.trans hn
    · cases hc'.symm.trans hc
      exact ⟨ha.2, rfl⟩
    · cases hc'.symm.trans hc₁
      obtain ⟨hd, hph⟩ := ih i c hc
      exact ⟨hr ▸ hd, hm.not_oversize hd hlinked hph⟩

end Accepted

namespace Program

variable {P σ O : Type} {prog : Program P σ O} [DecidableEq P]

/-- Where all gateways were started, no message that keeps the limits is refused for its size. -/
theorem not_oversize (hfits : prog.Fits) {place : Deployment prog} {S : System P σ O}
    {log : List (Event (P × Nat))} (hlinked : ∀ a b, a ≠ b → place.linked a b = true)
    (h : prog.Reach place S log) {i : P × Nat} {conn : Conn} (hc : S.net.conn i = some conn) :
    conn.phase.oversize = false := by
  exact (accepted_run hlinked (h.serving hfits) i conn hc).2

theorem Reach.issue {place : Deployment prog} {S : System P σ O} {log : List (Event (P × Nat))}
    (h : prog.Reach place S log) {p : P} {request : Request} (hw : S.waiting p = false)
    (hr : prog.request p (prog.act p (S.proc p)) = some request) :
    prog.Reach place
      { S with
        net := S.net.connected (p, S.count p) (place.slot p) request
        waiting := Function.update S.waiting p true } log := by
  have hidle := (tracked_reach h).idle p hw
  have hstep : prog.step place S (.issue p) = some
      ({ S with
        net := S.net.connected (p, S.count p) (place.slot p) request
        waiting := Function.update S.waiting p true }, none) := by
    simp [Program.step, hw, hr, ChipSystemSim.step, hidle, State.connected]
  have hreach := h.step hstep
  rwa [Option.toList_none, List.append_nil] at hreach

/-- A process whose peer is on its own slot can go on after a message that keeps the limit. -/
theorem Reach.write_local {place : Deployment prog} {S : System P σ O}
    {log : List (Event (P × Nat))} (h : prog.Reach place S log) {p : P} {c : Ends} {v : Bytes}
    {k : σ} (hw : S.waiting p = false) (ha : prog.act p (S.proc p) = .send c v k)
    (hsmall : v.length ≤ 65000) (hslot : place.slot (prog.consumer c) = place.slot p) :
    ∃ S' log', prog.Reach place S' log' ∧ S'.waiting p = false ∧ S'.proc p = k := by
  have hissued := h.issue hw
    (show prog.request p (prog.act p (S.proc p)) = some (.write (prog.path p c) v) by rw [ha]; rfl)
  obtain ⟨-, -, hconsumer⟩ := prog.send_ends ha
  have hpeer : (Router.init (place.slot p) place.routing).peerFor .W
      (lastComponent (prog.path p c)) =
      .ok (place.slot p) := by
    have hlookup := place.placed (prog.consumer c)
    rw [hconsumer, hslot] at hlookup
    rw [prog.path_name]
    exact peerFor_pipeName hlookup
  have hlimit : ¬ maxRequestBytes < (Request.write (prog.path p c) v).byteCount :=
    fun hlt => absurd (Int.ofNat_lt.mp hlt) (not_lt.mpr hsmall)
  have hhandle : ∃ net e, ChipSystemSim.step place.config
      (S.net.connected (p, S.count p) (place.slot p) (.write (prog.path p c) v))
        (.handle (p, S.count p)) = some (net, e) ∧
      net.conn (p, S.count p) =
        some ⟨place.slot p, .write (prog.path p c) v, .replied .ok, false⟩ := by
    simp [ChipSystemSim.step, State.connected, handleRequest, hlimit, Deployment.config, Request.op,
      Request.name, hpeer, handleLocal]
  obtain ⟨net, e, hnet, hreplied⟩ := hhandle
  have hhandled : prog.Reach place { S with net, waiting := Function.update S.waiting p true }
    (log ++ e.toList) := by
    refine hissued.step (a := .transport (.handle (p, S.count p))) ?_
    simp [Program.step, Action.internal, hnet]
  have hresumed : prog.Reach place
      { S with
        net
        proc := Function.update S.proc p k
        count := Function.update S.count p (S.count p + 1)
        waiting := Function.update (Function.update S.waiting p true) p false }
      (log ++ e.toList ++ Option.toList none) := by
    refine hhandled.step (a := .resume p) ?_
    simp [Program.step, hreplied, Program.resume, ha]
  exact ⟨_, _, hresumed, Function.update_self .., Function.update_self ..⟩

/-- A process that sends too large a message can be refused. -/
theorem Reach.refused {place : Deployment prog} {S : System P σ O} {log : List (Event (P × Nat))}
    (h : prog.Reach place S log) {p : P} {c : Ends} {v : Bytes} {k : σ} (hw : S.waiting p = false)
    (ha : prog.act p (S.proc p) = .send c v k) (hlarge : 65000 < v.length) :
    ∃ S' log' i conn, prog.Reach place S' log' ∧ S'.net.conn i = some conn ∧
    conn.phase.oversize = true := by
  have hissued := h.issue hw
    (show prog.request p (prog.act p (S.proc p)) = some (.write (prog.path p c) v) by rw [ha]; rfl)
  have hstep : prog.step place
      { S with
        net := S.net.connected (p, S.count p) (place.slot p) (.write (prog.path p c) v)
        waiting := Function.update S.waiting p true } (.transport (.handle (p, S.count p))) = some
      ({ S with
        net := (S.net.connected (p, S.count p) (place.slot p) (.write (prog.path p c) v)).setPhase
          (p, S.count p)
          ⟨place.slot p, .write (prog.path p c) v, .connected, false⟩
            (.replied (.err (.router .invalidByteCount)))
        waiting := Function.update S.waiting p true }, none) := by
    have hlimit : maxRequestBytes < (Request.write (prog.path p c) v).byteCount :=
      Int.ofNat_lt.mpr hlarge
    simp [Program.step, Action.internal, ChipSystemSim.step, State.connected, handleRequest, hlimit]
  refine ⟨_, _, (p, S.count p), _, hissued.step hstep, State.setPhase_conn_self .., rfl⟩

end Program

end ChipSystemSim
