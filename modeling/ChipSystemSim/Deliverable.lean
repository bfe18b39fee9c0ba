import ChipSystemSim.AbandonedReads

/-! While every gateway runs, a request that fits the wire format and whose pipe
has both ends placed is never answered with an error. -/

namespace ChipSystemSim

variable {ι : Type}

/-- A request that nothing on its way refuses. -/
structure Deliverable (routing : Routing) (request : Request) : Prop where
  bytes : request.byteCount ≤ 65000
  nonempty : request.name ≠ []
  name : request.name.length ≤ 255
  far : ∃ peer, routing.farSlot request.op request.name = some peer

theorem length_requestLine {op : Op} {name : Text} {n : Nat} (hname : name.length ≤ 255)
    (hn : n ≤ 65000) : (requestLine op name n).length < gatewayLineLimit := by
  have hdigits : (Nat.toDigits 10 n).length ≤ 5 :=
    (Nat.length_toDigits_le_iff (by decide) (by decide)).mpr (by omega)
  simp only [requestLine, List.length_cons, List.length_append, gatewayLineLimit]
  omega

theorem Deliverable.not_rejected {cfg : Config} {slot : Slot} {request : Request}
    (h : Deliverable cfg.routing request) (hlinked : ∀ a b, a ≠ b → cfg.linked a b = true) :
    ¬Rejected cfg slot request := by
  obtain ⟨peer, hfar⟩ := h.far
  have hok : (Router.init slot cfg.routing).peerFor request.op request.name = .ok peer :=
    peerFor_init_iff.mpr hfar
  rintro (hbytes | ⟨e, he⟩ | ⟨peer', hpeer', hne, hport | hlink⟩)
  · have := h.bytes
    omega
  · cases hok.symm.trans he
  · cases hok.symm.trans hpeer'
    unfold Routing.farSlot at hfar
    split at hfar
    · cases hfar
    · rw [gatewayPorts_lookup hfar hne] at hport
      cases hport
  · cases hok.symm.trans hpeer'
    rw [hlinked slot peer (Ne.symm hne)] at hlink
    cases hlink

theorem PhaseStep.not_failed {cfg : Config} {s : State ι} {slot : Slot} {request : Request}
    {phase phase' : Phase} (h : PhaseStep cfg s slot request phase phase')
    (hd : Deliverable cfg.routing request) (hlinked : ∀ a b, a ≠ b → cfg.linked a b = true)
    (hrun : ∀ a b, (s.gateway a b).stopping = false) (hph : phase.failed = false) :
    phase'.failed = false := by
  cases h with
  | reject e hr => exact absurd hr (hd.not_rejected hlinked)
  | overlong hl => exact absurd (length_requestLine hd.name hd.bytes) (not_lt.mpr hl)
  | invalid hi =>
    have hmax : maxPayloadBytes = 65197 := rfl
    have hbytes := hd.bytes
    exact absurd ⟨hd.nonempty, hd.name, by omega⟩ hi
  | @gatewayClosed peer _ _ hstop => simp [hrun slot peer] at hstop
  | @abandon peer hstop => simp [hrun slot peer] at hstop
  | relay reply => cases reply <;> first | rfl | cases hph
  | _ => rfl

theorem PhaseMove.not_failed {cfg : Config} {s : State ι} {finished : Prop} {slot : Slot}
    {request : Request} {phase phase' : Phase} {v : Option (Bool × Bytes)}
    (h : PhaseMove cfg s finished slot request phase phase' v)
    (hd : Deliverable cfg.routing request) (hlinked : ∀ a b, a ≠ b → cfg.linked a b = true)
    (hrun : ∀ a b, (s.gateway a b).stopping = false) (hph : phase.failed = false) :
    phase'.failed = false := by
  cases h with
  | stay => exact hph
  | own h => exact h.not_failed hd hlinked hrun hph
  | @gatewayWrite peer path payload hr =>
    rw [hrun slot peer]
    rfl
  | _ => rfl

def Action.Serving (cfg : Config) : Action ι → Prop
  | .connect _ slot request => WellPlaced cfg.routing slot request ∧ Deliverable cfg.routing request
  | _ => True

variable [DecidableEq ι]

theorem running_of_step {cfg : Config} {s s' : State ι} {a : Action ι} {e : Option (Event ι)}
    (h : Effect cfg s a s' e) (hrun : ∀ x y, (s'.gateway x y).stopping = false) (x y : Slot) :
    (s.gateway x y).stopping = false := by
  by_contra hstop
  have hstop' := stopping_step h (Bool.eq_true_of_not_eq_false hstop)
  simp [hrun x y] at hstop'

def Conn.Served (routing : Routing) (c : Conn) : Prop :=
  Deliverable routing c.request ∧ c.phase.failed = false

theorem served_step {cfg : Config} {s s' : State ι} {a : Action ι} {e : Option (Event ι)}
    (hlinked : ∀ a b, a ≠ b → cfg.linked a b = true)
    (hrun : ∀ x y, (s.gateway x y).stopping = false)
    (hs : ∀ i c, s.conn i = some c → c.Served cfg.routing) (ha : a.Serving cfg)
    (h : Effect cfg s a s' e) : ∀ i c, s'.conn i = some c → c.Served cfg.routing := by
  intro i c' hc'
  rcases h.connMove i with ⟨hn, _⟩ | ⟨slot, request, rfl, _, hc, _⟩ |
    ⟨c, c₁, v, hc, hc₁, _, hr, hm, _⟩
  · cases hc'.symm.trans hn
  · cases hc'.symm.trans hc
    exact ⟨ha.2, rfl⟩
  · cases hc'.symm.trans hc₁
    obtain ⟨hd, hph⟩ := hs i c hc
    exact ⟨hr ▸ hd, hm.not_failed hd hlinked hrun hph⟩

/-- A gateway that stopped stays so, hence one that runs now has run all along. -/
theorem served_run {cfg : Config} {s : State ι} {log : List (Event ι)}
    (hlinked : ∀ a b, a ≠ b → cfg.linked a b = true) (h : Run cfg (fun _ a => a.Serving cfg) s log)
    (hrun : ∀ x y, (s.gateway x y).stopping = false) :
    ∀ i c, s.conn i = some c → c.Served cfg.routing := by
  induction h with
  | init => simp [State.init]
  | step _ ha hs ih =>
    have heff := step_effect hs
    have hrun' := running_of_step heff hrun
    exact served_step hlinked hrun' (ih hrun') ha heff

end ChipSystemSim
