import ChipSystemSim.TransportSteps

/-! A step of the transport as one connection sees it. -/

namespace ChipSystemSim

variable {ι : Type}

def Event.owner : Event ι → ι
  | enqueue i _ _ => i
  | dequeue i _ _ => i

/-- What a step does to the phase of one connection, with the event it owns.
The proposition says that its gateway finished its write in this step. -/
inductive PhaseMove (cfg : Config) (s : State ι) (finished : Prop) (slot : Slot)
    (request : Request) :
    Phase → Phase → Option (Bool × Bytes) → Prop
  | stay (phase : Phase) : PhaseMove cfg s finished slot request phase phase none
  | notifyLocal (n : Bool) :
      PhaseMove cfg s finished slot request (.localWait n) (.localWait true) none
  | notifyGateway (peer : Slot) (n : Bool) :
      PhaseMove cfg s finished slot request (.gatewayRead peer n) (.gatewayRead peer true) none
  | complete (peer : Slot) (done : Bool) (h : finished) :
      PhaseMove cfg s finished slot request (.gatewayWrite peer done) (.gatewayWrite peer true) none
  | own {phase phase' : Phase} (h : PhaseStep cfg s slot request phase phase') :
      PhaseMove cfg s finished slot request phase phase' none
  | localWrite {path : Text} {payload : Bytes} (hr : request = .write path payload)
      (hp : (Router.init slot cfg.routing).peerFor .W request.name = .ok slot) :
      PhaseMove cfg s finished slot request .connected (.replied .ok) (some (true, payload))
  | localRead {phase : Phase} {data : Bytes}
      (hph : (phase = .connected ∧ (∃ path, request = .read path data.length) ∧
          (Router.init slot cfg.routing).peerFor .R request.name = .ok slot) ∨
        (phase = .localWait true ∧ data.length = request.byteCount)) :
      PhaseMove cfg s finished slot request phase (.replied (.okData data)) (some (false, data))
  | gatewayWrite {peer : Slot} {path : Text} {payload : Bytes}
      (hr : request = .write path payload) :
      PhaseMove cfg s finished slot request (.forwarded peer)
        (if (s.gateway slot peer).stopping then .gatewayReplied (.err .transport)
          else .gatewayWrite peer false) (some (true, payload))
  | gatewayRead {phase : Phase} {peer : Slot} {data : Bytes}
      (hph : (phase = .forwarded peer ∧ ∃ path, request = .read path data.length) ∨
        ((∃ n, phase = .gatewayRead peer n) ∧ data.length = request.byteCount)) :
      PhaseMove cfg s finished slot request phase (.gatewayReplied (.okData data))
        (some (false, data))

def ownEvent (j : ι) (name : Text) : Option (Bool × Bytes) → Option (Event ι) → Prop
  | none, e => ∀ x ∈ e, x.owner ≠ j
  | some (true, payload), e => e = some (.enqueue j name payload)
  | some (false, data), e => e = some (.dequeue j name data)

theorem Conn.notifyLocal_spec (cfg : Config) (s : State ι) (finished : Prop) (slot : Slot)
    (c : Conn) :
    (c.notifyLocal slot).slot = c.slot ∧ (c.notifyLocal slot).request = c.request ∧
      PhaseMove cfg s finished c.slot c.request c.phase (c.notifyLocal slot).phase none := by
  unfold Conn.notifyLocal
  split
  · rename_i n hph
    split
    · exact ⟨rfl, rfl, hph ▸ .notifyLocal n⟩
    · exact ⟨rfl, rfl, .stay _⟩
  · exact ⟨rfl, rfl, .stay _⟩

theorem Conn.notifyGateway_spec (cfg : Config) (s : State ι) (finished : Prop) (slot peer : Slot)
    (c : Conn) :
    (c.notifyGateway slot peer).slot = c.slot ∧ (c.notifyGateway slot peer).request = c.request ∧
      PhaseMove cfg s finished c.slot c.request c.phase (c.notifyGateway slot peer).phase none := by
  unfold Conn.notifyGateway
  split
  · rename_i p n hph
    split
    · exact ⟨rfl, rfl, hph ▸ .notifyGateway p n⟩
    · exact ⟨rfl, rfl, .stay _⟩
  · exact ⟨rfl, rfl, .stay _⟩

theorem Conn.complete_spec (cfg : Config) (s : State ι) {finished : Prop} (h : finished)
    (c : Conn) :
    c.complete.slot = c.slot ∧ c.complete.request = c.request ∧
      PhaseMove cfg s finished c.slot c.request c.phase c.complete.phase none := by
  unfold Conn.complete
  split
  · rename_i p n hph
    exact ⟨rfl, rfl, hph ▸ .complete p n h⟩
  · exact ⟨rfl, rfl, .stay _⟩

def Finished (s : State ι) (a : Action ι) (j : ι) : Prop :=
  ∃ slot peer p, a = .finish slot peer ∧ (s.gateway slot peer).loop = .sent p ∧ p.owner = j

def ConnMove (cfg : Config) (s s' : State ι) (a : Action ι) (e : Option (Event ι)) (j : ι) : Prop :=
  (s'.conn j = none ∧ s.conn j = none ∧ ∀ x ∈ e, x.owner ≠ j) ∨
  (∃ slot request, a = .connect j slot request ∧ s.conn j = none ∧
    s'.conn j = some ⟨slot, request, .connected, false⟩ ∧ e = none) ∨
  ∃ c c' v, s.conn j = some c ∧ s'.conn j = some c' ∧ c'.slot = c.slot ∧ c'.request = c.request ∧
    PhaseMove cfg s (Finished s a j) c.slot c.request c.phase c'.phase v ∧
    ownEvent j c.request.name v e

theorem connMove_of_eq {cfg : Config} {s s' : State ι} {a : Action ι} {e : Option (Event ι)} {j : ι}
    (h : s'.conn j = s.conn j) (he : ∀ x ∈ e, x.owner ≠ j) : ConnMove cfg s s' a e j := by
  cases hc : s.conn j with
  | none => exact Or.inl ⟨h.trans hc, hc, he⟩
  | some c => exact Or.inr (Or.inr ⟨c, c, none, hc, h.trans hc, rfl, rfl, .stay _, he⟩)

theorem connMove_of_map {cfg : Config} {s s' : State ι} {a : Action ι}
    {e : Option (Event ι)} {j : ι} {f : Conn → Conn} (h : s'.conn j = (s.conn j).map f)
    (hf : ∀ c, (f c).slot = c.slot ∧ (f c).request = c.request ∧
      PhaseMove cfg s (Finished s a j) c.slot c.request c.phase (f c).phase none)
    (he : ∀ x ∈ e, x.owner ≠ j) : ConnMove cfg s s' a e j := by
  cases hc : s.conn j with
  | none => exact Or.inl ⟨by simp [h, hc], hc, he⟩
  | some c =>
    obtain ⟨h1, h2, h3⟩ := hf c
    exact Or.inr (Or.inr ⟨c, f c, none, hc, by simp [h, hc], h1, h2, h3, he⟩)

variable [DecidableEq ι]

theorem connMove_of_setPhase {cfg : Config} {s s₀ s' : State ι} {a : Action ι}
    {e : Option (Event ι)} {i j : ι} {c : Conn} {phase : Phase} {v : Option (Bool × Bytes)}
    (h : s.conn i = some c) (hs : s' = s₀.setPhase i c phase) (hc : j ≠ i → ConnMove cfg s s₀ a e j)
    (hm : PhaseMove cfg s (Finished s a i) c.slot c.request c.phase phase v)
    (he : ownEvent i c.request.name v e) :
    ConnMove cfg s s' a e j := by
  subst hs
  by_cases hj : j = i
  · subst hj
    exact Or.inr (Or.inr ⟨c, _, v, h, State.setPhase_conn_self .., rfl, rfl, hm, he⟩)
  · have hne := State.setPhase_conn_of_ne s₀ c phase hj
    rcases hc hj with ⟨h1, h2⟩ | ⟨slot, request, h1, h2, h3, h4⟩ | ⟨c₁, c₂, v', h1, h2, h3⟩
    · exact Or.inl ⟨hne.trans h1, h2⟩
    · exact Or.inr (Or.inl ⟨slot, request, h1, h2, hne.trans h3, h4⟩)
    · exact Or.inr (Or.inr ⟨c₁, c₂, v', h1, hne.trans h2, h3⟩)

theorem Effect.connMove {cfg : Config} {s s' : State ι} {a : Action ι} {e : Option (Event ι)}
    (h : Effect cfg s a s' e) (j : ι) : ConnMove cfg s s' a e j := by
  have hnone : ∀ x ∈ (none : Option (Event ι)), x.owner ≠ j := by simp
  have hown : ∀ {i : ι} {x : Event ι}, x.owner = i → j ≠ i → ∀ y ∈ some x, y.owner ≠ j := by
    rintro i x rfl hji y hy
    cases Option.mem_some_iff.mp hy
    exact hji.symm
  cases h with
  | @connect i slot request h =>
    by_cases hj : j = i
    · subst hj
      exact Or.inr (Or.inl ⟨slot, request, rfl, h, Function.update_self .., rfl⟩)
    · exact connMove_of_eq (Function.update_of_ne hj ..) hnone
  | @phase _ i c phase ha h hs =>
    exact connMove_of_setPhase h rfl (fun _ => connMove_of_eq rfl hnone) (.own hs)
      (by simp [ownEvent])
  | @close i c h =>
    by_cases hj : j = i
    · subst hj
      exact Or.inr (Or.inr ⟨c, _, none, h, Function.update_self .., rfl, rfl, .stay _, hnone⟩)
    · exact connMove_of_eq (Function.update_of_ne hj ..) hnone
  | @localWrite i c path payload h hph hr hp hlimit =>
    have hm : PhaseMove cfg s (Finished s (.handle i) i) c.slot c.request c.phase (.replied .ok)
        (some (true, payload)) := hph ▸ .localWrite hr hp
    refine connMove_of_setPhase h rfl (fun hj => ?_) hm rfl
    exact connMove_of_map rfl (Conn.notifyLocal_spec cfg s _ c.slot) (hown rfl hj)
  | localRead ha h hph hq =>
    exact connMove_of_setPhase h rfl (fun hj => connMove_of_eq rfl (hown rfl hj))
      (.localRead hph) rfl
  | @gatewayWrite i c peer path payload h hph hr hf =>
    have hm : PhaseMove cfg s (Finished s (.accept i) i) c.slot c.request c.phase
        (if (s.gateway c.slot peer).stopping then .gatewayReplied (.err .transport)
          else .gatewayWrite peer false) (some (true, payload)) := hph ▸ .gatewayWrite hr
    exact connMove_of_setPhase h rfl (fun hj => connMove_of_eq rfl (hown rfl hj)) hm rfl
  | gatewayRead ha h hph hstop hq =>
    exact connMove_of_setPhase h rfl (fun hj => connMove_of_eq rfl (hown rfl hj))
      (.gatewayRead hph) rfl
  | pick hl hstop ho => exact connMove_of_eq rfl hnone
  | allocFail hl => exact connMove_of_eq rfl hnone
  | send hl => exact connMove_of_eq rfl hnone
  | @finish slot peer p hl =>
    by_cases hj : j = p.owner
    · subst hj
      exact connMove_of_map (Function.update_self ..)
        (Conn.complete_spec cfg s ⟨slot, peer, p, rfl, hl, rfl⟩) hnone
    · exact connMove_of_eq (Function.update_of_ne hj ..) hnone
  | receive hne hl hstop hq hf => exact connMove_of_eq rfl hnone
  | drop hq hf => exact connMove_of_eq rfl hnone
  | @notify slot peer hl =>
    exact connMove_of_map rfl (Conn.notifyGateway_spec cfg s _ slot peer) hnone
  | terminate hl => exact connMove_of_eq rfl hnone

end ChipSystemSim
