import ChipSystemSim.TransportMoves

/-! What holds of every connection and every gateway in every run whose
clients connect to the router of their own chiplet's slot. -/

namespace ChipSystemSim

def Routing.farSlot (routing : Routing) (op : Op) (name : Text) : Option Slot :=
  match matchPipeName name with
  | none => none
  | some (a, b, c, d) =>
    routing.coordinateToWorkerSlot.lookup (match op with
      | .W => c ++ ',' :: d
      | .R => a ++ ',' :: b)

def Routing.sourceSlot (routing : Routing) (name : Text) : Option Slot := routing.farSlot .R name

def Routing.destinationSlot (routing : Routing) (name : Text) : Option Slot :=
  routing.farSlot .W name

theorem peerFor_init_iff {slot peer : Slot} {routing : Routing} {op : Op} {name : Text} :
    (Router.init slot routing).peerFor op name = .ok peer ↔
      routing.farSlot op name = some peer := by
  unfold Router.peerFor Routing.farSlot Router.init
  cases matchPipeName name with
  | none => simp
  | some g =>
    obtain ⟨a, b, c, d⟩ := g
    cases op <;> dsimp only <;> split <;> rename_i hl <;> rw [hl] <;> simp

/-- The client runs on the slot of its own chiplet: the source of what it
writes, the destination of what it reads. -/
def WellPlaced (routing : Routing) (slot : Slot) (request : Request) : Prop :=
  match request.op with
  | .W => routing.sourceSlot request.name = some slot
  | .R => routing.destinationSlot request.name = some slot

instance (routing : Routing) (slot : Slot) (request : Request) :
    Decidable (WellPlaced routing slot request) :=
  match request with
  | .write path _ =>
    inferInstanceAs (Decidable (routing.sourceSlot (lastComponent path) = some slot))
  | .read path _ =>
    inferInstanceAs (Decidable (routing.destinationSlot (lastComponent path) = some slot))

def ReplyOk (request : Request) : Reply → Prop
  | .ok => request.op = .W
  | .okData data => request.op = .R ∧ data.length = request.byteCount
  | .err _ => True

theorem ReplyOk.read {request : Request} {data : Bytes} (h : ReplyOk request (.okData data)) :
    ∃ path, request = .read path data.length := by
  cases request with
  | write path payload => cases h.1
  | read path bytes =>
    have hbytes : data.length = bytes := h.2
    exact ⟨path, by rw [hbytes]⟩

def PhaseOk (routing : Routing) (slot : Slot) (request : Request) : Phase → Prop
  | .connected => True
  | .localWait _ => request.op = .R ∧ routing.sourceSlot request.name = some slot
  | .forwarded peer => peer ≠ slot ∧ routing.farSlot request.op request.name = some peer
  | .gatewayWrite peer _ =>
    request.op = .W ∧ peer ≠ slot ∧ routing.destinationSlot request.name = some peer
  | .gatewayRead peer _ =>
    request.op = .R ∧ peer ≠ slot ∧ routing.sourceSlot request.name = some peer
  | .gatewayReplied reply => ReplyOk request reply
  | .replied reply => ReplyOk request reply

theorem PhaseStep.phaseOk {ι : Type} {cfg : Config} {s : State ι} {slot : Slot} {request : Request}
    {phase phase' : Phase} (h : PhaseStep cfg s slot request phase phase')
    (hok : PhaseOk cfg.routing slot request phase) : PhaseOk cfg.routing slot request phase' := by
  cases h with
  | reject e hr => trivial
  | sleepFirst hr hp hb => exact ⟨by rw [hr]; rfl, peerFor_init_iff.mp hp⟩
  | sleepAgain hb => exact hok
  | forward hp hne hlimit => exact ⟨hne, peerFor_init_iff.mp hp⟩
  | overlong hl => trivial
  | invalid hi => trivial
  | sleepGateway hph hstop hb =>
    rcases hph with ⟨rfl, path, hr⟩ | ⟨⟨n, rfl⟩, hb⟩
    · have hop : request.op = .R := by rw [hr]; rfl
      have hfar := hok.2
      rw [hop] at hfar
      exact ⟨hop, hok.1, hfar⟩
    · exact hok
  | gatewayClosed hph hstop => trivial
  | acknowledge => exact hok.1
  | abandon hstop => trivial
  | relay reply => exact hok

theorem PhaseMove.phaseOk {ι : Type} {cfg : Config} {s : State ι} {finished : Prop} {slot : Slot}
    {request : Request} {phase phase' : Phase} {v : Option (Bool × Bytes)}
    (h : PhaseMove cfg s finished slot request phase phase' v)
    (hok : PhaseOk cfg.routing slot request phase) : PhaseOk cfg.routing slot request phase' := by
  cases h with
  | stay => exact hok
  | notifyLocal n => exact hok
  | notifyGateway peer n => exact hok
  | complete peer done h => exact hok
  | own h => exact h.phaseOk hok
  | localWrite hr hp => exact show request.op = .W by rw [hr]; rfl
  | @localRead _ data hph =>
    rcases hph with ⟨rfl, ⟨path, hr⟩, hp⟩ | ⟨rfl, hl⟩
    · exact ⟨by rw [hr]; rfl, by rw [hr]; rfl⟩
    · exact ⟨hok.1, hl⟩
  | @gatewayWrite peer path payload hr =>
    have hop : request.op = .W := by rw [hr]; rfl
    split
    · trivial
    · have hfar := hok.2
      rw [hop] at hfar
      exact ⟨hop, hok.1, hfar⟩
  | gatewayRead hph =>
    rcases hph with ⟨rfl, ⟨path, hr⟩⟩ | ⟨⟨n, rfl⟩, hl⟩
    · exact ⟨by rw [hr]; rfl, by rw [hr]; rfl⟩
    · exact ⟨hok.1, hl⟩

variable {ι : Type}

/-- The loop works on the front of `outgoing_`, and only while the gateway runs. -/
structure Gateway.Ok (g : Gateway ι) : Prop where
  front : ∀ p, g.loop = .picked p ∨ g.loop = .sent p → g.outgoing.head? = some p
  running : g.loop ≠ .idle → g.stopping = false
  owners : (g.outgoing.map Pending.owner).Nodup
  frames : ∀ f ∈ g.ring, FrameOk f.1 f.2

def Phase.Failed (phase : Phase) : Prop :=
  ∃ e, phase = .gatewayReplied (.err e) ∨ phase = .replied (.err e)

/-- A queued write is still waited for, unless its gateway stopped. -/
def PendingOk (s : State ι) (a b : Slot) (p : Pending ι) : Prop :=
  FrameOk p.name p.payload ∧ ∃ c path, s.conn p.owner = some c ∧ c.slot = a ∧
    c.request = .write path p.payload ∧ c.request.name = p.name ∧
    (c.phase = .gatewayWrite b false ∨ ((s.gateway a b).stopping = true ∧ c.phase.Failed))

theorem PhaseMove.failed {cfg : Config} {s : State ι} {finished : Prop} {slot : Slot}
    {request : Request} {phase phase' : Phase} {v : Option (Bool × Bytes)}
    (h : PhaseMove cfg s finished slot request phase phase' v) (hph : phase.Failed) :
    phase'.Failed := by
  obtain ⟨e, rfl | rfl⟩ := hph
  · cases h with
    | stay => exact ⟨e, Or.inl rfl⟩
    | own hstep =>
      cases hstep with
      | sleepGateway hph => simp at hph
      | gatewayClosed hph => simp at hph
      | relay => exact ⟨e, Or.inr rfl⟩
    | localRead hph => simp at hph
    | gatewayRead hph => simp at hph
  · cases h with
    | stay => exact ⟨e, Or.inr rfl⟩
    | own hstep =>
      cases hstep with
      | sleepGateway hph => simp at hph
      | gatewayClosed hph => simp at hph
    | localRead hph => simp at hph
    | gatewayRead hph => simp at hph

theorem PhaseMove.waiting {cfg : Config} {s : State ι} {finished : Prop} {slot peer : Slot}
    {request : Request} {phase phase' : Phase} {v : Option (Bool × Bytes)}
    (h : PhaseMove cfg s finished slot request phase phase' v) (hfin : ¬finished)
    (hph : phase = .gatewayWrite peer false) :
    phase' = .gatewayWrite peer false ∨
    ((s.gateway slot peer).stopping = true ∧ phase'.Failed) := by
  subst hph
  cases h with
  | stay => exact Or.inl rfl
  | complete peer done hfinished => exact absurd hfinished hfin
  | own hstep =>
    cases hstep with
    | sleepGateway hph => simp at hph
    | gatewayClosed hph => simp at hph
    | abandon hstop => exact Or.inr ⟨hstop, _, Or.inl rfl⟩
  | localRead hph => simp at hph
  | gatewayRead hph => simp at hph

structure Invariant (cfg : Config) (s : State ι) : Prop where
  placed : ∀ i c, s.conn i = some c → WellPlaced cfg.routing c.slot c.request
  phases : ∀ i c, s.conn i = some c → PhaseOk cfg.routing c.slot c.request c.phase
  gateways : ∀ a b, (s.gateway a b).Ok
  pendings : ∀ a b, ∀ p ∈ (s.gateway a b).outgoing, PendingOk s a b p

/-- The part of the invariant that does not depend on where the clients run. -/
structure Sound (cfg : Config) (s : State ι) : Prop where
  phases : ∀ i c, s.conn i = some c → PhaseOk cfg.routing c.slot c.request c.phase
  gateways : ∀ a b, (s.gateway a b).Ok
  pendings : ∀ a b, ∀ p ∈ (s.gateway a b).outgoing, PendingOk s a b p

theorem Invariant.sound {cfg : Config} {s : State ι} (h : Invariant cfg s) : Sound cfg s :=
  ⟨h.phases, h.gateways, h.pendings⟩

def Action.Placed (cfg : Config) : Action ι → Prop
  | .connect _ slot request => WellPlaced cfg.routing slot request
  | _ => True

def Placed (cfg : Config) (_ : State ι) (a : Action ι) : Prop := a.Placed cfg

instance (cfg : Config) (a : Action ι) : Decidable (a.Placed cfg) :=
  match a with
  | .connect _ slot request => inferInstanceAs (Decidable (WellPlaced cfg.routing slot request))
  | .handle _ | .wakeLocal _ | .accept _ | .wakeRead _ | .wakeWrite _ | .relay _ | .close _
  | .pick _ _ | .allocFail _ _ | .send _ _ | .finish _ _ | .receive _ _ | .notify _
      _ | .terminate _ _ =>
    inferInstanceAs (Decidable True)

theorem sound_init (cfg : Config) : Sound cfg (State.init : State ι) := by
  refine ⟨?_, ?_, ?_⟩
  · intro i c h
    cases h
  · intro a b
    refine ⟨?_, ?_, ?_, ?_⟩ <;> simp [State.init]
  · intro a b p hp
    simp [State.init] at hp

theorem invariant_init (cfg : Config) : Invariant cfg (State.init : State ι) := by
  obtain ⟨hphases, hgateways, hpendings⟩ := sound_init (ι := ι) cfg
  refine ⟨?_, hphases, hgateways, hpendings⟩
  intro i c h
  cases h

theorem pending_unique {cfg : Config} {s : State ι} (hinv : Sound cfg s) {x y slot peer : Slot}
    {p q : Pending ι} (hp : p ∈ (s.gateway x y).outgoing) (hq : q ∈ (s.gateway slot peer).outgoing)
    (hrun : (s.gateway slot peer).stopping = false) (ho : q.owner = p.owner) :
    x = slot ∧ y = peer := by
  obtain ⟨_, c, path, hc, hslot, _, _, hph⟩ := hinv.pendings x y p hp
  obtain ⟨_, c', path', hc', hslot', _, _, hph'⟩ := hinv.pendings slot peer q hq
  rw [ho] at hc'
  cases hc.symm.trans hc'
  rcases hph' with hph' | ⟨hstop, _⟩
  · refine ⟨hslot.symm.trans hslot', ?_⟩
    rcases hph with hph | ⟨_, e, hph | hph⟩
    · exact (Phase.gatewayWrite.inj (hph.symm.trans hph')).1
    · cases hph.symm.trans hph'
    · cases hph.symm.trans hph'
  · simp [hrun] at hstop

variable [DecidableEq ι]

theorem gateway_ok_step {cfg : Config} {s s' : State ι} {a : Action ι} {e : Option (Event ι)}
    (hinv : Sound cfg s) (h : Effect cfg s a s' e) (x y : Slot) : (s'.gateway x y).Ok := by
  -- only the gateway that takes the step has to be looked at
  have hset : ∀ {s₀ : State ι} {slot peer : Slot} {g : Gateway ι}, (s₀.gateway x y).Ok → g.Ok →
      ((s₀.setGateway slot peer g).gateway x y).Ok :=
    fun h₀ hg => State.setGateway_elim (P := fun _ _ g => g.Ok) h₀ hg
  have hold := hinv.gateways x y
  cases h with
  | connect h => exact hold
  | phase ha h hs => exact hold
  | close h => exact hold
  | localWrite h hph hr hp hlimit => exact hold
  | localRead ha h hph hq => exact hold
  | @gatewayWrite i c peer path payload h hph hr hf =>
    have hg := hinv.gateways c.slot peer
    refine hset hold ⟨?_, hg.running, ?_, hg.frames⟩
    · intro p hp
      have := hg.front p hp
      rw [List.head?_append]
      simp [this]
    · have hnot : i ∉ (s.gateway c.slot peer).outgoing.map Pending.owner := by
        intro hm
        obtain ⟨p, hp, rfl⟩ := List.mem_map.mp hm
        obtain ⟨_, c', _, hc', _, _, _, hphase⟩ := hinv.pendings _ _ p hp
        cases h.symm.trans hc'
        rcases hphase with hw | ⟨_, e, hw | hw⟩ <;> simp [hph] at hw
      rw [List.map_append, List.nodup_append]
      refine ⟨hg.owners, by simp, ?_⟩
      intro j hj k hk
      rcases List.mem_singleton.mp hk with rfl
      rintro rfl
      exact hnot hj
  | @gatewayRead _ i c peer data rest ha h hph hstop hq =>
    have hg := hinv.gateways c.slot peer
    exact hset hold ⟨hg.front, hg.running, hg.owners, hg.frames⟩
  | @pick slot peer p rest hl hstop ho =>
    have hg := hinv.gateways slot peer
    refine hset hold ⟨?_, fun _ => hstop, hg.owners, hg.frames⟩
    rintro q (hq | hq) <;> cases hq
    simp [ho]
  | @allocFail slot peer p hl =>
    have hg := hinv.gateways slot peer
    exact hset hold ⟨by simp, by simp, hg.owners, hg.frames⟩
  | @send slot peer p hl =>
    have hg := hinv.gateways slot peer
    have hfront := hg.front p (Or.inl hl)
    have hrunning := hg.running (by simp [hl])
    refine hset hold ⟨?_, fun _ => hrunning, hg.owners, ?_⟩
    · rintro q (hq | hq) <;> cases hq
      exact hfront
    · intro f hf
      rcases List.mem_append.mp hf with hf | hf
      · exact hg.frames f hf
      · rcases List.mem_singleton.mp hf with rfl
        exact (hinv.pendings slot peer p (List.mem_of_head? hfront)).1
  | @finish slot peer p hl =>
    have hg := hinv.gateways slot peer
    refine hset hold ⟨by simp, by simp, ?_, hg.frames⟩
    rw [if_pos (hg.front p (Or.inr hl)), List.map_tail]
    exact hg.owners.tail
  | @receive slot peer name payload rest hne hl hstop hq hf =>
    have hg := hinv.gateways slot peer
    have hs := hinv.gateways peer slot
    refine hset (hset hold ⟨hs.front, hs.running, hs.owners, ?_⟩)
      ⟨by simp, fun _ => hstop, hg.owners, hg.frames⟩
    exact fun f hf => hs.frames f (by rw [hq]; exact List.mem_cons_of_mem _ hf)
  | @drop slot peer name payload rest hq hf =>
    have hs := hinv.gateways peer slot
    refine hset hold ⟨hs.front, hs.running, hs.owners, ?_⟩
    exact fun f hf => hs.frames f (by rw [hq]; exact List.mem_cons_of_mem _ hf)
  | @notify slot peer hl =>
    have hg := hinv.gateways slot peer
    exact hset hold ⟨by simp, by simp, hg.owners, hg.frames⟩
  | @terminate slot peer hl =>
    have hg := hinv.gateways slot peer
    exact hset hold ⟨hg.front, fun hn => absurd hl hn, hg.owners, hg.frames⟩

theorem stopping_step {cfg : Config} {s s' : State ι} {a : Action ι} {e : Option (Event ι)}
    (h : Effect cfg s a s' e) {x y : Slot} (hs : (s.gateway x y).stopping = true) :
    (s'.gateway x y).stopping = true := by
  have hset : ∀ {s₀ : State ι} {slot peer : Slot} {g : Gateway ι},
      (s₀.gateway x y).stopping = true →
      ((s.gateway slot peer).stopping = true → g.stopping = true) →
      ((s₀.setGateway slot peer g).gateway x y).stopping = true := fun h₀ hg =>
    State.setGateway_elim
      (P := fun x y g => (s.gateway x y).stopping = true → g.stopping = true) (fun _ => h₀) hg hs
  cases h with
  | connect h => exact hs
  | phase ha h hs' => exact hs
  | close h => exact hs
  | localWrite h hph hr hp hlimit => exact hs
  | localRead ha h hph hq => exact hs
  | gatewayWrite h hph hr hf => exact hset hs id
  | gatewayRead ha h hph hstop hq => exact hset hs id
  | pick hl hstop ho => exact hset hs id
  | allocFail hl => exact hset hs id
  | send hl => exact hset hs id
  | finish hl => exact hset hs id
  | receive hne hl hstop hq hf => exact hset (hset hs id) id
  | drop hq hf => exact hset hs id
  | notify hl => exact hset hs id
  | terminate hl => exact hset hs fun _ => rfl

def Accepts (s s' : State ι) (x y : Slot) (p : Pending ι) : Prop :=
  FrameOk p.name p.payload ∧ ∃ c path, s.conn p.owner = some c ∧ c.slot = x ∧
    c.phase = .forwarded y ∧ c.request = .write path p.payload ∧ c.request.name = p.name ∧
    s'.conn p.owner = some
      { c with
        phase :=
          if (s.gateway x y).stopping then .gatewayReplied (.err .transport)
          else .gatewayWrite y false }

theorem outgoing_step {cfg : Config} {s s' : State ι} {a : Action ι} {e : Option (Event ι)}
    (hinv : Sound cfg s) (h : Effect cfg s a s' e) {x y : Slot} {p : Pending ι}
    (hp : p ∈ (s'.gateway x y).outgoing) :
    (p ∈ (s.gateway x y).outgoing ∧ ¬Finished s a p.owner) ∨ Accepts s s' x y p := by
  have hset : ∀ {s₀ : State ι} {slot peer : Slot} {g : Gateway ι},
      (s₀.gateway x y).outgoing = (s.gateway x y).outgoing →
      g.outgoing = (s.gateway slot peer).outgoing →
      ((s₀.setGateway slot peer g).gateway x y).outgoing = (s.gateway x y).outgoing := fun h₀ hg =>
    State.setGateway_elim (P := fun x y g => g.outgoing = (s.gateway x y).outgoing) h₀ hg
  have hkeep : (∀ slot peer, a ≠ .finish slot peer) →
      (s'.gateway x y).outgoing = (s.gateway x y).outgoing →
      (p ∈ (s.gateway x y).outgoing ∧ ¬Finished s a p.owner) ∨ Accepts s s' x y p := by
    intro ha ho
    refine Or.inl ⟨ho ▸ hp, ?_⟩
    rintro ⟨slot, peer, q, hf, _⟩
    exact ha slot peer hf
  cases h with
  | connect h => exact hkeep (by simp) rfl
  | phase ha h hs =>
    refine hkeep ?_ rfl
    rintro slot peer rfl
    cases ha
  | close h => exact hkeep (by simp) rfl
  | localWrite h hph hr hp hlimit => exact hkeep (by simp) rfl
  | localRead ha h hph hq =>
    refine hkeep ?_ rfl
    rcases ha with rfl | rfl <;> simp
  | @gatewayWrite i c peer path payload h hph hr hf =>
    by_cases hxy : x = c.slot ∧ y = peer
    · obtain ⟨rfl, rfl⟩ := hxy
      simp only [State.setPhase_gateway, State.setGateway_gateway_self, List.mem_append,
        List.mem_singleton] at hp
      rcases hp with hp | rfl
      · exact Or.inl ⟨hp, by simp [Finished]⟩
      · exact Or.inr ⟨hf, c, path, h, rfl, hph, hr, rfl, State.setPhase_conn_self ..⟩
    · refine hkeep (by simp) ?_
      simp only [State.setPhase_gateway, State.setGateway_gateway_of_ne s _ hxy]
  | gatewayRead ha h hph hstop hq =>
    refine hkeep ?_ (hset rfl rfl)
    rcases ha with rfl | rfl <;> simp
  | pick hl hstop ho => exact hkeep (by simp) (hset rfl rfl)
  | allocFail hl => exact hkeep (by simp) (hset rfl rfl)
  | send hl => exact hkeep (by simp) (hset rfl rfl)
  | @finish slot peer q hl =>
    have hfront := (hinv.gateways slot peer).front q (Or.inr hl)
    have hrun := (hinv.gateways slot peer).running (by simp [hl])
    have hold : p ∈ (s.gateway x y).outgoing ∧ ¬(q.owner = p.owner ∧ x = slot ∧ y = peer) := by
      by_cases hxy : x = slot ∧ y = peer
      · obtain ⟨rfl, rfl⟩ := hxy
        simp only [finishWrite, State.setGateway_gateway_self, if_pos hfront] at hp
        refine ⟨List.mem_of_mem_tail hp, ?_⟩
        rintro ⟨ho, -⟩
        obtain ⟨rest, hrest⟩ := List.head?_eq_some_iff.mp hfront
        have hnd := (hinv.gateways x y).owners
        rw [hrest] at hp hnd
        rw [List.map_cons, List.nodup_cons] at hnd
        exact hnd.1 (ho ▸ List.mem_map_of_mem hp)
      · simp only [finishWrite, State.setGateway_gateway_of_ne s _ hxy] at hp
        exact ⟨hp, fun h => hxy h.2⟩
    refine Or.inl ⟨hold.1, ?_⟩
    rintro ⟨slot', peer', q', ha, hl', ho⟩
    cases ha
    cases hl.symm.trans hl'
    exact hold.2 ⟨ho, pending_unique hinv hold.1 (List.mem_of_head? hfront) hrun ho⟩
  | receive hne hl hstop hq hf => exact hkeep (by simp) (hset (hset rfl rfl) rfl)
  | drop hq hf => exact hkeep (by simp) (hset rfl rfl)
  | notify hl => exact hkeep (by simp) (hset rfl rfl)
  | terminate hl => exact hkeep (by simp) (hset rfl rfl)

theorem pendingOk_step {cfg : Config} {s s' : State ι} {a : Action ι} {e : Option (Event ι)}
    (h : Effect cfg s a s' e) {x y : Slot} {p : Pending ι} (hp : PendingOk s x y p)
    (hfin : ¬Finished s a p.owner) : PendingOk s' x y p := by
  obtain ⟨hf, c, path, hc, hslot, hr, hname, hph⟩ := hp
  rcases h.connMove p.owner with ⟨_, hn, _⟩ | ⟨_, _, _, hn, _⟩ |
    ⟨c₁, c', v, hc₁, hc', hs, hreq, hm, _⟩
  · cases hc.symm.trans hn
  · cases hc.symm.trans hn
  cases hc.symm.trans hc₁
  refine ⟨hf, c', path, hc', hs.trans hslot, hreq.trans hr, hreq ▸ hname, ?_⟩
  rcases hph with hph | ⟨hstop, hfailed⟩
  · rw [hph] at hm
    rcases hm.waiting hfin rfl with hph' | ⟨hstop, hfailed⟩
    · exact Or.inl hph'
    · exact Or.inr ⟨stopping_step h (hslot ▸ hstop), hfailed⟩
  · exact Or.inr ⟨stopping_step h hstop, hm.failed hfailed⟩

theorem sound_step {cfg : Config} {s s' : State ι} {a : Action ι} {e : Option (Event ι)}
    (hsound : Sound cfg s) (h : Effect cfg s a s' e) : Sound cfg s' := by
  refine ⟨?_, gateway_ok_step hsound h, ?_⟩
  · intro i c' hc'
    rcases h.connMove i with ⟨hn, _⟩ | ⟨slot, request, rfl, _, hc, _⟩ |
      ⟨c, c₁, v, hc, hc₁, hs, hr, hm, _⟩
    · cases hc'.symm.trans hn
    · cases hc'.symm.trans hc
      trivial
    · cases hc'.symm.trans hc₁
      rw [hs, hr]
      exact hm.phaseOk (hsound.phases i c hc)
  · intro x y p hp
    rcases outgoing_step hsound h hp with ⟨hold, hfin⟩ |
      ⟨hf, c, path, hc, hslot, hph, hr, hname, hc'⟩
    · exact pendingOk_step h (hsound.pendings x y p hold) hfin
    · refine ⟨hf, _, path, hc', hslot, hr, hname, ?_⟩
      cases hstop : (s.gateway x y).stopping with
      | true => exact Or.inr ⟨stopping_step h hstop, .transport, Or.inl (by simp)⟩
      | false => exact Or.inl (by simp)

theorem invariant_step {cfg : Config} {s s' : State ι} {a : Action ι} {e : Option (Event ι)}
    (hinv : Invariant cfg s) (ha : Placed cfg s a) (h : Effect cfg s a s' e) :
    Invariant cfg s' := by
  obtain ⟨hphases, hgateways, hpendings⟩ := sound_step hinv.sound h
  refine ⟨?_, hphases, hgateways, hpendings⟩
  intro i c' hc'
  rcases h.connMove i with ⟨hn, _⟩ | ⟨slot, request, rfl, _, hc, _⟩ |
    ⟨c, c₁, v, hc, hc₁, hs, hr, _, _⟩
  · cases hc'.symm.trans hn
  · cases hc'.symm.trans hc
    exact ha
  · cases hc'.symm.trans hc₁
    rw [hs, hr]
    exact hinv.placed i c hc

theorem invariant_run {cfg : Config} {s : State ι} {log : List (Event ι)}
    (h : Run cfg (Placed cfg) s log) : Invariant cfg s := by
  induction h with
  | init => exact invariant_init cfg
  | step _ ha hs ih => exact invariant_step ih ha (step_effect hs)

end ChipSystemSim
