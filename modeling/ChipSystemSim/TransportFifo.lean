import ChipSystemSim.PipeAccount

/-! The pipes of the transport are FIFO queues: along every run the reads of a
pipe return a prefix of what was written to it. -/

namespace ChipSystemSim

variable {ι : Type}

def Phase.data : Phase → Option Bytes
  | .gatewayReplied (.okData data) => some data
  | .replied (.okData data) => some data
  | _ => none

theorem Phase.data_eq_some_iff {phase : Phase} {data : Bytes} :
    phase.data = some data ↔
      phase = .gatewayReplied (.okData data) ∨ phase = .replied (.okData data) := by
  cases phase with
  | gatewayReplied reply => cases reply <;> simp [Phase.data]
  | replied reply => cases reply <;> simp [Phase.data]
  | _ => simp [Phase.data]

theorem PhaseOk.read {routing : Routing} {slot : Slot} {request : Request} {phase : Phase}
    {data : Bytes} (h : PhaseOk routing slot request phase) (hdata : phase.data = some data) :
    ∃ path, request = .read path data.length := by
  rcases Phase.data_eq_some_iff.mp hdata with rfl | rfl
  · exact ReplyOk.read h
  · exact ReplyOk.read h

/-- The request has had its effect on the queues, or will have none. -/
def Phase.settled : Phase → Bool
  | .gatewayWrite _ _ => true
  | .gatewayReplied _ => true
  | .replied _ => true
  | _ => false

theorem PhaseMove.settled {cfg : Config} {s : State ι} {finished : Prop} {slot : Slot}
    {request : Request} {phase phase' : Phase} {v : Option (Bool × Bytes)}
    (h : PhaseMove cfg s finished slot request phase phase' v) :
    (v ≠ none → phase.settled = false) ∧
    (phase.settled = true ∨ v ≠ none → phase'.settled = true) := by
  cases h with
  | stay => exact ⟨by simp, by simp⟩
  | notifyLocal n => exact ⟨by simp, by simp [Phase.settled]⟩
  | notifyGateway peer n => exact ⟨by simp, by simp [Phase.settled]⟩
  | complete peer done h => exact ⟨by simp, by simp [Phase.settled]⟩
  | own h =>
    refine ⟨by simp, ?_⟩
    cases h with
    | sleepGateway hph hstop hb =>
      rcases hph with ⟨rfl, _⟩ | ⟨⟨n, rfl⟩, _⟩ <;> simp [Phase.settled]
    | gatewayClosed hph hstop => simp [Phase.settled]
    | _ => simp [Phase.settled]
  | localWrite hr hp => exact ⟨by simp [Phase.settled], by simp [Phase.settled]⟩
  | localRead hph =>
    refine ⟨?_, by simp [Phase.settled]⟩
    rcases hph with ⟨rfl, _⟩ | ⟨rfl, _⟩ <;> simp [Phase.settled]
  | gatewayWrite hr =>
    refine ⟨by simp [Phase.settled], ?_⟩
    split <;> simp [Phase.settled]
  | gatewayRead hph =>
    refine ⟨?_, by simp [Phase.settled]⟩
    rcases hph with ⟨rfl, _⟩ | ⟨⟨n, rfl⟩, _⟩ <;> simp [Phase.settled]

theorem data_of_not_settled {phase : Phase} (h : phase.settled = false) : phase.data = none := by
  cases phase with
  | gatewayReplied reply => cases h
  | replied reply => cases h
  | _ => rfl

def received (data : Option Bytes) : Option (Bool × Bytes) → Option Bytes
  | some (false, new) => some new
  | _ => data

theorem PhaseMove.data {cfg : Config} {s : State ι} {finished : Prop} {slot : Slot}
    {request : Request} {phase phase' : Phase} {v : Option (Bool × Bytes)}
    (h : PhaseMove cfg s finished slot request phase phase' v) :
    phase'.data = received phase.data v := by
  cases h with
  | own h =>
    cases h with
    | sleepGateway hph hstop hb =>
      rcases hph with ⟨rfl, _⟩ | ⟨⟨n, rfl⟩, _⟩ <;> rfl
    | gatewayClosed hph hstop =>
      rcases hph with rfl | ⟨n, rfl⟩ <;> rfl
    | relay reply => cases reply <;> rfl
    | _ => rfl
  | gatewayWrite hr => split <;> rfl
  | _ => rfl

def Phase.queued : Phase → Bool
  | .gatewayWrite _ _ => true
  | .gatewayReplied reply => reply = .ok
  | .replied reply => reply = .ok
  | _ => false

theorem PhaseMove.queued {cfg : Config} {s : State ι} {finished : Prop} {slot : Slot}
    {request : Request} {phase phase' : Phase} {v : Option (Bool × Bytes)}
    (h : PhaseMove cfg s finished slot request phase phase' v) (hq : phase'.queued = true) :
    phase.queued = true ∨ ∃ payload, v = some (true, payload) := by
  cases h with
  | own h =>
    cases h with
    | acknowledge => exact Or.inl rfl
    | relay reply => exact Or.inl hq
    | _ => simp [Phase.queued] at hq
  | localWrite hr hp => exact Or.inr ⟨_, rfl⟩
  | gatewayWrite hr => exact Or.inr ⟨_, rfl⟩
  | localRead hph => simp [Phase.queued] at hq
  | gatewayRead hph => simp [Phase.queued] at hq
  | stay => exact Or.inl hq
  | notifyLocal n => exact Or.inl hq
  | notifyGateway peer n => exact Or.inl hq
  | complete peer done hf => exact Or.inl rfl

theorem PhaseMove.enqueue {cfg : Config} {s : State ι} {finished : Prop} {slot : Slot}
    {request : Request} {phase phase' : Phase} {payload : Bytes}
    (h : PhaseMove cfg s finished slot request phase phase' (some (true, payload))) :
    ∃ path, request = .write path payload := by
  cases h with
  | localWrite hr hp => exact ⟨_, hr⟩
  | gatewayWrite hr => exact ⟨_, hr⟩

/-- The log and the phases tell the same story. -/
structure LogOk (s : State ι) (log : List (Event ι)) : Prop where
  owners : (log.map Event.owner).Nodup
  settled : ∀ v ∈ log, ∃ c, s.conn v.owner = some c ∧ c.request.name = v.name ∧
    c.phase.settled = true
  reads : ∀ i x data, .dequeue i x data ∈ log ↔
    ∃ c, s.conn i = some c ∧ c.request.name = x ∧ c.phase.data = some data
  writes : ∀ i x payload, .enqueue i x payload ∈ log →
    ∃ c path, s.conn i = some c ∧ c.request = .write path payload
  queued : ∀ i c, s.conn i = some c → c.phase.queued = true →
    ∃ payload, .enqueue i c.request.name payload ∈ log

theorem logOk_init : LogOk (State.init : State ι) [] :=
  ⟨by simp, by simp, by simp [State.init], by simp, by simp [State.init]⟩

theorem ownEvent_cases {j : ι} {name : Text} {v : Option (Bool × Bytes)} {e : Option (Event ι)}
    (h : ownEvent j name v e) :
    (v = none ∧ ∀ x ∈ e, x.owner ≠ j) ∨
    (∃ payload, v = some (true, payload) ∧ e = some (.enqueue j name payload)) ∨
    ∃ data, v = some (false, data) ∧ e = some (.dequeue j name data) := by
  rcases v with _ | ⟨b, d⟩
  · exact Or.inl ⟨rfl, h⟩
  · cases b with
    | true => exact Or.inr (Or.inl ⟨d, rfl, h⟩)
    | false => exact Or.inr (Or.inr ⟨d, rfl, h⟩)

def Phase.failed : Phase → Bool
  | .gatewayReplied (.err _) => true
  | .replied (.err _) => true
  | _ => false

def State.standing (s : State ι) (i : ι) : Bool :=
  match s.conn i with
  | some c => !c.phase.failed
  | none => false

theorem standing_of_acknowledged {s : State ι} {i : ι} (h : Acknowledged s i) :
    s.standing i = true := by
  obtain ⟨c, hc, ha⟩ := h
  simp only [State.standing, hc, Bool.not_eq_true']
  cases hph : c.phase with
  | gatewayReplied reply =>
    rw [hph] at ha
    cases ha
    rfl
  | replied reply =>
    rw [hph] at ha
    cases ha
    rfl
  | _ => rfl

/-- A payload in the ring that its gateway still holds belongs to a standing write. -/
theorem sending_cases {cfg : Config} {s : State ι} (hinv : Invariant cfg s) (a b : Slot)
    (x : Text) :
    (s.pipe a b x).sending = [] ∨ ∃ o payload rest, (s.pipe a b x).sending = [payload] ∧
      (s.pipe a b x).pending = (o, payload) :: rest ∧ s.standing o = true := by
  by_cases hab : a = b
  · subst hab
    exact Or.inl (by rw [pipe_local])
  cases hl : (s.gateway a b).loop with
  | sent p =>
    rw [pipe_remote _ hab]
    by_cases hn : p.name = x
    · subst hn
      have hg := hinv.gateways a b
      have hfront := hg.front p (Or.inr hl)
      have hrun := hg.running (by simp [hl])
      obtain ⟨rest, hrest⟩ := List.head?_eq_some_iff.mp hfront
      refine Or.inr ⟨p.owner, p.payload,
        (rest.filter (·.name = p.name)).map fun q => (q.owner, q.payload), ?_, ?_, ?_⟩
      · simp [remotePipe, hl, Loop.sending]
      · simp [remotePipe, hrest]
      · obtain ⟨_, c, path, hc, _, _, _, hph⟩ := hinv.pendings a b p (List.mem_of_head? hfront)
        rcases hph with hph | ⟨hstop, _⟩
        · simp [State.standing, hc, hph, Phase.failed]
        · simp [hrun] at hstop
    · exact Or.inl (by simp [remotePipe, hl, Loop.sending, hn])
  | _ => exact Or.inl (by rw [pipe_remote _ hab]; simp [remotePipe, hl, Loop.sending])

theorem prefix_of_account {cfg : Config} {s : State ι} (hinv : Invariant cfg s)
    {a b : Slot} {x : Text} {enq deq acked : List (ι × Bytes)}
    (hacc : Account (s.pipe a b x) enq deq acked) (hdone : ∀ w ∈ acked, Acknowledged s w.1) :
    deq.map Prod.snd <+: (enq.filter fun w => s.standing w.1).map Prod.snd := by
  have hacked : acked.filter (fun w => s.standing w.1) = acked :=
    List.filter_eq_self.mpr fun w hw => standing_of_acknowledged (hdone w hw)
  have hsent := hacc.sent
  rw [hacc.written, List.filter_append, hacked, List.map_append]
  rcases sending_cases hinv a b x with hs | ⟨o, payload, rest, hs, hp, ho⟩
  · rw [hs, List.append_nil] at hsent
    rw [hsent, List.append_assoc]
    exact List.prefix_append ..
  · rw [hs] at hsent
    rw [hp, List.filter_cons, if_pos ho, List.map_cons, List.append_cons, hsent, List.append_assoc]
    exact List.prefix_append ..


variable [DecidableEq ι]

theorem settled_step {cfg : Config} {s s' : State ι} {act : Action ι} {e : Option (Event ι)}
    {log : List (Event ι)} (hlog : LogOk s log) (h : Effect cfg s act s' e) :
    ∀ v ∈ log ++ e.toList,
      ∃ c, s'.conn v.owner = some c ∧ c.request.name = v.name ∧ c.phase.settled = true := by
  intro v hv
  rcases h.connMove v.owner with ⟨_, hn, he⟩ | ⟨_, _, _, hn, _, rfl⟩ |
    ⟨c, c', w, hc, hc', _, hr, hm, ho⟩
  · rcases List.mem_append.mp hv with hv | hv
    · obtain ⟨c, hc, _⟩ := hlog.settled v hv
      cases hn.symm.trans hc
    · exact absurd rfl (he v (Option.mem_toList.mp hv))
  · rcases List.mem_append.mp hv with hv | hv
    · obtain ⟨c, hc, _⟩ := hlog.settled v hv
      cases hn.symm.trans hc
    · simp at hv
  · refine ⟨c', hc', ?_⟩
    rw [hr]
    rcases List.mem_append.mp hv with hv | hv
    · obtain ⟨c₁, hc₁, hname, hs⟩ := hlog.settled v hv
      cases hc.symm.trans hc₁
      exact ⟨hname, hm.settled.2 (Or.inl hs)⟩
    · have hv := Option.mem_toList.mp hv
      rcases ownEvent_cases ho with ⟨_, he⟩ | ⟨payload, rfl, rfl⟩ | ⟨data, rfl, rfl⟩
      · exact absurd rfl (he v hv)
      · rw [← Option.mem_some_iff.mp hv]
        exact ⟨rfl, hm.settled.2 (Or.inr (by simp))⟩
      · rw [← Option.mem_some_iff.mp hv]
        exact ⟨rfl, hm.settled.2 (Or.inr (by simp))⟩

theorem owner_fresh {cfg : Config} {s s' : State ι} {act : Action ι} {v : Event ι}
    {log : List (Event ι)} (hlog : LogOk s log) (h : Effect cfg s act s' (some v)) :
    v.owner ∉ log.map Event.owner := by
  intro hm
  obtain ⟨w, hw, hwo⟩ := List.mem_map.mp hm
  obtain ⟨c, hc, _, hs⟩ := hlog.settled w hw
  rw [hwo] at hc
  rcases h.connMove v.owner with ⟨_, hn, _⟩ | ⟨_, _, _, hn, _⟩ | ⟨c₁, c', u, hc₁, _, _, _, hm, ho⟩
  · cases hc.symm.trans hn
  · cases hc.symm.trans hn
  · cases hc.symm.trans hc₁
    rcases ownEvent_cases ho with ⟨_, he⟩ | ⟨payload, rfl, _⟩ | ⟨data, rfl, _⟩
    · exact he v rfl rfl
    · simp [hm.settled.1 (by simp)] at hs
    · simp [hm.settled.1 (by simp)] at hs

theorem reads_step {cfg : Config} {s s' : State ι} {act : Action ι} {e : Option (Event ι)}
    {log : List (Event ι)} (hlog : LogOk s log) (h : Effect cfg s act s' e) (i : ι) (x : Text)
    (data : Bytes) : .dequeue i x data ∈ log ++ e.toList ↔
      ∃ c, s'.conn i = some c ∧ c.request.name = x ∧ c.phase.data = some data := by
  rw [List.mem_append, hlog.reads, Option.mem_toList]
  rcases h.connMove i with ⟨hn', hn, he⟩ | ⟨_, _, _, hn, hc', rfl⟩ |
    ⟨c, c', w, hc, hc', _, hr, hm, ho⟩
  · have hfalse : e ≠ some (.dequeue i x data) := fun hv => he _ hv rfl
    simp [hn', hn, hfalse]
  · simp [hc', hn, Phase.data]
  · have hdata := hm.data
    simp only [hc, hc', Option.some.injEq, exists_eq_left', hr]
    rcases ownEvent_cases ho with ⟨rfl, he⟩ | ⟨payload, rfl, rfl⟩ | ⟨d, rfl, rfl⟩
    · have hfalse : e ≠ some (.dequeue i x data) := fun hv => he _ hv rfl
      simp only [hdata, received, hfalse, or_false]
    · simp [hdata, received]
    · have hold := data_of_not_settled (hm.settled.1 (by simp))
      simp [hdata, hold, received]

theorem logOk_step {cfg : Config} {s s' : State ι} {act : Action ι} {e : Option (Event ι)}
    {log : List (Event ι)} (hlog : LogOk s log) (h : Effect cfg s act s' e) :
    LogOk s' (log ++ e.toList) := by
  refine ⟨?_, settled_step hlog h, reads_step hlog h, ?_, ?_⟩
  · cases e with
    | none => simpa using hlog.owners
    | some v =>
      have hfresh := owner_fresh hlog h
      rw [List.map_append, List.nodup_append]
      refine ⟨hlog.owners, by simp, ?_⟩
      intro j hj k hk
      rcases List.mem_singleton.mp (by simpa using hk) with rfl
      rintro rfl
      exact hfresh hj
  · intro i x payload hv
    rcases h.connMove i with ⟨_, hn, he⟩ | ⟨_, _, _, hn, _, rfl⟩ |
      ⟨c, c', w, hc, hc', _, hr, hm, ho⟩
    · rcases List.mem_append.mp hv with hv | hv
      · obtain ⟨c, path, hc, _⟩ := hlog.writes i x payload hv
        cases hn.symm.trans hc
      · exact absurd rfl (he _ (Option.mem_toList.mp hv))
    · rcases List.mem_append.mp hv with hv | hv
      · obtain ⟨c, path, hc, _⟩ := hlog.writes i x payload hv
        cases hn.symm.trans hc
      · simp at hv
    · rcases List.mem_append.mp hv with hv | hv
      · obtain ⟨c₁, path, hc₁, hr₁⟩ := hlog.writes i x payload hv
        cases hc.symm.trans hc₁
        exact ⟨c', path, hc', hr.trans hr₁⟩
      · have hv := Option.mem_toList.mp hv
        rcases ownEvent_cases ho with ⟨_, he⟩ | ⟨payload', rfl, rfl⟩ | ⟨data, rfl, rfl⟩
        · exact absurd rfl (he _ hv)
        · cases Option.mem_some_iff.mp hv
          obtain ⟨path, hr'⟩ := hm.enqueue
          exact ⟨c', path, hc', hr.trans hr'⟩
        · cases Option.mem_some_iff.mp hv
  · intro i c' hc' hq
    rcases h.connMove i with ⟨hn, _⟩ | ⟨_, _, _, _, hc, _⟩ | ⟨c, c₁, w, hc, hc₁, _, hr, hm, ho⟩
    · cases hc'.symm.trans hn
    · cases hc'.symm.trans hc
      cases hq
    · cases hc'.symm.trans hc₁
      rw [hr]
      rcases hm.queued hq with hq | ⟨payload, rfl⟩
      · obtain ⟨payload, hp⟩ := hlog.queued i c hc hq
        exact ⟨payload, List.mem_append_left _ hp⟩
      · have he : e = some (.enqueue i c.request.name payload) := ho
        exact ⟨payload, by simp [he]⟩

theorem logOk_run {cfg : Config} {allowed : State ι → Action ι → Prop} {s : State ι}
    {log : List (Event ι)} (h : Run cfg allowed s log) : LogOk s log := by
  induction h with
  | init => exact logOk_init
  | step _ _ hs ih => exact logOk_step ih (step_effect hs)

theorem PhaseMove.acked {ι : Type} {cfg : Config} {s : State ι} {finished : Prop} {slot : Slot}
    {request : Request} {phase phase' : Phase} {v : Option (Bool × Bytes)}
    (h : PhaseMove cfg s finished slot request phase phase' v) (ha : phase.Acked) :
    phase'.Acked := by
  cases h with
  | stay => exact ha
  | notifyLocal n => cases ha
  | notifyGateway peer n => cases ha
  | complete peer done hf => rfl
  | own h =>
    cases h with
    | sleepGateway hph hstop hb => rcases hph with ⟨rfl, _⟩ | ⟨⟨n, rfl⟩, _⟩ <;> cases ha
    | gatewayClosed hph hstop => rcases hph with rfl | ⟨n, rfl⟩ <;> cases ha
    | acknowledge => rfl
    | relay reply => exact ha
    | _ => cases ha
  | localWrite hr hp => cases ha
  | localRead hph => rcases hph with ⟨rfl, _⟩ | ⟨rfl, _⟩ <;> cases ha
  | gatewayWrite hr => cases ha
  | gatewayRead hph => rcases hph with ⟨rfl, _⟩ | ⟨⟨n, rfl⟩, _⟩ <;> cases ha

theorem acknowledged_step {cfg : Config} {s s' : State ι} {act : Action ι} {e : Option (Event ι)}
    (h : Effect cfg s act s' e) {i : ι} (ha : Acknowledged s i) : Acknowledged s' i := by
  obtain ⟨c, hc, hacked⟩ := ha
  rcases h.connMove i with ⟨_, hn, _⟩ | ⟨_, _, _, hn, _⟩ | ⟨c₁, c', v, hc₁, hc', _, _, hm, _⟩
  · cases hc.symm.trans hn
  · cases hc.symm.trans hn
  · cases hc.symm.trans hc₁
    exact ⟨c', hc', hm.acked hacked⟩

theorem pipeMove_step {cfg : Config} {s s' : State ι} {act : Action ι} {e : Option (Event ι)}
    (hinv : Invariant cfg s) (h : Effect cfg s act s' e) {x : Text} {a b : Slot}
    (hx : PipeEnds cfg.routing x a b) :
    PipeMove x (Acknowledged s') (s.pipe a b x) e (s'.pipe a b x) := by
  by_cases hab : a = b
  · subst hab
    exact pipeMove_local hinv h hx
  · exact pipeMove_remote hinv h hx hab

theorem account_run {cfg : Config} {s : State ι} {log : List (Event ι)}
    (h : Run cfg (Placed cfg) s log) {x : Text} {a b : Slot} (hx : PipeEnds cfg.routing x a b) :
    ∃ acked, Account (s.pipe a b x) (enqueued log x) (dequeued log x) acked ∧
      ∀ w ∈ acked, Acknowledged s w.1 := by
  induction h with
  | init =>
    refine ⟨[], ⟨?_, ?_⟩, by simp⟩ <;>
      by_cases hab : a = b <;> simp [State.pipe, State.init, remotePipe, Loop.sending, hab]
  | step hrun ha hs ih =>
    obtain ⟨acked, hacc, hdone⟩ := ih
    have heff := step_effect hs
    obtain ⟨acked', hacc', hdone'⟩ := (pipeMove_step (invariant_run hrun) heff hx).account hacc
    refine ⟨acked', ?_, ?_⟩
    · rwa [enqueued_append, dequeued_append]
    · intro w hw
      rcases hdone' w hw with hw | hw
      · exact acknowledged_step heff (hdone w hw)
      · exact hw

theorem event_ends {cfg : Config} {s s' : State ι} {act : Action ι} {e : Option (Event ι)}
    (hinv : Invariant cfg s) (h : Effect cfg s act s' e) :
    ∀ v ∈ e, ∃ a b, PipeEnds cfg.routing v.name a b := by
  intro v hv
  cases h with
  | localWrite h hph hr hp hlimit =>
    cases Option.mem_some_iff.mp hv
    exact ⟨_, _, joins_localWrite hinv h hr hp⟩
  | localRead ha h hph hq =>
    cases Option.mem_some_iff.mp hv
    exact ⟨_, _, joins_localRead hinv h hph⟩
  | gatewayWrite h hph hr hf =>
    cases Option.mem_some_iff.mp hv
    exact ⟨_, _, (joins_gatewayWrite hinv h hph hr).1⟩
  | gatewayRead ha h hph hstop hq =>
    cases Option.mem_some_iff.mp hv
    exact ⟨_, _, (joins_gatewayRead hinv h hph).1⟩
  | _ => cases hv

theorem events_ends {cfg : Config} {s : State ι} {log : List (Event ι)}
    (h : Run cfg (Placed cfg) s log) : ∀ v ∈ log, ∃ a b, PipeEnds cfg.routing v.name a b := by
  induction h with
  | init => simp
  | step hrun ha hs ih =>
    intro v hv
    rcases List.mem_append.mp hv with hv | hv
    · exact ih v hv
    · exact event_ends (invariant_run hrun) (step_effect hs) v (Option.mem_toList.mp hv)

theorem ring_ends_step {cfg : Config} {s s' : State ι} {act : Action ι} {e : Option (Event ι)}
    (hinv : Invariant cfg s) (h : Effect cfg s act s' e)
    (hring : ∀ a b, ∀ f ∈ (s.gateway a b).ring, ∃ c d, PipeEnds cfg.routing f.1 c d) (a b : Slot) :
    ∀ f ∈ (s'.gateway a b).ring, ∃ c d, PipeEnds cfg.routing f.1 c d := by
  have hset : ∀ {s₀ : State ι} {slot peer : Slot} {g : Gateway ι},
      (∀ f ∈ (s₀.gateway a b).ring, ∃ c d, PipeEnds cfg.routing f.1 c d) →
      (∀ f ∈ g.ring, ∃ c d, PipeEnds cfg.routing f.1 c d) →
      ∀ f ∈ ((s₀.setGateway slot peer g).gateway a b).ring, ∃ c d, PipeEnds cfg.routing f.1 c d :=
    fun h₀ hg => State.setGateway_elim
      (P := fun _ _ g => ∀ f ∈ g.ring, ∃ c d, PipeEnds cfg.routing f.1 c d) h₀ hg
  cases h with
  | gatewayWrite h hph hr hf => exact hset (hring a b) (hring _ _)
  | gatewayRead ha h hph hstop hq => exact hset (hring a b) (hring _ _)
  | pick hl hstop ho => exact hset (hring a b) (hring _ _)
  | allocFail hl => exact hset (hring a b) (hring _ _)
  | @send slot peer p hl =>
    refine hset (hring a b) ?_
    intro f hf
    rcases List.mem_append.mp hf with hf | hf
    · exact hring _ _ f hf
    · rcases List.mem_singleton.mp hf with rfl
      exact ⟨slot, peer, ends_front hinv (Or.inl hl)⟩
  | finish hl => exact hset (hring a b) (hring _ _)
  | @receive slot peer name payload rest hne hl hstop hq hf =>
    refine hset (hset (hring a b) ?_) (hring _ _)
    exact fun f hf => hring peer slot f (by rw [hq]; exact List.mem_cons_of_mem _ hf)
  | @drop slot peer name payload rest hq hf =>
    refine hset (hring a b) ?_
    exact fun f hf => hring peer slot f (by rw [hq]; exact List.mem_cons_of_mem _ hf)
  | notify hl => exact hset (hring a b) (hring _ _)
  | terminate hl => exact hset (hring a b) (hring _ _)
  | _ => exact hring a b

/-- The rings hold only frames that the byte codec of the gateways transports:
the entry that `ForwardOneWrite` fills is the one that `ReceiveAll` decodes. -/
theorem ring_frames_decode {cfg : Config} {s : State ι} {log : List (Event ι)}
    (h : Run cfg (Placed cfg) s log) {a b : Slot} {f : Text × Bytes} (hf : f ∈ (s.gateway a b).ring)
    {entry : Bytes} (he : entry.length = kEntryBytes) :
    decodeEntry (fillEntry entry f.1 f.2) = .frame f.1 f.2 := by
  have hends : ∀ a b, ∀ f ∈ (s.gateway a b).ring, ∃ c d, PipeEnds cfg.routing f.1 c d := by
    clear hf
    induction h with
    | init => simp [State.init]
    | step hrun ha hs ih => exact ring_ends_step (invariant_run hrun) (step_effect hs) ih
  obtain ⟨c, d, hsource, _⟩ := hends a b f hf
  obtain ⟨hne, hname, hpayload⟩ := ((invariant_run h).gateways a b).frames f hf
  refine decodeEntry_fillEntry he hne hname ?_ hpayload
  intro ch hch
  unfold Routing.sourceSlot Routing.farSlot at hsource
  split at hsource
  · cases hsource
  · rename_i hmatch
    have := (matchPipeName_chars hmatch ch hch).toNat_lt
    omega

/-- On every pipe the payloads that reads dequeue are a prefix of the payloads
of the acknowledged or unanswered writes, in the order these were enqueued. A
read dequeues at most one payload, of the length it asks for, and is answered
with exactly that payload; a write enqueues its own payload once, before it is
acknowledged. -/
theorem reads_are_prefix_of_writes {cfg : Config} {s : State ι} {log : List (Event ι)}
    (h : Run cfg (Placed cfg) s log) (x : Text) :
    (dequeued log x).map Prod.snd <+:
      ((enqueued log x).filter fun w => s.standing w.1).map Prod.snd ∧
    ((dequeued log x).map Prod.fst).Nodup ∧
    ((enqueued log x).map Prod.fst).Nodup ∧
    (∀ i data, (i, data) ∈ dequeued log x ↔
      ∃ c, s.conn i = some c ∧ c.request.name = x ∧
        (c.phase = .gatewayReplied (.okData data) ∨ c.phase = .replied (.okData data))) ∧
    (∀ i data, (i, data) ∈ dequeued log x →
      ∃ c path, s.conn i = some c ∧ c.request = .read path data.length) ∧
    (∀ i payload, (i, payload) ∈ enqueued log x →
      ∃ c path, s.conn i = some c ∧ c.request = .write path payload ∧ c.request.name = x) ∧
    ∀ i c path payload, s.conn i = some c → c.request = .write path payload →
      c.request.name = x → c.phase = .gatewayReplied .ok ∨ c.phase = .replied .ok →
        (i, payload) ∈ enqueued log x := by
  have hinv := invariant_run h
  have hlog := logOk_run h
  have hreads : ∀ i data, (i, data) ∈ dequeued log x ↔
      ∃ c, s.conn i = some c ∧ c.request.name = x ∧
        (c.phase = .gatewayReplied (.okData data) ∨ c.phase = .replied (.okData data)) := by
    intro i data
    rw [mem_dequeued, hlog.reads]
    simp only [Phase.data_eq_some_iff]
  have hwrites : ∀ i payload, (i, payload) ∈ enqueued log x →
      ∃ c path, s.conn i = some c ∧ c.request = .write path payload ∧ c.request.name = x := by
    intro i payload hm
    have hv := mem_enqueued.mp hm
    obtain ⟨c, path, hc, hr⟩ := hlog.writes i x payload hv
    obtain ⟨c₁, hc₁, hname, _⟩ := hlog.settled _ hv
    cases hc.symm.trans hc₁
    exact ⟨c, path, hc, hr, hname⟩
  refine ⟨?_, owners_filterMap (dequeuedOn_owner x) hlog.owners,
    owners_filterMap (enqueuedOn_owner x) hlog.owners, hreads, ?_, hwrites, ?_⟩
  · by_cases hx : ∃ a b, PipeEnds cfg.routing x a b
    · obtain ⟨a, b, hx⟩ := hx
      obtain ⟨acked, hacc, hdone⟩ := account_run h hx
      exact prefix_of_account hinv hacc hdone
    · have hnil : dequeued log x = [] := by
        refine List.eq_nil_iff_forall_not_mem.mpr ?_
        rintro ⟨i, data⟩ hm
        exact hx (events_ends h _ (mem_dequeued.mp hm))
      rw [hnil]
      exact List.nil_prefix
  · intro i data hm
    obtain ⟨c, hc, _, hph⟩ := (hreads i data).mp hm
    obtain ⟨path, hr⟩ := (hinv.phases i c hc).read (Phase.data_eq_some_iff.mpr hph)
    exact ⟨c, path, hc, hr⟩
  · intro i c path payload hc hr hname hph
    obtain ⟨payload', hm⟩ := hlog.queued i c hc
      (by rcases hph with hph | hph <;> simp [hph, Phase.queued])
    rw [hname] at hm
    obtain ⟨c₁, path', hc₁, hr', _⟩ := hwrites i payload' (mem_enqueued.mpr hm)
    cases hc.symm.trans hc₁
    cases hr.symm.trans hr'
    exact mem_enqueued.mpr hm

/-- Two writes to one pipe are accepted in the other order, and the read of the second
payload arrives before the read of the first. -/
def interleavedSchedule : List (Action Nat) :=
  [.connect 0 0 (.write crossPipe ones), .connect 1 0 (.write crossPipe twos),
    .connect 2 0 (.write innerPipe threes), .handle 0, .handle 1, .accept 1, .accept 0, .handle 2,
    .connect 3 1 (.read crossPipe 4), .handle 3, .accept 3,
    .pick 0 1, .send 0 1, .receive 1 0, .notify 1 0, .finish 0 1, .wakeRead 3,
    .connect 4 0 (.read innerPipe 4), .handle 4,
    .connect 5 1 (.read crossPipe 8), .handle 5, .accept 5,
    .connect 6 0 (.write crossPipe threes), .handle 6, .accept 6,
    .pick 0 1, .send 0 1, .receive 1 0, .notify 1 0, .wakeRead 3]

def interleavedLog : List (Event Nat) :=
  [.enqueue 1 crossPipe twos, .enqueue 0 crossPipe ones, .enqueue 2 innerPipe threes,
    .dequeue 4 innerPipe threes, .dequeue 5 crossPipe twos, .enqueue 6 crossPipe threes,
    .dequeue 3 crossPipe ones]

theorem reads_are_prefix_of_writes_interleaved :
    ∃ s, Run twoSlots (Placed twoSlots) s interleavedLog ∧
      [twos, ones] <+: (([(1, twos), (0, ones), (6, threes)] : List (Nat × Bytes)).filter
        fun w => s.standing w.1).map Prod.snd ∧
      [threes] <+: (([(2, threes)] : List (Nat × Bytes)).filter fun w => s.standing w.1).map
        Prod.snd := by
  have hexec : (exec twoSlots interleavedSchedule State.init []).map Prod.snd =
      some interleavedLog := by
    decide +kernel
  have hplaced : ∀ a ∈ interleavedSchedule, a.Placed twoSlots := by decide +kernel
  obtain ⟨⟨s, log⟩, he, rfl⟩ := Option.map_eq_some_iff.mp hexec
  have hrun : Run twoSlots (Placed twoSlots) s interleavedLog :=
    Run.init.exec (fun a ha _ => hplaced a ha) he
  have hcross := (reads_are_prefix_of_writes hrun crossPipe).1
  have hinner := (reads_are_prefix_of_writes hrun innerPipe).1
  have henqueued : enqueued interleavedLog crossPipe = [(1, twos), (0, ones), (6, threes)] ∧
      enqueued interleavedLog innerPipe = [(2, threes)] := by decide +kernel
  have hdequeued : dequeued interleavedLog crossPipe = [(5, twos), (3, ones)] ∧
      dequeued interleavedLog innerPipe = [(4, threes)] := by decide +kernel
  rw [henqueued.1, hdequeued.1] at hcross
  rw [henqueued.2, hdequeued.2] at hinner
  exact ⟨s, hrun, hcross, hinner⟩

end ChipSystemSim
