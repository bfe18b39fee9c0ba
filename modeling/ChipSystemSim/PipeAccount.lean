import ChipSystemSim.TransportInvariant

/-! Every pipe of the transport is one queue. Each step of the transport moves
the queue of a pipe in one of six ways, and the moves account for every payload
that was written. -/

namespace ChipSystemSim

variable {ι : Type}

/-- A pipe as its writers and its readers see it: the writes its gateway holds,
a copy of the first of them if that is already in the ring, and the payloads
that are on their way to the reader. -/
@[ext]
structure Pipe (ι : Type) where
  pending : List (ι × Bytes)
  sending : List Bytes
  delivered : List Bytes

def Pipe.contents (p : Pipe ι) : List Bytes :=
  p.delivered ++ (p.pending.map Prod.snd).drop p.sending.length

def Event.name : Event ι → Text
  | enqueue _ name _ => name
  | dequeue _ name _ => name

def Event.enqueuedOn (x : Text) : Event ι → Option (ι × Bytes)
  | enqueue i name payload => if name = x then some (i, payload) else none
  | dequeue _ _ _ => none

def Event.dequeuedOn (x : Text) : Event ι → Option (ι × Bytes)
  | enqueue _ _ _ => none
  | dequeue i name payload => if name = x then some (i, payload) else none

def enqueued (log : List (Event ι)) (x : Text) : List (ι × Bytes) :=
  log.filterMap (Event.enqueuedOn x)

def dequeued (log : List (Event ι)) (x : Text) : List (ι × Bytes) :=
  log.filterMap (Event.dequeuedOn x)

theorem enqueued_append (log log' : List (Event ι)) (x : Text) :
    enqueued (log ++ log') x = enqueued log x ++ enqueued log' x := List.filterMap_append

theorem dequeued_append (log log' : List (Event ι)) (x : Text) :
    dequeued (log ++ log') x = dequeued log x ++ dequeued log' x := List.filterMap_append

@[simp] theorem enqueued_nil (x : Text) : enqueued ([] : List (Event ι)) x = [] := rfl

@[simp] theorem dequeued_nil (x : Text) : dequeued ([] : List (Event ι)) x = [] := rfl

@[simp] theorem enqueued_enqueue (i : ι) (x : Text) (payload : Bytes) :
    enqueued [.enqueue i x payload] x = [(i, payload)] := by simp [enqueued, Event.enqueuedOn]

@[simp] theorem enqueued_dequeue (i : ι) (x y : Text) (data : Bytes) :
    enqueued [.dequeue i y data] x = [] := rfl

@[simp] theorem dequeued_enqueue (i : ι) (x y : Text) (payload : Bytes) :
    dequeued [.enqueue i y payload] x = [] := rfl

@[simp] theorem dequeued_dequeue (i : ι) (x : Text) (data : Bytes) :
    dequeued [.dequeue i x data] x = [(i, data)] := by simp [dequeued, Event.dequeuedOn]

theorem mem_enqueued {log : List (Event ι)} {x : Text} {i : ι} {payload : Bytes} :
    (i, payload) ∈ enqueued log x ↔ .enqueue i x payload ∈ log := by
  simp only [enqueued, List.mem_filterMap]
  constructor
  · rintro ⟨v, hv, he⟩
    cases v with
    | enqueue j name data =>
      simp only [Event.enqueuedOn] at he
      split at he
      · rename_i hn
        cases he
        exact hn ▸ hv
      · cases he
    | dequeue j name data => cases he
  · exact fun hv => ⟨_, hv, by simp [Event.enqueuedOn]⟩

theorem mem_dequeued {log : List (Event ι)} {x : Text} {i : ι} {data : Bytes} :
    (i, data) ∈ dequeued log x ↔ .dequeue i x data ∈ log := by
  simp only [dequeued, List.mem_filterMap]
  constructor
  · rintro ⟨v, hv, he⟩
    cases v with
    | enqueue j name data => cases he
    | dequeue j name data =>
      simp only [Event.dequeuedOn] at he
      split at he
      · rename_i hn
        cases he
        exact hn ▸ hv
      · cases he
  · exact fun hv => ⟨_, hv, by simp [Event.dequeuedOn]⟩

theorem owners_filterMap {log : List (Event ι)} {f : Event ι → Option (ι × Bytes)}
    (hf : ∀ v w, f v = some w → w.1 = v.owner) (h : (log.map Event.owner).Nodup) :
    ((log.filterMap f).map Prod.fst).Nodup := by
  refine List.Nodup.sublist ?_ h
  clear h
  induction log with
  | nil => simp
  | cons v log ih =>
    rw [List.map_cons]
    cases hv : f v with
    | none =>
      rw [List.filterMap_cons_none hv]
      exact ih.cons _
    | some w =>
      rw [List.filterMap_cons_some hv, List.map_cons, hf v w hv]
      exact ih.cons_cons _

theorem enqueuedOn_owner (x : Text) (v : Event ι) (w : ι × Bytes) (h : v.enqueuedOn x = some w) :
    w.1 = v.owner := by
  cases v with
  | enqueue i name payload =>
    simp only [Event.enqueuedOn] at h
    split at h
    · cases h
      rfl
    · cases h
  | dequeue i name data => cases h

theorem dequeuedOn_owner (x : Text) (v : Event ι) (w : ι × Bytes) (h : v.dequeuedOn x = some w) :
    w.1 = v.owner := by
  cases v with
  | enqueue i name payload => cases h
  | dequeue i name data =>
    simp only [Event.dequeuedOn] at h
    split at h
    · cases h
      rfl
    · cases h

/-- How a step can move a pipe. A write is `done` once it is acknowledged. -/
inductive PipeMove (x : Text) (done : ι → Prop) : Pipe ι → Option (Event ι) → Pipe ι → Prop
  | stay {p : Pipe ι} {e : Option (Event ι)} (h : ∀ v ∈ e, v.name ≠ x) : PipeMove x done p e p
  | push {p : Pipe ι} (i : ι) (payload : Bytes) :
      PipeMove x done p (some (.enqueue i x payload))
        { p with pending := p.pending ++ [(i, payload)] }
  | deliver {p : Pipe ι} (i : ι) (payload : Bytes) (h : p.pending = []) (hs : p.sending = [])
      (hd : done i) :
      PipeMove x done p (some (.enqueue i x payload))
        { p with delivered := p.delivered ++ [payload] }
  | pop {p : Pipe ι} (i : ι) {data : Bytes} {rest : List Bytes} (h : p.delivered = data :: rest) :
      PipeMove x done p (some (.dequeue i x data)) { p with delivered := rest }
  | send {p : Pipe ι} {o : ι} {payload : Bytes} {rest : List (ι × Bytes)}
      (h : p.pending = (o, payload) :: rest) (hs : p.sending = []) :
      PipeMove x done p none
        { p with sending := [payload], delivered := p.delivered ++ [payload] }
  | finish {p : Pipe ι} {o : ι} {payload : Bytes} {rest : List (ι × Bytes)}
      (h : p.pending = (o, payload) :: rest) (hs : p.sending = [payload]) (hd : done o) :
      PipeMove x done p none { p with pending := rest, sending := [] }

/-- The writes of a pipe are the acknowledged ones followed by the pending ones,
and what was sent is what was read followed by what is delivered. -/
structure Account (p : Pipe ι) (enq deq acked : List (ι × Bytes)) : Prop where
  written : enq = acked ++ p.pending
  sent : acked.map Prod.snd ++ p.sending = deq.map Prod.snd ++ p.delivered

theorem enqueuedOn_eq_none {x : Text} {v : Event ι} (h : v.name ≠ x) : v.enqueuedOn x = none := by
  cases v with
  | enqueue i name payload => exact if_neg h
  | dequeue i name payload => rfl

theorem dequeuedOn_eq_none {x : Text} {v : Event ι} (h : v.name ≠ x) : v.dequeuedOn x = none := by
  cases v with
  | enqueue i name payload => rfl
  | dequeue i name payload => exact if_neg h

theorem enqueued_other {e : Option (Event ι)} {x : Text} (h : ∀ v ∈ e, v.name ≠ x) :
    enqueued e.toList x = [] := by
  cases e with
  | none => rfl
  | some v => simp [enqueued, enqueuedOn_eq_none (h v rfl)]

theorem dequeued_other {e : Option (Event ι)} {x : Text} (h : ∀ v ∈ e, v.name ≠ x) :
    dequeued e.toList x = [] := by
  cases e with
  | none => rfl
  | some v => simp [dequeued, dequeuedOn_eq_none (h v rfl)]

theorem PipeMove.account {x : Text} {done : ι → Prop} {p p' : Pipe ι} {e : Option (Event ι)}
    (h : PipeMove x done p e p') {enq deq acked : List (ι × Bytes)} (ha : Account p enq deq acked) :
    ∃ acked', Account p' (enq ++ enqueued e.toList x) (deq ++ dequeued e.toList x) acked' ∧
      ∀ w ∈ acked', w ∈ acked ∨ done w.1 := by
  obtain ⟨hw, hs⟩ := ha
  cases h with
  | stay he =>
    refine ⟨acked, ⟨?_, ?_⟩, fun w h => Or.inl h⟩
    · rw [enqueued_other he, List.append_nil, hw]
    · rw [dequeued_other he, List.append_nil, hs]
  | push i payload =>
    refine ⟨acked, ⟨?_, ?_⟩, fun w h => Or.inl h⟩
    · simp [hw]
    · simpa using hs
  | deliver i payload hp hn hd =>
    refine ⟨acked ++ [(i, payload)], ⟨?_, ?_⟩, ?_⟩
    · simp [hw, hp]
    · rw [hn, List.append_nil] at hs
      simp [hs, hn]
    · intro w hw
      rcases List.mem_append.mp hw with h | h
      · exact Or.inl h
      · rcases List.mem_singleton.mp h with rfl
        exact Or.inr hd
  | pop i hd =>
    refine ⟨acked, ⟨?_, ?_⟩, fun w h => Or.inl h⟩
    · simpa using hw
    · simp [hs, hd]
  | send hp hn =>
    refine ⟨acked, ⟨?_, ?_⟩, fun w h => Or.inl h⟩
    · simpa using hw
    · rw [hn, List.append_nil] at hs
      simp [hs]
  | @finish o payload rest hp hn hd =>
    refine ⟨acked ++ [(o, payload)], ⟨?_, ?_⟩, ?_⟩
    · simp [hw, hp]
    · rw [hn] at hs
      simpa using hs
    · intro w hw
      rcases List.mem_append.mp hw with h | h
      · exact Or.inl h
      · rcases List.mem_singleton.mp h with rfl
        exact Or.inr hd

def Loop.sending (x : Text) : Loop ι → List Bytes
  | .sent p => if p.name = x then [p.payload] else []
  | _ => []

def remotePipe (g h : Gateway ι) (x : Text) : Pipe ι :=
  { pending := (g.outgoing.filter (·.name = x)).map fun p => (p.owner, p.payload)
    sending := g.loop.sending x
    delivered := h.incoming x ++ (g.ring.filter (·.1 = x)).map Prod.snd }

def State.pipe (s : State ι) (a b : Slot) (x : Text) : Pipe ι :=
  if a = b then ⟨[], [], s.localPipes a x⟩ else remotePipe (s.gateway a b) (s.gateway b a) x

theorem pipe_local (s : State ι) (a : Slot) (x : Text) :
    s.pipe a a x = ⟨[], [], s.localPipes a x⟩ :=
  if_pos rfl

theorem pipe_remote (s : State ι) {a b : Slot} (h : a ≠ b) (x : Text) :
    s.pipe a b x = remotePipe (s.gateway a b) (s.gateway b a) x := if_neg h

def Phase.Acked : Phase → Prop
  | .gatewayWrite _ done => done = true
  | .gatewayReplied reply => reply = .ok
  | .replied reply => reply = .ok
  | _ => False

def Acknowledged (s : State ι) (i : ι) : Prop := ∃ c, s.conn i = some c ∧ c.phase.Acked

def PipeEnds (routing : Routing) (x : Text) (a b : Slot) : Prop :=
  routing.sourceSlot x = some a ∧ routing.destinationSlot x = some b

theorem PipeEnds.unique {routing : Routing} {x : Text} {a b a' b' : Slot}
    (h : PipeEnds routing x a b) (h' : PipeEnds routing x a' b') : a = a' ∧ b = b' :=
  ⟨Option.some.inj (h.1.symm.trans h'.1), Option.some.inj (h.2.symm.trans h'.2)⟩

theorem write_placed {cfg : Config} {s : State ι} (hinv : Invariant cfg s) {i : ι} {c : Conn}
    (h : s.conn i = some c) (hop : c.request.op = .W) :
    cfg.routing.sourceSlot c.request.name = some c.slot := by
  have := hinv.placed i c h
  simpa only [WellPlaced, hop] using this

theorem read_placed {cfg : Config} {s : State ι} (hinv : Invariant cfg s) {i : ι} {c : Conn}
    (h : s.conn i = some c) (hop : c.request.op = .R) :
    cfg.routing.destinationSlot c.request.name = some c.slot := by
  have := hinv.placed i c h
  simpa only [WellPlaced, hop] using this

theorem joins_localWrite {cfg : Config} {s : State ι} (hinv : Invariant cfg s) {i : ι} {c : Conn}
    {path : Text} {payload : Bytes} (h : s.conn i = some c) (hr : c.request = .write path payload)
    (hp : (Router.init c.slot cfg.routing).peerFor .W c.request.name = .ok c.slot) :
    PipeEnds cfg.routing c.request.name c.slot c.slot :=
  ⟨write_placed hinv h (by rw [hr]; rfl), peerFor_init_iff.mp hp⟩

theorem joins_localRead {cfg : Config} {s : State ι} (hinv : Invariant cfg s) {i : ι} {c : Conn}
    {data : Bytes} (h : s.conn i = some c)
    (hph : (c.phase = .connected ∧ (∃ path, c.request = .read path data.length) ∧
        (Router.init c.slot cfg.routing).peerFor .R c.request.name = .ok c.slot) ∨
      (c.phase = .localWait true ∧ data.length = c.request.byteCount)) :
    PipeEnds cfg.routing c.request.name c.slot c.slot := by
  rcases hph with ⟨_, ⟨path, hr⟩, hp⟩ | ⟨hph, _⟩
  · exact ⟨peerFor_init_iff.mp hp, read_placed hinv h (by rw [hr]; rfl)⟩
  · have hok := hinv.phases i c h
    rw [hph] at hok
    exact ⟨hok.2, read_placed hinv h hok.1⟩

theorem joins_gatewayWrite {cfg : Config} {s : State ι} (hinv : Invariant cfg s) {i : ι} {c : Conn}
    {peer : Slot} {path : Text} {payload : Bytes} (h : s.conn i = some c)
    (hph : c.phase = .forwarded peer) (hr : c.request = .write path payload) :
    PipeEnds cfg.routing c.request.name c.slot peer ∧ c.slot ≠ peer := by
  have hop : c.request.op = .W := by rw [hr]; rfl
  have hok := hinv.phases i c h
  rw [hph] at hok
  have hfar := hok.2
  rw [hop] at hfar
  exact ⟨⟨write_placed hinv h hop, hfar⟩, hok.1.symm⟩

theorem joins_gatewayRead {cfg : Config} {s : State ι} (hinv : Invariant cfg s) {i : ι} {c : Conn}
    {peer : Slot} {data : Bytes} (h : s.conn i = some c)
    (hph : (c.phase = .forwarded peer ∧ ∃ path, c.request = .read path data.length) ∨
      ((∃ n, c.phase = .gatewayRead peer n) ∧ data.length = c.request.byteCount)) :
    PipeEnds cfg.routing c.request.name peer c.slot ∧ peer ≠ c.slot := by
  have hok := hinv.phases i c h
  rcases hph with ⟨hph, path, hr⟩ | ⟨⟨n, hph⟩, _⟩
  · have hop : c.request.op = .R := by rw [hr]; rfl
    rw [hph] at hok
    have hfar := hok.2
    rw [hop] at hfar
    exact ⟨⟨hfar, read_placed hinv h hop⟩, hok.1⟩
  · rw [hph] at hok
    exact ⟨⟨hok.2.2, read_placed hinv h hok.1⟩, hok.2.1⟩

theorem pipe_setGateway_source (s : State ι) {a b : Slot} (hab : a ≠ b) (g : Gateway ι) (x : Text) :
    (s.setGateway a b g).pipe a b x = remotePipe g (s.gateway b a) x := by
  have hne : ¬(b = a ∧ a = b) := fun h => hab h.2
  rw [pipe_remote _ hab, State.setGateway_gateway_self, State.setGateway_gateway_of_ne s g hne]

theorem pipe_setGateway_dest (s : State ι) {a b : Slot} (hab : a ≠ b) (g : Gateway ι) (x : Text) :
    (s.setGateway b a g).pipe a b x = remotePipe (s.gateway a b) g x := by
  have hne : ¬(a = b ∧ b = a) := fun h => hab h.1
  rw [pipe_remote _ hab, State.setGateway_gateway_self, State.setGateway_gateway_of_ne s g hne]

theorem pipe_setGateway_other (s : State ι) {a b slot peer : Slot} (g : Gateway ι) (x : Text)
    (h : ¬(a = slot ∧ b = peer)) (h' : ¬(b = slot ∧ a = peer)) :
    (s.setGateway slot peer g).pipe a b x = s.pipe a b x := by
  unfold State.pipe
  rw [State.setGateway_localPipes, State.setGateway_gateway_of_ne s g h,
    State.setGateway_gateway_of_ne s g h']

theorem pipe_setGateway_same (s : State ι) {a b slot peer : Slot} (hab : a ≠ b) {g : Gateway ι}
    {x : Text} (hsource : ∀ h, remotePipe g h x = remotePipe (s.gateway slot peer) h x)
    (hdest : g.incoming x = (s.gateway slot peer).incoming x) :
    (s.setGateway slot peer g).pipe a b x = s.pipe a b x := by
  by_cases h₁ : a = slot ∧ b = peer
  · obtain ⟨rfl, rfl⟩ := h₁
    rw [pipe_setGateway_source s hab, hsource, pipe_remote _ hab]
  · by_cases h₂ : b = slot ∧ a = peer
    · obtain ⟨rfl, rfl⟩ := h₂
      rw [pipe_setGateway_dest s hab, pipe_remote _ hab]
      simp only [remotePipe, hdest]
    · exact pipe_setGateway_other s g x h₁ h₂

theorem ends_front {cfg : Config} {s : State ι} (hinv : Invariant cfg s) {slot peer : Slot}
    {p : Pending ι} (hl : (s.gateway slot peer).loop = .picked p ∨
      (s.gateway slot peer).loop = .sent p) :
    PipeEnds cfg.routing p.name slot peer := by
  have hg := hinv.gateways slot peer
  have hrun := hg.running (by rcases hl with hl | hl <;> simp [hl])
  obtain ⟨_, c, path, hc, hslot, hr, hname, hph⟩ :=
    hinv.pendings slot peer p (List.mem_of_head? (hg.front p hl))
  rcases hph with hph | ⟨hstop, _⟩
  · have hok := hinv.phases _ c hc
    rw [hph] at hok
    exact ⟨hname ▸ hslot ▸ write_placed hinv hc hok.1, hname ▸ hok.2.2⟩
  · simp [hrun] at hstop

section Moves

variable (s : State ι) {a b : Slot} (hab : a ≠ b)
include hab

theorem pipe_push (i : ι) (x : Text) (payload : Bytes) :
    (s.setGateway a b
      { s.gateway a b with outgoing := (s.gateway a b).outgoing ++ [⟨i, x, payload⟩] }).pipe a b x =
      { s.pipe a b x with pending := (s.pipe a b x).pending ++ [(i, payload)] } := by
  rw [pipe_setGateway_source s hab, pipe_remote _ hab]
  simp [remotePipe]

theorem pipe_pop (x : Text) (rest : List Bytes) :
    (s.setGateway b a
        { s.gateway b a with
          incoming := Function.update (s.gateway b a).incoming x rest }).pipe a b x =
      { s.pipe a b x with
        delivered := rest ++ ((s.gateway a b).ring.filter (·.1 = x)).map Prod.snd } := by
  rw [pipe_setGateway_dest s hab, pipe_remote _ hab]
  simp [remotePipe]

theorem pipe_send (p : Pending ι) :
    (s.setGateway a b { s.gateway a b with
      ring := (s.gateway a b).ring ++ [(p.name, p.payload)], loop := .sent p }).pipe a b p.name =
      { s.pipe a b p.name with
        sending := [p.payload], delivered := (s.pipe a b p.name).delivered ++ [p.payload] } := by
  rw [pipe_setGateway_source s hab, pipe_remote _ hab]
  simp [remotePipe, Loop.sending]

theorem pipe_finish [DecidableEq ι] {p : Pending ι} {rest : List (Pending ι)}
    (hrest : (s.gateway a b).outgoing = p :: rest) :
    (finishWrite s a b p).pipe a b p.name =
      { s.pipe a b p.name with
        pending := (rest.filter (·.name = p.name)).map fun q => (q.owner, q.payload), sending :=
          [] } := by
  have hp := pipe_setGateway_source s hab
    { s.gateway a b with
      outgoing := if (s.gateway a b).outgoing.head? = some p then (s.gateway a b).outgoing.tail
        else (s.gateway a b).outgoing
      loop := .idle } p.name
  refine hp.trans ?_
  rw [pipe_remote _ hab]
  simp [remotePipe, Loop.sending, hrest]

theorem pending_front {p : Pending ι} {rest : List (Pending ι)}
    (hrest : (s.gateway a b).outgoing = p :: rest) :
    (s.pipe a b p.name).pending =
      (p.owner, p.payload) :: (rest.filter (·.name = p.name)).map fun q =>
        (q.owner, q.payload) := by
  rw [pipe_remote _ hab]
  simp [remotePipe, hrest]

/-- A frame that leaves the ring for the queue of its name stays in its pipe. -/
theorem pipe_receive {slot peer : Slot} {x name : Text} {payload : Bytes}
    {rest : List (Text × Bytes)} (hq : (s.gateway peer slot).ring = (name, payload) :: rest)
    (hl : (s.gateway slot peer).loop = .idle) :
    ((s.setGateway peer slot { s.gateway peer slot with ring := rest }).setGateway slot peer
      { s.gateway slot peer with
        incoming := Function.update (s.gateway slot peer).incoming name
          ((s.gateway slot peer).incoming name ++ [payload])
        loop := .notifying }).pipe a b x = s.pipe a b x := by
  by_cases hends : a = peer ∧ b = slot
  · obtain ⟨rfl, rfl⟩ := hends
    rw [pipe_setGateway_dest _ hab, State.setGateway_gateway_self, pipe_remote _ hab]
    by_cases hn : name = x
    · subst hn
      simp [remotePipe, hq]
    · simp [remotePipe, hq, hn, Function.update_of_ne (Ne.symm hn)]
  · by_cases hends' : a = slot ∧ b = peer
    · obtain ⟨rfl, rfl⟩ := hends'
      rw [pipe_setGateway_source _ hab, pipe_remote _ hab]
      simp [remotePipe, hl, Loop.sending]
    · rw [pipe_setGateway_other _ _ _ hends' (fun h => hends ⟨h.2, h.1⟩),
        pipe_setGateway_other _ _ _ hends (fun h => hends' ⟨h.2, h.1⟩)]

end Moves

variable [DecidableEq ι]

theorem pipeMove_local {cfg : Config} {s s' : State ι} {act : Action ι} {e : Option (Event ι)}
    (hinv : Invariant cfg s) (h : Effect cfg s act s' e) {x : Text} {a : Slot}
    (hx : PipeEnds cfg.routing x a a) :
    PipeMove x (Acknowledged s') (s.pipe a a x) e (s'.pipe a a x) := by
  rw [pipe_local, pipe_local]
  have hnone : ∀ v ∈ (none : Option (Event ι)), v.name ≠ x := by simp
  cases h with
  | connect h => exact .stay hnone
  | phase ha h hs => exact .stay hnone
  | close h => exact .stay hnone
  | @localWrite i c path payload h hph hr hp hlimit =>
    have hj := joins_localWrite hinv h hr hp
    simp only [State.setPhase_localPipes, State.notifyLocal_localPipes, State.setLocal_localPipes]
    by_cases hn : c.request.name = x
    · subst hn
      obtain ⟨rfl, -⟩ := hx.unique hj
      rw [if_pos ⟨rfl, rfl⟩]
      exact .deliver i payload rfl rfl ⟨_, State.setPhase_conn_self .., rfl⟩
    · rw [if_neg fun h => hn h.2.symm]
      exact .stay (by simpa [Event.name] using hn)
  | @localRead _ i c data rest ha h hph hq =>
    have hj := joins_localRead hinv h hph
    simp only [State.setPhase_localPipes, State.setLocal_localPipes]
    by_cases hn : c.request.name = x
    · subst hn
      obtain ⟨rfl, -⟩ := hx.unique hj
      rw [if_pos ⟨rfl, rfl⟩]
      exact .pop i hq
    · rw [if_neg fun h => hn h.2.symm]
      exact .stay (by simpa [Event.name] using hn)
  | @gatewayWrite i c peer path payload h hph hr hf =>
    obtain ⟨hj, hne⟩ := joins_gatewayWrite hinv h hph hr
    refine .stay ?_
    rintro v hv rfl
    cases Option.mem_some_iff.mp hv
    obtain ⟨h₁, h₂⟩ := hx.unique hj
    exact hne (h₁.symm.trans h₂)
  | @gatewayRead _ i c peer data rest ha h hph hstop hq =>
    obtain ⟨hj, hne⟩ := joins_gatewayRead hinv h hph
    refine .stay ?_
    rintro v hv rfl
    cases Option.mem_some_iff.mp hv
    obtain ⟨h₁, h₂⟩ := hx.unique hj
    exact hne (h₁.symm.trans h₂)
  | pick hl hstop ho => exact .stay hnone
  | allocFail hl => exact .stay hnone
  | send hl => exact .stay hnone
  | finish hl => exact .stay hnone
  | receive hne hl hstop hq hf => exact .stay hnone
  | drop hq hf => exact .stay hnone
  | notify hl => exact .stay hnone
  | terminate hl => exact .stay hnone

theorem acknowledged_finish {cfg : Config} {s : State ι} (hinv : Invariant cfg s) {slot peer : Slot}
    {p : Pending ι} (hl : (s.gateway slot peer).loop = .sent p) :
    Acknowledged (finishWrite s slot peer p) p.owner := by
  have hg := hinv.gateways slot peer
  have hrun := hg.running (by simp [hl])
  obtain ⟨_, c, path, hc, _, _, _, hph⟩ :=
    hinv.pendings slot peer p (List.mem_of_head? (hg.front p (Or.inr hl)))
  rcases hph with hph | ⟨hstop, _⟩
  · refine ⟨c.complete, ?_, ?_⟩
    · simp [finishWrite, hc]
    · simp [Conn.complete, hph, Phase.Acked]
  · simp [hrun] at hstop

theorem pipeMove_remote {cfg : Config} {s s' : State ι} {act : Action ι} {e : Option (Event ι)}
    (hinv : Invariant cfg s) (h : Effect cfg s act s' e) {x : Text} {a b : Slot}
    (hx : PipeEnds cfg.routing x a b) (hab : a ≠ b) :
    PipeMove x (Acknowledged s') (s.pipe a b x) e (s'.pipe a b x) := by
  have hsame : s'.pipe a b x = s.pipe a b x → (∀ v ∈ e, v.name ≠ x) →
      PipeMove x (Acknowledged s') (s.pipe a b x) e (s'.pipe a b x) := by
    intro hp he
    rw [hp]
    exact .stay he
  have hnone : ∀ v ∈ (none : Option (Event ι)), v.name ≠ x := by simp
  cases h with
  | connect h => exact hsame rfl hnone
  | phase ha h hs => exact hsame rfl hnone
  | close h => exact hsame rfl hnone
  | @localWrite i c path payload h hph hr hp hlimit =>
    have hj := joins_localWrite hinv h hr hp
    refine hsame ?_ ?_
    · simp only [pipe_remote _ hab, State.setPhase_gateway, State.notifyLocal_gateway,
        State.setLocal_gateway]
    · rintro v hv rfl
      cases Option.mem_some_iff.mp hv
      obtain ⟨h₁, h₂⟩ := hx.unique hj
      exact hab (h₁.trans h₂.symm)
  | @localRead _ i c data rest ha h hph hq =>
    have hj := joins_localRead hinv h hph
    refine hsame ?_ ?_
    · simp only [pipe_remote _ hab, State.setPhase_gateway, State.setLocal_gateway]
    · rintro v hv rfl
      cases Option.mem_some_iff.mp hv
      obtain ⟨h₁, h₂⟩ := hx.unique hj
      exact hab (h₁.trans h₂.symm)
  | @gatewayWrite i c peer path payload h hph hr hf =>
    obtain ⟨hj, hne⟩ := joins_gatewayWrite hinv h hph hr
    by_cases hn : c.request.name = x
    · subst hn
      obtain ⟨rfl, rfl⟩ := hx.unique hj
      have hpush := pipe_push s hab i c.request.name payload
      exact (congrArg (PipeMove _ _ _ _) hpush).mpr (.push i payload)
    · refine hsame ?_ (by simpa [Event.name] using hn)
      exact pipe_setGateway_same s hab (fun h => by simp [remotePipe, hn]) rfl
  | @gatewayRead _ i c peer data rest ha h hph hstop hq =>
    obtain ⟨hj, hne⟩ := joins_gatewayRead hinv h hph
    by_cases hn : c.request.name = x
    · subst hn
      obtain ⟨rfl, rfl⟩ := hx.unique hj
      have hpop := pipe_pop s hab c.request.name rest
      refine (congrArg (PipeMove _ _ _ _) hpop).mpr (.pop i ?_)
      rw [pipe_remote _ hab]
      simp [remotePipe, hq]
    · refine hsame ?_ (by simpa [Event.name] using hn)
      refine pipe_setGateway_same s hab (fun h => rfl) ?_
      exact Function.update_of_ne (Ne.symm hn) ..
  | pick hl hstop ho =>
    exact hsame (pipe_setGateway_same s hab (fun h => by simp [remotePipe, hl, Loop.sending]) rfl)
      hnone
  | allocFail hl =>
    exact hsame (pipe_setGateway_same s hab (fun h => by simp [remotePipe, hl, Loop.sending]) rfl)
      hnone
  | @send slot peer p hl =>
    by_cases hn : p.name = x
    · subst hn
      obtain ⟨rfl, rfl⟩ := hx.unique (ends_front hinv (Or.inl hl))
      obtain ⟨rest, hrest⟩ := List.head?_eq_some_iff.mp ((hinv.gateways a b).front p (Or.inl hl))
      refine (congrArg (PipeMove _ _ _ _) (pipe_send s hab p)).mpr
        (.send (pending_front s hab hrest) ?_)
      rw [pipe_remote _ hab]
      simp [remotePipe, hl, Loop.sending]
    · exact hsame (pipe_setGateway_same s hab
        (fun h => by simp [remotePipe, hl, hn, Loop.sending]) rfl) hnone
  | @finish slot peer p hl =>
    have hfront := (hinv.gateways slot peer).front p (Or.inr hl)
    obtain ⟨rest, hrest⟩ := List.head?_eq_some_iff.mp hfront
    by_cases hn : p.name = x
    · subst hn
      obtain ⟨rfl, rfl⟩ := hx.unique (ends_front hinv (Or.inr hl))
      refine (congrArg (PipeMove _ _ _ _) (pipe_finish s hab hrest)).mpr
        (.finish (pending_front s hab hrest) ?_ (acknowledged_finish hinv hl))
      rw [pipe_remote _ hab]
      simp [remotePipe, hl, Loop.sending]
    · refine hsame (pipe_setGateway_same s hab (fun h => ?_) rfl) hnone
      simp [remotePipe, hl, hn, Loop.sending, hrest]
  | @receive slot peer name payload rest hne hl hstop hq hf =>
    exact hsame (pipe_receive s hab hq hl) hnone
  | @drop slot peer name payload rest hq hf =>
    exact absurd ((hinv.gateways peer slot).frames (name, payload) (by simp [hq])) hf
  | notify hl =>
    exact hsame (pipe_setGateway_same s hab (fun h => by simp [remotePipe, hl, Loop.sending]) rfl)
      hnone
  | terminate hl => exact hsame (pipe_setGateway_same s hab (fun h => rfl) rfl) hnone

end ChipSystemSim
