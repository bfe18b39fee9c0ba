import ChipSystemSim.TransportFifo

/-! Clients that close their connection. Neither the router nor the gateway
watches the connection of a waiting read, so a read outlives its client: it
still takes one payload, but only of its own pipe and its own size. -/

namespace ChipSystemSim

variable {ι : Type}

theorem contents_of_account {cfg : Config} {s : State ι} (hinv : Invariant cfg s)
    {a b : Slot} {x : Text} {enq deq acked : List (ι × Bytes)}
    (hacc : Account (s.pipe a b x) enq deq acked) :
    enq.map Prod.snd = deq.map Prod.snd ++ (s.pipe a b x).contents := by
  have hsent := hacc.sent
  rw [hacc.written, List.map_append, Pipe.contents]
  rcases sending_cases hinv a b x with hs | ⟨o, payload, rest, hs, hp, _⟩
  · rw [hs, List.append_nil] at hsent
    rw [hs, hsent, List.length_nil, List.drop_zero, List.append_assoc]
  · rw [hs] at hsent
    rw [hs, hp, List.map_cons, List.append_cons, hsent]
    simp

theorem PipeMove.contents {x : Text} {done : ι → Prop} {p p' : Pipe ι} {e : Option (Event ι)}
    (h : PipeMove x done p e p') (hsending : p.sending.length ≤ p.pending.length) :
    ((∀ v ∈ e, v.name ≠ x) ∧ p'.contents = p.contents) ∨
    (∃ i payload, e = some (.enqueue i x payload) ∧ p'.contents = p.contents ++ [payload]) ∨
    ∃ i data, e = some (.dequeue i x data) ∧ p.contents = data :: p'.contents := by
  cases h with
  | stay he => exact Or.inl ⟨he, rfl⟩
  | push i payload =>
    refine Or.inr (Or.inl ⟨i, payload, rfl, ?_⟩)
    have hlen : p.sending.length ≤ (p.pending.map Prod.snd).length := by simpa using hsending
    simp [Pipe.contents, List.drop_append_of_le_length hlen]
  | deliver i payload hp hn hd =>
    exact Or.inr (Or.inl ⟨i, payload, rfl, by simp [Pipe.contents, hp]⟩)
  | @pop i data rest hd => exact Or.inr (Or.inr ⟨i, data, rfl, by simp [Pipe.contents, hd]⟩)
  | send hp hn => exact Or.inl ⟨by simp, by simp [Pipe.contents, hp, hn]⟩
  | finish hp hn hd => exact Or.inl ⟨by simp, by simp [Pipe.contents, hp, hn]⟩

variable [DecidableEq ι]

theorem dequeue_request {cfg : Config} {s s' : State ι} {act : Action ι} {i : ι} {x : Text}
    {data : Bytes} (hinv : Invariant cfg s) (h : Effect cfg s act s' (some (.dequeue i x data))) :
    ∃ c path, s.conn i = some c ∧ c.request = .read path data.length ∧ c.request.name = x := by
  rcases h.connMove i with ⟨_, _, he⟩ | ⟨_, _, _, _, _, he⟩ | ⟨c, c', v, hc, hc', _, _, hm, ho⟩
  · exact absurd rfl (he _ rfl)
  · cases he
  rcases ownEvent_cases ho with ⟨_, he⟩ | ⟨payload, _, he⟩ | ⟨d, rfl, he⟩
  · exact absurd rfl (he _ rfl)
  · cases he
  cases he
  have hdata : c'.phase.data = some data := hm.data
  obtain ⟨path, hr⟩ := (hm.phaseOk (hinv.phases i c hc)).read hdata
  exact ⟨c, path, hc, hr, rfl⟩

theorem contents_step {cfg : Config} {s s' : State ι} {act : Action ι} {e : Option (Event ι)}
    (hinv : Invariant cfg s) (h : Effect cfg s act s' e) {x : Text} {a b : Slot}
    (hx : PipeEnds cfg.routing x a b) :
    ((∀ v ∈ e, v.name ≠ x) ∧ (s'.pipe a b x).contents = (s.pipe a b x).contents) ∨
    (∃ i payload, e = some (.enqueue i x payload) ∧
      (s'.pipe a b x).contents = (s.pipe a b x).contents ++ [payload]) ∨
    ∃ i data, e = some (.dequeue i x data) ∧ (s.pipe a b x).contents = data ::
      (s'.pipe a b x).contents := by
  refine (pipeMove_step hinv h hx).contents ?_
  rcases sending_cases hinv a b x with hs | ⟨o, payload, rest, hs, hp, _⟩
  · simp [hs]
  · simp [hs, hp]

theorem taken_by_own_read {cfg : Config} {s s' : State ι} {act : Action ι} {e : Option (Event ι)}
    (hinv : Invariant cfg s) (h : Effect cfg s act s' e) {x : Text} {a b : Slot}
    (hx : PipeEnds cfg.routing x a b) :
    (∃ added, (s'.pipe a b x).contents = (s.pipe a b x).contents ++ added) ∨
    ∃ i data c path, e = some (.dequeue i x data) ∧ s.conn i = some c ∧
      c.request = .read path data.length ∧ c.request.name = x ∧
      (s.pipe a b x).contents = data :: (s'.pipe a b x).contents := by
  rcases contents_step hinv h hx with ⟨_, hc⟩ | ⟨_, payload, _, hc⟩ | ⟨i, data, rfl, hc⟩
  · exact Or.inl ⟨[], by rw [hc, List.append_nil]⟩
  · exact Or.inl ⟨[payload], hc⟩
  · obtain ⟨c, path, hconn, hr, hname⟩ := dequeue_request hinv h
    exact Or.inr ⟨i, data, c, path, rfl, hconn, hr, hname, hc⟩

/-- Connections may close at any moment. Closing takes nothing from a pipe and
does not withdraw the read, which keeps its request and its phase: open or
closed, a read takes at most one payload, the head of its own pipe, of exactly
the size it asked for. What no read has taken stays queued, in order. -/
theorem reads_take_only_their_own {cfg : Config} {s : State ι} {log : List (Event ι)}
    (h : Run cfg (Placed cfg) s log) {x : Text} {a b : Slot} (hx : PipeEnds cfg.routing x a b) :
    (enqueued log x).map Prod.snd = (dequeued log x).map Prod.snd ++ (s.pipe a b x).contents ∧
    ((dequeued log x).map Prod.fst).Nodup ∧
    (∀ i s' e, step cfg s (.close i) = some (s', e) →
      s'.pipe a b x = s.pipe a b x ∧ e = none ∧
        (∃ c, s.conn i = some c ∧ s'.conn i = some { c with closed := true }) ∧
        ∀ j, j ≠ i → s'.conn j = s.conn j) ∧
    ∀ act s' e, step cfg s act = some (s', e) →
      (∃ added, (s'.pipe a b x).contents = (s.pipe a b x).contents ++ added) ∨
      ∃ i data c path, e = some (.dequeue i x data) ∧ s.conn i = some c ∧
        c.request = .read path data.length ∧ c.request.name = x ∧
        (s.pipe a b x).contents = data :: (s'.pipe a b x).contents := by
  have hinv := invariant_run h
  obtain ⟨acked, hacc, _⟩ := account_run h hx
  refine ⟨contents_of_account hinv hacc, owners_filterMap (dequeuedOn_owner x) (logOk_run h).owners,
    ?_, ?_⟩
  · intro i s' e hs
    simp only [step, Option.bind_eq_bind, Option.bind_eq_some_iff] at hs
    obtain ⟨c, hc, hs⟩ := hs
    cases hs
    exact ⟨rfl, rfl, ⟨c, hc, Function.update_self ..⟩, fun j hj => Function.update_of_ne hj ..⟩
  · intro act s' e hs
    exact taken_by_own_read hinv (step_effect hs) hx

def abandonedPipe : Text := pipeName (0, 0) (1, 0)

def abandonAtRouter : List (Action (Fin 3)) :=
  [.connect 0 0 (.read abandonedPipe 4), .handle 0, .close 0]

def restartAtRouter : List (Action (Fin 3)) :=
  [.connect 1 0 (.write abandonedPipe [1, 2, 3, 4]), .handle 1, .wakeLocal 0,
    .connect 2 0 (.read abandonedPipe 4), .handle 2]

def abandonAtGateway : List (Action (Fin 3)) :=
  [.connect 0 1 (.read abandonedPipe 4), .handle 0, .accept 0, .close 0]

def restartAtGateway : List (Action (Fin 3)) :=
  [.connect 1 0 (.write abandonedPipe [1, 2, 3, 4]), .handle 1, .accept 1, .pick 0 1, .send 0 1,
    .finish 0 1, .receive 1 0, .notify 1 0, .wakeRead 0, .connect 2 1 (.read abandonedPipe 4),
    .handle 2, .accept 2]

def abandonedLog : List (Event (Fin 3)) :=
  [.enqueue 1 abandonedPipe [1, 2, 3, 4], .dequeue 0 abandonedPipe [1, 2, 3, 4]]

theorem reads_take_only_their_own_abandoned :
    ∃ s, Run oneSlot (Placed oneSlot) s abandonedLog ∧
      [[1, 2, 3, 4]] = [[1, 2, 3, 4]] ++ (s.pipe 0 0 abandonedPipe).contents := by
  have hexec : (exec oneSlot (abandonAtRouter ++ restartAtRouter) State.init []).map Prod.snd =
      some abandonedLog := by decide +kernel
  have hplaced : ∀ a ∈ abandonAtRouter ++ restartAtRouter, a.Placed oneSlot := by decide +kernel
  have hends : PipeEnds oneSlot.routing abandonedPipe 0 0 := ⟨by decide +kernel, by decide +kernel⟩
  obtain ⟨⟨s, log⟩, he, rfl⟩ := Option.map_eq_some_iff.mp hexec
  have hrun : Run oneSlot (Placed oneSlot) s abandonedLog :=
    Run.init.exec (fun a ha _ => hplaced a ha) he
  have hcontents := (reads_take_only_their_own hrun hends).1
  have henq : enqueued abandonedLog abandonedPipe = [(1, [1, 2, 3, 4])] := by decide +kernel
  have hdeq : dequeued abandonedLog abandonedPipe = [(0, [1, 2, 3, 4])] := by decide +kernel
  rw [henq, hdeq] at hcontents
  exact ⟨s, hrun, hcontents⟩

/-- The client of a waiting read is gone before anything is written, at the
router or behind a gateway. The read takes the payload all the same, and the
live read that follows finds the pipe empty. -/
theorem closed_read_takes_payload :
    (∃ s s' log log', Run oneSlot (Placed oneSlot) s log ∧
      s.conn 0 = some ⟨0, .read abandonedPipe 4, .localWait false, true⟩ ∧
      s.localPipes 0 abandonedPipe = [] ∧ exec oneSlot restartAtRouter s log = some (s', log') ∧
      .dequeue 0 abandonedPipe [1, 2, 3, 4] ∈ log' ∧ s'.localPipes 0 abandonedPipe = [] ∧
      s'.conn 2 = some ⟨0, .read abandonedPipe 4, .localWait false, false⟩) ∧
    ∃ s s' log log', Run twoSlots (Placed twoSlots) s log ∧
      s.conn 0 = some ⟨1, .read abandonedPipe 4, .gatewayRead 0 false, true⟩ ∧
      (s.gateway 1 0).incoming abandonedPipe = [] ∧
      exec twoSlots restartAtGateway s log = some (s', log') ∧
      .dequeue 0 abandonedPipe [1, 2, 3, 4] ∈ log' ∧ (s'.gateway 1 0).incoming abandonedPipe = [] ∧
      s'.conn 2 = some ⟨1, .read abandonedPipe 4, .gatewayRead 0 false, false⟩ := by
  constructor
  · have hexec : ((exec oneSlot abandonAtRouter State.init []).bind fun r =>
        (exec oneSlot restartAtRouter r.1 r.2).map fun r' => decide
          (r.1.conn 0 = some ⟨0, .read abandonedPipe 4, .localWait false, true⟩ ∧
            r.1.localPipes 0 abandonedPipe = [] ∧ .dequeue 0 abandonedPipe [1, 2, 3, 4] ∈ r'.2 ∧
            r'.1.localPipes 0 abandonedPipe = [] ∧
            r'.1.conn 2 = some ⟨0, .read abandonedPipe 4, .localWait false, false⟩)) =
              some true := by
      decide +kernel
    have hplaced : ∀ a ∈ abandonAtRouter, a.Placed oneSlot := by decide +kernel
    obtain ⟨⟨s, log⟩, he, hexec⟩ := Option.bind_eq_some_iff.mp hexec
    obtain ⟨⟨s', log'⟩, he', hexec⟩ := Option.map_eq_some_iff.mp hexec
    obtain ⟨hc, hq, hm, hq', hc'⟩ := of_decide_eq_true hexec
    exact ⟨s, s', log, log', Run.init.exec (fun a ha _ => hplaced a ha) he, hc, hq, he',
      hm, hq', hc'⟩
  · have hexec : ((exec twoSlots abandonAtGateway State.init []).bind fun r =>
        (exec twoSlots restartAtGateway r.1 r.2).map fun r' => decide
          (r.1.conn 0 = some ⟨1, .read abandonedPipe 4, .gatewayRead 0 false, true⟩ ∧
            (r.1.gateway 1 0).incoming abandonedPipe = [] ∧
            .dequeue 0 abandonedPipe [1, 2, 3, 4] ∈ r'.2 ∧
            (r'.1.gateway 1 0).incoming abandonedPipe = [] ∧
            r'.1.conn 2 = some ⟨1, .read abandonedPipe 4, .gatewayRead 0 false, false⟩)) =
              some true := by
      decide +kernel
    have hplaced : ∀ a ∈ abandonAtGateway, a.Placed twoSlots := by decide +kernel
    obtain ⟨⟨s, log⟩, he, hexec⟩ := Option.bind_eq_some_iff.mp hexec
    obtain ⟨⟨s', log'⟩, he', hexec⟩ := Option.map_eq_some_iff.mp hexec
    obtain ⟨hc, hq, hm, hq', hc'⟩ := of_decide_eq_true hexec
    exact ⟨s, s', log, log', Run.init.exec (fun a ha _ => hplaced a ha) he, hc, hq, he',
      hm, hq', hc'⟩

end ChipSystemSim
