import ChipSystemSim.Transport

/-! What a step of the transport can do. Every invariant below is proved from
this classification and not from the branches of the step function. -/

namespace ChipSystemSim

variable {ι : Type} [DecidableEq ι]

def Blocked (queue : List Bytes) (bytes : Nat) : Prop :=
  ∀ data rest, queue = data :: rest → data.length ≠ bytes

def Rejected (cfg : Config) (slot : Slot) (request : Request) : Prop :=
  65000 < request.byteCount ∨
  (∃ e, (Router.init slot cfg.routing).peerFor request.op request.name = .error e) ∨
  ∃ peer, (Router.init slot cfg.routing).peerFor request.op request.name = .ok peer ∧ peer ≠ slot ∧
    ((Router.init slot cfg.routing).gatewayPorts.lookup peer = none ∨ cfg.linked slot peer = false)

/-- A step of one request that touches no queue. -/
inductive PhaseStep (cfg : Config) (s : State ι) (slot : Slot) (request : Request) :
    Phase → Phase → Prop
  | reject (e : RouterError) (h : Rejected cfg slot request) :
      PhaseStep cfg s slot request .connected (.replied (.err (.router e)))
  | sleepFirst {path : Text} {bytes : Nat} (hr : request = .read path bytes)
      (hp : (Router.init slot cfg.routing).peerFor .R request.name = .ok slot)
      (hb : Blocked (s.localPipes slot request.name) bytes) :
      PhaseStep cfg s slot request .connected (.localWait false)
  | sleepAgain (hb : Blocked (s.localPipes slot request.name) request.byteCount) :
      PhaseStep cfg s slot request (.localWait true) (.localWait false)
  | forward {peer : Slot} (hp : (Router.init slot cfg.routing).peerFor request.op
      request.name = .ok peer)
      (hne : peer ≠ slot) (hlimit : request.byteCount ≤ 65000) :
      PhaseStep cfg s slot request .connected (.forwarded peer)
  | overlong {peer : Slot}
      (h : gatewayLineLimit ≤ (requestLine request.op request.name request.byteCount).length) :
      PhaseStep cfg s slot request (.forwarded peer) (.gatewayReplied (.err .gatewayClosed))
  | invalid {peer : Slot} (h : ¬(request.name ≠ [] ∧ request.name.length ≤ 255 ∧
        request.byteCount ≤ maxPayloadBytes)) :
      PhaseStep cfg s slot request (.forwarded peer) (.gatewayReplied (.err .invalidRequest))
  | sleepGateway {peer : Slot} {phase : Phase} {bytes : Nat}
      (hph : (phase = .forwarded peer ∧ ∃ path, request = .read path bytes) ∨
        ((∃ n, phase = .gatewayRead peer n) ∧ bytes = request.byteCount))
      (hstop : (s.gateway slot peer).stopping = false)
      (hb : Blocked ((s.gateway slot peer).incoming request.name) bytes) :
      PhaseStep cfg s slot request phase (.gatewayRead peer false)
  | gatewayClosed {peer : Slot} {phase : Phase}
      (hph : phase = .forwarded peer ∨ ∃ n, phase = .gatewayRead peer n)
      (hstop : (s.gateway slot peer).stopping = true) :
      PhaseStep cfg s slot request phase (.gatewayReplied (.err .gatewayClosed))
  | acknowledge {peer : Slot} :
      PhaseStep cfg s slot request (.gatewayWrite peer true) (.gatewayReplied .ok)
  | abandon {peer : Slot} (hstop : (s.gateway slot peer).stopping = true) :
      PhaseStep cfg s slot request (.gatewayWrite peer false) (.gatewayReplied (.err .transport))
  | relay (reply : Reply) : PhaseStep cfg s slot request (.gatewayReplied reply) (.replied reply)

def Action.client : Action ι → Option ι
  | handle i => some i
  | wakeLocal i => some i
  | accept i => some i
  | wakeRead i => some i
  | wakeWrite i => some i
  | relay i => some i
  | _ => none

inductive Effect (cfg : Config) (s : State ι) : Action ι → State ι → Option (Event ι) → Prop
  | connect {i : ι} {slot : Slot} {request : Request} (h : s.conn i = none) :
      Effect cfg s (.connect i slot request)
        { s with conn := Function.update s.conn i (some ⟨slot, request, .connected, false⟩) } none
  | phase {a : Action ι} {i : ι} {c : Conn} {phase : Phase} (ha : a.client = some i)
      (h : s.conn i = some c)
      (hs : PhaseStep cfg s c.slot c.request c.phase phase) :
      Effect cfg s a (s.setPhase i c phase) none
  | close {i : ι} {c : Conn} (h : s.conn i = some c) :
      Effect cfg s (.close i)
        { s with conn := Function.update s.conn i (some { c with closed := true }) } none
  | localWrite {i : ι} {c : Conn} {path : Text} {payload : Bytes} (h : s.conn i = some c)
      (hph : c.phase = .connected) (hr : c.request = .write path payload)
      (hp : (Router.init c.slot cfg.routing).peerFor .W c.request.name = .ok c.slot)
      (hlimit : payload.length ≤ 65000) :
      Effect cfg s (.handle i)
        (((s.setLocal c.slot c.request.name
          (s.localPipes c.slot c.request.name ++ [payload])).notifyLocal c.slot).setPhase i c
            (.replied .ok))
        (some (.enqueue i c.request.name payload))
  | localRead {a : Action ι} {i : ι} {c : Conn} {data : Bytes} {rest : List Bytes}
      (ha : a = .handle i ∨ a = .wakeLocal i) (h : s.conn i = some c)
      (hph : (c.phase = .connected ∧ (∃ path, c.request = .read path data.length) ∧
          (Router.init c.slot cfg.routing).peerFor .R c.request.name = .ok c.slot) ∨
        (c.phase = .localWait true ∧ data.length = c.request.byteCount))
      (hq : s.localPipes c.slot c.request.name = data :: rest) :
      Effect cfg s a
        ((s.setLocal c.slot c.request.name rest).setPhase i c (.replied (.okData data)))
        (some (.dequeue i c.request.name data))
  | gatewayWrite {i : ι} {c : Conn} {peer : Slot} {path : Text} {payload : Bytes}
      (h : s.conn i = some c) (hph : c.phase = .forwarded peer)
        (hr : c.request = .write path payload)
      (hf : FrameOk c.request.name payload) :
      Effect cfg s (.accept i)
        ((s.setGateway c.slot peer
          { s.gateway c.slot peer with
            outgoing := (s.gateway c.slot peer).outgoing ++
              [⟨i, c.request.name, payload⟩] }).setPhase i c
          (if (s.gateway c.slot peer).stopping then .gatewayReplied (.err .transport)
            else .gatewayWrite peer false))
        (some (.enqueue i c.request.name payload))
  | gatewayRead {a : Action ι} {i : ι} {c : Conn} {peer : Slot} {data : Bytes} {rest : List Bytes}
      (ha : a = .accept i ∨ a = .wakeRead i) (h : s.conn i = some c)
      (hph : (c.phase = .forwarded peer ∧ ∃ path, c.request = .read path data.length) ∨
        ((∃ n, c.phase = .gatewayRead peer n) ∧ data.length = c.request.byteCount))
      (hstop : (s.gateway c.slot peer).stopping = false)
      (hq : (s.gateway c.slot peer).incoming c.request.name = data :: rest) :
      Effect cfg s a
        ((s.setGateway c.slot peer
          { s.gateway c.slot peer with
            incoming := Function.update (s.gateway c.slot peer).incoming c.request.name
              rest }).setPhase i c (.gatewayReplied (.okData data)))
        (some (.dequeue i c.request.name data))
  | pick {slot peer : Slot} {p : Pending ι} {rest : List (Pending ι)}
      (hl : (s.gateway slot peer).loop = .idle) (hstop : (s.gateway slot peer).stopping = false)
      (ho : (s.gateway slot peer).outgoing = p :: rest) :
      Effect cfg s (.pick slot peer)
        (s.setGateway slot peer { s.gateway slot peer with loop := .picked p }) none
  | allocFail {slot peer : Slot} {p : Pending ι} (hl : (s.gateway slot peer).loop = .picked p) :
      Effect cfg s (.allocFail slot peer)
        (s.setGateway slot peer { s.gateway slot peer with loop := .idle }) none
  | send {slot peer : Slot} {p : Pending ι} (hl : (s.gateway slot peer).loop = .picked p) :
      Effect cfg s (.send slot peer)
        (s.setGateway slot peer
          { s.gateway slot peer with
            ring := (s.gateway slot peer).ring ++ [(p.name, p.payload)]
            loop := .sent p }) none
  | finish {slot peer : Slot} {p : Pending ι} (hl : (s.gateway slot peer).loop = .sent p) :
      Effect cfg s (.finish slot peer) (finishWrite s slot peer p) none
  | receive {slot peer : Slot} {name : Text} {payload : Bytes} {rest : List (Text × Bytes)}
      (hne : slot ≠ peer) (hl : (s.gateway slot peer).loop = .idle)
      (hstop : (s.gateway slot peer).stopping = false)
      (hq : (s.gateway peer slot).ring = (name, payload) :: rest) (hf : FrameOk name payload) :
      Effect cfg s (.receive slot peer)
        ((s.setGateway peer slot { s.gateway peer slot with ring := rest }).setGateway slot peer
          { s.gateway slot peer with
            incoming := Function.update (s.gateway slot peer).incoming name
              ((s.gateway slot peer).incoming name ++ [payload])
            loop := .notifying }) none
  | drop {slot peer : Slot} {name : Text} {payload : Bytes} {rest : List (Text × Bytes)}
      (hq : (s.gateway peer slot).ring = (name, payload) :: rest) (hf : ¬FrameOk name payload) :
      Effect cfg s (.receive slot peer)
        (s.setGateway peer slot { s.gateway peer slot with ring := rest }) none
  | notify {slot peer : Slot} (hl : (s.gateway slot peer).loop = .notifying) :
      Effect cfg s (.notify slot peer)
        ((s.setGateway slot peer { s.gateway slot peer with loop := .idle }).notifyGateway slot
          peer)
        none
  | terminate {slot peer : Slot} (hl : (s.gateway slot peer).loop = .idle) :
      Effect cfg s (.terminate slot peer)
        (s.setGateway slot peer { s.gateway slot peer with stopping := true }) none

theorem tryLocalRead_cases (s : State ι) (i : ι) (c : Conn) (bytes : Nat) :
    (Blocked (s.localPipes c.slot c.request.name) bytes ∧
      tryLocalRead s i c bytes = (s.setPhase i c (.localWait false), none)) ∨
    ∃ data rest, s.localPipes c.slot c.request.name = data :: rest ∧ data.length = bytes ∧
      tryLocalRead s i c bytes =
        ((s.setLocal c.slot c.request.name rest).setPhase i c (.replied (.okData data)),
          some (.dequeue i c.request.name data)) := by
  cases hq : s.localPipes c.slot c.request.name with
  | nil => exact Or.inl ⟨by simp [Blocked], by simp [tryLocalRead, hq]⟩
  | cons data rest =>
    by_cases hl : data.length = bytes
    · exact Or.inr ⟨data, rest, rfl, hl, by simp [tryLocalRead, hq, hl]⟩
    · refine Or.inl ⟨?_, by simp [tryLocalRead, hq, hl]⟩
      intro d r he
      rw [← (List.cons.inj he).1]
      exact hl

theorem tryGatewayRead_cases (s : State ι) (i : ι) (c : Conn) (peer : Slot) (bytes : Nat) :
    ((s.gateway c.slot peer).stopping = true ∧
      tryGatewayRead s i c peer bytes =
        (s.setPhase i c (.gatewayReplied (.err .gatewayClosed)), none)) ∨
    ((s.gateway c.slot peer).stopping = false ∧
      Blocked ((s.gateway c.slot peer).incoming c.request.name) bytes ∧
      tryGatewayRead s i c peer bytes = (s.setPhase i c (.gatewayRead peer false), none)) ∨
    ∃ data rest, (s.gateway c.slot peer).stopping = false ∧
      (s.gateway c.slot peer).incoming c.request.name = data :: rest ∧ data.length = bytes ∧
      tryGatewayRead s i c peer bytes =
        ((s.setGateway c.slot peer
          { s.gateway c.slot peer with
            incoming := Function.update (s.gateway c.slot peer).incoming c.request.name
              rest }).setPhase i c (.gatewayReplied (.okData data)),
          some (.dequeue i c.request.name data)) := by
  cases hstop : (s.gateway c.slot peer).stopping with
  | true => exact Or.inl ⟨rfl, by simp [tryGatewayRead, hstop]⟩
  | false =>
    refine Or.inr ?_
    cases hq : (s.gateway c.slot peer).incoming c.request.name with
    | nil => exact Or.inl ⟨rfl, by simp [Blocked], by simp [tryGatewayRead, hq, hstop]⟩
    | cons data rest =>
      by_cases hl : data.length = bytes
      · exact Or.inr ⟨data, rest, rfl, rfl, hl, by simp [tryGatewayRead, hq, hl, hstop]⟩
      · refine Or.inl ⟨rfl, ?_, by simp [tryGatewayRead, hq, hl, hstop]⟩
        intro d r he
        rw [← (List.cons.inj he).1]
        exact hl

theorem handleRequest_effect {cfg : Config} {s : State ι} {i : ι} {c : Conn}
    (h : s.conn i = some c) (hph : c.phase = .connected) :
    Effect cfg s (.handle i) (handleRequest cfg s i c).1 (handleRequest cfg s i c).2 := by
  unfold handleRequest
  dsimp only
  split
  · rename_i hlimit
    refine .phase rfl h (hph ▸ .reject _ (Or.inl ?_))
    simp only [maxRequestBytes] at hlimit
    omega
  · rename_i hlimit
    have hle : c.request.byteCount ≤ 65000 := by
      simp only [maxRequestBytes] at hlimit
      omega
    split
    · rename_i e hp
      exact .phase rfl h (hph ▸ .reject _ (Or.inr (Or.inl ⟨e, hp⟩)))
    · rename_i peer hp
      split
      · rename_i he
        subst he
        cases hr : c.request with
        | write path payload =>
          have hp' : (Router.init c.slot cfg.routing).peerFor .W c.request.name = .ok c.slot := by
            simpa only [hr, Request.op] using hp
          have hle' : payload.length ≤ 65000 := by simpa only [hr, Request.byteCount] using hle
          have := Effect.localWrite h hph hr hp' hle'
          simpa only [handleLocal, hr] using this
        | read path bytes =>
          have hp' : (Router.init c.slot cfg.routing).peerFor .R c.request.name = .ok c.slot := by
            simpa only [hr, Request.op] using hp
          simp only [handleLocal, hr]
          rcases tryLocalRead_cases s i c bytes with ⟨hb, he⟩ | ⟨data, rest, hq, hl, he⟩
          · rw [he]
            exact .phase rfl h (hph ▸ .sleepFirst hr hp' hb)
          · rw [he]
            exact .localRead (Or.inl rfl) h (Or.inl ⟨hph, ⟨path, hl ▸ hr⟩, hp'⟩) hq
      · rename_i hne
        split
        · rename_i hport
          exact .phase rfl h (hph ▸ .reject _ (Or.inr (Or.inr ⟨peer, hp, hne, Or.inl hport⟩)))
        · split
          · exact .phase rfl h (hph ▸ .forward hp hne hle)
          · rename_i hlinked
            have hfalse : cfg.linked c.slot peer = false := by simpa using hlinked
            exact .phase rfl h (hph ▸ .reject _ (Or.inr (Or.inr ⟨peer, hp, hne, Or.inr hfalse⟩)))

theorem acceptRequest_effect {cfg : Config} {s : State ι} {i : ι} {c : Conn} {peer : Slot}
    (h : s.conn i = some c) (hph : c.phase = .forwarded peer) :
    Effect cfg s (.accept i) (acceptRequest s i c peer).1 (acceptRequest s i c peer).2 := by
  by_cases hlong : gatewayLineLimit ≤
    (requestLine c.request.op c.request.name c.request.byteCount).length
  · simp only [acceptRequest, hlong, if_true]
    exact .phase rfl h (hph ▸ .overlong hlong)
  have hstep : ¬(c.request.name ≠ [] ∧ c.request.name.length ≤ 255 ∧
      c.request.byteCount ≤ maxPayloadBytes) →
      Effect cfg s (.accept i) (s.setPhase i c (.gatewayReplied (.err .invalidRequest))) none :=
    fun hinvalid => .phase rfl h (hph ▸ .invalid hinvalid)
  cases hr : c.request with
  | write path payload =>
    by_cases hf : FrameOk c.request.name payload
    · have hw : Effect cfg s (.accept i) _ _ := .gatewayWrite h hph hr hf
      rw [hr] at hf hlong
      simpa only [acceptRequest, hr, hf, hlong, if_true, if_false] using hw
    · have hw := hstep (by simpa only [FrameOk, hr, Request.byteCount] using hf)
      rw [hr] at hf hlong
      simpa only [acceptRequest, hr, hf, hlong, if_false] using hw
  | read path bytes =>
    by_cases hf : c.request.name ≠ [] ∧ c.request.name.length ≤ 255 ∧ bytes ≤ maxPayloadBytes
    · have he : acceptRequest s i c peer = tryGatewayRead s i c peer bytes := by
        rw [hr] at hf hlong
        simp only [acceptRequest, hr, hf, hlong, ne_eq, not_false_eq_true, and_self,
          if_true, if_false]
      rw [he]
      rcases tryGatewayRead_cases s i c peer bytes with ⟨hs, he⟩ | ⟨hs, hb, he⟩ |
        ⟨data, rest, hs, hq, hl, he⟩
      · rw [he]
        exact .phase rfl h (.gatewayClosed (Or.inl hph) hs)
      · rw [he]
        exact .phase rfl h (.sleepGateway (Or.inl ⟨hph, path, hr⟩) hs hb)
      · rw [he]
        exact .gatewayRead (Or.inl rfl) h (Or.inl ⟨hph, path, hl ▸ hr⟩) hs hq
    · have hw := hstep (by simpa only [hr, Request.byteCount] using hf)
      rw [hr] at hf hlong
      simpa only [acceptRequest, hr, hf, hlong, if_false] using hw

theorem step_effect {cfg : Config} {s s' : State ι} {a : Action ι} {e : Option (Event ι)}
    (h : step cfg s a = some (s', e)) : Effect cfg s a s' e := by
  cases a with
  | connect i slot request =>
    simp only [step] at h
    split at h
    · rename_i hn
      cases h
      exact .connect (Option.isNone_iff_eq_none.mp hn)
    · cases h
  | handle i =>
    simp only [step, Option.bind_eq_bind, Option.bind_eq_some_iff] at h
    obtain ⟨c, hc, h⟩ := h
    split at h
    · rename_i hph
      have hs : Effect cfg s (.handle i) _ _ := handleRequest_effect hc hph
      rwa [Option.some.inj h] at hs
    · cases h
  | wakeLocal i =>
    simp only [step, Option.bind_eq_bind, Option.bind_eq_some_iff] at h
    obtain ⟨c, hc, h⟩ := h
    split at h
    · rename_i hph
      rcases tryLocalRead_cases s i c c.request.byteCount with ⟨hb, he⟩ | ⟨data, rest, hq, hl, he⟩
      · cases he.symm.trans (Option.some.inj h)
        exact .phase rfl hc (hph ▸ .sleepAgain hb)
      · cases he.symm.trans (Option.some.inj h)
        exact .localRead (Or.inr rfl) hc (Or.inr ⟨hph, hl⟩) hq
    · cases h
  | accept i =>
    simp only [step, Option.bind_eq_bind, Option.bind_eq_some_iff] at h
    obtain ⟨c, hc, h⟩ := h
    split at h
    · rename_i peer hph
      have hs : Effect cfg s (.accept i) _ _ := acceptRequest_effect hc hph
      rwa [Option.some.inj h] at hs
    · cases h
  | wakeRead i =>
    simp only [step, Option.bind_eq_bind, Option.bind_eq_some_iff] at h
    obtain ⟨c, hc, h⟩ := h
    split at h
    · rename_i peer n hph
      rcases tryGatewayRead_cases s i c peer c.request.byteCount with
        ⟨hs, he⟩ | ⟨hs, hb, he⟩ | ⟨data, rest, hs, hq, hl, he⟩
      · cases he.symm.trans (Option.some.inj h)
        exact .phase rfl hc (.gatewayClosed (Or.inr ⟨n, hph⟩) hs)
      · cases he.symm.trans (Option.some.inj h)
        exact .phase rfl hc (.sleepGateway (Or.inr ⟨⟨n, hph⟩, rfl⟩) hs hb)
      · cases he.symm.trans (Option.some.inj h)
        exact .gatewayRead (Or.inr rfl) hc (Or.inr ⟨⟨n, hph⟩, hl⟩) hs hq
    · cases h
  | wakeWrite i =>
    simp only [step, Option.bind_eq_bind, Option.bind_eq_some_iff] at h
    obtain ⟨c, hc, h⟩ := h
    split at h
    · rename_i hph
      cases h
      exact .phase rfl hc (hph ▸ .acknowledge)
    · rename_i peer hph
      split at h
      · rename_i hs
        cases h
        exact .phase rfl hc (hph ▸ .abandon hs)
      · cases h
    · cases h
  | relay i =>
    simp only [step, Option.bind_eq_bind, Option.bind_eq_some_iff] at h
    obtain ⟨c, hc, h⟩ := h
    split at h
    · rename_i reply hph
      cases h
      exact .phase rfl hc (hph ▸ .relay reply)
    · cases h
  | close i =>
    simp only [step, Option.bind_eq_bind, Option.bind_eq_some_iff] at h
    obtain ⟨c, hc, h⟩ := h
    cases h
    exact .close hc
  | pick slot peer =>
    simp only [step] at h
    split at h
    · rename_i p rest hl hs ho
      cases h
      exact .pick hl hs ho
    · cases h
  | allocFail slot peer =>
    simp only [step] at h
    split at h
    · rename_i p hl
      cases h
      exact .allocFail hl
    · cases h
  | send slot peer =>
    simp only [step] at h
    split at h
    · rename_i p hl
      cases h
      exact .send hl
    · cases h
  | finish slot peer =>
    simp only [step] at h
    split at h
    · rename_i p hl
      cases h
      exact .finish hl
    · cases h
  | receive slot peer =>
    simp only [step] at h
    split at h
    · cases h
    · rename_i hne
      split at h
      · rename_i name payload rest hl hs hq
        split at h
        · rename_i hf
          cases h
          exact .receive hne hl hs hq hf
        · rename_i hf
          cases h
          exact .drop hq hf
      · cases h
  | notify slot peer =>
    simp only [step] at h
    split at h
    · rename_i hl
      cases h
      exact .notify hl
    · cases h
  | terminate slot peer =>
    simp only [step] at h
    split at h
    · rename_i hl
      cases h
      exact .terminate hl
    · cases h

end ChipSystemSim
