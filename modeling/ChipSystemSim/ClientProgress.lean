import ChipSystemSim.ClientCalls
import Mathlib.Data.Prod.Lex
import Mathlib.Order.OrderIsoNat

/-! A call of the native protocol returns: its own events run down a measure, and one of
them is possible unless the call is a read that has no payload of its own to take yet. -/

namespace ChipSystemSim

section Progress

variable {py : Python} {dumps : BrokerReply → Bytes} {maxPayloadBytes : Int}
  {calls : Nat → Option PipeCall}
  {s t : Sessions} {id : Nat} {event : SessionEvent} {changes : List Change} {call : PipeCall}

def Task.rank : Task → Nat
  | .connected => 3
  | .receiving _ _ => 2
  | .appending _ _ _ => 1
  | .waiting _ _ _ => 1
  | _ => 0

def Connection.work (call : PipeCall) (c : Connection) : Nat :=
  (call.unsent c.client).length + c.down.length + if c.client.hungUp then 0 else 1

/-- What a call has still before it: steps of its handler, then bytes of its client. -/
def Sessions.measure (call : PipeCall) (id : Nat) (s : Sessions) : Lex (Nat × Nat) :=
  toLex ((s.broker.task id).rank, (s.connection id).work call)

def Sessions.Before (call : PipeCall) (id : Nat) (t s : Sessions) : Prop :=
  t.measure call id < s.measure call id

theorem Broker.step_rank {b b' : Broker} {action : BrokerAction}
    (h : b.step py maxPayloadBytes id action = some b') : (b'.task id).rank < (b.task id).rank := by
  have hnext : ∀ protocol (demand : Except String Demand),
      (Task.next protocol demand).rank < 3 := by
    intro protocol demand
    cases demand with
    | error message => exact Nat.zero_lt_succ _
    | ok demand =>
      cases demand with
      | append name payload => exact (by decide : 1 < 3)
      | receive name byteCount => exact (by decide : 2 < 3)
      | take name expected => exact (by decide : 1 < 3)
  have hheader : ∀ line, (Task.onHeader py maxPayloadBytes line).rank < 3 := by
    intro line
    match line with
    | none => exact Nat.zero_lt_succ _
    | some [] => exact Nat.zero_lt_succ _
    | some (byte :: rest) =>
      simp only [Task.onHeader]
      split
      · exact hnext ..
      · exact hnext ..
  rcases Broker.step_cases h with ⟨task, rfl, ⟨line, hbefore, rfl⟩ | ⟨name, byteCount, hbefore⟩⟩ |
    ⟨protocol, name, payload, hbefore, rfl⟩ | ⟨protocol, name, expected, payload, rest, hbefore, -,
      ⟨-, rfl⟩ | ⟨-, rfl⟩⟩
  · rw [setTask_self, hbefore]
    exact hheader line
  · cases action with
    | payload data =>
      simp only [Broker.step, hbefore] at h
      rw [hbefore]
      split at h
      · rw [← Option.some.inj h, setTask_self]
        exact Nat.lt_succ_self _
      · split at h
        · rw [← Option.some.inj h, setTask_self]
          exact Nat.zero_lt_succ _
        · cases h
    | header line => simp [Broker.step, hbefore] at h
    | append => simp [Broker.step, hbefore] at h
    | take => simp [Broker.step, hbefore] at h
  · rw [setTask_self, hbefore]
    exact Nat.zero_lt_succ _
  · rw [setTask_self, hbefore]
    exact Nat.zero_lt_succ _
  · rw [setTask_self, hbefore]
    exact Nat.zero_lt_succ _

theorem PipeCall.giveUp_work {client client' : ClientState}
    (h : call.giveUp client = some client') :
    client.hungUp = false ∧ client'.hungUp = true ∧ call.unsent client' = [] := by
  cases client with
  | sendHeader rest =>
    obtain rfl := Option.some.inj h
    exact ⟨rfl, rfl, rfl⟩
  | sendPayload rest =>
    obtain rfl := Option.some.inj h
    exact ⟨rfl, rfl, rfl⟩
  | readLine line =>
    obtain rfl := Option.some.inj h
    rw [call.afterLine_other call.expected_ne_nil.symm]
    exact ⟨rfl, rfl, rfl⟩
  | readAll received =>
    obtain rfl := Option.some.inj h
    exact ⟨rfl, rfl, rfl⟩
  | returned value buffer => cases h

theorem PipeCall.send_work {k : Nat} {client client' : ClientState} {bytes : Bytes}
    (h : call.send k client = some (bytes, client')) :
    (call.unsent client').length < (call.unsent client).length ∧ client.hungUp = false := by
  have hspec := congrArg List.length (PipeCall.send_spec h).1
  rw [List.length_append] at hspec
  have hbytes : 0 < bytes.length ∧ client.hungUp = false := by
    cases client with
    | sendHeader rest =>
      simp only [send] at h
      split at h
      · obtain ⟨rfl, -⟩ := Prod.mk.inj (Option.some.inj h)
        rw [List.length_take]
        exact ⟨by omega, rfl⟩
      · cases h
    | sendPayload rest =>
      simp only [send] at h
      split at h
      · obtain ⟨rfl, -⟩ := Prod.mk.inj (Option.some.inj h)
        rw [List.length_take]
        exact ⟨by omega, rfl⟩
      · cases h
    | readLine line => cases h
    | readAll received => cases h
    | returned value buffer => cases h
  exact ⟨by omega, hbytes.2⟩

theorem PipeCall.receive_work {k : Nat} {client client' : ClientState} {down rest : Bytes}
    (h : call.receive k down client = some (client', rest)) :
    rest.length < down.length ∧ client.hungUp = false := by
  cases client with
  | readLine line =>
    cases down with
    | nil => cases h
    | cons byte tail =>
      simp only [receive] at h
      have hrest : rest = tail := by
        split at h
        · exact (Prod.mk.inj (Option.some.inj h)).2.symm
        · split at h
          · exact (Prod.mk.inj (Option.some.inj h)).2.symm
          · exact (Prod.mk.inj (Option.some.inj h)).2.symm
      rw [hrest]
      exact ⟨Nat.lt_succ_self _, rfl⟩
  | readAll received =>
    simp only [receive] at h
    split at h
    · obtain ⟨-, rfl⟩ := Prod.mk.inj (Option.some.inj h)
      rw [List.length_drop]
      exact ⟨by omega, rfl⟩
    · cases h
  | sendHeader rest => cases h
  | sendPayload rest => cases h
  | returned value buffer => cases h

theorem Connection.step_work (hcall : call.Valid) {c c' : Connection} {task : Task}
    (hfits : c.Fits call dumps task) (h : c.step call task.ended event = some c') :
    c'.work call < c.work call := by
  have hgive : ∀ client, call.giveUp c.client = some client →
      ∀ c'' : Connection, c''.client = client →
      c''.down = c.down → c''.work call < c.work call := by
    rintro client hgive c'' rfl hdown
    obtain ⟨hopen, hclosed, hunsent⟩ := PipeCall.giveUp_work hgive
    simp only [work, hopen, hclosed, hunsent, hdown, List.length_nil, if_true,
      Bool.false_eq_true, if_false]
    omega
  cases event with
  | send k =>
    obtain ⟨⟨bytes, client⟩, hsend, rfl⟩ := Option.map_eq_some_iff.mp h
    obtain ⟨hlt, hopen⟩ := PipeCall.send_work hsend
    simp only [work, hopen, Bool.false_eq_true, if_false]
    split <;> omega
  | receive k =>
    obtain ⟨⟨client, rest⟩, hreceive, rfl⟩ := Option.map_eq_some_iff.mp h
    obtain ⟨hlt, hopen⟩ := PipeCall.receive_work hreceive
    obtain ⟨hunsent, hunsent', -⟩ := PipeCall.receive_spec hcall hfits.shape hreceive
    simp only [work, hopen, hunsent, hunsent', Bool.false_eq_true, if_false]
    split <;> omega
  | endOfStream =>
    simp only [Connection.step] at h
    split at h
    · obtain ⟨client, hclient, rfl⟩ := Option.map_eq_some_iff.mp h
      exact hgive client hclient _ rfl rfl
    · cases h
  | lose k =>
    obtain ⟨client, hclient, rfl⟩ := Option.map_eq_some_iff.mp h
    exact hgive client hclient _ rfl rfl
  | serve => cases h
  | foreign action => cases h

theorem Sessions.step_before (hcall : calls id = some call) (hvalid : call.Valid)
    (hfits : (s.connection id).Fits call dumps (s.broker.task id))
    (h : s.step py dumps maxPayloadBytes calls id event = some t) : t.Before call id s := by
  rcases Sessions.step_cases h with ⟨action, hnone, -⟩ | ⟨call', c, hcall', -, rfl, hclient⟩ |
    ⟨call', action, rest, hcall', rfl, hinput, hbroker, hconnection⟩
  · rw [hcall] at hnone
    cases hnone
  · obtain rfl : call = call' := Option.some.inj (hcall.symm.trans hcall')
    apply Prod.Lex.right _
    rw [setConnection_self]
    exact Connection.step_work hvalid hfits hclient
  · exact Prod.Lex.left _ _ (Broker.step_rank hbroker)

theorem Sessions.step_other {other : Nat} (hne : other ≠ id)
    (h : s.step py dumps maxPayloadBytes calls id event = some t) :
    t.broker.task other = s.broker.task other ∧ t.connection other = s.connection other := by
  rcases Sessions.step_cases h with ⟨action, -, -, hconnection, hbroker⟩ |
    ⟨call', c, -, -, rfl, -⟩ |
    ⟨call', action, rest, -, -, -, hbroker, hconnection⟩
  · exact ⟨(Broker.step_task hbroker).1 other hne, by rw [hconnection]⟩
  · exact ⟨rfl, setConnection_of_ne c hne⟩
  · exact ⟨(Broker.step_task hbroker).1 other hne, by rw [hconnection, Function.update_of_ne hne]⟩

/-- With nothing left to send, a handler that has not answered can go on, or waits for a payload. -/
theorem Sessions.serve_isSome (py : Python) (maxPayloadBytes : Int)
    (hfits : (s.connection id).Fits call dumps (s.broker.task id))
    (hlive : ¬(s.connection id).client.Failed) (hsent : call.unsent (s.connection id).client = [])
    (hended : (s.broker.task id).ended = false) :
    (∃ t, s.serve py dumps maxPayloadBytes id = some t) ∨
      ∃ name expected, s.broker.task id = .waiting .native name expected ∧
      s.broker.messages name = [] := by
  have hserve : ∀ action rest, (s.broker.task id).input (s.connection id).client.hungUp
      (s.connection id).up =
      some (action, rest) → (∃ b, s.broker.step py maxPayloadBytes id action = some b) →
        ∃ t, s.serve py dumps maxPayloadBytes id = some t := by
    rintro action rest hinput ⟨b, hb⟩
    simp only [serve, hinput, hb, Option.map_some]
    exact ⟨_, rfl⟩
  have hhandles := hfits.handles
  cases htask : s.broker.task id with
  | connected =>
    rw [htask] at hhandles hserve
    obtain ⟨rest, hup, hrest⟩ := hhandles
    rw [hrest hlive, hsent, List.append_nil] at hup
    have hready : 10 ∈ (s.connection id).up ∨ (s.connection id).client.hungUp = true := by
      rw [hup, PipeCall.request, PipeCall.header, encodeText_requestHeader]
      simp
    have hheader : ∀ line, ∃ b, s.broker.step py maxPayloadBytes id (.header line) = some b := by
      intro line
      simp only [Broker.step, htask]
      exact ⟨_, rfl⟩
    left
    cases hread : readline (s.connection id).up with
    | ok r =>
      refine hserve (.header (some r.1)) r.2 ?_ (hheader _)
      simp only [Task.input, hready, if_true, hread]
    | error e =>
      refine hserve (.header none) [] ?_ (hheader _)
      simp only [Task.input, hready, if_true, hread]
  | receiving name byteCount =>
    rw [htask] at hhandles hserve
    obtain ⟨payload, -, ⟨hcount, rest, hup, hrest⟩ | ⟨hfailed, -⟩⟩ := hhandles
    · rw [hrest hlive, hsent, List.append_nil] at hup
      have hready : byteCount ≤ (s.connection id).up.length ∨
          (s.connection id).client.hungUp = true := by
        rw [hup, hcount]
        exact Or.inl le_rfl
      left
      refine hserve (.payload ((s.connection id).up.take byteCount))
        ((s.connection id).up.drop byteCount)
        (if_pos hready) ?_
      have hsize : ((s.connection id).up.take byteCount).length = byteCount := by
        rw [hup, hcount, List.take_length]
      simp only [Broker.step, htask, hsize, if_true]
      exact ⟨_, rfl⟩
    · exact absurd hfailed hlive
  | appending protocol name payload =>
    rw [htask] at hserve
    left
    apply hserve _ _ rfl
    simp only [Broker.step, htask]
    exact ⟨_, rfl⟩
  | waiting protocol name expected =>
    rw [htask] at hhandles hserve
    obtain ⟨rfl, -⟩ := hhandles
    cases hqueue : s.broker.messages name with
    | nil => exact Or.inr ⟨name, expected, rfl, hqueue⟩
    | cons payload rest =>
      left
      apply hserve _ _ rfl
      simp only [Broker.step, htask, hqueue]
      split
      · exact ⟨_, rfl⟩
      · exact ⟨_, rfl⟩
  | answered protocol reply =>
    rw [htask] at hended
    cases hended
  | closed =>
    rw [htask] at hended
    cases hended

/-- A call that has not returned has an event without a lost connection, or is a read whose
pipe is empty. -/
theorem Sessions.progress (py : Python) (maxPayloadBytes : Int) (hcall : calls id = some call)
    (hfits : (s.connection id).Fits call dumps (s.broker.task id))
    (hopen : (s.connection id).client.hungUp = false) :
    (∃ event t, (∀ k, event ≠ .lose k) ∧ s.step py dumps maxPayloadBytes calls id event = some t) ∨
      ∃ name expected, s.broker.task id = .waiting .native name expected ∧
      s.broker.messages name = [] := by
  have hevent : ∀ event, event ≠ .serve → (∀ k, event ≠ .lose k) →
      (∃ c, (s.connection id).step call (s.broker.task id).ended event = some c) →
      ∃ event t, (∀ k, event ≠ .lose k) ∧ s.step py dumps maxPayloadBytes calls id event =
        some t := by
    rintro event hserve hlose ⟨c, hc⟩
    refine ⟨event, s.setConnection id c, hlose, ?_⟩
    cases event with
    | serve => exact absurd rfl hserve
    | foreign action => cases hc
    | _ => simp only [step, hcall, hc, Option.map_some]
  have hlive : ¬(s.connection id).client.Failed := by
    rintro ⟨buffer, hbuffer⟩
    rw [hbuffer] at hopen
    cases hopen
  have hshape := hfits.shape
  -- a client that reads has something to take, is at the end of the stream, or waits for
  -- the handler
  have hreads : (s.connection id).client.sending = false →
      call.unsent (s.connection id).client = [] →
      (∀ byte rest, (s.connection id).down = byte :: rest →
        ∃ r, call.receive 1 (s.connection id).down (s.connection id).client = some r) →
      (∃ client, call.giveUp (s.connection id).client = some client) →
      (∃ event t, (∀ k, event ≠ .lose k) ∧
        s.step py dumps maxPayloadBytes calls id event = some t) ∨
        ∃ name expected, s.broker.task id = .waiting .native name expected ∧
        s.broker.messages name = [] := by
    rintro hsending hsent hreceive ⟨client, hgive⟩
    cases hdown : (s.connection id).down with
    | cons byte rest =>
      obtain ⟨r, hr⟩ := hreceive byte rest hdown
      refine Or.inl (hevent (.receive 1) (by simp) (by simp) ?_)
      rw [Connection.step, hr]
      exact ⟨_, rfl⟩
    | nil =>
      by_cases hended : (s.broker.task id).ended = true
      · refine Or.inl (hevent .endOfStream (by simp) (by simp) ?_)
        rw [Connection.step, if_pos ⟨hended, hdown, hsending⟩, hgive]
        exact ⟨_, rfl⟩
      · rw [Bool.not_eq_true] at hended
        refine (serve_isSome py maxPayloadBytes hfits hlive hsent hended).imp_left ?_
        rintro ⟨t, ht⟩
        exact ⟨.serve, t, by simp, by simpa only [step, hcall] using ht⟩
  cases hclient : (s.connection id).client with
  | sendHeader rest =>
    rw [hclient] at hshape
    have hlen : 1 ≤ rest.length := List.length_pos_iff.mpr hshape
    refine Or.inl (hevent (.send 1) (by simp) (by simp) ?_)
    rw [Connection.step, hclient, PipeCall.send, if_pos ⟨le_rfl, hlen⟩]
    exact ⟨_, rfl⟩
  | sendPayload rest =>
    rw [hclient] at hshape
    have hlen : 1 ≤ rest.length := List.length_pos_iff.mpr hshape
    refine Or.inl (hevent (.send 1) (by simp) (by simp) ?_)
    rw [Connection.step, hclient, PipeCall.send, if_pos ⟨le_rfl, hlen⟩]
    exact ⟨_, rfl⟩
  | readLine line =>
    rw [hclient] at hreads
    refine hreads rfl rfl ?_ ⟨_, rfl⟩
    intro byte rest hdown
    rw [hdown]
    simp only [PipeCall.receive]
    split
    · exact ⟨_, rfl⟩
    · split
      · exact ⟨_, rfl⟩
      · exact ⟨_, rfl⟩
  | readAll received =>
    rw [hclient] at hreads hshape
    refine hreads rfl rfl ?_ ⟨_, rfl⟩
    intro byte rest hdown
    have hlen : 1 ≤ (s.connection id).down.length := by
      rw [hdown]
      exact Nat.succ_pos _
    have hroom : received.length + 1 ≤ call.bytes := by
      cases call with
      | write name payload => exact absurd hshape (Nat.not_lt_zero _)
      | read name bytes => exact hshape
    simp only [PipeCall.receive, hlen, hroom, le_refl, and_self, if_true]
    exact ⟨_, rfl⟩
  | returned value buffer =>
    rw [hclient] at hopen
    cases hopen

end Progress

section Conditions

variable {py : Python} {dumps : BrokerReply → Bytes} {maxPayloadBytes : Int}
  {calls : Nat → Option PipeCall} {id : Nat} {event : SessionEvent} {action : BrokerAction}
  {call : PipeCall} {name : Text}

/-- The clients' connections to the broker with the conditions of its pipes. -/
structure AsyncSessions where
  async : AsyncBroker
  connection : Nat → Connection

namespace AsyncSessions

variable {s t : AsyncSessions}

/-- The same without the conditions. -/
def sessions (s : AsyncSessions) : Sessions := ⟨s.async.broker, s.connection⟩

def setConnection (s : AsyncSessions) (id : Nat) (c : Connection) : AsyncSessions :=
  { s with connection := Function.update s.connection id c }

def serve (py : Python) (dumps : BrokerReply → Bytes) (maxPayloadBytes : Int) (s : AsyncSessions)
    (id : Nat) : Option AsyncSessions :=
  match (s.async.broker.task id).input (s.connection id).client.hungUp (s.connection id).up with
  | none => none
  | some (action, rest) =>
    (s.async.step py maxPayloadBytes id action).map fun async =>
      { s with async := async }.setConnection id
        { s.connection id with
          up := rest, down := (s.connection id).down ++ (async.broker.task id).reply dumps }

def step (py : Python) (dumps : BrokerReply → Bytes) (maxPayloadBytes : Int)
    (calls : Nat → Option PipeCall) (s : AsyncSessions) (id : Nat) (event : SessionEvent) :
    Option AsyncSessions :=
  match calls id, event with
  | none, .foreign action =>
    (s.async.step py maxPayloadBytes id action).map fun async => { s with async := async }
  | some _, .serve => s.serve py dumps maxPayloadBytes id
  | some call, event =>
    ((s.connection id).step call (s.async.broker.task id).ended event).map (s.setConnection id)
  | none, _ => none

def start (calls : Nat → Option PipeCall) (messages : Text → List Bytes) : AsyncSessions :=
  ⟨.start (Sessions.start calls messages).broker, (Sessions.start calls messages).connection⟩

def Step (py : Python) (dumps : BrokerReply → Bytes) (maxPayloadBytes : Int)
    (calls : Nat → Option PipeCall) (s t : AsyncSessions) : Prop :=
  ∃ id event, s.step py dumps maxPayloadBytes calls id event = some t

abbrev Reachable (py : Python) (dumps : BrokerReply → Bytes) (maxPayloadBytes : Int)
    (calls : Nat → Option PipeCall) (messages : Text → List Bytes) : AsyncSessions → Prop :=
  Relation.ReflTransGen (Step py dumps maxPayloadBytes calls) (start calls messages)

/-- A read goes to sleep, or back to sleep, as its pipe is empty; nothing else changes. -/
def FallsAsleep (s : AsyncSessions) (id : Nat) (t : AsyncSessions) : Prop :=
  ∃ name, s.async.broker.WaitsOn name id ∧ s.async.broker.messages name = [] ∧
    id ∉ (s.async.waiters name).sleeping ∧
    t = { s with async := s.async.setWaiters name ((s.async.waiters name).sleep id) }

/-- A read of the pipe that is awake takes the payload at its head. -/
def Taken (py : Python) (dumps : BrokerReply → Bytes) (maxPayloadBytes : Int)
    (calls : Nat → Option PipeCall) (s : AsyncSessions) (name : Text) : Prop :=
  ∃ reader event t payload rest, reader ∉ (s.async.waiters name).sleeping ∧
    s.async.broker.WaitsOn name reader ∧ s.async.broker.messages name = payload :: rest ∧
    s.step py dumps maxPayloadBytes calls reader event = some t ∧
    t.async.broker.messages = Function.update s.async.broker.messages name rest

end AsyncSessions

/-- A step beside the conditions is the step of the plain broker, or a read that falls asleep. -/
theorem AsyncBroker.step_broker {s t : AsyncBroker}
    (h : s.step py maxPayloadBytes id action = some t) :
    s.broker.step py maxPayloadBytes id action = some t.broker ∨
      action = .take ∧ ∃ name, s.broker.WaitsOn name id ∧ s.broker.messages name = [] ∧
        id ∉ (s.waiters name).sleeping ∧ t = s.setWaiters name ((s.waiters name).sleep id) := by
  cases action with
  | header line =>
    obtain ⟨broker, hstep, rfl⟩ := Option.map_eq_some_iff.mp h
    exact Or.inl hstep
  | payload data =>
    obtain ⟨broker, hstep, rfl⟩ := Option.map_eq_some_iff.mp h
    exact Or.inl hstep
  | append =>
    simp only [step] at h
    split at h
    · obtain ⟨broker, hstep, rfl⟩ := Option.map_eq_some_iff.mp h
      exact Or.inl hstep
    · cases h
  | take =>
    simp only [step] at h
    split at h
    · rename_i protocol name expected htask
      split at h
      · cases h
      · rename_i hawake
        split at h
        · rename_i hempty
          obtain rfl := Option.some.inj h
          exact Or.inr ⟨rfl, name, ⟨protocol, expected, htask⟩, hempty, hawake, rfl⟩
        · obtain ⟨broker, hstep, rfl⟩ := Option.map_eq_some_iff.mp h
          exact Or.inl hstep
    · cases h

/-- A step of the plain broker is one beside the conditions, unless its read sleeps. -/
theorem AsyncBroker.step_of_broker {s : AsyncBroker} {b : Broker}
    (h : s.broker.step py maxPayloadBytes id action = some b) :
    (∃ t, s.step py maxPayloadBytes id action = some t ∧ t.broker = b) ∨
      ∃ name payload rest, s.broker.WaitsOn name id ∧ s.broker.messages name = payload :: rest ∧
        id ∈ (s.waiters name).sleeping := by
  cases action with
  | header line => exact Or.inl ⟨s.setBroker b, by simp only [step, h, Option.map_some], rfl⟩
  | payload data => exact Or.inl ⟨s.setBroker b, by simp only [step, h, Option.map_some], rfl⟩
  | append =>
    left
    cases htask : s.broker.task id with
    | appending protocol name payload =>
      simp only [step, htask, h, Option.map_some]
      exact ⟨_, rfl, rfl⟩
    | _ => simp [Broker.step, htask] at h
  | take =>
    cases htask : s.broker.task id with
    | waiting protocol name expected =>
      cases hqueue : s.broker.messages name with
      | nil => simp [Broker.step, htask, hqueue] at h
      | cons payload rest =>
        by_cases hasleep : id ∈ (s.waiters name).sleeping
        · exact Or.inr ⟨name, payload, rest, ⟨protocol, expected, htask⟩, hqueue, hasleep⟩
        · left
          have hne : s.broker.messages name ≠ [] := by simp [hqueue]
          simp only [step, htask, if_neg hasleep, if_neg hne, h, Option.map_some]
          exact ⟨_, rfl, rfl⟩
    | _ => simp [Broker.step, htask] at h

namespace AsyncSessions

variable {s t : AsyncSessions}

/-- The conditions take nothing from the plain model and add the reads that fall asleep. -/
theorem step_cases (h : s.step py dumps maxPayloadBytes calls id event = some t) :
    s.sessions.step py dumps maxPayloadBytes calls id event = some t.sessions ∨
      s.FallsAsleep id t := by
  cases hcall : calls id with
  | none =>
    cases event with
    | foreign action =>
      simp only [step, hcall] at h
      obtain ⟨async, hstep, rfl⟩ := Option.map_eq_some_iff.mp h
      rcases AsyncBroker.step_broker hstep with hbroker | ⟨-, name, hwaits, hempty, hawake, rfl⟩
      · left
        simp only [Sessions.step, hcall, sessions, hbroker, Option.map_some]
      · exact Or.inr ⟨name, hwaits, hempty, hawake, rfl⟩
    | _ => simp [step, hcall] at h
  | some call =>
    cases event with
    | serve =>
      simp only [step, hcall, serve] at h
      split at h
      · cases h
      · rename_i action rest hinput
        obtain ⟨async, hstep, rfl⟩ := Option.map_eq_some_iff.mp h
        rcases AsyncBroker.step_broker hstep with hbroker | ⟨rfl, name, hwaits, hempty, hawake, rfl⟩
        · left
          simp only [Sessions.step, hcall, Sessions.serve, sessions, hinput, hbroker,
            Option.map_some]
          rfl
        · -- a handler that falls asleep has read nothing and replies nothing
          right
          obtain ⟨protocol, expected, htask⟩ := hwaits
          rw [htask] at hinput
          obtain rfl : (s.connection id).up = rest := (Prod.mk.inj (Option.some.inj hinput)).2
          refine ⟨name, ⟨protocol, expected, htask⟩, hempty, hawake, ?_⟩
          have hreply : (((s.async.setWaiters name
              ((s.async.waiters name).sleep id)).broker.task id).reply dumps) = [] := by
            simp only [AsyncBroker.setWaiters, htask, Task.reply]
          simp only [setConnection, hreply, List.append_nil, Function.update_eq_self]
    | foreign action => simp [step, hcall, Connection.step] at h
    | _ =>
      left
      simp only [step, hcall] at h
      obtain ⟨c, hc, rfl⟩ := Option.map_eq_some_iff.mp h
      simp only [Sessions.step, hcall, sessions, hc, Option.map_some]
      rfl

/-- An event of the plain model is one beside the conditions, unless it is of a read that sleeps. -/
theorem step_of_sessions {u : Sessions}
    (h : s.sessions.step py dumps maxPayloadBytes calls id event = some u) :
    (∃ t, s.step py dumps maxPayloadBytes calls id event = some t ∧ t.sessions = u) ∨
      ∃ name payload rest, s.async.broker.WaitsOn name id ∧
        s.async.broker.messages name = payload :: rest ∧ id ∈ (s.async.waiters name).sleeping := by
  cases hcall : calls id with
  | none =>
    cases event with
    | foreign action =>
      simp only [Sessions.step, hcall] at h
      obtain ⟨broker, hstep, rfl⟩ := Option.map_eq_some_iff.mp h
      refine (AsyncBroker.step_of_broker hstep).imp_left ?_
      rintro ⟨async, hasync, rfl⟩
      refine ⟨{ s with async := async }, ?_, rfl⟩
      simp only [step, hcall, hasync, Option.map_some]
    | _ => simp [Sessions.step, hcall] at h
  | some call =>
    cases event with
    | serve =>
      simp only [Sessions.step, hcall, Sessions.serve] at h
      split at h
      · cases h
      · rename_i action rest hinput
        obtain ⟨broker, hstep, rfl⟩ := Option.map_eq_some_iff.mp h
        refine (AsyncBroker.step_of_broker hstep).imp_left ?_
        rintro ⟨async, hasync, rfl⟩
        have hinput' : (s.async.broker.task id).input (s.connection id).client.hungUp
            (s.connection id).up =
            some (action, rest) := hinput
        simp only [step, hcall, serve, hinput', hasync, Option.map_some]
        exact ⟨_, rfl, rfl⟩
    | foreign action => simp [Sessions.step, hcall, Connection.step] at h
    | _ =>
      left
      simp only [Sessions.step, hcall] at h
      obtain ⟨c, hc, rfl⟩ := Option.map_eq_some_iff.mp h
      refine ⟨s.setConnection id c, ?_, rfl⟩
      have hc' := hc
      simp only [sessions] at hc'
      simp only [step, hcall, hc', Option.map_some]

theorem Reachable.run {messages : Text → List Bytes}
    (h : Reachable py dumps maxPayloadBytes calls messages s) :
    ∃ changes, SessionRun py dumps maxPayloadBytes calls (.start calls messages) changes
      s.sessions := by
  induction h with
  | refl => exact ⟨[], .nil⟩
  | tail _ hstep ih =>
    obtain ⟨changes, hrun⟩ := ih
    obtain ⟨id, event, hstep⟩ := hstep
    rcases step_cases hstep with hplain | ⟨name, -, -, -, rfl⟩
    · exact ⟨_, hrun.step hplain⟩
    · exact ⟨changes, hrun⟩

/-- The broker of the clients' run keeps what it promises about its sleeping reads. -/
theorem step_awaits (h : s.step py dumps maxPayloadBytes calls id event = some t)
    (hs : s.async.Awaits) : t.async.Awaits := by
  cases hcall : calls id with
  | none =>
    cases event with
    | foreign action =>
      simp only [step, hcall] at h
      obtain ⟨async, hstep, rfl⟩ := Option.map_eq_some_iff.mp h
      exact (AsyncBroker.step_moves hstep).awaits hs
    | _ => simp [step, hcall] at h
  | some call =>
    cases event with
    | serve =>
      simp only [step, hcall, serve] at h
      split at h
      · cases h
      · obtain ⟨async, hstep, rfl⟩ := Option.map_eq_some_iff.mp h
        exact (AsyncBroker.step_moves hstep).awaits hs
    | _ =>
      simp only [step, hcall] at h
      obtain ⟨c, -, rfl⟩ := Option.map_eq_some_iff.mp h
      exact hs

theorem Reachable.awaits {messages : Text → List Bytes}
    (h : Reachable py dumps maxPayloadBytes calls messages s) : s.async.Awaits := by
  induction h with
  | refl => exact AsyncBroker.awaits_start _
  | tail _ hstep ih =>
    obtain ⟨id, event, hstep⟩ := hstep
    exact step_awaits hstep ih

/-- The read that is awake beside a payload takes it as an event of the clients' run. -/
theorem exists_taker (py : Python) (dumps : BrokerReply → Bytes) (maxPayloadBytes : Int)
    (calls : Nat → Option PipeCall) (hs : s.async.Awaits) {payload : Bytes} {rest : List Bytes}
    (hqueue : s.async.broker.messages name = payload :: rest)
    (hwaits : s.async.broker.WaitsOn name id) : s.Taken py dumps maxPayloadBytes calls name := by
  obtain ⟨reader, async, ⟨protocol, expected, htask⟩, hstep, hmessages⟩ :=
    hs.progress py maxPayloadBytes hqueue hwaits
  have hawake : reader ∉ (s.async.waiters name).sleeping := by
    intro hasleep
    simp [AsyncBroker.step, htask, hasleep] at hstep
  cases hcall : calls reader with
  | none =>
    refine ⟨reader, .foreign .take, { s with async := async }, payload, rest, hawake,
      ⟨protocol, expected, htask⟩, hqueue, ?_, hmessages⟩
    simp only [step, hcall, hstep, Option.map_some]
  | some call =>
    have hserve : ∃ t, s.serve py dumps maxPayloadBytes reader = some t ∧ t.async = async := by
      simp only [serve, htask, Task.input, hstep, Option.map_some]
      exact ⟨_, rfl, rfl⟩
    obtain ⟨t, hserve, rfl⟩ := hserve
    refine ⟨reader, .serve, t, payload, rest, hawake, ⟨protocol, expected, htask⟩, hqueue, ?_,
      hmessages⟩
    simpa only [step, hcall] using hserve

/-- An event of the call lowers its measure, or is a read that falls asleep. -/
theorem Reachable.step_before (hint : py.ReadsInt)
    (hcalls : ∀ id call, calls id = some call → call.Valid) {messages : Text → List Bytes}
    (h : Reachable py dumps maxPayloadBytes calls messages s) (hcall : calls id = some call)
    (hstep : s.step py dumps maxPayloadBytes calls id event = some t) :
    t.sessions.Before call id s.sessions ∨ s.FallsAsleep id t := by
  obtain ⟨changes, hrun⟩ := h.run
  have hfits := (hrun.sound hint hcalls).fits id call hcall
  exact (step_cases hstep).imp_left (Sessions.step_before hcall (hcalls id call hcall) hfits)

theorem step_other {other : Nat} (hne : other ≠ id)
    (h : s.step py dumps maxPayloadBytes calls other event = some t) :
    t.async.broker.task id = s.async.broker.task id ∧ t.connection id = s.connection id := by
  rcases step_cases h with hplain | ⟨name, -, -, -, rfl⟩
  · exact Sessions.step_other hne.symm hplain
  · exact ⟨rfl, rfl⟩

/-- Along a run a call lowers its measure finitely often. -/
theorem Reachable.quiet (hint : py.ReadsInt)
    (hcalls : ∀ id call, calls id = some call → call.Valid) {messages : Text → List Bytes}
    (hcall : calls id = some call) {run : Nat → AsyncSessions} {who : Nat → Nat}
    {what : Nat → SessionEvent}
    (h : Reachable py dumps maxPayloadBytes calls messages (run 0))
    (hrun : ∀ n, (run n).step py dumps maxPayloadBytes calls (who n) (what n) =
      some (run (n + 1))) :
    ∃ N, ∀ n, N ≤ n → who n = id → (run n).FallsAsleep id (run (n + 1)) := by
  have hreach : ∀ n, Reachable py dumps maxPayloadBytes calls messages (run n) := by
    intro n
    induction n with
    | zero => exact h
    | succ n ih => exact ih.tail ⟨who n, what n, hrun n⟩
  have hstep : ∀ n, ((run (n + 1)).sessions.Before call id (run n).sessions ∧ who n = id) ∨
      (((run (n + 1)).sessions.broker.task id = (run n).sessions.broker.task id ∧
        (run (n + 1)).sessions.connection id = (run n).sessions.connection id) ∧
        (who n = id → (run n).FallsAsleep id (run (n + 1)))) := by
    intro n
    by_cases hid : who n = id
    · have hn := hrun n
      rw [hid] at hn
      rcases (hreach n).step_before hint hcalls hcall hn with hbefore | hsleep
      · exact Or.inl ⟨hbefore, hid⟩
      · have hkept := hsleep
        obtain ⟨name, -, -, -, hnext⟩ := hkept
        rw [hnext]
        exact Or.inr ⟨⟨rfl, rfl⟩, fun _ => hnext ▸ hsleep⟩
    · exact Or.inr ⟨step_other hid (hrun n), fun hsame => absurd hsame hid⟩
  -- the measure never rises, so a well-founded descent ends it
  have hle : Antitone fun n => (run n).sessions.measure call id := by
    refine antitone_nat_of_succ_le fun n => ?_
    rcases hstep n with ⟨hbefore, -⟩ | ⟨⟨htask, hconnection⟩, -⟩
    · exact le_of_lt hbefore
    · simp only [Sessions.measure, htask, hconnection, le_refl]
  obtain ⟨N, hconst⟩ := WellFoundedLT.antitone_chain_condition hle
  refine ⟨N, fun n hn hid => ?_⟩
  rcases hstep n with ⟨hbefore, -⟩ | ⟨-, hsleep⟩
  · have hsame := (hconst n hn).symm.trans (hconst (n + 1) (hn.trans n.le_succ))
    exact absurd hbefore (by rw [Sessions.Before, hsame]; exact lt_irrefl _)
  · exact hsleep hid

/-- Until it has returned, a call has an event that lowers its measure without a lost
connection, or it is a read that waits for a payload, or sleeps while an awake one takes it. -/
theorem Reachable.progress (hint : py.ReadsInt)
    (hcalls : ∀ id call, calls id = some call → call.Valid) {messages : Text → List Bytes}
    (h : Reachable py dumps maxPayloadBytes calls messages s) (hcall : calls id = some call)
    (hopen : (s.connection id).client.hungUp = false) :
    (∃ event t, (∀ k, event ≠ .lose k) ∧
      s.step py dumps maxPayloadBytes calls id event = some t ∧
      t.sessions.Before call id s.sessions) ∨
    ∃ name expected, s.async.broker.task id = .waiting .native name expected ∧
      (s.async.broker.messages name = [] ∨
        id ∈ (s.async.waiters name).sleeping ∧
          s.Taken py dumps maxPayloadBytes calls name) := by
  obtain ⟨changes, hrun⟩ := h.run
  have hfits := (hrun.sound hint hcalls).fits id call hcall
  rcases Sessions.progress py maxPayloadBytes hcall hfits hopen with
    ⟨event, u, hlose, hstep⟩ | ⟨name, expected, htask, hempty⟩
  · have hbefore := Sessions.step_before hcall (hcalls id call hcall) hfits hstep
    rcases step_of_sessions hstep with ⟨t, ht, rfl⟩ |
      ⟨name, payload, rest, hwaits, hqueue, hasleep⟩
    · exact Or.inl ⟨event, t, hlose, ht, hbefore⟩
    · obtain ⟨protocol, expected, htask⟩ := hwaits
      have hhandles := hfits.handles
      rw [show s.sessions.broker.task id = .waiting protocol name expected from htask] at hhandles
      obtain ⟨rfl, -⟩ := hhandles
      exact Or.inr ⟨name, expected, htask, Or.inr ⟨hasleep,
        exists_taker py dumps maxPayloadBytes calls h.awaits hqueue ⟨_, _, htask⟩⟩⟩
  · exact Or.inr ⟨name, expected, htask, Or.inl hempty⟩

end AsyncSessions

/-- Each event of a call lowers its measure or puts its read to sleep at an empty pipe, no
other event changes it, and a run has only finitely many events that lower it. Until the
call has returned such an event is possible without a lost connection, unless it is a read
that waits at an empty pipe, or that sleeps beside a payload which an awake read takes. -/
theorem client_calls_return (hint : py.ReadsInt)
    (hcalls : ∀ id call, calls id = some call → call.Valid) {messages : Text → List Bytes}
    {s : AsyncSessions} (h : AsyncSessions.Reachable py dumps maxPayloadBytes calls messages s)
    (hcall : calls id = some call) :
    (∀ event t, s.step py dumps maxPayloadBytes calls id event = some t →
      t.sessions.Before call id s.sessions ∨ s.FallsAsleep id t) ∧
    (∀ other event t, other ≠ id → s.step py dumps maxPayloadBytes calls other event = some t →
      t.async.broker.task id = s.async.broker.task id ∧ t.connection id = s.connection id) ∧
    (∀ (run : Nat → AsyncSessions) (who : Nat → Nat) (what : Nat → SessionEvent), run 0 = s →
      (∀ n, (run n).step py dumps maxPayloadBytes calls (who n) (what n) = some (run (n + 1))) →
      ∃ N, ∀ n, N ≤ n → who n = id → (run n).FallsAsleep id (run (n + 1))) ∧
    ((∃ value buffer, (s.connection id).client = .returned value buffer) ∨
      (∃ event t, (∀ k, event ≠ .lose k) ∧
        s.step py dumps maxPayloadBytes calls id event = some t ∧
        t.sessions.Before call id s.sessions) ∨
      ∃ name n expected, call = .read name n ∧
        s.async.broker.task id = .waiting .native name expected ∧
        (s.async.broker.messages name = [] ∨
          id ∈ (s.async.waiters name).sleeping ∧
            s.Taken py dumps maxPayloadBytes calls name)) := by
  refine ⟨fun event t hstep => h.step_before hint hcalls hcall hstep,
    fun other event t hne hstep => AsyncSessions.step_other hne hstep,
    fun run who what hstart hrun => ?_, ?_⟩
  · exact AsyncSessions.Reachable.quiet hint hcalls hcall (hstart ▸ h) hrun
  · by_cases hopen : (s.connection id).client.hungUp = false
    · rcases h.progress hint hcalls hcall hopen with hevent | ⟨name, expected, htask, hpipe⟩
      · exact Or.inr (Or.inl hevent)
      · obtain ⟨changes, hrun⟩ := h.run
        have hhandles := ((hrun.sound hint hcalls).fits id call hcall).handles
        rw [show s.sessions.broker.task id = .waiting .native name expected from htask] at hhandles
        obtain ⟨-, n, hread, -⟩ := hhandles
        exact Or.inr (Or.inr ⟨name, n, expected, hread, htask, hpipe⟩)
    · left
      cases hclient : (s.connection id).client with
      | returned value buffer => exact ⟨value, buffer, rfl⟩
      | _ => exact absurd (by rw [hclient]; rfl) hopen

end Conditions

def asyncSessionExec (py : Python) (dumps : BrokerReply → Bytes) (maxPayloadBytes : Int)
    (calls : Nat → Option PipeCall) :
    List (Nat × SessionEvent) → AsyncSessions → Option AsyncSessions
  | [], s => some s
  | (id, event) :: rest, s =>
    match s.step py dumps maxPayloadBytes calls id event with
    | none => none
    | some t => asyncSessionExec py dumps maxPayloadBytes calls rest t

theorem asyncSessionExec_reachable {py : Python} {dumps : BrokerReply → Bytes}
    {maxPayloadBytes : Int} {calls : Nat → Option PipeCall} {messages : Text → List Bytes}
    {s t : AsyncSessions} {events : List (Nat × SessionEvent)}
    (h : AsyncSessions.Reachable py dumps maxPayloadBytes calls messages s)
    (hexec : asyncSessionExec py dumps maxPayloadBytes calls events s = some t) :
    AsyncSessions.Reachable py dumps maxPayloadBytes calls messages t := by
  induction events generalizing s with
  | nil =>
    cases hexec
    exact h
  | cons event rest ih =>
    obtain ⟨id, event⟩ := event
    simp only [asyncSessionExec] at hexec
    split at hexec
    · cases hexec
    · rename_i u hstep
      exact ih (h.tail ⟨id, event, hstep⟩) hexec

/-- A writer and two readers of the pipe `p`. -/
def threeCalls (id : Nat) : Option PipeCall :=
  if id = 2 then some (.read ['p'] 1) else twoCalls id

theorem threeCalls_valid (id : Nat) (call : PipeCall) (h : threeCalls id = some call) :
    call.Valid := by
  unfold threeCalls at h
  split at h
  · exact twoCalls_valid 1 call h
  · exact twoCalls_valid id call h

/-- Both reads fall asleep, and the payload of the write wakes the first of them. -/
def secondSleeper : List (Nat × SessionEvent) :=
  [(1, .send 6), (1, .serve), (1, .serve), (2, .send 6), (2, .serve), (2, .serve), (0, .send 6),
    (0, .serve), (0, .send 1), (0, .serve), (0, .serve)]

/-- The second read sleeps beside the payload that the first one is about to take. -/
theorem client_calls_return_second_sleeper : ∃ s,
    asyncSessionExec asciiPython (fun _ => []) 64 threeCalls secondSleeper
      (.start threeCalls fun _ => []) = some s ∧
    (s.connection 2).client = .readLine [] ∧ (s.async.waiters ['p']).sleeping = [2] ∧
    s.async.broker.messages ['p'] = [[1]] ∧
    ((∃ event t, (∀ k, event ≠ .lose k) ∧
        s.step asciiPython (fun _ => []) 64 threeCalls 2 event = some t ∧
        t.sessions.Before (.read ['p'] 1) 2 s.sessions) ∨
      ∃ name n expected, PipeCall.read ['p'] 1 = .read name n ∧
        s.async.broker.task 2 = .waiting .native name expected ∧
        (s.async.broker.messages name = [] ∨
          2 ∈ (s.async.waiters name).sleeping ∧
          s.Taken asciiPython (fun _ => []) 64 threeCalls name)) := by
  have hrun : (asyncSessionExec asciiPython (fun _ => []) 64 threeCalls secondSleeper
      (.start threeCalls fun _ => [])).map
        (fun s => decide ((s.connection 2).client = .readLine [] ∧
          (s.async.waiters ['p']).sleeping = [2] ∧ s.async.broker.messages ['p'] = [[1]])) =
            some true := by
    decide +kernel
  obtain ⟨s, hexec, hstate⟩ := Option.map_eq_some_iff.mp hrun
  obtain ⟨hclient, hsleeping, hqueue⟩ := of_decide_eq_true hstate
  have hreturn := client_calls_return asciiPython_readsInt threeCalls_valid
    (asyncSessionExec_reachable .refl hexec) (rfl : threeCalls 2 = some (.read ['p'] 1))
  refine ⟨s, hexec, hclient, hsleeping, hqueue, hreturn.2.2.2.resolve_left ?_⟩
  rintro ⟨value, buffer, hreturned⟩
  rw [hclient] at hreturned
  cases hreturned

end ChipSystemSim
