import ChipSystemSim.RemotePipe

/-! Clients of the broker over their connections. Each system call of a client moves some
bytes, a connection may break at any moment, and the broker reads what has arrived. -/

namespace ChipSystemSim

/-- The bytes on the way to the broker and back. `lost` says that the connection broke. -/
structure Connection where
  client : ClientState
  up : Bytes
  down : Bytes
  lost : Bool

structure Sessions where
  broker : Broker
  connection : Nat → Connection

/-- `lose` leaves `k` bytes on the way to the broker; `foreign` is a step for another client. -/
inductive SessionEvent where
  | send (k : Nat)
  | receive (k : Nat)
  | endOfStream
  | lose (k : Nat)
  | serve
  | foreign (action : BrokerAction)

/-- What a handler writes; `dumps` is the JSON of a reply. -/
def Task.reply (dumps : BrokerReply → Bytes) : Task → Bytes
  | .answered .json reply => dumps reply
  | .answered .native (.stored _) => okLine
  | .answered .native (.delivered payload) => okDataLine payload.length ++ payload
  | .answered .native (.error message) =>
    Relay.utf8Encode ("ERR ".toList ++ message.toList ++ ['\n'])
  | _ => []

def Task.ended : Task → Bool
  | .answered _ _ => true
  | .closed => true
  | _ => false

namespace ClientState

/-- The client has closed its socket. -/
def hungUp : ClientState → Bool
  | returned _ _ => true
  | _ => false

def sending : ClientState → Bool
  | sendHeader _ => true
  | sendPayload _ => true
  | _ => false

def Failed (client : ClientState) : Prop := ∃ buffer, client = returned (-1) buffer

end ClientState

/-- What a handler does next with the bytes that have arrived, and what it leaves of them. -/
def Task.input (hungUp : Bool) (stream : Bytes) : Task → Option (BrokerAction × Bytes)
  | .connected =>
    if 10 ∈ stream ∨ hungUp then
      match readline stream with
      | .ok (line, rest) => some (.header (some line), rest)
      | .error _ => some (.header none, [])
    else none
  | .receiving _ byteCount =>
    if byteCount ≤ stream.length ∨ hungUp then
      some (.payload (stream.take byteCount), stream.drop byteCount)
    else none
  | .appending _ _ _ => some (.append, stream)
  | .waiting _ _ _ => some (.take, stream)
  | _ => none

def Connection.step (call : PipeCall) (c : Connection) (ended : Bool) : SessionEvent →
    Option Connection
  | .send k => (call.send k c.client).map fun r => { c with client := r.2, up := c.up ++ r.1 }
  | .receive k => (call.receive k c.down c.client).map fun r =>
    { c with client := r.1, down := r.2 }
  | .endOfStream =>
    if ended ∧ c.down = [] ∧ c.client.sending = false then
      (call.giveUp c.client).map fun client => { c with client := client }
    else none
  | .lose k => (call.giveUp c.client).map fun client =>
    { c with client := client, up := c.up.take k, lost := true }
  | _ => none

def Sessions.setConnection (s : Sessions) (id : Nat) (c : Connection) : Sessions :=
  { s with connection := Function.update s.connection id c }

def Sessions.serve (py : Python) (dumps : BrokerReply → Bytes) (maxPayloadBytes : Int)
    (s : Sessions) (id : Nat) : Option Sessions :=
  match (s.broker.task id).input (s.connection id).client.hungUp (s.connection id).up with
  | none => none
  | some (action, rest) =>
    (s.broker.step py maxPayloadBytes id action).map fun broker =>
      { s with broker := broker }.setConnection id
        { s.connection id with
          up := rest
          down := (s.connection id).down ++ (broker.task id).reply dumps }

def Sessions.step (py : Python) (dumps : BrokerReply → Bytes) (maxPayloadBytes : Int)
    (calls : Nat → Option PipeCall) (s : Sessions) (id : Nat) (event : SessionEvent) :
    Option Sessions :=
  match calls id, event with
  | none, .foreign action => (s.broker.step py maxPayloadBytes id action).map fun broker =>
    { s with broker := broker }
  | some _, .serve => s.serve py dumps maxPayloadBytes id
  | some call, event =>
    ((s.connection id).step call (s.broker.task id).ended event).map (s.setConnection id)
  | none, _ => none

/-- The steps of the broker in an event. -/
def SessionEvent.changes (id : Nat) (s t : Sessions) : SessionEvent → List Change
  | .serve => [⟨id, s.broker, t.broker⟩]
  | .foreign _ => [⟨id, s.broker, t.broker⟩]
  | _ => []

def Sessions.start (calls : Nat → Option PipeCall) (messages : Text → List Bytes) : Sessions where
  broker := ⟨messages, fun _ => .connected⟩
  connection := fun id =>
    match calls id with
    | some call => ⟨.sendHeader call.header, [], [], false⟩
    | none => ⟨.returned 0 [], [], [], false⟩

inductive SessionRun (py : Python) (dumps : BrokerReply → Bytes) (maxPayloadBytes : Int)
    (calls : Nat → Option PipeCall) (start : Sessions) : List Change → Sessions → Prop
  | nil : SessionRun py dumps maxPayloadBytes calls start [] start
  | step {changes : List Change} {s t : Sessions} {id : Nat} {event : SessionEvent}
      (h : SessionRun py dumps maxPayloadBytes calls start changes s)
      (hstep : s.step py dumps maxPayloadBytes calls id event = some t) :
      SessionRun py dumps maxPayloadBytes calls start (changes ++ event.changes id s t) t

namespace PipeCall

variable {call : PipeCall} {k : Nat} {bytes down rest : Bytes} {client client' : ClientState}

/-- What the client has still to send, and what it has taken of a reply. -/
def unsent (call : PipeCall) : ClientState → Bytes
  | .sendHeader rest => rest ++ call.payload
  | .sendPayload rest => rest
  | _ => []

def taken (call : PipeCall) : ClientState → Bytes
  | .readLine line => line
  | .readAll received => call.expected ++ 10 :: received
  | .returned _ buffer => call.expected ++ 10 :: buffer
  | _ => []

/-- The size of what follows the reply line of a success. -/
def replySize : PipeCall → Nat
  | write _ _ => 0
  | read _ bytes => bytes

def Shape (call : PipeCall) : ClientState → Prop
  | .sendHeader rest => rest ≠ []
  | .sendPayload rest => rest ≠ []
  | .readLine line => 10 ∉ line
  | .readAll received => received.length < call.replySize
  | .returned value buffer => value = -1 ∨ (value = call.bytes ∧ buffer.length = call.replySize)

theorem unsent_afterHeader (call : PipeCall) : call.unsent call.afterHeader = call.payload := by
  by_cases h : call.payload = []
  · rw [afterHeader, if_pos h, h]
    rfl
  · rw [afterHeader, if_neg h]
    rfl

theorem afterHeader_cases (call : PipeCall) : call.afterHeader = .readLine [] ∨
    (call.payload ≠ [] ∧ call.afterHeader = .sendPayload call.payload) := by
  by_cases h : call.payload = []
  · exact Or.inl (if_pos h)
  · exact Or.inr ⟨h, if_neg h⟩

/-- A client that sends has taken nothing yet, and keeps what it has still to send. -/
theorem send_spec (h : call.send k client = some (bytes, client')) :
    call.unsent client = bytes ++ call.unsent client' ∧ call.taken client = [] ∧
    call.taken client' = [] ∧
      call.Shape client' ∧ ¬client.Failed ∧ ¬client'.Failed := by
  cases client with
  | sendHeader rest =>
    simp only [send] at h
    split at h
    · obtain ⟨rfl, rfl⟩ := Prod.mk.inj (Option.some.inj h)
      have hopen : ¬(ClientState.sendHeader rest).Failed := fun ⟨_, h⟩ => by cases h
      by_cases hdone : rest.drop k = []
      · have htake : rest.take k = rest := List.take_of_length_le (List.drop_eq_nil_iff.mp hdone)
        rw [if_pos hdone, unsent_afterHeader, htake]
        refine ⟨rfl, rfl, ?_⟩
        rcases call.afterHeader_cases with hnext | ⟨hne, hnext⟩ <;> rw [hnext]
        · exact ⟨rfl, List.not_mem_nil, hopen, fun ⟨_, h⟩ => by cases h⟩
        · exact ⟨rfl, hne, hopen, fun ⟨_, h⟩ => by cases h⟩
      · rw [if_neg hdone]
        refine ⟨?_, rfl, rfl, hdone, hopen, fun ⟨_, h⟩ => by cases h⟩
        show rest ++ call.payload = rest.take k ++ (rest.drop k ++ call.payload)
        rw [← List.append_assoc, List.take_append_drop]
    · cases h
  | sendPayload rest =>
    simp only [send] at h
    split at h
    · obtain ⟨rfl, rfl⟩ := Prod.mk.inj (Option.some.inj h)
      have hopen : ¬(ClientState.sendPayload rest).Failed := fun ⟨_, h⟩ => by cases h
      by_cases hdone : rest.drop k = []
      · rw [if_pos hdone]
        refine ⟨?_, rfl, rfl, List.not_mem_nil, hopen, fun ⟨_, h⟩ => by cases h⟩
        show rest = rest.take k ++ []
        rw [List.append_nil, List.take_of_length_le (List.drop_eq_nil_iff.mp hdone)]
      · rw [if_neg hdone]
        exact ⟨(List.take_append_drop k rest).symm, rfl, rfl, hdone, hopen,
          fun ⟨_, h⟩ => by cases h⟩
    · cases h
  | readLine line => cases h
  | readAll received => cases h
  | returned value buffer => cases h

/-- A reply line that is not the expected one, or is too long to be it. -/
def BadReply (call : PipeCall) (reply : Bytes) : Prop :=
  ∀ data, reply ≠ call.expected ++ 10 :: data

theorem afterLine_expected (call : PipeCall) :
    call.unsent (call.afterLine call.expected) = [] ∧
    call.taken (call.afterLine call.expected) = call.expected ++ [10] ∧
      call.Shape (call.afterLine call.expected) ∧ ¬(call.afterLine call.expected).Failed := by
  cases call with
  | write name payload =>
    rw [afterLine, if_pos rfl]
    refine ⟨rfl, rfl, Or.inr ⟨rfl, rfl⟩, ?_⟩
    rintro ⟨buffer, h⟩
    injection h with hvalue
    omega
  | read name bytes =>
    rw [afterLine, if_pos rfl]
    by_cases hzero : bytes = 0
    · subst hzero
      refine ⟨rfl, rfl, Or.inr ⟨rfl, rfl⟩, ?_⟩
      rintro ⟨buffer, h⟩
      injection h with hvalue
      omega
    · simp only [hzero, if_false]
      exact ⟨rfl, rfl, Nat.pos_of_ne_zero hzero, fun ⟨_, h⟩ => by cases h⟩

theorem afterLine_other {line : Bytes} (h : line ≠ call.expected) :
    call.afterLine line = .returned (-1) [] := by
  exact if_neg h

theorem expected_ne_nil (call : PipeCall) : call.expected ≠ [] := by
  cases call with
  | write name payload => exact List.cons_ne_nil _ _
  | read name bytes => exact List.cons_ne_nil _ _

theorem newline_notMem_expected (call : PipeCall) : 10 ∉ call.expected := by
  have hok : ∀ c ∈ "OK ".toList, c.toUInt8 ≠ 10 := by
    intro c hc
    have hchars : c = 'O' ∨ c = 'K' ∨ c = ' ' := by simpa using hc
    rcases hchars with rfl | rfl | rfl <;> decide
  have hdigits : ∀ n : Nat, ∀ c ∈ "OK ".toList ++ decimal n, c.toUInt8 ≠ 10 := by
    intro n c hc
    rcases List.mem_append.mp hc with hc | hc
    · exact hok c hc
    · have hfield := fieldChar_of_isDigit (toDigits_isDigit hc)
      intro he
      have hn : c.toNat = 10 := by
        rw [← toNat_toUInt8 (hfield.1.trans (by decide)), he]
        rfl
      have := hfield.2
      simp [isCSpace, hn] at this
  cases call with
  | write name payload => exact (by decide : (10 : UInt8) ∉ encodeText "OK".toList)
  | read name bytes =>
    intro h
    obtain ⟨c, hc, hne⟩ := List.mem_map.mp h
    exact hdigits bytes c hc hne

theorem Valid.expected_length (hcall : call.Valid) : call.expected.length ≤ 13 := by
  cases call with
  | write name payload => exact (by decide : (encodeText "OK".toList).length ≤ 13)
  | read name bytes =>
    have hint := hcall.int
    have hdigits : (Nat.toDigits 10 bytes).length ≤ 10 := toDigits_length_le (by decide) (by
      simp only [PipeCall.bytes] at hint
      omega)
    have hlen : (encodeText ("OK ".toList ++ decimal (bytes : Int))).length = 3 +
        (Nat.toDigits 10 bytes).length := by
      simp [encodeText, decimal_nat]
      omega
    show (encodeText ("OK ".toList ++ decimal (bytes : Int))).length ≤ 13
    omega

/-- The client takes the reply in order, and gives up only on a reply that is no success. -/
theorem receive_spec (hcall : call.Valid) (hshape : call.Shape client)
    (h : call.receive k down client = some (client', rest)) :
    call.unsent client = [] ∧ call.unsent client' = [] ∧ call.Shape client' ∧ ¬client.Failed ∧
      (¬client'.Failed → call.taken client ++ down = call.taken client' ++ rest) ∧
      (client'.Failed → call.BadReply (call.taken client ++ down)) := by
  cases client with
  | sendHeader rest => cases h
  | sendPayload rest => cases h
  | returned value buffer => cases h
  | readLine line =>
    have hopen : ¬(ClientState.readLine line).Failed := fun ⟨_, h⟩ => by cases h
    cases down with
    | nil => cases h
    | cons byte tail =>
      simp only [receive] at h
      by_cases hbyte : byte = 10
      · subst hbyte
        simp only [if_true, Option.some.injEq, Prod.mk.injEq] at h
        obtain ⟨rfl, rfl⟩ := h
        by_cases hline : line = call.expected
        · obtain ⟨hunsent, htaken, hshape', hok⟩ := call.afterLine_expected
          rw [hline]
          refine ⟨rfl, hunsent, hshape', hline ▸ hopen, fun _ => ?_, fun hfailed =>
            absurd hfailed hok⟩
          rw [htaken, List.append_assoc]
          rfl
        · rw [afterLine_other hline]
          refine ⟨rfl, rfl, Or.inl rfl, hopen, fun hok => absurd ⟨[], rfl⟩ hok,
            fun _ data hreply => hline ?_⟩
          have hprefix := congrArg (List.takeWhile (· != 10)) hreply
          have hexpected : ∀ b ∈ call.expected, b ≠ 10 :=
            fun b hb h => call.newline_notMem_expected (h ▸ hb)
          have htaken : ∀ b ∈ line, b ≠ 10 := fun b hb h => hshape (h ▸ hb)
          rwa [show call.taken (.readLine line) = line from rfl, takeWhile_line htaken,
            takeWhile_line hexpected]
            at hprefix
      · simp only [hbyte, if_false] at h
        by_cases hlong : 256 < (line ++ [byte]).length
        · simp only [hlong, if_true, Option.some.injEq, Prod.mk.injEq] at h
          obtain ⟨rfl, rfl⟩ := h
          rw [afterLine_other call.expected_ne_nil.symm]
          refine ⟨rfl, rfl, Or.inl rfl, hopen, fun hok => absurd ⟨[], rfl⟩ hok,
            fun _ data hreply => ?_⟩
          -- the newline of a success comes within the line that was read
          have hlen := hcall.expected_length
          have hmem : 10 ∈ line ++ [byte] := by
            have hshort : call.expected ++ [10] <+: call.taken (.readLine line) ++ byte :: tail :=
              ⟨data, by rw [hreply]; simp⟩
            have hread : line ++ [byte] <+: call.taken (.readLine line) ++ byte :: tail :=
              ⟨tail, by simp [taken]⟩
            simp only [List.length_append, List.length_singleton] at hlong
            exact (List.prefix_of_prefix_length_le hshort hread (by simp; omega)).subset (by simp)
          rcases List.mem_append.mp hmem with hmem | hmem
          · exact hshape hmem
          · exact hbyte (List.mem_singleton.mp hmem).symm
        · simp only [hlong, if_false, Option.some.injEq, Prod.mk.injEq] at h
          obtain ⟨rfl, rfl⟩ := h
          refine ⟨rfl, rfl, ?_, hopen, fun _ => ?_, fun ⟨_, h⟩ => by cases h⟩
          · intro hmem
            rcases List.mem_append.mp hmem with hmem | hmem
            · exact hshape hmem
            · exact hbyte (List.mem_singleton.mp hmem).symm
          · show line ++ byte :: tail = (line ++ [byte]) ++ tail
            simp
  | readAll received =>
    have hopen : ¬(ClientState.readAll received).Failed := fun ⟨_, h⟩ => by cases h
    simp only [receive] at h
    split at h
    · rename_i hk
      obtain ⟨rfl, rfl⟩ := Prod.mk.inj (Option.some.inj h)
      have hstream : call.taken (.readAll received) ++ down =
          call.expected ++ 10 :: (received ++ down.take k) ++ down.drop k := by
        simp [taken]
      have hsize : call.bytes = call.replySize := by
        cases call with
        | write name payload => exact absurd hshape (Nat.not_lt_zero _)
        | read name bytes => rfl
      by_cases hfull : (received ++ down.take k).length = call.bytes
      · rw [if_pos hfull]
        refine ⟨rfl, rfl, Or.inr ⟨rfl, hfull.trans hsize⟩, hopen, fun _ => hstream, ?_⟩
        rintro ⟨buffer, h⟩
        injection h with hvalue
        omega
      · rw [if_neg hfull]
        refine ⟨rfl, rfl, ?_, hopen, fun _ => hstream, fun ⟨_, h⟩ => by cases h⟩
        show (received ++ down.take k).length < call.replySize
        rw [← hsize]
        simp only [List.length_append, List.length_take] at hfull ⊢
        omega
    · cases h

end PipeCall

/-- What a handler holds of the call of its client, and what is still on the way to it. -/
def Task.Handles (call : PipeCall) (client : ClientState) (up : Bytes) : Task → Prop
  | .connected => ∃ rest, up ++ rest = call.request ∧ (¬client.Failed → rest = call.unsent client)
  | .receiving name byteCount => ∃ payload, call = .write name payload ∧
      ((byteCount = payload.length ∧ ∃ rest, up ++ rest = payload ∧
        (¬client.Failed → rest = call.unsent client)) ∨
        (client.Failed ∧ up = [] ∧ (byteCount = 0 → payload = [])))
  | .appending protocol name payload => protocol = .native ∧ call = .write name payload
  | .waiting protocol name expected =>
      protocol = .native ∧ ∃ n, call = .read name n ∧ (¬client.Failed → expected = n)
  | .answered protocol (.stored _) =>
    protocol = .native ∧ ∃ name payload, call = .write name payload
  | .answered protocol (.delivered payload) =>
      protocol = .native ∧ ∃ name n, call = .read name n ∧ (¬client.Failed → payload.length = n)
  | .answered protocol (.error _) => protocol = .native
  | .closed => client.Failed

structure Connection.Fits (call : PipeCall) (dumps : BrokerReply → Bytes) (task : Task)
    (c : Connection) : Prop where
  handles : task.Handles call c.client c.up
  replies : ¬c.client.Failed → task.reply dumps = call.taken c.client ++ c.down
  shape : call.Shape c.client
  failed : c.client.Failed → c.lost = true ∨ ∃ message, task = .answered .native (.error message)

section Connections

variable {py : Python} {dumps : BrokerReply → Bytes} {maxPayloadBytes : Int} {call : PipeCall}
  {task : Task}
  {c c' : Connection} {event : SessionEvent} {id : Nat} {name : Text} {byteCount : Nat}

theorem okDataLine_eq (n : Nat) :
    okDataLine n = encodeText ("OK ".toList ++ decimal (n : Int)) ++ [10] := by
  rw [okDataLine, encodeText_append]
  rfl

/-- A handler that has answered a live client has failed, or its reply is a success of the call. -/
theorem Task.Handles.reply_cases {client : ClientState} {up : Bytes}
    (h : task.Handles call client up) (hlive : ¬client.Failed) (dumps : BrokerReply → Bytes) :
    task.reply dumps = [] ∨ (∃ message, task = .answered .native (.error message)) ∨
      ∃ data, task.reply dumps = call.expected ++ 10 :: data ∧ data.length = call.replySize := by
  cases task with
  | connected => exact Or.inl rfl
  | receiving name byteCount => exact Or.inl rfl
  | appending protocol name payload => exact Or.inl rfl
  | waiting protocol name expected => exact Or.inl rfl
  | closed => exact absurd h hlive
  | answered protocol reply =>
    cases reply with
    | stored bytes =>
      obtain ⟨rfl, name, payload, rfl⟩ := h
      exact Or.inr (Or.inr ⟨[], rfl, rfl⟩)
    | delivered payload =>
      obtain ⟨rfl, name, n, rfl, hsize⟩ := h
      refine Or.inr (Or.inr ⟨payload, ?_, hsize hlive⟩)
      show okDataLine payload.length ++ payload = encodeText ("OK ".toList ++ decimal (n : Int)) ++
          10 :: payload
      rw [hsize hlive, okDataLine_eq, List.append_assoc]
      rfl
    | error message =>
      obtain rfl : protocol = .native := h
      exact Or.inr (Or.inl ⟨message, rfl⟩)

/-- A live client that is done, or whose peer has closed, has the whole reply. -/
theorem Connection.Fits.refusal (h : c.Fits call dumps task) (hlive : ¬c.client.Failed)
    (hreply : task.reply dumps ≠ []) (hbad : call.BadReply (task.reply dumps)) :
    ∃ message, task = .answered .native (.error message) := by
  rcases h.handles.reply_cases hlive dumps with hnone | herror | ⟨data, hdata, -⟩
  · exact absurd hnone hreply
  · exact herror
  · exact absurd hdata (hbad data)

theorem Task.Handles.of_unsent {client client' : ClientState} {up bytes : Bytes}
    (h : task.Handles call client up) (hlive : ¬client.Failed)
    (hunsent : call.unsent client = bytes ++ call.unsent client') :
    task.Handles call client' (up ++ bytes) := by
  cases task with
  | connected =>
    obtain ⟨rest, hup, hrest⟩ := h
    refine ⟨call.unsent client', ?_, fun _ => rfl⟩
    rw [List.append_assoc, ← hunsent, ← hrest hlive, hup]
  | receiving name byteCount =>
    obtain ⟨payload, hcall, ⟨hcount, rest, hup, hrest⟩ | ⟨hfailed, -⟩⟩ := h
    · refine ⟨payload, hcall, Or.inl ⟨hcount, call.unsent client', ?_, fun _ => rfl⟩⟩
      rw [List.append_assoc, ← hunsent, ← hrest hlive, hup]
    · exact absurd hfailed hlive
  | appending protocol name payload => exact h
  | waiting protocol name expected =>
    obtain ⟨hprotocol, n, hcall, hexpected⟩ := h
    exact ⟨hprotocol, n, hcall, fun _ => hexpected hlive⟩
  | closed => exact absurd h hlive
  | answered protocol reply =>
    cases reply with
    | stored bytes => exact h
    | delivered payload =>
      obtain ⟨hprotocol, name, n, hcall, hsize⟩ := h
      exact ⟨hprotocol, name, n, hcall, fun _ => hsize hlive⟩
    | error message => exact h

/-- A client that fails leaves what it has sent, or the first bytes of it. -/
theorem Task.Handles.of_failed {client client' : ClientState} {up : Bytes}
    (h : task.Handles call client up) (hlive : ¬client.Failed) (hfailed : client'.Failed)
    (k : Nat) : task.Handles call client' (up.take k) := by
  cases task with
  | connected =>
    obtain ⟨rest, hup, -⟩ := h
    refine ⟨up.drop k ++ rest, ?_, fun hlive' => absurd hfailed hlive'⟩
    rw [← List.append_assoc, List.take_append_drop, hup]
  | receiving name byteCount =>
    obtain ⟨payload, hcall, ⟨hcount, rest, hup, -⟩ | ⟨hfailed', -⟩⟩ := h
    · refine ⟨payload, hcall,
        Or.inl ⟨hcount, up.drop k ++ rest, ?_, fun hlive' => absurd hfailed hlive'⟩⟩
      rw [← List.append_assoc, List.take_append_drop, hup]
    · exact absurd hfailed' hlive
  | appending protocol name payload => exact h
  | waiting protocol name expected =>
    obtain ⟨hprotocol, n, hcall, -⟩ := h
    exact ⟨hprotocol, n, hcall, fun hlive' => absurd hfailed hlive'⟩
  | closed => exact absurd h hlive
  | answered protocol reply =>
    cases reply with
    | stored bytes => exact h
    | delivered payload =>
      obtain ⟨hprotocol, name, n, hcall, -⟩ := h
      exact ⟨hprotocol, name, n, hcall, fun hlive' => absurd hfailed hlive'⟩
    | error message => exact h

/-- Giving up is a failure: nothing that was read so far is the expected line. -/
theorem PipeCall.giveUp_spec {client client' : ClientState}
    (h : call.giveUp client = some client') :
    ¬client.Failed ∧ client'.Failed ∧ call.Shape client' := by
  cases client with
  | sendHeader rest =>
    obtain rfl := Option.some.inj h
    exact ⟨fun ⟨_, h⟩ => (by cases h), ⟨_, rfl⟩, Or.inl rfl⟩
  | sendPayload rest =>
    obtain rfl := Option.some.inj h
    exact ⟨fun ⟨_, h⟩ => (by cases h), ⟨_, rfl⟩, Or.inl rfl⟩
  | readLine line =>
    obtain rfl := Option.some.inj h
    rw [call.afterLine_other call.expected_ne_nil.symm]
    exact ⟨fun ⟨_, h⟩ => (by cases h), ⟨_, rfl⟩, Or.inl rfl⟩
  | readAll received =>
    obtain rfl := Option.some.inj h
    exact ⟨fun ⟨_, h⟩ => (by cases h), ⟨_, rfl⟩, Or.inl rfl⟩
  | returned value buffer => cases h

/-- An event of the client keeps its connection in step with the handler. -/
theorem Connection.Fits.client (hcall : call.Valid) (h : c.Fits call dumps task)
    (hstep : c.step call task.ended event = some c') : c'.Fits call dumps task := by
  cases event with
  | send k =>
    obtain ⟨⟨bytes, client⟩, hsend, rfl⟩ := Option.map_eq_some_iff.mp hstep
    obtain ⟨hunsent, htaken, htaken', hshape, hlive, hlive'⟩ := PipeCall.send_spec hsend
    have hreply := h.replies hlive
    rw [htaken, ← htaken'] at hreply
    exact ⟨h.handles.of_unsent hlive hunsent, fun _ => hreply, hshape, fun hfailed =>
      absurd hfailed hlive'⟩
  | receive k =>
    obtain ⟨⟨client, rest⟩, hreceive, rfl⟩ := Option.map_eq_some_iff.mp hstep
    obtain ⟨hunsent, hunsent', hshape, hlive, hkept, hbad⟩ :=
      PipeCall.receive_spec hcall h.shape hreceive
    have hreply := h.replies hlive
    have hhandles : task.Handles call client (c.up ++ []) :=
      h.handles.of_unsent hlive (hunsent.trans hunsent'.symm)
    rw [List.append_nil] at hhandles
    refine ⟨hhandles, fun hlive' => hreply.trans (hkept hlive'), hshape, fun hfailed => Or.inr ?_⟩
    have hbad' := hbad hfailed
    rw [← hreply] at hbad'
    refine h.refusal hlive (fun hnil => ?_) hbad'
    rw [hnil] at hreply
    have hdown : c.down = [] := (List.append_eq_nil_iff.mp hreply.symm).2
    rw [hdown] at hreceive
    cases hclient : c.client with
    | readLine line => simp [PipeCall.receive, hclient] at hreceive
    | readAll received =>
      simp only [PipeCall.receive, hclient, List.length_nil] at hreceive
      split at hreceive
      · omega
      · cases hreceive
    | sendHeader rest => simp [PipeCall.receive, hclient] at hreceive
    | sendPayload rest => simp [PipeCall.receive, hclient] at hreceive
    | returned value buffer => simp [PipeCall.receive, hclient] at hreceive
  | endOfStream =>
    simp only [Connection.step] at hstep
    split at hstep
    · rename_i hend
      obtain ⟨hended, hdown, hsending⟩ := hend
      obtain ⟨client, hgive, rfl⟩ := Option.map_eq_some_iff.mp hstep
      obtain ⟨hlive, hfailed, hshape⟩ := PipeCall.giveUp_spec hgive
      have hhandles := h.handles.of_failed hlive hfailed c.up.length
      rw [List.take_length] at hhandles
      refine ⟨hhandles, fun hlive' => absurd hfailed hlive', hshape, fun _ => Or.inr ?_⟩
      have hreply := h.replies hlive
      rw [hdown, List.append_nil] at hreply
      rcases h.handles.reply_cases hlive dumps with hnone | herror | ⟨data, hdata, hsize⟩
      · cases task with
        | answered protocol reply =>
          exfalso
          cases reply with
          | stored bytes =>
            obtain ⟨rfl, -⟩ := h.handles
            exact absurd hnone (List.cons_ne_nil _ _)
          | delivered payload =>
            obtain ⟨rfl, -⟩ := h.handles
            exact absurd hnone (List.cons_ne_nil _ _)
          | error message =>
            obtain rfl : protocol = .native := h.handles
            exact absurd hnone (List.cons_ne_nil _ _)
        | closed => exact absurd h.handles hlive
        | connected => cases hended
        | receiving name byteCount => cases hended
        | appending protocol name payload => cases hended
        | waiting protocol name expected => cases hended
      · exact herror
      · exfalso
        rw [hdata] at hreply
        have hclient := h.shape
        cases hstate : c.client with
        | sendHeader rest => simp [ClientState.sending, hstate] at hsending
        | sendPayload rest => simp [ClientState.sending, hstate] at hsending
        | readLine line =>
          rw [hstate] at hreply hclient
          exact hclient (by rw [← show call.expected ++ 10 :: data = line from hreply]; simp)
        | readAll received =>
          rw [hstate] at hreply hclient
          have hsame : data = received := (List.cons.inj (List.append_cancel_left hreply)).2
          have hlt : received.length < call.replySize := hclient
          rw [← hsame] at hlt
          omega
        | returned value buffer => simp [PipeCall.giveUp, hstate] at hgive
    · cases hstep
  | lose k =>
    obtain ⟨client, hgive, rfl⟩ := Option.map_eq_some_iff.mp hstep
    obtain ⟨hlive, hfailed, hshape⟩ := PipeCall.giveUp_spec hgive
    exact ⟨h.handles.of_failed hlive hfailed k, fun hlive' => absurd hfailed hlive', hshape,
      fun _ => Or.inl rfl⟩
  | serve => cases hstep
  | foreign action => cases hstep

theorem PipeCall.Valid.header_eq (hcall : call.Valid) : ∃ line : Bytes,
    call.header = line ++ [10] ∧ line = encodeText (requestLine call.op call.name call.bytes) ∧
    10 ∉ line ∧
      line.length ≤ streamLimit := by
  refine ⟨_, encodeText_requestHeader .., rfl, fun h => encodeText_requestLine_ne hcall.field
    _ h rfl, ?_⟩
  rw [encodeText, List.length_map]
  exact hcall.short

theorem native_line (py : Python) (maxPayloadBytes : Int) {piece : Text} (hne : piece ≠ [])
    (h : piece <+: requestHeader call.op call.name call.bytes) :
    Task.onHeader py maxPayloadBytes (some (encodeText piece)) =
      .next .native (nativeDemand py maxPayloadBytes (encodeText piece)) := by
  obtain ⟨c, rest, rfl⟩ := List.exists_cons_of_ne_nil hne
  have hletter : c = call.op.letter := (List.cons_prefix_cons.mp h).1
  have hbrace : ¬(encodeText (c :: rest)).head? = some 123 := by
    rw [hletter]
    cases call.op <;> exact fun h => absurd (Option.some.inj h) (by decide)
  exact if_neg hbrace

/-- Either the newline of a line has not arrived, or the line has. -/
theorem split_line {up unsent line payload : Bytes} (h : up ++ unsent = line ++ 10 :: payload)
    (hline : 10 ∉ line) :
    (10 ∉ up ∧ up <+: line) ∨ ∃ rest, up = line ++ 10 :: rest ∧ rest ++ unsent = payload := by
  rcases List.append_eq_append_iff.mp h with ⟨more, hpiece, -⟩ | ⟨more, hup, hmore⟩
  · exact Or.inl ⟨fun hmem => hline (hpiece ▸ List.mem_append_left _ hmem), more, hpiece.symm⟩
  · cases more with
    | nil =>
      rw [List.append_nil] at hup
      exact Or.inl ⟨hup ▸ hline, hup ▸ List.prefix_rfl⟩
    | cons byte rest =>
      obtain ⟨rfl, hpayload⟩ := List.cons.inj hmore
      exact Or.inr ⟨rest, hup, hpayload.symm⟩

theorem Connection.Fits.failed_of_hungUp (h : c.Fits call dumps task)
    (hquiet : task.reply dumps = []) (hgone : c.client.hungUp = true) : c.client.Failed := by
  by_contra hlive
  have hreply := h.replies hlive
  rw [hquiet] at hreply
  have htaken : call.taken c.client = [] := (List.append_eq_nil_iff.mp hreply.symm).1
  cases hclient : c.client with
  | returned value buffer =>
    rw [hclient] at htaken
    exact absurd (List.append_eq_nil_iff.mp htaken).2 (List.cons_ne_nil _ _)
  | sendHeader rest => simp [ClientState.hungUp, hclient] at hgone
  | sendPayload rest => simp [ClientState.hungUp, hclient] at hgone
  | readLine line => simp [ClientState.hungUp, hclient] at hgone
  | readAll received => simp [ClientState.hungUp, hclient] at hgone

/-- What the handler makes of a line that the client has not finished. -/
theorem handles_piece (hint : py.ReadsInt) (hcall : call.Valid) {client : ClientState}
    (hfailed : client.Failed) {piece : Text}
    (h : piece <+: requestLine call.op call.name call.bytes) :
    (Task.onHeader py maxPayloadBytes (some (encodeText piece))).Handles call client [] := by
  by_cases hempty : piece = []
  · rw [hempty]
    exact hfailed
  · have hheader : piece <+: requestHeader call.op call.name call.bytes := by
      rw [requestHeader_eq]
      exact h.trans (List.prefix_append ..)
    rw [native_line py maxPayloadBytes hempty hheader]
    cases hdemand : nativeDemand py maxPayloadBytes (encodeText piece) with
    | error message => exact rfl
    | ok demand =>
      obtain ⟨m, rfl, hzero⟩ := nativeDemand_piece hint hcall.field hcall.int h hdemand
      cases call with
      | write name payload =>
        exact ⟨payload, rfl, Or.inr ⟨hfailed, rfl, fun hm => List.length_eq_zero_iff.mp (hzero hm)⟩⟩
      | read name n => exact ⟨rfl, n, rfl, fun hlive => absurd hfailed hlive⟩

theorem handles_header (hint : py.ReadsInt) (maxPayloadBytes : Int) (hcall : call.Valid)
    {client : ClientState} {up unsent : Bytes} (hup : up ++ unsent = call.payload)
    (hunsent : ¬client.Failed → unsent = call.unsent client) :
    (Task.onHeader py maxPayloadBytes (some call.header)).Handles call client up ∧
      ∀ message, Task.onHeader py maxPayloadBytes (some call.header) = .answered .native
        (.error message) →
        maxPayloadBytes < call.bytes := by
  have hne : requestHeader call.op call.name call.bytes ≠ [] := List.cons_ne_nil _ _
  rw [PipeCall.header, native_line py maxPayloadBytes hne List.prefix_rfl, ← PipeCall.header,
    hcall.nativeDemand_header hint]
  by_cases hlarge : maxPayloadBytes < call.bytes
  · rw [if_pos hlarge]
    exact ⟨rfl, fun _ _ => hlarge⟩
  · rw [if_neg hlarge]
    cases call with
    | write name payload =>
      exact ⟨⟨payload, rfl, Or.inl ⟨rfl, unsent, hup, hunsent⟩⟩, fun _ h => by cases h⟩
    | read name n => exact ⟨⟨rfl, n, rfl, fun _ => rfl⟩, fun _ h => by cases h⟩

/-- The handler takes the whole line, or what a client that hung up has left of it. -/
theorem Connection.Fits.line (hint : py.ReadsInt) (hcall : call.Valid)
    (h : c.Fits call dumps .connected) {action : BrokerAction} {rest : Bytes}
    (hinput : Task.input c.client.hungUp c.up .connected = some (action, rest)) :
    ∃ line, action = .header line ∧ (Task.onHeader py maxPayloadBytes line).Handles call
      c.client rest ∧
      (¬c.client.Failed → ∀ message, Task.onHeader py maxPayloadBytes line = .answered .native
        (.error message) →
        maxPayloadBytes < call.bytes) := by
  obtain ⟨line, hheader, hline, hnewline, hlimit⟩ := hcall.header_eq
  obtain ⟨unsent, hup, hunsent⟩ := h.handles
  rw [PipeCall.request, hheader, List.append_assoc] at hup
  simp only [Task.input] at hinput
  split at hinput
  · rename_i hready
    rcases split_line hup hnewline with ⟨hnot, hpiece⟩ | ⟨after, hwhole, hafter⟩
    · have hfailed := h.failed_of_hungUp rfl (hready.resolve_left hnot)
      have htake : c.up.takeWhile (· != 10) = c.up :=
        List.takeWhile_eq_self_iff.mpr fun b hb => bne_iff_ne.mpr fun he => hnot (he ▸ hb)
      have hread : readline c.up = .ok (c.up, []) := by
        simp only [readline, htake, Nat.not_lt.mpr (hpiece.length_le.trans hlimit), if_false,
          List.take_of_length_le (Nat.le_succ c.up.length),
          List.drop_of_length_le (Nat.le_succ c.up.length)]
      rw [hread] at hinput
      obtain ⟨rfl, rfl⟩ := Prod.mk.inj (Option.some.inj hinput)
      have htext : c.up = encodeText
          ((requestLine call.op call.name call.bytes).take c.up.length) := by
        have htake' := List.prefix_iff_eq_take.mp hpiece
        rw [hline] at htake'
        exact htake'.trans List.map_take.symm
      refine ⟨_, rfl, ?_, fun hlive => absurd hfailed hlive⟩
      rw [htext]
      exact handles_piece hint hcall hfailed (List.take_prefix ..)
    · have hread : readline c.up = .ok (call.header, after) := by
        rw [hwhole, hheader]
        exact readline_ok (fun b hb he => hnewline (he ▸ hb)) hlimit after
      rw [hread] at hinput
      obtain ⟨rfl, rfl⟩ := Prod.mk.inj (Option.some.inj hinput)
      obtain ⟨hhandles, hlarge⟩ := handles_header hint maxPayloadBytes hcall hafter hunsent
      exact ⟨_, rfl, hhandles, fun _ => hlarge⟩
  · cases hinput

/-- The handler takes the payload, or what a client that hung up has left of it. -/
theorem Connection.Fits.body (h : c.Fits call dumps (.receiving name byteCount))
    {action : BrokerAction} {rest : Bytes}
    (hinput : Task.input c.client.hungUp c.up (.receiving name byteCount) = some (action, rest)) :
    ∃ data, action = .payload data ∧ data.length ≤ byteCount ∧
      (data.length = byteCount → call = .write name data) ∧
      (¬c.client.Failed → data.length = byteCount) := by
  obtain ⟨payload, hcall, harrives⟩ := h.handles
  simp only [Task.input] at hinput
  split at hinput
  · rename_i hready
    obtain ⟨rfl, rfl⟩ := Prod.mk.inj (Option.some.inj hinput)
    refine ⟨_, rfl, List.length_take_le .., ?_, ?_⟩
    · intro hfull
      rw [hcall]
      rcases harrives with ⟨hcount, unsent, hup, -⟩ | ⟨-, hup, hzero⟩
      · have hlen : c.up.length + unsent.length = payload.length := by
          rw [← hup, List.length_append]
        rw [List.length_take] at hfull
        have hnone : unsent = [] := List.length_eq_zero_iff.mp (by omega)
        rw [hnone, List.append_nil] at hup
        rw [hup, hcount, List.take_length]
      · rw [hup, List.take_nil] at hfull ⊢
        rw [hzero hfull.symm]
    · intro hlive
      have hgone : ¬c.client.hungUp = true := fun hgone => hlive (h.failed_of_hungUp rfl hgone)
      rw [List.length_take, Nat.min_eq_left (hready.resolve_right hgone)]
  · cases hinput

theorem Connection.Fits.quiet (h : c.Fits call dumps task) (hquiet : task.reply dumps = [])
    (hlive : ¬c.client.Failed) : call.taken c.client ++ c.down = [] :=
  (h.replies hlive).symm.trans hquiet

/-- The reason for an error that a live client gets. -/
def PipeCall.Refused (call : PipeCall) (maxPayloadBytes : Int) (c : Change) : Prop :=
  maxPayloadBytes < call.bytes ∨ ∃ name payload, c.taken name = some payload ∧
  payload.length ≠ call.bytes

/-- A step of the handler keeps it in step with the connection, and a live client gets an
error only for a reason. -/
theorem Connection.Fits.handler (hint : py.ReadsInt) (hcall : call.Valid) {s t : Broker}
    (h : c.Fits call dumps (s.task id)) {action : BrokerAction} {rest : Bytes}
    (hinput : (s.task id).input c.client.hungUp c.up = some (action, rest))
    (hstep : s.step py maxPayloadBytes id action = some t) :
    (t.task id).Handles call c.client rest ∧
      (¬c.client.Failed → ∀ message, t.task id = .answered .native (.error message) →
        call.Refused maxPayloadBytes ⟨id, s, t⟩) ∧ (s.task id).reply dumps = [] ∧
      ∀ message, s.task id ≠ .answered .native (.error message) := by
  cases htask : s.task id with
  | connected =>
    rw [htask] at h hinput
    obtain ⟨line, rfl, hhandles, hlarge⟩ := h.line hint hcall hinput
    simp only [Broker.step, htask, Option.some.injEq] at hstep
    subst hstep
    rw [setTask_self]
    exact ⟨hhandles, fun hlive message hmessage => Or.inl (hlarge hlive message hmessage), rfl,
      fun _ h => by cases h⟩
  | receiving name byteCount =>
    rw [htask] at h hinput
    obtain ⟨data, rfl, hle, hwhole, hfull⟩ := h.body hinput
    simp only [Broker.step, htask] at hstep
    by_cases hsize : data.length = byteCount
    · rw [if_pos hsize] at hstep
      obtain rfl := Option.some.inj hstep
      rw [setTask_self]
      exact ⟨⟨rfl, hwhole hsize⟩, fun _ _ h => (by cases h), rfl, fun _ h => by cases h⟩
    · rw [if_neg hsize, if_pos (by omega)] at hstep
      obtain rfl := Option.some.inj hstep
      rw [setTask_self]
      exact ⟨rfl, fun hlive => absurd (hfull hlive) hsize, rfl, fun _ h => by cases h⟩
  | appending protocol name payload =>
    rw [htask] at h hinput
    obtain ⟨rfl, hwrite⟩ := h.handles
    obtain ⟨rfl, rfl⟩ := Prod.mk.inj (Option.some.inj hinput)
    simp only [Broker.step, htask, Option.some.injEq] at hstep
    subst hstep
    rw [setTask_self]
    exact ⟨⟨rfl, name, payload, hwrite⟩, fun _ _ h => (by cases h), rfl, fun _ h => by cases h⟩
  | waiting protocol name expected =>
    rw [htask] at h hinput
    obtain ⟨rfl, n, hread, hexpected⟩ := h.handles
    obtain ⟨rfl, rfl⟩ := Prod.mk.inj (Option.some.inj hinput)
    simp only [Broker.step, htask] at hstep
    cases hqueue : s.messages name with
    | nil => simp [hqueue] at hstep
    | cons payload tail =>
      simp only [hqueue] at hstep
      by_cases hsize : (payload.length : Int) = expected
      · rw [if_pos hsize] at hstep
        obtain rfl := Option.some.inj hstep
        rw [setTask_self]
        refine ⟨⟨rfl, name, n, hread, fun hlive => ?_⟩, fun _ _ h => (by cases h), rfl,
          fun _ h => by cases h⟩
        have := hexpected hlive
        omega
      · rw [if_neg hsize] at hstep
        obtain rfl := Option.some.inj hstep
        rw [setTask_self]
        refine ⟨rfl, fun hlive message _ => Or.inr ⟨name, payload, ?_, ?_⟩, rfl,
          fun _ h => by cases h⟩
        · rw [taken_of_task htask, if_pos rfl, hqueue, List.head?_cons]
        · intro hlen
          apply hsize
          rw [hexpected hlive, hlen, hread]
          rfl
  | answered protocol reply =>
    rw [htask] at hinput
    cases hinput
  | closed =>
    rw [htask] at hinput
    cases hinput

theorem Connection.Fits.serve (hint : py.ReadsInt) (hcall : call.Valid) {s t : Broker}
    (h : c.Fits call dumps (s.task id)) {action : BrokerAction} {rest : Bytes}
    (hinput : (s.task id).input c.client.hungUp c.up = some (action, rest))
    (hstep : s.step py maxPayloadBytes id action = some t) :
    Connection.Fits call dumps (t.task id)
      { c with up := rest, down := c.down ++ (t.task id).reply dumps } := by
  obtain ⟨hhandles, -, hquiet, hnoerror⟩ := h.handler hint hcall hinput hstep
  refine ⟨hhandles, fun hlive => ?_, h.shape, fun hfailed => ?_⟩
  · show (t.task id).reply dumps = call.taken c.client ++ (c.down ++ (t.task id).reply dumps)
    rw [← List.append_assoc, h.quiet hquiet hlive, List.nil_append]
  · rcases h.failed hfailed with hlost | ⟨message, herror⟩
    · exact Or.inl hlost
    · exact absurd herror (hnoerror message)

/-- What a handler of the call may do to a pipe. -/
def PipeCall.Allows (call : PipeCall) (c : Change) : Prop :=
  (∀ name payload, c.appended name = some payload → call = .write name payload) ∧
    ∀ name payload, c.taken name = some payload → ∃ n, call = .read name n

theorem Connection.Fits.allows {s t : Broker} (h : c.Fits call dumps (s.task id)) :
    call.Allows ⟨id, s, t⟩ := by
  constructor
  · intro name payload happended
    cases htask : s.task id with
    | appending protocol pipe data =>
      rw [htask] at h
      rw [appended_of_task htask] at happended
      split at happended
      · rename_i hpipe
        rw [← hpipe, ← Option.some.inj happended]
        exact h.handles.2
      · cases happended
    | _ => simp [Change.appended, htask] at happended
  · intro name payload htaken
    cases htask : s.task id with
    | waiting protocol pipe expected =>
      rw [htask] at h
      rw [taken_of_task htask] at htaken
      split at htaken
      · rename_i hpipe
        obtain ⟨-, n, hread, -⟩ := h.handles
        exact ⟨n, hpipe ▸ hread⟩
      · cases htaken
    | _ => simp [Change.taken, htask] at htaken

end Connections

end ChipSystemSim
