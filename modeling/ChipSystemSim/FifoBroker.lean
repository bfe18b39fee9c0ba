import ChipSystemSim.Base64
import ChipSystemSim.JsonRead
import ChipSystemSim.RequestHeader

/-! The reference broker: one queue per pipe, shared by the JSON protocol and
the native one. A request is a coroutine, so that any number of them can be
between their validation and their change of a queue. -/

namespace ChipSystemSim

/-- The fields of a JSON request, after `str` and `int`; `none` where the access raises. -/
structure JsonRequest where
  pipe : Option Text
  op : Option Text
  payload : Option Text
  bytes : Option Int

/-- What the broker takes from Python: the JSON reader and `int`. -/
structure Python where
  loads : Bytes → Option JsonRequest
  int : Text → Option Int

def utf8Decode (b : Bytes) : Option Text := (ByteArray.mk b.toArray).utf8Decode?.map Array.toList

inductive Protocol where
  | json
  | native
  deriving DecidableEq

inductive Demand where
  | append (name : Text) (payload : Bytes)
  | receive (name : Text) (byteCount : Nat)
  | take (name : Text) (expected : Int)

inductive BrokerReply where
  | stored (bytes : Nat)
  | delivered (payload : Bytes)
  | error (message : String)
  deriving DecidableEq

inductive Task where
  | connected
  | receiving (name : Text) (byteCount : Nat)
  | appending (protocol : Protocol) (name : Text) (payload : Bytes)
  | waiting (protocol : Protocol) (name : Text) (expected : Int)
  | answered (protocol : Protocol) (reply : BrokerReply)
  | closed
  deriving DecidableEq

structure Broker where
  messages : Text → List Bytes
  task : Nat → Task

/-- `handle` up to its first change of a queue. Errors that Python raises itself are named
and not quoted. -/
def jsonDemand (maxPayloadBytes : Int) : Option JsonRequest → Except String Demand
  | none => .error "invalid request"
  | some request =>
    match request.pipe, request.op with
    | none, _ => .error "'pipe'"
    | some _, none => .error "'op'"
    | some name, some operation =>
      if operation = "write".toList then
        match request.payload >>= Base64.decode with
        | none => .error "invalid payload"
        | some payload =>
          if maxPayloadBytes < payload.length then .error "payload exceeds configured limit"
          else .ok (.append name payload)
      else if operation = "read".toList then
        match request.bytes with
        | none => .error "invalid bytes"
        | some expected =>
          if expected < 0 ∨ maxPayloadBytes < expected then .error "invalid requested byte count"
          else .ok (.take name expected)
      else .error ("unsupported operation: " ++ String.ofList operation)

/-- `str.split(" ", 2)` into exactly three fields. -/
def splitThree (t : Text) : Option (Text × Text × Text) :=
  match t.dropWhile (· != ' ') with
  | [] => none
  | _ :: rest =>
    match rest.dropWhile (· != ' ') with
    | [] => none
    | _ :: last => some (t.takeWhile (· != ' '), rest.takeWhile (· != ' '), last)

/-- `handle_native` up to its payload. -/
def nativeDemand (py : Python) (maxPayloadBytes : Int) (header : Bytes) : Except String Demand :=
  match utf8Decode header with
  | none => .error "invalid start byte"
  | some line =>
    match splitThree (line.rdropWhile (· == '\n')) with
    | none => .error "not enough values to unpack"
    | some (operation, name, byteCountText) =>
      match py.int byteCountText with
      | none => .error "invalid literal for int()"
      | some byteCount =>
        if byteCount < 0 ∨ maxPayloadBytes < byteCount then .error "invalid payload size"
        else if operation = ['W'] then .ok (.receive name byteCount.toNat)
        else if operation = ['R'] then .ok (.take name byteCount)
        else .error ("unsupported native operation: " ++ String.ofList operation)

def Task.next (protocol : Protocol) : Except String Demand → Task
  | .error message => .answered protocol (.error message)
  | .ok (.append name payload) => .appending protocol name payload
  | .ok (.receive name byteCount) => .receiving name byteCount
  | .ok (.take name expected) => .waiting protocol name expected

/-- The first line of a connection; `none` when it exceeds the stream limit. -/
def Task.onHeader (py : Python) (maxPayloadBytes : Int) : Option Bytes → Task
  | none => .answered .json (.error "Separator is not found, and chunk exceed the limit")
  | some [] => .closed
  | some header =>
    if header.head? = some 123 then .next .json (jsonDemand maxPayloadBytes (py.loads header))
    else .next .native (nativeDemand py maxPayloadBytes header)

def sizeMismatch (expected : Int) (payload : Bytes) : String :=
  String.ofList ("payload size mismatch: expected ".toList ++ decimal expected ++ ", got ".toList ++
    decimal payload.length)

def incompleteRead (data : Bytes) (byteCount : Nat) : String :=
  String.ofList (decimal data.length ++ " bytes read on a total of ".toList ++ decimal byteCount ++
    " expected bytes".toList)

/-- What a coroutine does next: its header arrives, its payload or the end of
its input arrives, it appends, or it takes the head of its queue. A waiting read
may wake at any time, whoever was notified. -/
inductive BrokerAction where
  | header (line : Option Bytes)
  | payload (data : Bytes)
  | append
  | take

def Broker.setTask (s : Broker) (id : Nat) (task : Task) : Broker :=
  { s with task := Function.update s.task id task }

def Broker.setQueue (s : Broker) (name : Text) (queue : List Bytes) : Broker :=
  { s with messages := Function.update s.messages name queue }

def Broker.step (py : Python) (maxPayloadBytes : Int) (s : Broker) (id : Nat) : BrokerAction →
    Option Broker
  | .header line =>
    match s.task id with
    | .connected => some (s.setTask id (.onHeader py maxPayloadBytes line))
    | _ => none
  | .payload data =>
    match s.task id with
    | .receiving name byteCount =>
      if data.length = byteCount then some (s.setTask id (.appending .native name data))
      else if data.length < byteCount then
        some (s.setTask id (.answered .native (.error (incompleteRead data byteCount))))
      else none
    | _ => none
  | .append =>
    match s.task id with
    | .appending protocol name payload =>
      some ((s.setQueue name (s.messages name ++ [payload])).setTask id
        (.answered protocol (.stored payload.length)))
    | _ => none
  | .take =>
    match s.task id with
    | .waiting protocol name expected =>
      match s.messages name with
      | [] => none
      | payload :: rest =>
        -- the size is checked after the payload has left the queue
        if (payload.length : Int) = expected then
          some ((s.setQueue name rest).setTask id (.answered protocol (.delivered payload)))
        else
          some ((s.setQueue name rest).setTask id
            (.answered protocol (.error (sizeMismatch expected payload))))
    | _ => none

/-- One step of a run: who made it, and the broker before and after it. -/
structure Change where
  owner : Nat
  before : Broker
  after : Broker

inductive BrokerRun (py : Python) (maxPayloadBytes : Int) (start : Broker) :
    List Change → Broker → Prop
  | nil : BrokerRun py maxPayloadBytes start [] start
  | step {changes : List Change} {s t : Broker} {id : Nat} {action : BrokerAction}
      (h : BrokerRun py maxPayloadBytes start changes s)
      (hstep : s.step py maxPayloadBytes id action = some t) :
      BrokerRun py maxPayloadBytes start (changes ++ [⟨id, s, t⟩]) t

/-- A request that was answered with an error made no step that changed a queue. -/
def ErrorsLeaveQueues (changes : List Change) (s : Broker) : Prop :=
  ∀ id protocol message, s.task id = .answered protocol (.error message) →
    ∀ c ∈ changes, c.owner = id → c.after.messages = c.before.messages

/-- A read steps whose byte count is not the size of the payload at the head of its pipe. -/
def Change.Mismatched (c : Change) : Prop :=
  ∃ protocol name expected payload rest, c.before.task c.owner = .waiting protocol name expected ∧
    c.before.messages name = payload :: rest ∧ (payload.length : Int) ≠ expected

section

variable {py : Python} {maxPayloadBytes : Int} {start s t : Broker} {id : Nat}
  {action : BrokerAction}
  {changes : List Change}

theorem setTask_self (task : Task) : (s.setTask id task).task id = task := Function.update_self ..

theorem setTask_of_ne {other : Nat} (task : Task) (h : other ≠ id) :
    (s.setTask id task).task other = s.task other :=
  Function.update_of_ne h ..

theorem Broker.step_cases (h : s.step py maxPayloadBytes id action = some t) :
    (∃ task, t = s.setTask id task ∧
      ((∃ line, s.task id = .connected ∧ task = .onHeader py maxPayloadBytes line) ∨
      ∃ name byteCount, s.task id = .receiving name byteCount)) ∨
    (∃ protocol name payload, s.task id = .appending protocol name payload ∧
      t = (s.setQueue name (s.messages name ++ [payload])).setTask id
        (.answered protocol (.stored payload.length))) ∨
    ∃ protocol name expected payload rest, s.task id = .waiting protocol name expected ∧
      s.messages name = payload :: rest ∧
      (((payload.length : Int) = expected ∧
          t = (s.setQueue name rest).setTask id (.answered protocol (.delivered payload))) ∨
        ((payload.length : Int) ≠ expected ∧
          t = (s.setQueue name rest).setTask id
            (.answered protocol (.error (sizeMismatch expected payload))))) := by
  cases action with
  | header line =>
    cases htask : s.task id <;> simp only [step, htask, Option.some.injEq, reduceCtorEq] at h
    exact Or.inl ⟨_, h.symm, Or.inl ⟨line, rfl, rfl⟩⟩
  | payload data =>
    cases htask : s.task id <;> simp only [step, htask, reduceCtorEq] at h
    rename_i name byteCount
    split at h
    · exact Or.inl ⟨_, (Option.some.inj h).symm, Or.inr ⟨name, byteCount, rfl⟩⟩
    · split at h
      · exact Or.inl ⟨_, (Option.some.inj h).symm, Or.inr ⟨name, byteCount, rfl⟩⟩
      · cases h
  | append =>
    cases htask : s.task id <;> simp only [step, htask, Option.some.injEq, reduceCtorEq] at h
    rename_i protocol name payload
    exact Or.inr (Or.inl ⟨protocol, name, payload, rfl, h.symm⟩)
  | take =>
    cases htask : s.task id <;> simp only [step, htask, reduceCtorEq] at h
    rename_i protocol name expected
    cases hqueue : s.messages name with
    | nil => simp [hqueue] at h
    | cons payload rest =>
      simp only [hqueue] at h
      refine Or.inr (Or.inr ⟨protocol, name, expected, payload, rest, rfl, hqueue, ?_⟩)
      split at h
      · rename_i hsize
        exact Or.inl ⟨hsize, (Option.some.inj h).symm⟩
      · rename_i hsize
        exact Or.inr ⟨hsize, (Option.some.inj h).symm⟩

/-- The task that a step leaves to others is theirs, and its own was not answered before. -/
theorem Broker.step_task (h : s.step py maxPayloadBytes id action = some t) :
    (∀ other, other ≠ id → t.task other = s.task other) ∧
    ∀ protocol reply, s.task id ≠ .answered protocol reply := by
  rcases step_cases h with ⟨task, rfl, hbefore⟩ | ⟨protocol, name, payload, hbefore, rfl⟩ |
    ⟨protocol, name, expected, payload, rest, hbefore, -, ⟨-, rfl⟩ | ⟨-, rfl⟩⟩
  · refine ⟨fun other hne => setTask_of_ne task hne, fun protocol reply => ?_⟩
    rcases hbefore with ⟨line, hbefore, -⟩ | ⟨name, byteCount, hbefore⟩ <;> simp [hbefore]
  · exact ⟨fun other hne => setTask_of_ne _ hne, fun protocol reply => by simp [hbefore]⟩
  · exact ⟨fun other hne => setTask_of_ne _ hne, fun protocol reply => by simp [hbefore]⟩
  · exact ⟨fun other hne => setTask_of_ne _ hne, fun protocol reply => by simp [hbefore]⟩

theorem BrokerRun.step_of_mem (h : BrokerRun py maxPayloadBytes start changes s) {c : Change}
    (hc : c ∈ changes) :
    ∃ action, c.before.step py maxPayloadBytes c.owner action = some c.after := by
  induction h with
  | nil => cases hc
  | step h hstep ih =>
    rcases List.mem_append.mp hc with hc | hc
    · exact ih hc
    · rw [List.mem_singleton.mp hc]
      exact ⟨_, hstep⟩

/-- An answer stands until the end of the run. -/
theorem BrokerRun.answered_kept (h : BrokerRun py maxPayloadBytes start changes s) {c : Change}
    (hc : c ∈ changes) {protocol : Protocol} {reply : BrokerReply}
    (ha : c.after.task c.owner = .answered protocol reply) :
    s.task c.owner = .answered protocol reply := by
  induction h with
  | nil => cases hc
  | @step changes s t id action h hstep ih =>
    rcases List.mem_append.mp hc with hc | hc
    · have hs := ih hc
      obtain ⟨hothers, hunanswered⟩ := Broker.step_task hstep
      have hne : c.owner ≠ id := by
        rintro rfl
        exact hunanswered _ _ hs
      rw [hothers _ hne]
      exact hs
    · rw [List.mem_singleton.mp hc] at ha ⊢
      exact ha

/-- A step that changes a queue is an append, which is answered with success,
or takes a payload, whose size then decides. -/
theorem Broker.step_messages (h : s.step py maxPayloadBytes id action = some t) :
    t.messages = s.messages ∨ (∃ protocol bytes, t.task id = .answered protocol (.stored bytes)) ∨
      (∃ protocol payload, t.task id = .answered protocol (.delivered payload)) ∨
      Change.Mismatched ⟨id, s, t⟩ := by
  rcases step_cases h with ⟨task, rfl, -⟩ | ⟨protocol, name, payload, -, rfl⟩ |
    ⟨protocol, name, expected, payload, rest, hbefore, hqueue, ⟨-, rfl⟩ | ⟨hsize, rfl⟩⟩
  · exact Or.inl rfl
  · exact Or.inr (Or.inl ⟨protocol, _, setTask_self _⟩)
  · exact Or.inr (Or.inr (Or.inl ⟨protocol, _, setTask_self _⟩))
  · exact Or.inr (Or.inr (Or.inr ⟨protocol, name, expected, payload, rest, hbefore, hqueue, hsize⟩))

theorem Broker.step_mismatched (h : s.step py maxPayloadBytes id action = some t)
    (hmismatch : Change.Mismatched ⟨id, s, t⟩) :
    (∃ protocol message, t.task id = .answered protocol (.error message)) ∧
    t.messages ≠ s.messages := by
  obtain ⟨protocol, name, expected, payload, rest, hbefore, hqueue, hsize⟩ := hmismatch
  dsimp only at hbefore hqueue
  rcases step_cases h with ⟨task, rfl, hother⟩ | ⟨protocol', name', payload', hother, rfl⟩ |
    ⟨protocol', name', expected', payload', rest', hother, hqueue', hend⟩
  · rcases hother with ⟨line, hother, -⟩ | ⟨name', byteCount, hother⟩ <;> simp [hbefore] at hother
  · simp [hbefore] at hother
  · rw [hbefore] at hother
    cases hother
    rw [hqueue] at hqueue'
    cases hqueue'
    rcases hend with ⟨heq, -⟩ | ⟨-, rfl⟩
    · exact absurd heq hsize
    · refine ⟨⟨protocol, _, setTask_self _⟩, fun hsame => ?_⟩
      have hname := congrFun hsame name
      simp only [setTask, setQueue, Function.update_self, hqueue] at hname
      exact List.cons_ne_self payload rest hname.symm

theorem errors_leave_queues_iff (h : BrokerRun py maxPayloadBytes start changes s) :
    ErrorsLeaveQueues changes s ↔ ∀ c ∈ changes, ¬ c.Mismatched := by
  constructor
  · intro hleave c hc hmismatch
    obtain ⟨action, hstep⟩ := h.step_of_mem hc
    obtain ⟨⟨protocol, message, herror⟩, hchanged⟩ := Broker.step_mismatched hstep hmismatch
    exact hchanged (hleave c.owner protocol message (h.answered_kept hc herror) c hc rfl)
  · rintro hmatch id protocol message herror c hc rfl
    obtain ⟨action, hstep⟩ := h.step_of_mem hc
    rcases Broker.step_messages hstep with hsame | ⟨p, bytes, hstored⟩ |
      ⟨p, payload, hdelivered⟩ | hmismatch
    · exact hsame
    · rw [h.answered_kept hc hstored] at herror
      cases herror
    · rw [h.answered_kept hc hdelivered] at herror
      cases herror
    · exact absurd hmismatch (hmatch c hc)

end

instance (c : Change) : Decidable c.Mismatched :=
  match htask : c.before.task c.owner with
  | .waiting protocol name expected =>
    match hqueue : c.before.messages name with
    | [] => isFalse (by
        rintro ⟨_, _, _, _, _, htask', hqueue', -⟩
        rw [htask] at htask'
        cases htask'
        rw [hqueue] at hqueue'
        cases hqueue')
    | payload :: rest =>
      if hsize : (payload.length : Int) = expected then isFalse (by
        rintro ⟨_, _, _, _, _, htask', hqueue', hsize'⟩
        rw [htask] at htask'
        cases htask'
        rw [hqueue] at hqueue'
        cases hqueue'
        exact hsize' hsize)
      else isTrue ⟨protocol, name, expected, payload, rest, htask, hqueue, hsize⟩
  | .connected | .receiving _ _ | .appending _ _ _ | .answered _ _ | .closed => isFalse (by
      rintro ⟨_, _, _, _, _, htask', -⟩
      rw [htask] at htask'
      cases htask')

def brokerExec (py : Python) (maxPayloadBytes : Int) :
    List (Nat × BrokerAction) → List Change → Broker → Option (List Change × Broker)
  | [], changes, s => some (changes, s)
  | (id, action) :: rest, changes, s =>
    match s.step py maxPayloadBytes id action with
    | none => none
    | some t => brokerExec py maxPayloadBytes rest (changes ++ [⟨id, s, t⟩]) t

theorem brokerExec_run {py : Python} {maxPayloadBytes : Int} {start s t : Broker}
    {actions : List (Nat × BrokerAction)} {changes changes' : List Change}
    (h : BrokerRun py maxPayloadBytes start changes s)
    (hexec : brokerExec py maxPayloadBytes actions changes s = some (changes', t)) :
    BrokerRun py maxPayloadBytes start changes' t := by
  induction actions generalizing changes s with
  | nil =>
    cases hexec
    exact h
  | cons a actions ih =>
    rw [brokerExec] at hexec
    split at hexec
    · cases hexec
    · rename_i u hstep
      exact ih (h.step hstep) hexec

def emptyBroker : Broker := ⟨fun _ => [], fun _ => .connected⟩

def asciiPython : Python where
  loads := fun header => do
    let value ← asciiDecode header >>= Json.loads
    return {
      pipe := value.get "pipe".toList >>= Json.Value.text
      op := value.get "op".toList >>= Json.Value.text
      payload := value.get "payload".toList >>= Json.Value.text
      bytes := value.get "bytes".toList >>= fun v => match v with
        | .num n => some n
        | _ => none }
  int := pyInt

def writeRequest : Bytes :=
  encodeText "\x7b\"op\":\"write\",\"pipe\":\"p\",\"payload\":\"AQIDBA==\"\x7d\n".toList

def readRequest (bytes : Nat) : Bytes :=
  encodeText ("\x7b\"op\":\"read\",\"pipe\":\"p\",\"bytes\":".toList ++ decimal bytes ++
    "\x7d\n".toList)

def oversizedRead : List (Nat × BrokerAction) :=
  [(0, .header (some writeRequest)), (0, .append), (1, .header (some (readRequest 65))),
    (2, .header (some (readRequest 4))), (2, .take)]

/-- An oversized request fails between a write and the read of its payload. -/
theorem errors_leave_queues_oversized :
    ∃ changes s, brokerExec asciiPython 64 oversizedRead [] emptyBroker = some (changes, s) ∧
      s.task 1 = .answered .json (.error "invalid requested byte count") ∧
      s.task 2 = .answered .json (.delivered [1, 2, 3, 4]) ∧ ErrorsLeaveQueues changes s := by
  have hrun : (brokerExec asciiPython 64 oversizedRead [] emptyBroker).map
      (fun r => (r.2.task 1, r.2.task 2, decide (∀ c ∈ r.1, ¬ c.Mismatched))) =
        some (.answered .json (.error "invalid requested byte count"),
          .answered .json (.delivered [1, 2, 3, 4]), true) := by
    decide +kernel
  obtain ⟨⟨changes, s⟩, hexec, heq⟩ := Option.map_eq_some_iff.mp hrun
  simp only [Prod.mk.injEq, decide_eq_true_eq] at heq
  obtain ⟨hone, htwo, hmatch⟩ := heq
  exact ⟨changes, s, hexec, hone, htwo,
    (errors_leave_queues_iff (brokerExec_run .nil hexec)).mpr hmatch⟩

def mismatchedRead : List (Nat × BrokerAction) :=
  [(0, .header (some writeRequest)), (0, .append), (1, .header (some (readRequest 8))), (1, .take)]

/-- A read of the wrong size takes the acknowledged payload with it. -/
theorem mismatched_read_loses_payload :
    ∃ changes s, brokerExec asciiPython 64 mismatchedRead [] emptyBroker = some (changes, s) ∧
      s.task 0 = .answered .json (.stored 4) ∧
      s.task 1 = .answered .json (.error "payload size mismatch: expected 8, got 4") ∧
      s.messages ['p'] = [] ∧
      ¬ ErrorsLeaveQueues changes s := by
  have hrun : (brokerExec asciiPython 64 mismatchedRead [] emptyBroker).map
      (fun r => (r.2.task 0, r.2.task 1, r.2.messages ['p'],
        decide (∃ c ∈ r.1, c.owner = 1 ∧ c.after.messages ['p'] ≠ c.before.messages ['p']))) =
        some (.answered .json (.stored 4),
          .answered .json (.error "payload size mismatch: expected 8, got 4"), [], true) := by
    decide +kernel
  obtain ⟨⟨changes, s⟩, hexec, heq⟩ := Option.map_eq_some_iff.mp hrun
  simp only [Prod.mk.injEq, decide_eq_true_eq] at heq
  obtain ⟨hzero, hone, hqueue, c, hc, howner, hchanged⟩ := heq
  refine ⟨changes, s, hexec, hzero, hone, hqueue, fun hleave => hchanged ?_⟩
  rw [hleave 1 _ _ hone c hc howner]

end ChipSystemSim
