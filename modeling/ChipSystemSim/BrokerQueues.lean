import ChipSystemSim.FifoBroker
import ChipSystemSim.NotifyOne

/-! What the pipes of the reference broker promise over a whole run: the payloads leave a
pipe in the order in which they came, and no read sleeps beside a payload. -/

namespace ChipSystemSim

def Change.appended (name : Text) (c : Change) : Option Bytes :=
  match c.before.task c.owner with
  | .appending _ pipe payload => if pipe = name then some payload else none
  | _ => none

def Change.taken (name : Text) (c : Change) : Option Bytes :=
  match c.before.task c.owner with
  | .waiting _ pipe _ => if pipe = name then (c.before.messages name).head? else none
  | _ => none

/-- The answer to a read that took a payload. -/
def readReply (expected : Int) (payload : Bytes) : BrokerReply :=
  if (payload.length : Int) = expected then .delivered payload
  else .error (sizeMismatch expected payload)

/-- The broker with the conditions of its pipes. -/
structure AsyncBroker where
  broker : Broker
  waiters : Text → Waiters Nat

def AsyncBroker.setBroker (s : AsyncBroker) (broker : Broker) : AsyncBroker :=
  { s with broker := broker }

def AsyncBroker.setWaiters (s : AsyncBroker) (name : Text) (waiters : Waiters Nat) : AsyncBroker :=
  { s with waiters := Function.update s.waiters name waiters }

/-- A task runs until it waits for its input or for the condition of its pipe. The lock of
the condition is free whenever a task runs, as no task keeps it while it waits. -/
def AsyncBroker.step (py : Python) (maxPayloadBytes : Int) (s : AsyncBroker) (id : Nat) :
    BrokerAction → Option AsyncBroker
  | .header line => (s.broker.step py maxPayloadBytes id (.header line)).map s.setBroker
  | .payload data => (s.broker.step py maxPayloadBytes id (.payload data)).map s.setBroker
  | .append =>
    match s.broker.task id with
    | .appending _ name _ =>
      (s.broker.step py maxPayloadBytes id .append).map
        (s.setWaiters name (s.waiters name).notify).setBroker
    | _ => none
  | .take =>
    match s.broker.task id with
    | .waiting _ name _ =>
      if id ∈ (s.waiters name).sleeping then none
      else if s.broker.messages name = [] then some (s.setWaiters name ((s.waiters name).sleep id))
      else (s.broker.step py maxPayloadBytes id .take).map
        (s.setWaiters name ((s.waiters name).leave id)).setBroker
    | _ => none

def AsyncBroker.start (broker : Broker) : AsyncBroker := ⟨broker, fun _ => {}⟩

def AsyncStep (py : Python) (maxPayloadBytes : Int) (s t : AsyncBroker) : Prop :=
  ∃ id action, s.step py maxPayloadBytes id action = some t

abbrev AsyncReachable (py : Python) (maxPayloadBytes : Int) :=
  Relation.ReflTransGen (AsyncStep py maxPayloadBytes)

/-- A read that is awake gets on. -/
def TakeStep (py : Python) (maxPayloadBytes : Int) (s t : AsyncBroker) : Prop :=
  ∃ id, s.step py maxPayloadBytes id .take = some t

def Broker.WaitsOn (s : Broker) (name : Text) (id : Nat) : Prop :=
  ∃ protocol expected, s.task id = .waiting protocol name expected

section Queues

variable {py : Python} {maxPayloadBytes : Int} {start s t : Broker} {id : Nat}
  {action : BrokerAction}
  {changes : List Change} {name : Text}

theorem appended_of_task {protocol : Protocol} {pipe : Text} {payload : Bytes}
    (h : s.task id = .appending protocol pipe payload) :
    Change.appended name ⟨id, s, t⟩ = if pipe = name then some payload else none := by
  simp only [Change.appended, h]

theorem taken_of_task {protocol : Protocol} {pipe : Text} {expected : Int}
    (h : s.task id = .waiting protocol pipe expected) :
    Change.taken name ⟨id, s, t⟩ = if pipe = name then (s.messages name).head? else none := by
  simp only [Change.taken, h]

/-- What a step adds to the end of a pipe and what it takes from its head. -/
theorem Broker.step_queue (h : s.step py maxPayloadBytes id action = some t) (name : Text) :
    s.messages name ++ (Change.appended name ⟨id, s, t⟩).toList =
      (Change.taken name ⟨id, s, t⟩).toList ++ t.messages name := by
  rcases step_cases h with ⟨task, rfl, hbefore⟩ | ⟨protocol, pipe, payload, hbefore, rfl⟩ |
    ⟨protocol, pipe, expected, payload, rest, hbefore, hqueue, hafter⟩
  · have hnone : Change.appended name ⟨id, s, s.setTask id task⟩ = none ∧
        Change.taken name ⟨id, s, s.setTask id task⟩ = none := by
      rcases hbefore with ⟨line, hbefore, -⟩ | ⟨pipe, byteCount, hbefore⟩ <;>
        simp [Change.appended, Change.taken, hbefore]
    rw [hnone.1, hnone.2, Option.toList_none, List.append_nil]
    rfl
  · have htaken : Change.taken name
        ⟨id, s, (s.setQueue pipe (s.messages pipe ++ [payload])).setTask id
        (.answered protocol (.stored payload.length))⟩ = none := by
      simp [Change.taken, hbefore]
    rw [htaken, appended_of_task hbefore]
    by_cases hpipe : pipe = name
    · subst hpipe
      simp [setTask, setQueue]
    · simp [setTask, setQueue, hpipe, Function.update_of_ne (Ne.symm hpipe)]
  · have happended : Change.appended name ⟨id, s, t⟩ = none := by
      simp [Change.appended, hbefore]
    have hmessages : t.messages = Function.update s.messages pipe rest := by
      rcases hafter with ⟨-, rfl⟩ | ⟨-, rfl⟩ <;> rfl
    rw [happended, taken_of_task hbefore, hmessages]
    by_cases hpipe : pipe = name
    · subst hpipe
      simp [hqueue]
    · simp [hpipe, Function.update_of_ne (Ne.symm hpipe)]

theorem filterMap_snoc {α β : Type*} (f : α → Option β) (l : List α) (a : α) :
    (l ++ [a]).filterMap f = l.filterMap f ++ (f a).toList := by
  rw [List.filterMap_append]
  cases h : f a <;> simp [h]

theorem BrokerRun.queue (h : BrokerRun py maxPayloadBytes start changes s) (name : Text) :
    start.messages name ++ changes.filterMap (Change.appended name) =
      changes.filterMap (Change.taken name) ++ s.messages name := by
  induction h with
  | nil => simp
  | step h hstep ih =>
    rw [filterMap_snoc, filterMap_snoc, ← List.append_assoc, ih, List.append_assoc,
      Broker.step_queue hstep, ← List.append_assoc]

theorem Broker.step_taken (h : s.step py maxPayloadBytes id action = some t) {payload : Bytes}
    (htaken : Change.taken name ⟨id, s, t⟩ = some payload) :
    ∃ protocol expected, s.task id = .waiting protocol name expected ∧
      t.task id = .answered protocol (readReply expected payload) := by
  rcases step_cases h with ⟨task, rfl, hbefore⟩ | ⟨protocol, pipe, payload', hbefore, rfl⟩ |
    ⟨protocol, pipe, expected, payload', rest, hbefore, hqueue, hafter⟩
  · rcases hbefore with ⟨line, hbefore, -⟩ |
      ⟨pipe, byteCount, hbefore⟩ <;> simp [Change.taken, hbefore] at htaken
  · simp [Change.taken, hbefore] at htaken
  · rw [taken_of_task hbefore] at htaken
    split at htaken
    · rename_i hpipe
      subst hpipe
      obtain rfl : payload' = payload := by simpa [hqueue] using htaken
      refine ⟨protocol, expected, hbefore, ?_⟩
      rcases hafter with ⟨hsize, rfl⟩ | ⟨hsize, rfl⟩
      · rw [setTask_self, readReply, if_pos hsize]
      · rw [setTask_self, readReply, if_neg hsize]
    · cases htaken

theorem Broker.step_answers (h : s.step py maxPayloadBytes id action = some t)
    (hchanged : t.messages ≠ s.messages) :
    ∃ protocol reply, t.task id = .answered protocol reply := by
  rcases step_cases h with ⟨task, rfl, -⟩ | ⟨protocol, pipe, payload, -, rfl⟩ |
    ⟨protocol, pipe, expected, payload, rest, -, -, ⟨-, rfl⟩ | ⟨-, rfl⟩⟩
  · exact absurd rfl hchanged
  · exact ⟨_, _, setTask_self _⟩
  · exact ⟨_, _, setTask_self _⟩
  · exact ⟨_, _, setTask_self _⟩

/-- A request that has changed a pipe makes no other step. -/
theorem BrokerRun.changes_once (h : BrokerRun py maxPayloadBytes start changes s) :
    changes.Pairwise fun c d => c.after.messages ≠ c.before.messages → d.owner ≠ c.owner := by
  induction h with
  | nil => exact List.Pairwise.nil
  | step h hstep ih =>
    refine List.pairwise_append.mpr ⟨ih, List.pairwise_singleton .., fun c hc d hd hchanged => ?_⟩
    rw [List.mem_singleton.mp hd]
    obtain ⟨action, hc'⟩ := h.step_of_mem hc
    obtain ⟨protocol, reply, hanswer⟩ := Broker.step_answers hc' hchanged
    rintro rfl
    exact (Broker.step_task hstep).2 _ _ (h.answered_kept hc hanswer)

theorem onHeader_answered {line : Option Bytes} {protocol : Protocol} {reply : BrokerReply}
    (h : Task.onHeader py maxPayloadBytes line = .answered protocol reply) :
    ∃ message, reply = .error message := by
  have hnext : ∀ p (demand : Except String Demand), Task.next p demand = .answered protocol reply →
      ∃ message, reply = .error message := by
    intro p demand hdemand
    cases demand with
    | error message =>
      cases hdemand
      exact ⟨message, rfl⟩
    | ok demand => cases demand <;> cases hdemand
  match line with
  | none =>
    cases h
    exact ⟨_, rfl⟩
  | some [] => cases h
  | some (b :: rest) =>
    simp only [Task.onHeader] at h
    split at h
    · exact hnext _ _ h
    · exact hnext _ _ h

theorem Broker.step_received (h : s.step py maxPayloadBytes id action = some t) {pipe : Text}
    {byteCount : Nat} (hbefore : s.task id = .receiving pipe byteCount) {protocol : Protocol}
    {reply : BrokerReply} (hreply : t.task id = .answered protocol reply) :
    ∃ message, reply = .error message := by
  cases action with
  | header line => simp [step, hbefore] at h
  | append => simp [step, hbefore] at h
  | take => simp [step, hbefore] at h
  | payload data =>
    simp only [step, hbefore] at h
    split at h
    · obtain rfl := Option.some.inj h
      rw [setTask_self] at hreply
      cases hreply
    · split at h
      · obtain rfl := Option.some.inj h
        rw [setTask_self] at hreply
        cases hreply
        exact ⟨_, rfl⟩
      · cases h

/-- The steps of a run that a success stands for. -/
def Change.Accounts (c : Change) : BrokerReply → Prop
  | .stored bytes => ∃ name payload, c.appended name = some payload ∧ payload.length = bytes
  | .delivered payload => ∃ name, c.taken name = some payload
  | .error _ => True

theorem Broker.step_accounts (h : s.step py maxPayloadBytes id action = some t)
    {protocol : Protocol} {reply : BrokerReply} (hreply : t.task id = .answered protocol reply) :
    Change.Accounts ⟨id, s, t⟩ reply := by
  rcases step_cases h with ⟨task, rfl, hbefore⟩ | ⟨protocol', pipe, payload, hbefore, rfl⟩ |
    ⟨protocol', pipe, expected, payload, rest, hbefore, hqueue, ⟨-, rfl⟩ | ⟨-, rfl⟩⟩
  · have herror : ∃ message, reply = .error message := by
      rcases hbefore with ⟨line, -, rfl⟩ | ⟨pipe, byteCount, hbefore⟩
      · rw [setTask_self] at hreply
        exact onHeader_answered hreply
      · exact step_received h hbefore hreply
    obtain ⟨message, rfl⟩ := herror
    trivial
  · rw [setTask_self] at hreply
    cases hreply
    exact ⟨pipe, payload, by rw [appended_of_task hbefore, if_pos rfl], rfl⟩
  · rw [setTask_self] at hreply
    cases hreply
    exact ⟨pipe, by rw [taken_of_task hbefore, if_pos rfl, hqueue, List.head?_cons]⟩
  · rw [setTask_self] at hreply
    cases hreply
    trivial

theorem BrokerRun.accounts (h : BrokerRun py maxPayloadBytes start changes s) {protocol : Protocol}
    {reply : BrokerReply} (hreply : s.task id = .answered protocol reply) :
    start.task id = .answered protocol reply ∨ ∃ c ∈ changes, c.owner = id ∧ c.Accounts reply := by
  induction h with
  | nil => exact Or.inl hreply
  | @step changes s t owner action h hstep ih =>
    by_cases howner : id = owner
    · subst howner
      exact Or.inr ⟨_, List.mem_append_right _ (List.mem_singleton_self _), rfl,
        Broker.step_accounts hstep hreply⟩
    · rw [(Broker.step_task hstep).1 id howner] at hreply
      refine (ih hreply).imp_right ?_
      rintro ⟨c, hc, hrest⟩
      exact ⟨c, List.mem_append_left _ hc, hrest⟩

/-- In every run a pipe gives its payloads away in the order in which it got them, each to
the one read that took it. A request changes a pipe at most once, and every success of
the run stands for such a change. -/
theorem broker_pipes_are_fifo (h : BrokerRun py maxPayloadBytes start changes s) :
    (∀ name, start.messages name ++ changes.filterMap (Change.appended name) =
      changes.filterMap (Change.taken name) ++ s.messages name) ∧
    (∀ c ∈ changes, ∀ name payload, c.taken name = some payload → ∃ protocol expected,
      c.before.task c.owner = .waiting protocol name expected ∧
        s.task c.owner = .answered protocol (readReply expected payload)) ∧
    (changes.Pairwise fun c d => c.after.messages ≠ c.before.messages → d.owner ≠ c.owner) ∧
    ∀ id protocol reply, s.task id = .answered protocol reply →
      start.task id = .answered protocol reply ∨
      ∃ c ∈ changes, c.owner = id ∧ c.Accounts reply := by
  refine ⟨h.queue, ?_, h.changes_once, fun id protocol reply => h.accounts⟩
  intro c hc name payload htaken
  obtain ⟨action, hstep⟩ := h.step_of_mem hc
  obtain ⟨protocol, expected, hbefore, hafter⟩ := Broker.step_taken hstep htaken
  exact ⟨protocol, expected, hbefore, h.answered_kept hc hafter⟩

def nativeHeader (text : String) : BrokerAction := .header (some (encodeText text.toList))

/-- JSON and native requests on two pipes. The second native read asks for the wrong size,
and the last payload is still in its pipe. -/
def mixedRequests : List (Nat × BrokerAction) :=
  [(0, .header (some writeRequest)), (1, nativeHeader "W q 2\n"), (2, nativeHeader "W p 3\n"),
    (1, .payload [5, 6]), (3, .header (some (readRequest 4))), (0, .append),
    (2, .payload [7, 8, 9]), (1, .append), (2, .append), (4, nativeHeader "R q 2\n"),
    (5, nativeHeader "R p 8\n"), (3, .take), (5, .take), (4, .take),
    (6, .header (some writeRequest)), (6, .append)]

theorem broker_pipes_are_fifo_mixed :
    ∃ changes s, brokerExec asciiPython 64 mixedRequests [] emptyBroker = some (changes, s) ∧
      changes.filterMap (Change.appended ['p']) = [[1, 2, 3, 4], [7, 8, 9], [1, 2, 3, 4]] ∧
      changes.filterMap (Change.taken ['p']) = [[1, 2, 3, 4], [7, 8, 9]] ∧
      changes.filterMap (Change.taken ['q']) = [[5, 6]] ∧
      (∀ name, changes.filterMap (Change.appended name) =
        changes.filterMap (Change.taken name) ++ s.messages name) ∧
      s.task 5 = .answered .native (.error (sizeMismatch 8 [7, 8, 9])) ∧
      ∃ c ∈ changes, c.owner = 3 ∧ c.Accounts (.delivered [1, 2, 3, 4]) := by
  have hrun : (brokerExec asciiPython 64 mixedRequests [] emptyBroker).map
      (fun r => (r.1.filterMap (Change.appended ['p']), r.1.filterMap (Change.taken ['p']),
        r.1.filterMap (Change.taken ['q']), r.2.task 5, r.2.task 3)) =
        some ([[1, 2, 3, 4], [7, 8, 9], [1, 2, 3, 4]], [[1, 2, 3, 4], [7, 8, 9]], [[5, 6]],
          .answered .native (.error (sizeMismatch 8 [7, 8, 9])),
          .answered .json (.delivered [1, 2, 3, 4])) := by
    decide +kernel
  obtain ⟨⟨changes, s⟩, hexec, heq⟩ := Option.map_eq_some_iff.mp hrun
  simp only [Prod.mk.injEq] at heq
  obtain ⟨happended, htaken, hother, hmismatch, hread⟩ := heq
  obtain ⟨hqueue, -, -, haccounts⟩ := broker_pipes_are_fifo (brokerExec_run .nil hexec)
  refine ⟨changes, s, hexec, happended, htaken, hother, hqueue, hmismatch, ?_⟩
  exact (haccounts 3 _ _ hread).resolve_left fun h => by cases h

end Queues

section Conditions

variable {py : Python} {maxPayloadBytes : Int} {s t : AsyncBroker} {id : Nat}
  {action : BrokerAction} {name : Text}

/-- The tasks at a condition are reads that wait for its pipe, each is there once, and
while one of them sleeps there is a woken one for each payload. -/
structure AsyncBroker.Awaits (s : AsyncBroker) : Prop where
  waiting : ∀ name, ∀ id ∈ (s.waiters name).tasks, s.broker.WaitsOn name id
  distinct : ∀ name, (s.waiters name).tasks.Nodup
  covers : ∀ name, (s.waiters name).Covers (s.broker.messages name).length

theorem AsyncBroker.awaits_start (broker : Broker) : (AsyncBroker.start broker).Awaits where
  waiting := fun name id hid => by cases hid
  distinct := fun name => List.nodup_nil
  covers := fun name hsleeping => absurd rfl hsleeping

/-- What a step of the broker does, beside the conditions, is a step of the plain model or
nothing. -/
inductive AsyncBroker.Moves (py : Python) (maxPayloadBytes : Int) (s : AsyncBroker) (id : Nat) :
    AsyncBroker → Prop
  | input {action : BrokerAction} {broker : Broker}
      (hstep : s.broker.step py maxPayloadBytes id action = some broker)
      (hmessages : broker.messages = s.broker.messages) (hnot : ∀ name, ¬s.broker.WaitsOn name id) :
      Moves py maxPayloadBytes s id (s.setBroker broker)
  | append {broker : Broker} {name : Text} (payload : Bytes)
      (hstep : s.broker.step py maxPayloadBytes id .append = some broker)
      (hmessages : broker.messages = Function.update s.broker.messages name
        (s.broker.messages name ++ [payload]))
      (hnot : ∀ name, ¬s.broker.WaitsOn name id) :
      Moves py maxPayloadBytes s id ((s.setWaiters name (s.waiters name).notify).setBroker broker)
  | sleep {name : Text} (hwaits : s.broker.WaitsOn name id)
      (hawake : id ∉ (s.waiters name).sleeping)
      (hempty : s.broker.messages name = []) :
      Moves py maxPayloadBytes s id (s.setWaiters name ((s.waiters name).sleep id))
  | take {broker : Broker} {name : Text} {payload : Bytes} {rest : List Bytes}
      (hwaits : s.broker.WaitsOn name id) (hawake : id ∉ (s.waiters name).sleeping)
      (hstep : s.broker.step py maxPayloadBytes id .take = some broker)
      (hqueue : s.broker.messages name = payload :: rest)
      (hmessages : broker.messages = Function.update s.broker.messages name rest) :
      Moves py maxPayloadBytes s id
        ((s.setWaiters name ((s.waiters name).leave id)).setBroker broker)

theorem not_waitsOn {b : Broker}
    (h : ∀ protocol name expected, b.task id ≠ .waiting protocol name expected) (name : Text) :
    ¬b.WaitsOn name id := by
  rintro ⟨protocol, expected, hwaiting⟩
  exact h _ _ _ hwaiting

theorem AsyncBroker.step_moves (h : s.step py maxPayloadBytes id action = some t) :
    s.Moves py maxPayloadBytes id t := by
  cases action with
  | header line =>
    obtain ⟨broker, hstep, rfl⟩ := Option.map_eq_some_iff.mp h
    rcases Broker.step_cases hstep with ⟨task, rfl, hbefore⟩ | ⟨_, _, _, hbefore, -⟩ |
      ⟨_, _, _, _, _, hbefore, -, -⟩
    · refine .input hstep rfl (not_waitsOn fun protocol name expected => ?_)
      rcases hbefore with ⟨line, hbefore, -⟩ | ⟨pipe, byteCount, hbefore⟩ <;> simp [hbefore]
    · simp [Broker.step, hbefore] at hstep
    · simp [Broker.step, hbefore] at hstep
  | payload data =>
    obtain ⟨broker, hstep, rfl⟩ := Option.map_eq_some_iff.mp h
    rcases Broker.step_cases hstep with ⟨task, rfl, hbefore⟩ | ⟨_, _, _, hbefore, -⟩ |
      ⟨_, _, _, _, _, hbefore, -, -⟩
    · refine .input hstep rfl (not_waitsOn fun protocol name expected => ?_)
      rcases hbefore with ⟨line, hbefore, -⟩ | ⟨pipe, byteCount, hbefore⟩ <;> simp [hbefore]
    · simp [Broker.step, hbefore] at hstep
    · simp [Broker.step, hbefore] at hstep
  | append =>
    simp only [step] at h
    split at h
    · rename_i protocol name payload htask
      obtain ⟨broker, hstep, rfl⟩ := Option.map_eq_some_iff.mp h
      refine .append payload hstep ?_ (not_waitsOn fun _ _ _ => by simp [htask])
      simp only [Broker.step, htask, Option.some.injEq] at hstep
      rw [← hstep]
      rfl
    · cases h
  | take =>
    simp only [step] at h
    split at h
    · rename_i protocol name expected htask
      have hwaits : s.broker.WaitsOn name id := ⟨protocol, expected, htask⟩
      split at h
      · cases h
      · rename_i hawake
        split at h
        · rename_i hempty
          obtain rfl := Option.some.inj h
          exact .sleep hwaits hawake hempty
        · obtain ⟨broker, hstep, rfl⟩ := Option.map_eq_some_iff.mp h
          rcases Broker.step_cases hstep with ⟨task, _, hbefore⟩ | ⟨_, _, _, hbefore, -⟩ |
            ⟨_, pipe, _, payload, rest, hbefore, hqueue, hafter⟩
          · rcases hbefore with ⟨line, hbefore, -⟩ |
              ⟨pipe, byteCount, hbefore⟩ <;> simp [hbefore] at htask
          · simp [hbefore] at htask
          · obtain rfl : pipe = name := by
              rw [hbefore] at htask
              cases htask
              rfl
            refine .take hwaits hawake hstep hqueue ?_
            rcases hafter with ⟨-, rfl⟩ | ⟨-, rfl⟩ <;> rfl
    · cases h

theorem Broker.WaitsOn.name_eq {b : Broker} {pipe : Text} (h : b.WaitsOn name id)
    (h' : b.WaitsOn pipe id) : pipe = name := by
  obtain ⟨protocol, expected, h⟩ := h
  obtain ⟨protocol', expected', h'⟩ := h'
  rw [h] at h'
  cases h'
  rfl

theorem Broker.WaitsOn.kept {b b' : Broker} {other : Nat} (h : b.WaitsOn name other)
    (hstep : b.step py maxPayloadBytes id action = some b') (hne : other ≠ id) :
    b'.WaitsOn name other := by
  obtain ⟨protocol, expected, h⟩ := h
  exact ⟨protocol, expected, ((Broker.step_task hstep).1 other hne).trans h⟩

theorem AsyncBroker.Moves.awaits (h : s.Moves py maxPayloadBytes id t) (hs : s.Awaits) :
    t.Awaits := by
  cases h with
  | @input action broker hstep hmessages hnot =>
    refine ⟨fun name other hother => ?_, hs.distinct, fun name => ?_⟩
    · have hwaits := hs.waiting name other hother
      refine hwaits.kept hstep ?_
      rintro rfl
      exact hnot name hwaits
    · change ((s.waiters name).Covers (broker.messages name).length)
      rw [hmessages]
      exact hs.covers name
  | @append broker pipe payload hstep hmessages hnot =>
    have htasks :
    ∀ name, (((s.setWaiters pipe (s.waiters pipe).notify).setBroker broker).waiters name).tasks.Perm
        (s.waiters name).tasks := by
      intro name
      by_cases hname : name = pipe
      · subst hname
        simpa [setWaiters, setBroker] using Waiters.notify_perm (s.waiters name)
      · simp [setWaiters, setBroker, Function.update_of_ne hname]
    refine ⟨fun name other hother => ?_, fun name => (htasks name).nodup_iff.mpr (hs.distinct name),
      fun name => ?_⟩
    · have hwaits := hs.waiting name other ((htasks name).mem_iff.mp hother)
      refine hwaits.kept hstep ?_
      rintro rfl
      exact hnot name hwaits
    · simp only [setBroker, setWaiters, hmessages]
      by_cases hname : name = pipe
      · subst hname
        rw [Function.update_self, Function.update_self, List.length_append, List.length_singleton]
        exact Waiters.covers_notify (hs.covers name)
      · rw [Function.update_of_ne hname, Function.update_of_ne hname]
        exact hs.covers name
  | @sleep pipe hwaits hawake hempty =>
    refine ⟨fun name other hother => ?_, fun name => ?_, fun name => ?_⟩
    all_goals
      simp only [setWaiters] at *
      by_cases hname : name = pipe
    · subst hname
      rw [Function.update_self, Waiters.mem_sleep (hs.distinct name) hawake] at hother
      rcases hother with rfl | hother
      · exact hwaits
      · exact hs.waiting name other hother
    · rw [Function.update_of_ne hname] at hother
      exact hs.waiting name other hother
    · subst hname
      rw [Function.update_self]
      exact Waiters.nodup_sleep (hs.distinct name) hawake
    · rw [Function.update_of_ne hname]
      exact hs.distinct name
    · subst hname
      rw [Function.update_self, hempty]
      exact Waiters.covers_sleep _ _
    · rw [Function.update_of_ne hname]
      exact hs.covers name
  | @take broker pipe payload rest hwaits hawake hstep hqueue hmessages =>
    refine ⟨fun name other hother => ?_, fun name => ?_, fun name => ?_⟩
    all_goals
      simp only [setBroker, setWaiters] at *
      by_cases hname : name = pipe
    · subst hname
      rw [Function.update_self, Waiters.mem_leave (hs.distinct name) hawake] at hother
      exact (hs.waiting name other hother.2).kept hstep hother.1
    · rw [Function.update_of_ne hname] at hother
      have hother := hs.waiting name other hother
      refine hother.kept hstep ?_
      rintro rfl
      exact hname (hwaits.name_eq hother)
    · subst hname
      rw [Function.update_self]
      exact Waiters.nodup_leave (hs.distinct name) hawake
    · rw [Function.update_of_ne hname]
      exact hs.distinct name
    · subst hname
      rw [Function.update_self, hmessages, Function.update_self]
      have hcovers := hs.covers name
      rw [hqueue, List.length_cons] at hcovers
      exact Waiters.covers_leave hcovers id
    · rw [Function.update_of_ne hname, hmessages, Function.update_of_ne hname]
      exact hs.covers name

theorem AsyncReachable.awaits {start : Broker}
    (h : AsyncReachable py maxPayloadBytes (.start start) s) : s.Awaits := by
  induction h with
  | refl => exact AsyncBroker.awaits_start start
  | tail _ hstep ih =>
    obtain ⟨id, action, hstep⟩ := hstep
    exact (AsyncBroker.step_moves hstep).awaits ih

/-- The conditions take nothing from the plain model: a run with them is one of its runs. -/
theorem AsyncReachable.run {start : Broker}
    (h : AsyncReachable py maxPayloadBytes (.start start) s) :
    ∃ changes, BrokerRun py maxPayloadBytes start changes s.broker := by
  induction h with
  | refl => exact ⟨[], .nil⟩
  | tail _ hstep ih =>
    obtain ⟨changes, hrun⟩ := ih
    obtain ⟨id, action, hstep⟩ := hstep
    cases AsyncBroker.step_moves hstep with
    | input hbroker => exact ⟨_, hrun.step hbroker⟩
    | append _ hbroker => exact ⟨_, hrun.step hbroker⟩
    | sleep => exact ⟨changes, hrun⟩
    | take _ _ hbroker => exact ⟨_, hrun.step hbroker⟩

/-- Where a read waits for a pipe that holds a payload, a read of this pipe is awake, and
its next step takes the payload. -/
theorem AsyncBroker.Awaits.progress (py : Python) (maxPayloadBytes : Int) (hs : s.Awaits)
    {payload : Bytes} {rest : List Bytes} (hqueue : s.broker.messages name = payload :: rest)
    (hwaits : s.broker.WaitsOn name id) :
    ∃ reader t, s.broker.WaitsOn name reader ∧ s.step py maxPayloadBytes reader .take = some t ∧
      t.broker.messages = Function.update s.broker.messages name rest := by
  have hawake : ∃ reader, s.broker.WaitsOn name reader ∧ reader ∉ (s.waiters name).sleeping := by
    by_cases hid : id ∈ (s.waiters name).sleeping
    · have hpayloads : 0 < (s.broker.messages name).length := by simp [hqueue]
      obtain ⟨reader, hreader⟩ := (hs.covers name).exists_woken hpayloads (List.ne_nil_of_mem hid)
      refine ⟨reader, hs.waiting name reader (List.mem_append_right _ hreader), fun hsleeping => ?_⟩
      exact (List.nodup_append.mp (hs.distinct name)).2.2 reader hsleeping reader hreader rfl
    · exact ⟨id, hwaits, hid⟩
  obtain ⟨reader, ⟨protocol, expected, htask⟩, hreader⟩ := hawake
  have hstep : ∃ broker, s.broker.step py maxPayloadBytes reader .take = some broker ∧
      broker.messages = Function.update s.broker.messages name rest := by
    simp only [Broker.step, htask, hqueue]
    split
    · exact ⟨_, rfl, rfl⟩
    · exact ⟨_, rfl, rfl⟩
  obtain ⟨broker, hstep, hmessages⟩ := hstep
  refine ⟨reader, (s.setWaiters name ((s.waiters name).leave reader)).setBroker broker,
    ⟨protocol, expected, htask⟩, ?_, hmessages⟩
  have hne : s.broker.messages name ≠ [] := by simp [hqueue]
  simp only [step, htask, if_neg hreader, if_neg hne, hstep, Option.map_some]

theorem AsyncBroker.Awaits.drain (hs : s.Awaits) (name : Text) :
    ∃ t, Relation.ReflTransGen (TakeStep py maxPayloadBytes) s t ∧
      (t.broker.messages name = [] ∨ ∀ id, ¬t.broker.WaitsOn name id) := by
  generalize hlength : (s.broker.messages name).length = n
  induction n generalizing s with
  | zero => exact ⟨s, .refl, Or.inl (List.eq_nil_of_length_eq_zero hlength)⟩
  | succ n ih =>
    obtain ⟨payload, rest, hqueue⟩ := List.exists_cons_of_length_eq_add_one hlength
    by_cases hwaits : ∃ id, s.broker.WaitsOn name id
    · obtain ⟨id, hid⟩ := hwaits
      obtain ⟨reader, u, _, hstep, hmessages⟩ := hs.progress py maxPayloadBytes hqueue hid
      have hu := (AsyncBroker.step_moves hstep).awaits hs
      have hrest : (u.broker.messages name).length = n := by
        rw [hmessages, Function.update_self]
        rw [hqueue, List.length_cons] at hlength
        omega
      obtain ⟨t, hrun, hend⟩ := ih hu hrest
      exact ⟨t, .head ⟨reader, hstep⟩ hrun, hend⟩
    · exact ⟨s, .refl, Or.inr fun id hid => hwaits ⟨id, hid⟩⟩

/-- No read sleeps on beside a payload. Whatever the order of the tasks, a run with the
conditions is a run of the plain model, a state in which nothing can take has no pipe with
both a payload and a waiting read, and the awake reads alone lead to such a state. -/
theorem no_wakeup_is_lost {start : Broker}
    (h : AsyncReachable py maxPayloadBytes (.start start) s) :
    (∃ changes, BrokerRun py maxPayloadBytes start changes s.broker) ∧
    ((∀ t, ¬TakeStep py maxPayloadBytes s t) →
      ∀ name, s.broker.messages name = [] ∨ ∀ id, ¬s.broker.WaitsOn name id) ∧
    ∀ name, ∃ t, Relation.ReflTransGen (TakeStep py maxPayloadBytes) s t ∧
      (t.broker.messages name = [] ∨ ∀ id, ¬t.broker.WaitsOn name id) := by
  have hs := AsyncReachable.awaits h
  refine ⟨AsyncReachable.run h, fun hstuck name => ?_, hs.drain⟩
  cases hqueue : s.broker.messages name with
  | nil => exact Or.inl rfl
  | cons payload rest =>
    refine Or.inr fun id hid => ?_
    obtain ⟨reader, t, _, hstep, _⟩ := hs.progress py maxPayloadBytes hqueue hid
    exact hstuck t ⟨reader, hstep⟩

end Conditions

def asyncExec (py : Python) (maxPayloadBytes : Int) : List (Nat × BrokerAction) → AsyncBroker →
    Option AsyncBroker
  | [], s => some s
  | (id, action) :: rest, s =>
    match s.step py maxPayloadBytes id action with
    | none => none
    | some t => asyncExec py maxPayloadBytes rest t

theorem asyncExec_reachable {py : Python} {maxPayloadBytes : Int} {start s t : AsyncBroker}
    {actions : List (Nat × BrokerAction)} (h : AsyncReachable py maxPayloadBytes start s)
    (hexec : asyncExec py maxPayloadBytes actions s = some t) :
    AsyncReachable py maxPayloadBytes start t := by
  induction actions generalizing s with
  | nil =>
    cases hexec
    exact h
  | cons a actions ih =>
    rw [asyncExec] at hexec
    split at hexec
    · cases hexec
    · rename_i u hstep
      exact ih (h.tail ⟨_, _, hstep⟩) hexec

/-- Two reads sleep when a payload comes, and a third one takes it before the woken one runs. -/
def overtakenRead : List (Nat × BrokerAction) :=
  [(1, .header (some (readRequest 4))), (1, .take), (2, .header (some (readRequest 4))), (2, .take),
    (0, .header (some writeRequest)), (0, .append), (3, .header (some (readRequest 4))),
    (3, .take), (1, .take), (4, .header (some writeRequest)), (4, .append)]

theorem no_wakeup_is_lost_overtaken :
    ∃ s, asyncExec asciiPython 64 overtakenRead (.start emptyBroker) = some s ∧
      s.broker.task 3 = .answered .json (.delivered [1, 2, 3, 4]) ∧
      (s.waiters ['p']).sleeping = [1] ∧
      s.broker.messages ['p'] = [[1, 2, 3, 4]] ∧
      ∃ t, Relation.ReflTransGen (TakeStep asciiPython 64) s t ∧
        (t.broker.messages ['p'] = [] ∨ ∀ id, ¬t.broker.WaitsOn ['p'] id) := by
  have hrun : (asyncExec asciiPython 64 overtakenRead (.start emptyBroker)).map
      (fun s => (s.broker.task 3, (s.waiters ['p']).sleeping, s.broker.messages ['p'])) =
        some (.answered .json (.delivered [1, 2, 3, 4]), [1], [[1, 2, 3, 4]]) := by
    decide +kernel
  obtain ⟨s, hexec, heq⟩ := Option.map_eq_some_iff.mp hrun
  simp only [Prod.mk.injEq] at heq
  obtain ⟨htask, hsleeping, hqueue⟩ := heq
  exact ⟨s, hexec, htask, hsleeping, hqueue,
    (no_wakeup_is_lost (asyncExec_reachable .refl hexec)).2.2 ['p']⟩

end ChipSystemSim
