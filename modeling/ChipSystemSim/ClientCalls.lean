import ChipSystemSim.BrokerSessions

/-! What a call of the native protocol promises over a whole run of the clients and the
broker: it is one step of the broker or none, and it returns. -/

namespace ChipSystemSim

section Runs

variable {py : Python} {dumps : BrokerReply → Bytes} {maxPayloadBytes : Int}
  {calls : Nat → Option PipeCall}
  {start s t : Sessions} {id : Nat} {event : SessionEvent} {changes : List Change} {call : PipeCall}

theorem Sessions.setConnection_self (c : Connection) : (s.setConnection id c).connection id = c :=
  Function.update_self ..

theorem Sessions.setConnection_of_ne {other : Nat} (c : Connection) (h : other ≠ id) :
    (s.setConnection id c).connection other = s.connection other :=
  Function.update_of_ne h ..

theorem Sessions.step_cases (h : s.step py dumps maxPayloadBytes calls id event = some t) :
    (∃ action, calls id = none ∧ event = .foreign action ∧ t.connection = s.connection ∧
      s.broker.step py maxPayloadBytes id action = some t.broker) ∨
    (∃ call c, calls id = some call ∧ event.changes id s t = [] ∧ t = s.setConnection id c ∧
      (s.connection id).step call (s.broker.task id).ended event = some c) ∨
    ∃ call action rest, calls id = some call ∧ event = .serve ∧
      (s.broker.task id).input (s.connection id).client.hungUp (s.connection id).up =
        some (action, rest) ∧
      s.broker.step py maxPayloadBytes id action = some t.broker ∧
      t.connection = Function.update s.connection id { s.connection id with
        up := rest, down := (s.connection id).down ++ (t.broker.task id).reply dumps } := by
  cases hcall : calls id with
  | none =>
    cases event with
    | foreign action =>
      simp only [step, hcall] at h
      obtain ⟨broker, hstep, rfl⟩ := Option.map_eq_some_iff.mp h
      exact Or.inl ⟨action, rfl, rfl, rfl, hstep⟩
    | _ => simp [step, hcall] at h
  | some call =>
    have hclient : ∀ e, event = e → e ≠ .serve → event.changes id s t = [] →
        ((s.connection id).step call (s.broker.task id).ended e).map (s.setConnection id) = some t →
        ∃ c, event.changes id s t = [] ∧ t = s.setConnection id c ∧
          (s.connection id).step call (s.broker.task id).ended event = some c := by
      rintro e rfl - hnone hmap
      obtain ⟨c, hc, rfl⟩ := Option.map_eq_some_iff.mp hmap
      exact ⟨c, hnone, rfl, hc⟩
    cases event with
    | serve =>
      simp only [step, hcall, serve] at h
      split at h
      · cases h
      · rename_i action rest hinput
        obtain ⟨broker, hstep, rfl⟩ := Option.map_eq_some_iff.mp h
        exact Or.inr (Or.inr ⟨call, action, rest, rfl, rfl, hinput, hstep, rfl⟩)
    | send k =>
      obtain ⟨c, hc⟩ := hclient (.send k) rfl (by simp) rfl (by simpa only [step, hcall] using h)
      exact Or.inr (Or.inl ⟨call, c, rfl, hc⟩)
    | receive k =>
      obtain ⟨c, hc⟩ := hclient (.receive k) rfl (by simp) rfl (by simpa only [step, hcall] using h)
      exact Or.inr (Or.inl ⟨call, c, rfl, hc⟩)
    | endOfStream =>
      obtain ⟨c, hc⟩ := hclient .endOfStream rfl (by simp) rfl (by simpa only [step, hcall] using h)
      exact Or.inr (Or.inl ⟨call, c, rfl, hc⟩)
    | lose k =>
      obtain ⟨c, hc⟩ := hclient (.lose k) rfl (by simp) rfl (by simpa only [step, hcall] using h)
      exact Or.inr (Or.inl ⟨call, c, rfl, hc⟩)
    | foreign action => simp [step, hcall, Connection.step] at h

structure Sessions.Sound (dumps : BrokerReply → Bytes) (maxPayloadBytes : Int)
    (calls : Nat → Option PipeCall) (changes : List Change) (s : Sessions) : Prop where
  fits : ∀ id call, calls id = some call → (s.connection id).Fits call dumps (s.broker.task id)
  allows : ∀ c ∈ changes, ∀ call, calls c.owner = some call → call.Allows c
  refused : ∀ id call, calls id = some call → (s.connection id).lost = false →
    ∀ message, s.broker.task id = .answered .native (.error message) →
      ∃ c ∈ changes, c.owner = id ∧ call.Refused maxPayloadBytes c

theorem Sessions.sound_start (dumps : BrokerReply → Bytes) (maxPayloadBytes : Int)
    (calls : Nat → Option PipeCall) (messages : Text → List Bytes) :
    (Sessions.start calls messages).Sound dumps maxPayloadBytes calls [] := by
  refine ⟨fun id call hcall => ?_, fun c hc => (by cases hc),
    fun id call hcall hlost message h => by cases h⟩
  have hconnection : (Sessions.start calls messages).connection id =
      ⟨.sendHeader call.header, [], [], false⟩ := by
    simp only [start, hcall]
  rw [hconnection]
  have hheader : call.header ≠ [] := List.cons_ne_nil _ _
  exact ⟨⟨call.request, rfl, fun _ => rfl⟩, fun _ => rfl, hheader, fun ⟨_, h⟩ => by cases h⟩

/-- An event of a client changes neither the broker nor what its task has answered. -/
theorem Connection.step_lost {c c' : Connection} {ended : Bool}
    (h : c.step call ended event = some c') (hlost : c'.lost = false) : c.lost = false := by
  cases event with
  | send k =>
    obtain ⟨r, -, rfl⟩ := Option.map_eq_some_iff.mp h
    exact hlost
  | receive k =>
    obtain ⟨r, -, rfl⟩ := Option.map_eq_some_iff.mp h
    exact hlost
  | endOfStream =>
    simp only [Connection.step] at h
    split at h
    · obtain ⟨r, -, rfl⟩ := Option.map_eq_some_iff.mp h
      exact hlost
    · cases h
  | lose k =>
    obtain ⟨r, -, rfl⟩ := Option.map_eq_some_iff.mp h
    cases hlost
  | serve => cases h
  | foreign action => cases h

theorem Sessions.Sound.step (hint : py.ReadsInt)
    (hcalls : ∀ id call, calls id = some call → call.Valid)
    (h : s.Sound dumps maxPayloadBytes calls changes)
    (hstep : s.step py dumps maxPayloadBytes calls id event = some t) :
    t.Sound dumps maxPayloadBytes calls (changes ++ event.changes id s t) := by
  rcases Sessions.step_cases hstep with ⟨action, hnone, rfl, hconnection, hbroker⟩ |
    ⟨call, c, hcall, hchanges, rfl, hclient⟩ | ⟨call, action, rest, hcall, rfl, hinput, hbroker,
      hconnection⟩
  · have hother : ∀ other call, calls other = some call →
        t.broker.task other = s.broker.task other := by
      intro other call hcall
      apply (Broker.step_task hbroker).1
      rintro rfl
      rw [hnone] at hcall
      cases hcall
    refine ⟨fun other call hcall => ?_, fun c hc call hcall => ?_,
      fun other call hcall hlost message herror => ?_⟩
    · rw [hconnection, hother other call hcall]
      exact h.fits other call hcall
    · rcases List.mem_append.mp hc with hc | hc
      · exact h.allows c hc call hcall
      · rw [List.mem_singleton.mp hc] at hcall
        rw [hnone] at hcall
        cases hcall
    · rw [hconnection] at hlost
      rw [hother other call hcall] at herror
      obtain ⟨c, hc, hrefused⟩ := h.refused other call hcall hlost message herror
      exact ⟨c, List.mem_append_left _ hc, hrefused⟩
  · rw [hchanges, List.append_nil]
    refine ⟨fun other call' hcall' => ?_, h.allows,
      fun other call' hcall' hlost message herror => ?_⟩
    · by_cases hid : other = id
      · subst hid
        obtain rfl : call = call' := Option.some.inj (hcall.symm.trans hcall')
        rw [Sessions.setConnection_self]
        exact (h.fits other call hcall).client (hcalls other call hcall) hclient
      · rw [Sessions.setConnection_of_ne c hid]
        exact h.fits other call' hcall'
    · by_cases hid : other = id
      · subst hid
        rw [Sessions.setConnection_self] at hlost
        exact h.refused other call' hcall' (Connection.step_lost hclient hlost) message herror
      · rw [Sessions.setConnection_of_ne c hid] at hlost
        exact h.refused other call' hcall' hlost message herror
  · have hfits := h.fits id call hcall
    have hothers := (Broker.step_task hbroker).1
    refine ⟨fun other call' hcall' => ?_, fun c hc call' hcall' => ?_,
      fun other call' hcall' hlost message herror => ?_⟩
    · by_cases hid : other = id
      · subst hid
        obtain rfl : call = call' := Option.some.inj (hcall.symm.trans hcall')
        rw [hconnection, Function.update_self]
        exact hfits.serve hint (hcalls other call hcall) hinput hbroker
      · rw [hconnection, Function.update_of_ne hid, hothers other hid]
        exact h.fits other call' hcall'
    · rcases List.mem_append.mp hc with hc | hc
      · exact h.allows c hc call' hcall'
      · rw [List.mem_singleton.mp hc] at hcall' ⊢
        obtain rfl : call = call' := Option.some.inj (hcall.symm.trans hcall')
        exact hfits.allows
    · by_cases hid : other = id
      · subst hid
        obtain rfl : call = call' := Option.some.inj (hcall.symm.trans hcall')
        rw [hconnection, Function.update_self] at hlost
        obtain ⟨-, hrefused, -, hnoerror⟩ :=
          hfits.handler hint (hcalls other call hcall) hinput hbroker
        have hlive : ¬(s.connection other).client.Failed := by
          intro hfailed
          rcases hfits.failed hfailed with hlost' | ⟨message', herror'⟩
          · exact absurd (hlost'.symm.trans hlost) (by decide)
          · exact hnoerror message' herror'
        exact ⟨_, List.mem_append_right _ (List.mem_singleton_self _), rfl,
          hrefused hlive message herror⟩
      · rw [hconnection, Function.update_of_ne hid] at hlost
        rw [hothers other hid] at herror
        obtain ⟨c, hc, hrefused⟩ := h.refused other call' hcall' hlost message herror
        exact ⟨c, List.mem_append_left _ hc, hrefused⟩

theorem SessionRun.sound (hint : py.ReadsInt)
    (hcalls : ∀ id call, calls id = some call → call.Valid) {messages : Text → List Bytes}
    (h : SessionRun py dumps maxPayloadBytes calls (.start calls messages) changes s) :
    s.Sound dumps maxPayloadBytes calls changes := by
  induction h with
  | nil => exact Sessions.sound_start ..
  | step h hstep ih => exact ih.step hint hcalls hstep

/-- The clients' run is a run of the broker. -/
theorem SessionRun.broker (h : SessionRun py dumps maxPayloadBytes calls start changes s) :
    BrokerRun py maxPayloadBytes start.broker changes s.broker := by
  induction h with
  | nil => exact .nil
  | step h hstep ih =>
    rcases Sessions.step_cases hstep with ⟨action, -, rfl, -, hbroker⟩ |
      ⟨call, c, -, hchanges, rfl, -⟩ |
      ⟨call, action, rest, -, rfl, -, hbroker, -⟩
    · exact .step ih hbroker
    · rw [hchanges, List.append_nil]
      exact ih
    · exact .step ih hbroker

theorem Connection.Fits.returned {c : Connection} {task : Task} (h : c.Fits call dumps task)
    {value : Int} {buffer : Bytes} (hclient : c.client = .returned value buffer) :
    (value = -1 ∧ (c.lost = true ∨ ∃ message, task = .answered .native (.error message))) ∨
      (∃ name payload bytes, call = .write name payload ∧ value = payload.length ∧
        task = .answered .native (.stored bytes)) ∨
      ∃ name, call = .read name buffer.length ∧ value = buffer.length ∧
      task = .answered .native (.delivered buffer) := by
  by_cases hfailed : c.client.Failed
  · have hvalue : value = -1 := by
      obtain ⟨buffer', hbuffer⟩ := hfailed
      rw [hclient] at hbuffer
      exact (ClientState.returned.inj hbuffer).1
    exact Or.inl ⟨hvalue, h.failed hfailed⟩
  · have hreply := h.replies hfailed
    have hshape := h.shape
    rw [hclient] at hreply hshape
    have hsuccess : value = call.bytes ∧ buffer.length = call.replySize :=
      hshape.resolve_left fun hvalue => hfailed ⟨buffer, by rw [hclient, hvalue]⟩
    have hhandles := h.handles
    have hnone : ¬[] = call.taken (.returned value buffer) ++ c.down := fun h =>
      absurd (List.append_eq_nil_iff.mp h.symm).1
        (List.append_ne_nil_of_right_ne_nil _ (List.cons_ne_nil _ _))
    right
    cases task with
    | answered protocol reply =>
      cases reply with
      | stored bytes =>
        obtain ⟨rfl, name, payload, rfl⟩ := hhandles
        exact Or.inl ⟨name, payload, bytes, rfl, hsuccess.1, rfl⟩
      | delivered payload =>
        obtain ⟨rfl, name, n, rfl, hsize⟩ := hhandles
        obtain rfl : buffer.length = n := hsuccess.2
        have hlen := hsize hfailed
        refine Or.inr ⟨name, rfl, hsuccess.1, ?_⟩
        have hsame : payload = buffer := by
          have hbytes : okDataLine payload.length ++ payload =
              encodeText ("OK ".toList ++ decimal (buffer.length : Int)) ++ 10 :: buffer ++
                c.down := hreply
          have hline : encodeText ("OK ".toList ++ decimal (buffer.length : Int)) ++ 10 ::
              buffer ++ c.down =
              okDataLine buffer.length ++ (buffer ++ c.down) := by
            rw [okDataLine_eq]
            simp
          rw [hlen, hline] at hbytes
          have hrest := List.append_cancel_left hbytes
          have hdown : c.down = [] := by
            have := congrArg List.length hrest
            rw [List.length_append] at this
            exact List.length_eq_zero_iff.mp (by omega)
          rw [hrest, hdown, List.append_nil]
        rw [hsame]
      | error message =>
        obtain rfl : protocol = .native := hhandles
        have hhead := congrArg List.head? hreply
        have hE : ((Task.answered .native (.error message)).reply dumps).head? = some 69 := rfl
        rw [hE] at hhead
        cases call <;> exact absurd (Option.some.inj hhead) (by decide)
    | connected => exact absurd hreply hnone
    | receiving name byteCount => exact absurd hreply hnone
    | appending protocol name payload => exact absurd hreply hnone
    | waiting protocol name expected => exact absurd hreply hnone
    | closed => exact absurd hreply hnone

/-- However the bytes of the clients are cut and wherever connections break, a call changes a
pipe once at most, with the last step of its handler: only its own payload is appended, a
success stands for the append or the read it reports, and a call without a lost connection
fails for its size alone. -/
theorem client_calls_are_atomic (hint : py.ReadsInt)
    (hcalls : ∀ id call, calls id = some call → call.Valid) {messages : Text → List Bytes}
    (h : SessionRun py dumps maxPayloadBytes calls (.start calls messages) changes s)
    (hcall : calls id = some call) :
    BrokerRun py maxPayloadBytes ⟨messages, fun _ => .connected⟩ changes s.broker ∧
    (∀ c ∈ changes, c.owner = id → call.Allows c) ∧
    (changes.Pairwise fun c d => c.owner = id → c.after.messages ≠ c.before.messages →
      d.owner ≠ id) ∧
    ∀ value buffer, (s.connection id).client = .returned value buffer →
      (∃ name payload, call = .write name payload ∧ value = payload.length ∧
        ∃ c ∈ changes, c.owner = id ∧ c.appended name = some payload) ∨
      (∃ name, call = .read name buffer.length ∧ value = buffer.length ∧
        ∃ c ∈ changes, c.owner = id ∧ c.taken name = some buffer) ∨
      (value = -1 ∧ ((s.connection id).lost = true ∨ ∃ c ∈ changes, c.owner = id ∧
        call.Refused maxPayloadBytes c)) := by
  have hsound := h.sound hint hcalls
  have hrun := h.broker
  have honce : changes.Pairwise fun c d =>
      c.owner = id → c.after.messages ≠ c.before.messages → d.owner ≠ id := by
    refine hrun.changes_once.imp fun {c d} hcd howner hchanged => ?_
    rw [← howner]
    exact hcd hchanged
  refine ⟨hrun, fun c hc howner => hsound.allows c hc call (howner ▸ hcall), honce,
    fun value buffer hclient => ?_⟩
  have hstart : ∀ reply, (⟨messages, fun _ => .connected⟩ : Broker).task id ≠
      .answered .native reply := by
    intro reply h
    cases h
  rcases (hsound.fits id call hcall).returned hclient with ⟨hvalue, hlost | ⟨message, herror⟩⟩ |
    ⟨name, payload, bytes, rfl, hvalue, hstored⟩ | ⟨name, rfl, hvalue, hdelivered⟩
  · exact Or.inr (Or.inr ⟨hvalue, Or.inl hlost⟩)
  · by_cases hlost : (s.connection id).lost = true
    · exact Or.inr (Or.inr ⟨hvalue, Or.inl hlost⟩)
    · rw [Bool.not_eq_true] at hlost
      exact Or.inr (Or.inr ⟨hvalue, Or.inr (hsound.refused id call hcall hlost message herror)⟩)
  · obtain ⟨c, hc, howner, pipe, data, happended, -⟩ :=
      (hrun.accounts hstored).resolve_left (hstart _)
    have hsame := (hsound.allows c hc _ (howner ▸ hcall)).1 pipe data happended
    obtain ⟨rfl, rfl⟩ := PipeCall.write.inj hsame
    exact Or.inl ⟨name, payload, rfl, hvalue, c, hc, howner, happended⟩
  · obtain ⟨c, hc, howner, pipe, htaken⟩ := (hrun.accounts hdelivered).resolve_left (hstart _)
    obtain ⟨n, hread⟩ := (hsound.allows c hc _ (howner ▸ hcall)).2 pipe buffer htaken
    obtain ⟨rfl, -⟩ := PipeCall.read.inj hread
    exact Or.inr (Or.inl ⟨name, rfl, hvalue, c, hc, howner, htaken⟩)

end Runs

section Exec

variable {py : Python} {dumps : BrokerReply → Bytes} {maxPayloadBytes : Int}
  {calls : Nat → Option PipeCall}

def sessionExec (py : Python) (dumps : BrokerReply → Bytes) (maxPayloadBytes : Int)
    (calls : Nat → Option PipeCall) :
    List (Nat × SessionEvent) → List Change → Sessions → Option (List Change × Sessions)
  | [], changes, s => some (changes, s)
  | (id, event) :: rest, changes, s =>
    match s.step py dumps maxPayloadBytes calls id event with
    | none => none
    | some t => sessionExec py dumps maxPayloadBytes calls rest (changes ++ event.changes id s t) t

theorem sessionExec_run {start s t : Sessions} {events : List (Nat × SessionEvent)}
    {changes changes' : List Change} (h : SessionRun py dumps maxPayloadBytes calls start changes s)
    (hexec : sessionExec py dumps maxPayloadBytes calls events changes s = some (changes', t)) :
    SessionRun py dumps maxPayloadBytes calls start changes' t := by
  induction events generalizing changes s with
  | nil =>
    obtain ⟨rfl, rfl⟩ := Prod.mk.inj (Option.some.inj hexec)
    exact h
  | cons event rest ih =>
    obtain ⟨id, event⟩ := event
    simp only [sessionExec] at hexec
    split at hexec
    · cases hexec
    · rename_i u hstep
      exact ih (h.step hstep) hexec

/-- A writer and a reader of the pipe `p`. -/
def twoCalls (id : Nat) : Option PipeCall :=
  if id = 0 then some (.write ['p'] [1]) else if id = 1 then some (.read ['p'] 1) else none

theorem twoCalls_valid (id : Nat) (call : PipeCall) (h : twoCalls id = some call) : call.Valid := by
  have hname : ∀ c ∈ ['p'], FieldChar c := by
    intro c hc
    rw [List.mem_singleton.mp hc]
    exact ⟨by decide, by decide⟩
  unfold twoCalls at h
  split at h
  · obtain rfl := Option.some.inj h
    exact ⟨hname, by decide, by decide⟩
  · split at h
    · obtain rfl := Option.some.inj h
      exact ⟨hname, by decide, by decide⟩
    · cases h

theorem asciiPython_readsInt : asciiPython.ReadsInt := fun _ _ _ => rfl

def readRequested : List (Nat × SessionEvent) := [(1, .send 2), (1, .send 4), (1, .serve)]

/-- The read waits; then the header of the write arrives in pieces, its payload and both replies. -/
def writeAnswered : List (Nat × SessionEvent) :=
  readRequested ++ [(0, .send 5), (0, .send 1), (0, .serve), (0, .send 1), (0, .serve), (0, .serve),
    (1, .serve), (0, .receive 1), (0, .receive 1), (0, .receive 1)] ++
      List.replicate 6 (1, .receive 1)

theorem client_calls_are_atomic_two : ∃ changes s,
    sessionExec asciiPython (fun _ => []) 64 twoCalls writeAnswered []
      (.start twoCalls fun _ => []) =
      some (changes, s) ∧
    (s.connection 0).client = .returned 1 [] ∧ (s.connection 1).client = .returned 1 [1] ∧
    ∃ c ∈ changes, c.owner = 1 ∧ c.taken ['p'] = some [1] := by
  have hrun :
      (sessionExec asciiPython (fun _ => []) 64 twoCalls writeAnswered []
      (.start twoCalls fun _ => [])).map
      (fun r => decide ((r.2.connection 0).client = .returned 1 [] ∧
        (r.2.connection 1).client = .returned 1 [1])) =
        some true := by
    decide +kernel
  obtain ⟨⟨changes, s⟩, hexec, hclients⟩ := Option.map_eq_some_iff.mp hrun
  obtain ⟨hzero, hone⟩ := of_decide_eq_true hclients
  refine ⟨changes, s, hexec, hzero, hone, ?_⟩
  have hread : twoCalls 1 = some (.read ['p'] 1) := rfl
  rcases (client_calls_are_atomic asciiPython_readsInt twoCalls_valid (sessionExec_run .nil hexec)
    hread).2.2.2 1 [1] hone
    with ⟨name, payload, hwrite, -⟩ | ⟨name, hname, -, htaken⟩ | ⟨hvalue, -⟩
  · cases hwrite
  · obtain ⟨rfl, -⟩ := PipeCall.read.inj hname
    exact htaken
  · exact absurd hvalue (by decide)

end Exec

end ChipSystemSim
