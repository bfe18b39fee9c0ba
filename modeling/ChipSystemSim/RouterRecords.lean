import ChipSystemSim.RequestHeader

/-! One request at a router, from its bytes to the reply and the lines that the
router prints: which operations it reports as completed. -/

namespace ChipSystemSim

/-- What a gateway does with a connection. `reset` is the error with which the connection
ends, instead of its end, after the bytes of the stream. -/
inductive GatewayBehaviour where
  | refuses
  | breaks (error : Text)
  | answers (stream : Bytes) (reset : Option Text)

def okLine : Bytes := encodeText "OK\n".toList

def okDataLine (byteCount : Nat) : Bytes := encodeText ("OK ".toList ++ decimal byteCount ++ ['\n'])

def gatewayClosedLine : Bytes := encodeText "ERR gateway closed connection\n".toList

/-- `gateway_reader.readline()` with the rest of the stream. -/
def GatewayBehaviour.readline (port : Int) :
    GatewayBehaviour → Except RouterError (Bytes × Bytes × Option Text)
  | .refuses => .error (.gatewayUnavailable (connectFailed port))
  | .breaks error => .error (.gatewayUnavailable error)
  | .answers stream none =>
    (ChipSystemSim.readline stream).map fun (response, rest) => (response, rest, none)
  | .answers stream (some error) =>
    if 10 ∉ stream then .error (.gatewayUnavailable error)
    else (ChipSystemSim.readline stream).map fun (response, rest) => (response, rest, some error)

/-- `readexactly` on a connection that ends too early. -/
def cutOff (reset : Option Text) (read expected : Nat) : RouterError :=
  match reset with
  | some error => .gatewayUnavailable error
  | none => .incompleteRead read expected

/-- What `Router.forward` writes to the client. -/
def Router.forward (r : Router) (q : RoutedRequest) (g : GatewayBehaviour) :
    Except RouterError Bytes :=
  match r.gatewayPorts.lookup q.peer with
  | none => .error (.noGateway q.peer)
  | some port =>
    match g.readline port with
    | .error e => .error e
    | .ok (response, rest, reset) =>
      if response = okLine then .ok response
      else if response = okDataLine q.byteCount then
        if rest.length < q.byteCount then .error (cutOff reset rest.length q.byteCount)
        else .ok (response ++ rest.take q.byteCount)
      else .ok (if response = [] then gatewayClosedLine else response)

/-- The payloads that the local queue hands out: `wait_for` lets a read pass when the
head has the size it asks for. -/
abbrev LocalQueue := (name : Text) → (byteCount : Nat) → { data : Bytes // data.length = byteCount }

def handleLocalReply (queue : LocalQueue) (q : RoutedRequest) : Bytes :=
  match q.op with
  | .W => okLine
  | .R => okDataLine q.byteCount ++ (queue q.name q.byteCount).val

inductive RouterLine where
  | request (q : RoutedRequest)
  | metric (q : RoutedRequest)
  | completed (q : RoutedRequest)
  | rejected (e : RouterError)
  | unavailable (e : RouterError)
  deriving DecidableEq

structure Handled where
  reply : Bytes
  printed : List RouterLine

def errReply (e : RouterError) : Bytes := encodeText ("ERR ".toList ++ e.message.toList ++ ['\n'])

/-- The two `except` clauses of `handle`. -/
def RouterError.line : RouterError → RouterLine
  | .gatewayUnavailable error => .unavailable (.gatewayUnavailable error)
  | e => .rejected e

def Router.handle (r : Router) (queue : LocalQueue) (g : GatewayBehaviour)
    (stream : Bytes) : Handled :=
  match r.parseRequest stream with
  | .error e => ⟨errReply e, [e.line]⟩
  | .ok q =>
    if q.peer = r.slot then ⟨handleLocalReply queue q, [.request q, .metric q, .completed q]⟩
    else
      match r.forward q g with
      | .error e => ⟨errReply e, [.request q, e.line]⟩
      | .ok reply => ⟨reply, [.request q, .metric q, .completed q]⟩

/-- `OK` for a write, `OK <n>` and `n` bytes for a read. -/
def RoutedRequest.Succeeded (q : RoutedRequest) (reply : Bytes) : Prop :=
  match q.op with
  | .W => reply = okLine
  | .R => ∃ data : Bytes, data.length = q.byteCount ∧ reply = okDataLine q.byteCount ++ data

def RoutedRequest.successLine (q : RoutedRequest) : Bytes :=
  match q.op with
  | .W => okLine
  | .R => okDataLine q.byteCount

/-- The record and the completed line are printed for the operations that succeeded, and
for no other. -/
def RecordsSuccesses (r : Router) (stream : Bytes) (h : Handled) : Prop :=
  ∀ q, (.metric q ∈ h.printed ↔ r.parseRequest stream = .ok q ∧ q.Succeeded h.reply) ∧
    (.completed q ∈ h.printed ↔ r.parseRequest stream = .ok q ∧ q.Succeeded h.reply)

/-- The gateway answers with another line than that of success, and `forward` relays it. -/
def RelaysFailure (r : Router) (g : GatewayBehaviour) (q : RoutedRequest) : Prop :=
  q.peer ≠ r.slot ∧ ∃ port response rest reset, r.gatewayPorts.lookup q.peer = some port ∧
    g.readline port = .ok (response, rest, reset) ∧ response ≠ q.successLine ∧
      (response = okDataLine q.byteCount → q.byteCount ≤ rest.length)

section

variable {r : Router} {queue : LocalQueue} {g : GatewayBehaviour}
  {stream reply response rest data : Bytes}
  {reset : Option Text} {port : Int} {q : RoutedRequest} {e : RouterError}

theorem length_okDataLine (n : Nat) : (okDataLine n).length = 4 + (decimal n).length := by
  have hok : "OK ".toList.length = 3 := by decide
  simp only [okDataLine, encodeText, List.length_map, List.length_append, hok, List.length_cons,
    List.length_nil]
  omega

theorem okLine_ne_okDataLine (n : Nat) (data : Bytes) : okLine ≠ okDataLine n ++ data := by
  intro h
  have hlength := congrArg List.length h
  have hok : okLine.length = 3 := by decide
  rw [List.length_append, length_okDataLine] at hlength
  omega

theorem okDataLine_last (n : Nat) : (okDataLine n).getLast? = some 10 := by
  rw [okDataLine, encodeText_append, encodeText_append]
  exact List.getLast?_append_of_ne_nil _ (by decide)

/-- Replies of failure begin with `E`, replies of success with `O`. -/
theorem not_succeeded_of_head (h : reply.head? = some 69) : ¬ q.Succeeded reply := by
  unfold RoutedRequest.Succeeded
  cases q.op with
  | W =>
    rintro rfl
    exact absurd h (by decide)
  | R =>
    rintro ⟨data, -, rfl⟩
    have hhead : (okDataLine q.byteCount).head? = some 79 := rfl
    rw [List.head?_append, hhead, Option.some_or] at h
    exact absurd h (by decide)

theorem not_succeeded_errReply : ¬ q.Succeeded (errReply e) := not_succeeded_of_head rfl

theorem succeeded_local (queue : LocalQueue) (q : RoutedRequest) :
    q.Succeeded (handleLocalReply queue q) := by
  unfold RoutedRequest.Succeeded handleLocalReply
  cases q.op with
  | W => rfl
  | R => exact ⟨_, (queue q.name q.byteCount).property, rfl⟩

theorem takeWhile_newline (stream : Bytes) :
    ∀ b ∈ (stream.take ((stream.takeWhile (· != 10)).length + 1)).dropLast, b ≠ 10 := by
  intro b hb
  have hstarts : (stream.take ((stream.takeWhile (· != 10)).length + 1)).dropLast <+:
      stream.takeWhile (· != 10) := by
    rw [List.dropLast_eq_take, List.take_take]
    have htake : stream.takeWhile (· != 10) = stream.take (stream.takeWhile (· != 10)).length :=
      List.prefix_iff_eq_take.mp (List.takeWhile_prefix _)
    rw [List.length_take]
    conv_rhs => rw [htake]
    exact List.take_prefix_take_left (by omega)
  simpa using List.mem_takeWhile_imp (hstarts.mem hb)

theorem newline_ends_response (h : g.readline port = .ok (response, rest, reset)) :
    ∀ b ∈ response.dropLast, b ≠ 10 := by
  cases g with
  | refuses => cases h
  | breaks => cases h
  | answers stream ending =>
    have hline : ∃ reset', (ChipSystemSim.readline stream).map
      (fun (response, rest) => (response, rest, reset')) =
        .ok (response, rest, reset) := by
      cases ending with
      | none => exact ⟨none, h⟩
      | some error =>
        simp only [GatewayBehaviour.readline] at h
        split at h
        · cases h
        · exact ⟨some error, h⟩
    obtain ⟨reset', hline⟩ := hline
    simp only [ChipSystemSim.readline] at hline
    split at hline
    · cases hline
    · cases hline
      exact takeWhile_newline stream

/-- A line of the gateway that is not that of success does not become a success reply. -/
theorem not_succeeded_relayed (h : g.readline port = .ok (response, rest, reset))
    (hok : response ≠ okLine) (hdata : response ≠ okDataLine q.byteCount) :
    ¬ q.Succeeded (if response = [] then gatewayClosedLine else response) := by
  split
  · exact not_succeeded_of_head rfl
  · unfold RoutedRequest.Succeeded
    cases q.op with
    | W => exact hok
    | R =>
      rintro ⟨data, -, rfl⟩
      -- the newline of the header would stand inside the line
      have hne : data ≠ [] := by
        rintro rfl
        exact hdata (List.append_nil _)
      refine newline_ends_response h 10 ?_ rfl
      rw [List.dropLast_append_of_ne_nil hne]
      exact List.mem_append_left _ (List.mem_of_getLast? (okDataLine_last q.byteCount))

/-- What `forward` gives, by the line of the gateway. -/
theorem forward_line (hport : r.gatewayPorts.lookup q.peer = some port)
    (h : g.readline port = .ok (response, rest, reset)) :
    r.forward q g =
      if response = okLine then .ok response
      else if response = okDataLine q.byteCount then
        if rest.length < q.byteCount then .error (cutOff reset rest.length q.byteCount)
        else .ok (response ++ rest.take q.byteCount)
      else .ok (if response = [] then gatewayClosedLine else response) := by
  simp only [Router.forward, hport, h]

theorem forward_ok (h : r.forward q g = .ok reply) :
    ∃ port response rest reset, r.gatewayPorts.lookup q.peer = some port ∧
      g.readline port = .ok (response, rest, reset) := by
  unfold Router.forward at h
  split at h
  · cases h
  · rename_i port hport
    split at h
    · cases h
    · rename_i response rest reset hline
      exact ⟨port, response, rest, reset, hport, hline⟩

theorem succeeded_forward (h : r.forward q g = .ok reply)
    (hport : r.gatewayPorts.lookup q.peer = some port)
    (hline : g.readline port = .ok (response, rest, reset)) :
    (q.Succeeded reply ↔ response = q.successLine) ∧
    (response = okDataLine q.byteCount → q.byteCount ≤ rest.length) := by
  rw [forward_line hport hline] at h
  split at h
  · rename_i hok
    cases h
    subst hok
    refine ⟨?_, fun hdata => ?_⟩
    · unfold RoutedRequest.Succeeded RoutedRequest.successLine
      cases q.op with
      | W => exact Iff.rfl
      | R =>
        refine iff_of_false ?_ (by simpa using okLine_ne_okDataLine q.byteCount [])
        rintro ⟨data, -, hreply⟩
        exact okLine_ne_okDataLine _ _ hreply
    · exact absurd hdata (by simpa using okLine_ne_okDataLine q.byteCount [])
  · rename_i hok
    split at h
    · rename_i hdata
      split at h
      · cases h
      · rename_i hlength
        cases h
        subst hdata
        refine ⟨?_, fun _ => Nat.not_lt.mp hlength⟩
        unfold RoutedRequest.Succeeded RoutedRequest.successLine
        cases q.op with
        | W => exact iff_of_false (okLine_ne_okDataLine _ _).symm hok
        | R =>
          refine iff_of_true ⟨_, ?_, rfl⟩ rfl
          rw [List.length_take]
          omega
    · rename_i hdata
      cases h
      refine ⟨iff_of_false (not_succeeded_relayed hline hok hdata) ?_, fun heq => absurd heq hdata⟩
      unfold RoutedRequest.successLine
      cases q.op with
      | W => exact hok
      | R => exact hdata

theorem relaysFailure_of_forward_error (h : r.forward q g = .error e) : ¬ RelaysFailure r g q := by
  rintro ⟨-, port, response, rest, reset, hport, hline, hfailure, hdata⟩
  rw [forward_line hport hline] at h
  split at h
  · cases h
  · split at h
    · rename_i heq
      split at h
      · rename_i hlength
        exact absurd (hdata heq) (Nat.not_le.mpr hlength)
      · cases h
    · cases h

theorem metric_ne_line (q : RoutedRequest) (e : RouterError) :
    .metric q ≠ e.line ∧ .completed q ≠ e.line := by
  cases e <;> simp [RouterError.line]

theorem recordsSuccesses_reported (hparse : r.parseRequest stream = .ok q) :
    RecordsSuccesses r stream ⟨reply, [.request q, .metric q, .completed q]⟩ ↔
      q.Succeeded reply := by
  constructor
  · intro h
    exact ((h q).1.mp (by simp)).2
  · intro hsucceeded q'
    by_cases hq : q' = q
    · subst hq
      exact ⟨iff_of_true (by simp) ⟨hparse, hsucceeded⟩, iff_of_true (by simp) ⟨hparse, hsucceeded⟩⟩
    · have hno : ¬ (r.parseRequest stream = .ok q' ∧ q'.Succeeded reply) := by
        rintro ⟨hparse', -⟩
        rw [hparse] at hparse'
        cases hparse'
        exact hq rfl
      exact ⟨iff_of_false (by simpa using hq) hno, iff_of_false (by simpa using hq) hno⟩

theorem recordsSuccesses_error {lines : List RouterLine}
    (hno : ∀ q, .metric q ∉ lines ∧ .completed q ∉ lines) :
    RecordsSuccesses r stream ⟨errReply e, lines⟩ := fun q =>
  ⟨iff_of_false (hno q).1 fun h => not_succeeded_errReply h.2,
    iff_of_false (hno q).2 fun h => not_succeeded_errReply h.2⟩

/-- The records are right exactly where no answer of a gateway is relayed that is not a success. -/
theorem records_successes_iff (r : Router) (queue : LocalQueue) (g : GatewayBehaviour)
    (stream : Bytes) :
    RecordsSuccesses r stream (r.handle queue g stream) ↔
      ∀ q, r.parseRequest stream = .ok q → ¬ RelaysFailure r g q := by
  cases hparse : r.parseRequest stream with
  | error e =>
    rw [Router.handle, hparse]
    refine iff_of_true (recordsSuccesses_error fun q => ?_) (by simp)
    have := metric_ne_line q e
    simpa using this
  | ok q =>
    have hsingle : (∀ q', Except.ok q = (.ok q' : Except RouterError RoutedRequest) →
      ¬ RelaysFailure r g q') ↔
        ¬ RelaysFailure r g q := by
      constructor
      · intro h
        exact h q rfl
      · rintro h q' hq
        cases hq
        exact h
    rw [hsingle, Router.handle, hparse]
    dsimp only
    split
    · rename_i hlocal
      rw [recordsSuccesses_reported hparse]
      exact iff_of_true (succeeded_local queue q) fun h => h.1 hlocal
    · rename_i hremote
      cases hforward : r.forward q g with
      | error e =>
        refine iff_of_true (recordsSuccesses_error fun q' => ?_)
          (relaysFailure_of_forward_error hforward)
        have := metric_ne_line q' e
        simpa using this
      | ok reply =>
        obtain ⟨port, response, rest, reset, hport, hline⟩ := forward_ok hforward
        obtain ⟨hsucceeded, hdata⟩ := succeeded_forward hforward hport hline
        rw [recordsSuccesses_reported hparse, hsucceeded]
        constructor
        · rintro hsuccess ⟨-, port', response', rest', reset', hport', hline', hfailure, -⟩
          cases hport.symm.trans hport'
          rw [hline] at hline'
          cases hline'
          exact hfailure hsuccess
        · intro hrelays
          by_contra hfailure
          exact hrelays ⟨hremote, port, response, rest, reset, hport, hline, hfailure, hdata⟩

end

def firstRouter : Router :=
  Router.init 0 ⟨[("0,0".toList, 0), ("1,0".toList, 1)], [], none⟩

def remoteRead : RoutedRequest := ⟨.R, "buffer1_0_0_0".toList, 4, [], 1⟩

def zeroQueue : LocalQueue := fun _ byteCount => ⟨List.replicate byteCount 0, List.length_replicate⟩

/-- The gateway answers a read with an error: the client gets that line, and the router
prints a record and a completed line for the read. -/
theorem failed_read_recorded :
    firstRouter.handle zeroQueue (.answers (encodeText "ERR transport\n".toList) none)
        (encodeText "R buffer1_0_0_0 4\n".toList) =
      ⟨encodeText "ERR transport\n".toList,
        [.request remoteRead, .metric remoteRead, .completed remoteRead]⟩ ∧
    ¬ RecordsSuccesses firstRouter (encodeText "R buffer1_0_0_0 4\n".toList)
        (firstRouter.handle zeroQueue (.answers (encodeText "ERR transport\n".toList) none)
          (encodeText "R buffer1_0_0_0 4\n".toList)) := by
  have hparse : firstRouter.parseRequest (encodeText "R buffer1_0_0_0 4\n".toList) =
      .ok remoteRead := rfl
  have hforward : firstRouter.forward remoteRead
      (.answers (encodeText "ERR transport\n".toList) none) =
      .ok (encodeText "ERR transport\n".toList) := rfl
  have hhandle : firstRouter.handle zeroQueue (.answers (encodeText "ERR transport\n".toList) none)
      (encodeText "R buffer1_0_0_0 4\n".toList) =
        ⟨encodeText "ERR transport\n".toList,
          [.request remoteRead, .metric remoteRead, .completed remoteRead]⟩ := by
    have hremote : ¬ remoteRead.peer = firstRouter.slot := by decide
    rw [Router.handle, hparse]
    dsimp only
    rw [if_neg hremote, hforward]
  refine ⟨hhandle, ?_⟩
  rw [hhandle, recordsSuccesses_reported hparse]
  exact not_succeeded_of_head rfl

end ChipSystemSim
