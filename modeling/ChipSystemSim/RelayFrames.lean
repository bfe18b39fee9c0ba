import ChipSystemSim.Relay

/-! The frames of the relay on their connections: a line at a time, each read back as it was
written. -/

namespace ChipSystemSim

namespace Relay

section Text

theorem utf8Decode_utf8Encode (t : Text) : utf8Decode (utf8Encode t) = some t := by
  have hbytes : ByteArray.mk (utf8Encode t).toArray = t.utf8Encode := by
    apply ByteArray.ext
    exact List.data_toByteArray.symm
  rw [utf8Decode, hbytes, List.utf8Decode?_utf8Encode]
  rfl

theorem utf8Encode_ascii {t : Text} (h : ∀ c ∈ t, c.toNat < 128) : utf8Encode t = encodeText t := by
  induction t with
  | nil => rfl
  | cons c t ih =>
    have hc : String.utf8EncodeChar c = [c.toUInt8] := by
      have hlt := h c List.mem_cons_self
      exact String.utf8EncodeChar_eq_singleton (Char.utf8Size_eq_one_iff.mpr (by
        rw [UInt32.le_iff_toNat_le]
        exact Nat.le_of_lt_succ hlt))
    show String.utf8EncodeChar c ++ utf8Encode t = c.toUInt8 :: encodeText t
    rw [hc, ih fun d hd => h d (List.mem_cons_of_mem c hd)]
    rfl

theorem parseFrame_frameBytes (v : Json.Value) : parseFrame (frameBytes v) = some v := by
  rw [parseFrame, frameBytes, ← utf8Encode_ascii ascii_frame, utf8Decode_utf8Encode]
  apply Json.loads_compact
  intro c hc
  rw [List.mem_singleton.mp hc]
  rfl

theorem parseFrame_nil : parseFrame [] = none := by
  have hdecode : utf8Decode [] = some [] := utf8Decode_utf8Encode []
  rw [parseFrame, hdecode]
  rfl

end Text

section Lines

theorem nextLine_frame (closed : Bool) (v : Json.Value) (rest : Bytes) :
    nextLine closed (frameBytes v ++ rest) = some (frameBytes v, rest) := by
  have hframe : frameBytes v ++ rest = encodeText (Json.compact v) ++ 10 :: rest := by
    rw [frameBytes_eq, List.append_assoc]
    rfl
  have hline : (frameBytes v ++ rest).takeWhile (· != 10) = encodeText (Json.compact v) := by
    rw [hframe, List.takeWhile_append_of_pos]
    · simp
    · intro b hb
      simpa using newline_notMem_frame b hb
  have hlength : (frameBytes v).length = (encodeText (Json.compact v)).length + 1 := by
    rw [frameBytes_eq, List.length_append]
    rfl
  have hlt : (encodeText (Json.compact v)).length < (frameBytes v ++ rest).length := by
    rw [List.length_append, hlength]
    omega
  simp only [nextLine, hline]
  rw [if_pos hlt, ← hlength, List.take_left, List.drop_left]

theorem nextLine_nil (closed : Bool) :
    nextLine closed [] = if closed then some ([], []) else none := rfl

end Lines

section Messages

/-- The bytes of a message that are meant for a channel. -/
def Message.data (ch : Channel) : Message → Bytes
  | .output channel data => if channel = ch then data else []
  | _ => []

def dataOf (ch : Channel) (messages : List Message) : Bytes := messages.flatMap (Message.data ch)

theorem dataOf_append (ch : Channel) (l m : List Message) :
    dataOf ch (l ++ m) = dataOf ch l ++ dataOf ch m :=
  List.flatMap_append

theorem dataOf_concat (ch : Channel) (l : List Message) (m : Message) :
    dataOf ch (l ++ [m]) = dataOf ch l ++ m.data ch := by
  rw [dataOf_append]
  show _ ++ (m.data ch ++ []) = _
  rw [List.append_nil]

def Printed.data : Printed → Bytes
  | .own _ => []
  | .relayed data => data

def relayedBytes (printed : List Printed) : Bytes := printed.flatMap Printed.data

theorem relayedBytes_concat (l : List Printed) (x : Printed) :
    relayedBytes (l ++ [x]) = relayedBytes l ++ x.data := by
  simp [relayedBytes]

def frames (messages : List Message) : Bytes := messages.flatMap fun m => frameBytes m.value

/-- What the proxy has done with a message, if it has not raised. -/
structure Took (p q : Proxy) (m : Message) : Prop where
  stdout : q.stdout = p.stdout ++ m.data .stdout
  stderr : relayedBytes q.stderr = relayedBytes p.stderr ++ m.data .stderr
  finished : ∀ returnCode, q.phase = .finished returnCode → m = .exit returnCode

variable {cfg : Setting} {p : Proxy}

theorem took_print {m : Message} {line : Text} {phase : ProxyPhase} (hout : m.data .stdout = [])
    (herr : m.data .stderr = [])
    (hphase : ∀ returnCode, phase = .finished returnCode → m = .exit returnCode) :
    Took p { p.print line with phase } m where
  stdout := by
    rw [hout, List.append_nil]
    rfl
  stderr := by
    rw [herr, List.append_nil]
    show relayedBytes (p.stderr ++ [.own line]) = _
    rw [relayedBytes_concat]
    exact List.append_nil _
  finished := hphase

theorem takeStarting_message (hphase : p.phase = .starting) (m : Message) :
    (p.takeStarting cfg m.value).phase = .raised ∨ Took p (p.takeStarting cfg m.value) m := by
  cases m with
  | diagnostic text =>
    right
    have htake : p.takeStarting cfg (Message.diagnostic text).value =
        { p.print (diagnosticLine cfg text) with phase := .starting } := by
      rw [← hphase]
      rfl
    rw [htake]
    exact took_print rfl rfl fun _ h => by cases h
  | started pid =>
    right
    exact took_print rfl rfl fun _ h => by cases h
  | output channel data => exact Or.inl rfl
  | exit returnCode => exact Or.inl rfl
  | error text => exact Or.inl rfl

theorem takeRelaying_output (channel : Channel) (data : Bytes) :
    p.takeRelaying cfg (Message.output channel data).value =
      if channel = .stdout then { p with stdout := p.stdout ++ data }
      else { p with stderr := p.stderr ++ [.relayed data] } := by
  have hop : (Message.output channel data).value.get opKey = some (.str "output".toList) := rfl
  have hstream : (Message.output channel data).value.get "stream".toList =
      some (.str channel.name) := rfl
  have hdata : (Message.output channel data).value.get dataKey = some (.str (Base64.encode data)) :=
    rfl
  simp only [Proxy.takeRelaying, hop, hstream, hdata, Base64.decode_encode]
  rw [if_pos trivial]
  cases channel with
  | stdout => rfl
  | stderr => rfl

theorem takeRelaying_message (hphase : p.phase = .relaying) (m : Message) :
    (p.takeRelaying cfg m.value).phase = .raised ∨ Took p (p.takeRelaying cfg m.value) m := by
  cases m with
  | diagnostic text =>
    right
    have htake : p.takeRelaying cfg (Message.diagnostic text).value =
        { p.print (diagnosticLine cfg text) with phase := .relaying } := by
      rw [← hphase]
      rfl
    rw [htake]
    exact took_print rfl rfl fun _ h => by cases h
  | started pid => exact Or.inl rfl
  | output channel data =>
    right
    rw [takeRelaying_output]
    cases channel with
    | stdout =>
      refine ⟨rfl, (List.append_nil _).symm, fun returnCode h => ?_⟩
      rw [show p.phase = _ from h] at hphase
      cases hphase
    | stderr =>
      refine ⟨(List.append_nil _).symm, relayedBytes_concat _ _, fun returnCode h => ?_⟩
      rw [show p.phase = _ from h] at hphase
      cases hphase
  | exit returnCode =>
    right
    refine took_print rfl rfl fun other h => ?_
    cases h
    rfl
  | error text => exact Or.inl rfl

/-- A message taken from the connection: the proxy raises, or passes its bytes on. -/
theorem takeLine_message (hactive : p.phase.active = true) (m : Message) :
    (p.takeLine cfg (frameBytes m.value)).phase = .raised ∨
    Took p (p.takeLine cfg (frameBytes m.value)) m := by
  rw [Proxy.takeLine, parseFrame_frameBytes]
  cases hphase : p.phase with
  | starting => exact takeStarting_message hphase m
  | relaying => exact takeRelaying_message hphase m
  | finished returnCode =>
    rw [hphase] at hactive
    cases hactive
  | raised =>
    rw [hphase] at hactive
    cases hactive

theorem takeLine_nil : (p.takeLine cfg []).phase = .raised := by
  rw [Proxy.takeLine, parseFrame_nil]
  rfl

theorem takeLine_stdin (s : State) (data : Bytes) :
    s.takeLine (frameBytes (stdinValue data)) =
      if streamLimit < (frameBytes (stdinValue data)).length - 1 then s.fail none
      else { s with childStdin := s.childStdin ++ data, worker := .draining } := by
  have hne : frameBytes (stdinValue data) ≠ [] := by
    rw [frameBytes_eq]
    simp
  have hop : Json.Value.get opKey (stdinValue data) = some (.str "stdin".toList) := rfl
  have hdata : Json.Value.get dataKey (stdinValue data) = some (.str (Base64.encode data)) := rfl
  rw [State.takeLine, if_neg hne, parseFrame_frameBytes]
  rw [stdinValue] at hop hdata ⊢
  simp only [hop, hdata, if_true, Base64.decode_encode]

/-- Whatever the line is, only the coroutine and the stdin of the child change. -/
theorem takeLine_cases (s : State) (raw : Bytes) :
    s.takeLine raw = { s with worker := .awaitingExit } ∨ s.takeLine raw = s ∨
    (∃ error, s.takeLine raw = s.fail error) ∨
      ∃ data, s.takeLine raw =
        { s with childStdin := s.childStdin ++ data, worker := .draining } := by
  unfold State.takeLine
  split
  · exact Or.inl rfl
  · right
    split
    · exact Or.inr (Or.inl ⟨_, rfl⟩)
    · split
      · split
        · split
          · split
            · split
              · exact Or.inr (Or.inr ⟨_, rfl⟩)
              · exact Or.inr (Or.inl ⟨_, rfl⟩)
            · exact Or.inr (Or.inl ⟨_, rfl⟩)
          · split
            · exact Or.inl rfl
            · exact Or.inr (Or.inl ⟨_, rfl⟩)
        · exact Or.inr (Or.inl ⟨_, rfl⟩)
        · exact Or.inr (Or.inl ⟨_, rfl⟩)
      · exact Or.inr (Or.inl ⟨_, rfl⟩)

end Messages

section Sending

variable {s : State} {who : Sender} {m : Message}

theorem put_up (h : s.down = false) : s.put who m =
    { s with
      lock := some who
      sent := s.sent ++ [m]
      toProxy := s.toProxy ++ frameBytes m.value } := by
  rw [State.put, h]
  rfl

theorem put_down (h : s.down = true) : s.put who m = { s with lock := some who } := by
  rw [State.put, h]
  rfl

end Sending

end Relay

end ChipSystemSim
