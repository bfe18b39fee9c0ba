import ChipSystemSim.BrokerQueues
import ChipSystemSim.RelayFrames
import ChipSystemSim.RouterRecords

/-! A client of the native protocol, one system call at a time, and what the broker makes of
its request line, also when the client hangs up in the middle of it. -/

namespace ChipSystemSim

/-- The arguments of `remotePipeWrite` and `remotePipeRead`. -/
inductive PipeCall where
  | write (name : Text) (payload : Bytes)
  | read (name : Text) (bytes : Nat)

/-- `returned` has the result and what a read has stored in its buffer. -/
inductive ClientState where
  | sendHeader (rest : Bytes)
  | sendPayload (rest : Bytes)
  | readLine (line : Bytes)
  | readAll (received : Bytes)
  | returned (value : Int) (buffer : Bytes)
  deriving DecidableEq

namespace PipeCall

def op : PipeCall → Op
  | write _ _ => .W
  | read _ _ => .R

def name : PipeCall → Text
  | write name _ => name
  | read name _ => name

def bytes : PipeCall → Nat
  | write _ payload => payload.length
  | read _ bytes => bytes

def payload : PipeCall → Bytes
  | write _ payload => payload
  | read _ _ => []

def header (call : PipeCall) : Bytes := encodeText (requestHeader call.op call.name call.bytes)

def request (call : PipeCall) : Bytes := call.header ++ call.payload

/-- The reply line that counts as success. -/
def expected : PipeCall → Bytes
  | write _ _ => encodeText "OK".toList
  | read _ bytes => encodeText ("OK ".toList ++ decimal bytes)

/-- `remotePipeWriteAll` of no bytes returns at once. -/
def afterHeader (call : PipeCall) : ClientState :=
  if call.payload = [] then .readLine [] else .sendPayload call.payload

def afterLine (call : PipeCall) (line : Bytes) : ClientState :=
  if line = call.expected then
    match call with
    | write _ payload => .returned payload.length []
    | read _ bytes => if bytes = 0 then .returned bytes [] else .readAll []
  else .returned (-1) []

/-- `remotePipeSend` takes `k` bytes. -/
def send (call : PipeCall) (k : Nat) : ClientState → Option (Bytes × ClientState)
  | .sendHeader rest =>
    if 1 ≤ k ∧ k ≤ rest.length then
      some (rest.take k, if rest.drop k = [] then call.afterHeader else .sendHeader (rest.drop k))
    else none
  | .sendPayload rest =>
    if 1 ≤ k ∧ k ≤ rest.length then
      some (rest.take k, if rest.drop k = [] then .readLine [] else .sendPayload (rest.drop k))
    else none
  | _ => none

/-- `remotePipeReceive` gives the first bytes of `stream`: one for a line, `k` for a payload. -/
def receive (call : PipeCall) (k : Nat) (stream : Bytes) : ClientState →
    Option (ClientState × Bytes)
  | .readLine line =>
    match stream with
    | [] => none
    | byte :: rest =>
      if byte = 10 then some (call.afterLine line, rest)
      else if 256 < (line ++ [byte]).length then some (call.afterLine [], rest)
      else some (.readLine (line ++ [byte]), rest)
  | .readAll received =>
    if 1 ≤ k ∧ k ≤ stream.length ∧ received.length + k ≤ call.bytes then
      some (if (received ++ stream.take k).length = call.bytes then .returned call.bytes
        (received ++ stream.take k)
        else .readAll (received ++ stream.take k), stream.drop k)
    else none
  | _ => none

/-- The call ends when a system call fails or the peer has closed. -/
def giveUp (call : PipeCall) : ClientState → Option ClientState
  | .sendHeader _ => some (.returned (-1) [])
  | .sendPayload _ => some (.returned (-1) [])
  | .readLine _ => some (call.afterLine [])
  | .readAll received => some (.returned (-1) received)
  | .returned _ _ => none

/-- A pipe name of the upstream protocol, a request line within the stream limit, an `int` size. -/
structure Valid (call : PipeCall) : Prop where
  field : ∀ c ∈ call.name, FieldChar c
  short : (requestLine call.op call.name call.bytes).length ≤ streamLimit
  int : call.bytes < 2 ^ 31

end PipeCall

/-- `int` of Python on the digits of a request line, and on no digits at all. -/
def Python.ReadsInt (py : Python) : Prop :=
  ∀ t : Text, (∀ c ∈ t, c.isDigit) → t.length ≤ 10 → py.int t = pyInt t

section Pieces

theorem prefix_append_cases {α : Type} {p a b : List α} (h : p <+: a ++ b) :
    p <+: a ∨ ∃ q, q <+: b ∧ p = a ++ q := by
  obtain ⟨t, ht⟩ := h
  rcases List.append_eq_append_iff.mp ht with ⟨c, ha, -⟩ | ⟨c, hp, hb⟩
  · exact Or.inl ⟨c, ha.symm⟩
  · exact Or.inr ⟨c, ⟨t, hb.symm⟩, hp⟩

/-- The digits of a number that was cut off are those of a number. -/
theorem toDigits_prefix {n : Nat} {d : Text} (hne : d ≠ []) (h : d <+: Nat.toDigits 10 n) :
    ∃ m, d = Nat.toDigits 10 m ∧ (m = 0 → n = 0) := by
  induction n using Nat.strong_induction_on with
  | h n ih =>
    by_cases hn : n < 10
    · have hone : Nat.toDigits 10 n = [n.digitChar] := Nat.toDigits_of_lt_base hn
      rw [hone] at h
      obtain ⟨t, ht⟩ := h
      have hd : d = [n.digitChar] :=
        ((List.append_eq_singleton_iff.mp ht).resolve_left fun h => hne h.1).1
      exact ⟨n, by rw [hd, hone], id⟩
    · have hsplit : Nat.toDigits 10 n = Nat.toDigits 10 (n / 10) ++ [(n % 10).digitChar] :=
        Nat.toDigits_of_base_le (by decide) (by omega)
      rw [hsplit] at h
      rcases List.prefix_concat_iff.mp h with hd | hd
      · exact ⟨n, by rw [hd, hsplit], id⟩
      · obtain ⟨m, hm, hzero⟩ := ih (n / 10) (by omega) hd
        exact ⟨m, hm, fun h0 => by have := hzero h0; omega⟩

theorem splitThree_one {a b : Text} (ha : ' ' ∉ a) (hb : ' ' ∉ b) :
    splitThree (a ++ ' ' :: b) = none := by
  have hpa : ∀ c ∈ a, (c != ' ') = true := fun c hc => bne_iff_ne.mpr fun h => ha (h ▸ hc)
  have hpb : ∀ c ∈ b, (c != ' ') = true := fun c hc => bne_iff_ne.mpr fun h => hb (h ▸ hc)
  have hfirst : (a ++ ' ' :: b).dropWhile (· != ' ') = ' ' :: b := by
    rw [List.dropWhile_append_of_pos hpa]
    simp
  have hsecond : b.dropWhile (· != ' ') = [] := List.dropWhile_eq_nil_iff.mpr hpb
  simp only [splitThree, hfirst, hsecond]

theorem splitThree_none {a : Text} (ha : ' ' ∉ a) : splitThree a = none := by
  have hpa : ∀ c ∈ a, (c != ' ') = true := fun c hc => bne_iff_ne.mpr fun h => ha (h ▸ hc)
  simp only [splitThree, List.dropWhile_eq_nil_iff.mpr hpa]

theorem splitThree_two {a b c : Text} (ha : ' ' ∉ a) (hb : ' ' ∉ b) :
    splitThree (a ++ ' ' :: (b ++ ' ' :: c)) = some (a, b, c) := by
  have hpa : ∀ x ∈ a, (x != ' ') = true := fun x hx => bne_iff_ne.mpr fun h => ha (h ▸ hx)
  have hpb : ∀ x ∈ b, (x != ' ') = true := fun x hx => bne_iff_ne.mpr fun h => hb (h ▸ hx)
  have hfirst : (a ++ ' ' :: (b ++ ' ' :: c)).dropWhile (· != ' ') = ' ' :: (b ++ ' ' :: c) := by
    rw [List.dropWhile_append_of_pos hpa]
    simp
  have hsecond : (b ++ ' ' :: c).dropWhile (· != ' ') = ' ' :: c := by
    rw [List.dropWhile_append_of_pos hpb]
    simp
  have hta : (a ++ ' ' :: (b ++ ' ' :: c)).takeWhile (· != ' ') = a := by
    rw [List.takeWhile_append_of_pos hpa]
    simp
  have htb : (b ++ ' ' :: c).takeWhile (· != ' ') = b := by
    rw [List.takeWhile_append_of_pos hpb]
    simp
  simp only [splitThree, hfirst, hsecond, hta, htb]

variable {op : Op} {name : Text} {n : Nat}

/-- A piece of a request line stops in its name or has some digits of its size. -/
theorem splitThree_piece (hname : ∀ c ∈ name, FieldChar c) {piece : Text}
    (h : piece <+: requestLine op name n) :
    splitThree piece = none ∨
      ∃ d, d <+: Nat.toDigits 10 n ∧ splitThree piece = some ([op.letter], name, d) := by
  have hletter : ' ' ∉ [op.letter] := by
    simpa using ((letter_fieldChar op).ne (by decide)).symm
  have hspace : ' ' ∉ name := fun hc => (hname _ hc).ne (by decide) rfl
  have hline : requestLine op name n = ([op.letter] ++ ' ' :: name) ++
      (' ' :: Nat.toDigits 10 n) := by
    simp [requestLine]
  rw [hline] at h
  rcases prefix_append_cases h with h | ⟨d, hd, rfl⟩
  · left
    rcases prefix_append_cases h with h | ⟨e, he, rfl⟩
    · exact splitThree_none fun hc => hletter (h.subset hc)
    · rcases List.prefix_cons_iff.mp he with rfl | ⟨t, rfl, ht⟩
      · rw [List.append_nil]
        exact splitThree_none hletter
      · exact splitThree_one hletter fun hc => hspace (ht.subset hc)
  · rcases List.prefix_cons_iff.mp hd with rfl | ⟨t, rfl, ht⟩
    · left
      rw [List.append_nil]
      exact splitThree_one hletter hspace
    · right
      refine ⟨t, ht, ?_⟩
      rw [List.append_assoc, List.cons_append]
      exact splitThree_two hletter hspace

theorem requestLine_fields (hname : ∀ c ∈ name, FieldChar c) :
    splitThree (requestLine op name n) = some ([op.letter], name, Nat.toDigits 10 n) := by
  have hletter : ' ' ∉ [op.letter] := by
    simpa using ((letter_fieldChar op).ne (by decide)).symm
  exact splitThree_two hletter fun hc => (hname _ hc).ne (by decide) rfl

def demandFor (op : Op) (name : Text) (bytes : Nat) : Demand :=
  match op with
  | .W => .receive name bytes
  | .R => .take name bytes

theorem nativeDemand_fields {py : Python} (hint : py.ReadsInt) (maxPayloadBytes : Int)
    {t piece : Text} {m : Nat} (hascii : ∀ c ∈ t, c.toNat < 128)
    (hstrip : t.rdropWhile (· == '\n') = piece)
    (hsplit : splitThree piece = some ([op.letter], name, Nat.toDigits 10 m))
    (hlen : (Nat.toDigits 10 m).length ≤ 10) :
    nativeDemand py maxPayloadBytes (encodeText t) =
      if maxPayloadBytes < m then .error "invalid payload size" else .ok (demandFor op name m) := by
  have hdecode : utf8Decode (encodeText t) = some t := by
    rw [← Relay.utf8Encode_ascii hascii, Relay.utf8Decode_utf8Encode]
  have hvalue : py.int (Nat.toDigits 10 m) = some (m : Int) := by
    rw [hint _ (fun c hc => toDigits_isDigit hc) hlen, pyInt_toDigits]
  have hpos : ¬(m : Int) < 0 := by omega
  simp only [nativeDemand, hdecode, hstrip, hsplit, hvalue, hpos, false_or, Int.toNat_natCast]
  cases op <;> rfl

theorem requestLine_stripped (hname : ∀ c ∈ name, FieldChar c) {piece : Text}
    (h : piece <+: requestLine op name n) : piece.rdropWhile (· == '\n') = piece := by
  refine List.rdropWhile_eq_self_iff.mpr fun hl he => ?_
  have hne := requestLine_no_newline hname (h.subset (List.getLast_mem hl))
  rw [beq_iff_eq.mp he] at hne
  exact hne rfl

/-- A request line that was cut off is an error or names the pipe, and asks for no bytes only
if the whole line does. -/
theorem nativeDemand_piece {py : Python} (hint : py.ReadsInt) {maxPayloadBytes : Int}
    (hname : ∀ c ∈ name, FieldChar c) (hint32 : n < 2 ^ 31) {piece : Text}
    (h : piece <+: requestLine op name n) {demand : Demand}
    (hdemand : nativeDemand py maxPayloadBytes (encodeText piece) = .ok demand) :
    ∃ m, demand = demandFor op name m ∧ (m = 0 → n = 0) := by
  have hascii : ∀ c ∈ piece, c.toNat < 128 := fun c hc => requestLine_ascii hname (h.subset hc)
  have hstrip := requestLine_stripped hname h
  have hdecode : utf8Decode (encodeText piece) = some piece := by
    rw [← Relay.utf8Encode_ascii hascii, Relay.utf8Decode_utf8Encode]
  rcases splitThree_piece hname h with hnone | ⟨d, hd, hsplit⟩
  · simp only [nativeDemand, hdecode, hstrip, hnone, reduceCtorEq] at hdemand
  · have hlen : d.length ≤ 10 := hd.length_le.trans (toDigits_length_le (by decide) (by omega))
    by_cases hempty : d = []
    · have hvalue : py.int d = none := by
        rw [hempty, hint [] (fun c hc => by cases hc) (by decide)]
        rfl
      simp only [nativeDemand, hdecode, hstrip, hsplit, hvalue, reduceCtorEq] at hdemand
    · obtain ⟨m, rfl, hzero⟩ := toDigits_prefix hempty hd
      rw [nativeDemand_fields hint _ hascii hstrip hsplit hlen] at hdemand
      split at hdemand
      · cases hdemand
      · exact ⟨m, (Except.ok.inj hdemand).symm, hzero⟩

theorem PipeCall.Valid.nativeDemand_header {py : Python} (hint : py.ReadsInt)
    (maxPayloadBytes : Int) {call : PipeCall} (hcall : call.Valid) :
    nativeDemand py maxPayloadBytes call.header =
      if maxPayloadBytes < call.bytes then .error "invalid payload size"
      else .ok (demandFor call.op call.name call.bytes) := by
  have hascii : ∀ c ∈ requestHeader call.op call.name call.bytes, c.toNat < 128 := by
    intro c hc
    rw [requestHeader_eq] at hc
    rcases List.mem_append.mp hc with hc | hc
    · exact requestLine_ascii hcall.field hc
    · rw [List.mem_singleton.mp hc]
      decide
  have hstrip : (requestHeader call.op call.name call.bytes).rdropWhile (· == '\n') =
      requestLine call.op call.name call.bytes := by
    rw [requestHeader_eq, List.rdropWhile_concat_pos _ _ _ (by simp)]
    exact requestLine_stripped hcall.field List.prefix_rfl
  have hint32 := hcall.int
  have hlen : (Nat.toDigits 10 call.bytes).length ≤ 10 := toDigits_length_le (by decide) (by omega)
  exact nativeDemand_fields hint _ hascii hstrip (requestLine_fields hcall.field) hlen

end Pieces

end ChipSystemSim
