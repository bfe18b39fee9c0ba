import ChipSystemSim.RequestHeader

/-! The BaseIf frame of one forwarded write, and the whole wire format from
the header of a client to the payload recovered by the peer gateway. -/

namespace ChipSystemSim

def be32 (n : Nat) : Bytes :=
  [UInt8.ofNat (n / 2 ^ 24), UInt8.ofNat (n / 2 ^ 16), UInt8.ofNat (n / 2 ^ 8), UInt8.ofNat n]

def ofBe32 (b : Bytes) : Nat := b.foldl (fun acc x => 256 * acc + x.toNat) 0

def kSimbricksPipeData : UInt8 := 1

/-- Type, three reserved bytes, the request id, both lengths, then the body. -/
def encodeFrame (name : Text) (payload : Bytes) : Bytes :=
  [kSimbricksPipeData, 0, 0, 0] ++ List.replicate 8 0 ++ be32 name.length ++ be32 payload.length ++
    encodeText name ++ payload

/-- What `ForwardOneWrite` leaves in the ring entry it was given. -/
def fillEntry (entry : Bytes) (name : Text) (payload : Bytes) : Bytes :=
  entry.take kBaseHeaderBytes ++ encodeFrame name payload ++
    entry.drop (kBaseHeaderBytes + (encodeFrame name payload).length)

inductive Decoded where
  | frame (name : Text) (payload : Bytes)
  | rejected
  | outOfBounds
  deriving DecidableEq, Repr

def readBytes (entry : Bytes) (offset count : Nat) : Option Bytes :=
  if offset + count ≤ entry.length then some ((entry.drop offset).take count) else none

def decodeEntry (entry : Bytes) : Decoded :=
  match readBytes entry kBaseHeaderBytes 1,
      readBytes entry (kBaseHeaderBytes + 12) 4, readBytes entry (kBaseHeaderBytes + 16) 4 with
  | some type, some nameField, some payloadField =>
    let nameBytes := ofBe32 nameField
    let payloadBytes := ofBe32 payloadField
    if type ≠ [kSimbricksPipeData] ∨ nameBytes = 0 ∨ 255 < nameBytes ∨
        maxPayloadBytes < payloadBytes ∨
        kEntryBytes < kBaseHeaderBytes + kFrameBytes + nameBytes + payloadBytes then .rejected
    else
      match readBytes entry (kBaseHeaderBytes + kFrameBytes) nameBytes,
          readBytes entry (kBaseHeaderBytes + kFrameBytes + nameBytes) payloadBytes with
      | some name, some payload => .frame (textOfBytes name) payload
      | _, _ => .outOfBounds
  | _, _, _ => .outOfBounds

theorem be32_length (n : Nat) : (be32 n).length = 4 := rfl

theorem ofBe32_be32 {n : Nat} (h : n < 2 ^ 32) : ofBe32 (be32 n) = n := by
  simp only [ofBe32, be32, List.foldl_cons, List.foldl_nil, UInt8.toNat_ofNat']
  omega

theorem encodeText_length (t : Text) : (encodeText t).length = t.length := List.length_map _

theorem encodeFrame_length (name : Text) (payload : Bytes) :
    (encodeFrame name payload).length = kFrameBytes + name.length + payload.length := by
  simp [encodeFrame, be32_length, encodeText_length, kFrameBytes]
  omega

theorem readBytes_split {entry pre mid post : Bytes} {offset count : Nat}
    (h : entry = pre ++ (mid ++ post)) (ho : pre.length = offset) (hc : mid.length = count) :
    readBytes entry offset count = some mid := by
  subst ho
  subst hc
  simp [readBytes, h]

theorem frame_fits {name : Text} {payload : Bytes} (hname : name.length ≤ 255)
    (hpayload : payload.length ≤ maxPayloadBytes) :
    kBaseHeaderBytes + (encodeFrame name payload).length ≤ kEntryBytes := by
  have hmax : maxPayloadBytes = 65197 := rfl
  rw [encodeFrame_length]
  simp only [kBaseHeaderBytes, kFrameBytes, kEntryBytes]
  omega

theorem decodeEntry_fillEntry {entry : Bytes} (he : entry.length = kEntryBytes) {name : Text}
    {payload : Bytes} (hne : name ≠ []) (hname : name.length ≤ 255)
    (hchars : ∀ c ∈ name, c.toNat < 256) (hpayload : payload.length ≤ maxPayloadBytes) :
    decodeEntry (fillEntry entry name payload) = .frame name payload := by
  have hmax : maxPayloadBytes = 65197 := rfl
  have hpos : name.length ≠ 0 := by simpa using hne
  have hbase : (entry.take kBaseHeaderBytes).length = 64 := by
    simp [he, kBaseHeaderBytes, kEntryBytes]
  generalize hpre : entry.take kBaseHeaderBytes = pre at hbase
  generalize hpost : entry.drop (kBaseHeaderBytes + (encodeFrame name payload).length) = post
  -- every field is the middle of one split of the entry
  let fixed : Bytes := [kSimbricksPipeData, 0, 0, 0] ++ List.replicate 8 0
  have hfixed : (pre ++ fixed).length = kBaseHeaderBytes +
      12 := by simp [fixed, hbase, kBaseHeaderBytes]
  have hentry : fillEntry entry name payload =
      pre ++ (fixed ++ (be32 name.length ++ (be32 payload.length ++
        (encodeText name ++ (payload ++ post))))) := by
    rw [fillEntry, hpre, hpost]
    simp only [encodeFrame, fixed, List.append_assoc]
  have htype : readBytes (fillEntry entry name payload) kBaseHeaderBytes 1 =
      some [kSimbricksPipeData] := readBytes_split hentry hbase rfl
  have hnameField : readBytes (fillEntry entry name payload) (kBaseHeaderBytes + 12) 4 =
      some (be32 name.length) := by
    rw [← List.append_assoc] at hentry
    exact readBytes_split hentry hfixed rfl
  have hpayloadField : readBytes (fillEntry entry name payload) (kBaseHeaderBytes + 16) 4 =
      some (be32 payload.length) := by
    rw [← List.append_assoc, ← List.append_assoc] at hentry
    refine readBytes_split hentry ?_ rfl
    rw [List.length_append, hfixed, be32_length]
  have hnameBytes : readBytes (fillEntry entry name payload) (kBaseHeaderBytes + kFrameBytes)
      name.length = some (encodeText name) := by
    rw [← List.append_assoc, ← List.append_assoc, ← List.append_assoc] at hentry
    refine readBytes_split hentry ?_ (encodeText_length name)
    rw [List.length_append, List.length_append, hfixed, be32_length, be32_length, kFrameBytes]
  have hpayloadBytes : readBytes (fillEntry entry name payload)
      (kBaseHeaderBytes + kFrameBytes + name.length) payload.length = some payload := by
    rw [← List.append_assoc, ← List.append_assoc, ← List.append_assoc,
      ← List.append_assoc] at hentry
    refine readBytes_split hentry ?_ rfl
    rw [List.length_append, List.length_append, List.length_append, hfixed, be32_length,
      be32_length, encodeText_length, kFrameBytes]
  have haccept : ¬(name.length = 0 ∨ 255 < name.length ∨ maxPayloadBytes < payload.length ∨
      kEntryBytes < kBaseHeaderBytes + kFrameBytes + name.length + payload.length) := by
    simp only [kEntryBytes, kBaseHeaderBytes, kFrameBytes]
    omega
  simp only [decodeEntry, htype, hnameField, hpayloadField,
    ofBe32_be32 (show name.length < 2 ^ 32 by omega),
    ofBe32_be32 (show payload.length < 2 ^ 32 by omega), ne_eq, not_true_eq_false, false_or,
    haccept, if_false, hnameBytes, hpayloadBytes, textOfBytes_encodeText hchars]

theorem readBytes_isSome {entry : Bytes} (he : entry.length = kEntryBytes) {offset count : Nat}
    (h : offset + count ≤ kEntryBytes) :
    readBytes entry offset count = some ((entry.drop offset).take count) := by
  simp only [readBytes, he, h, if_true]

theorem decodeEntry_in_bounds {entry : Bytes} (he : entry.length = kEntryBytes) :
    decodeEntry entry ≠ .outOfBounds := by
  unfold decodeEntry
  rw [readBytes_isSome he (by decide), readBytes_isSome he (by decide),
    readBytes_isSome he (by decide)]
  dsimp only
  split
  · simp
  · rename_i h
    simp only [not_or, Nat.not_lt] at h
    rw [readBytes_isSome he (by omega), readBytes_isSome he (by omega)]
    simp

theorem pipeName_length_le {s d : Coord}
    (hs : ∀ z ∈ [s.1, s.2, d.1, d.2], -2 ^ 31 ≤ z ∧ z < 2 ^ 31) : (pipeName s d).length ≤ 53 := by
  have h1 := decimal_length_int32 (hs s.1 (by simp))
  have h2 := decimal_length_int32 (hs s.2 (by simp))
  have h3 := decimal_length_int32 (hs d.1 (by simp))
  have h4 := decimal_length_int32 (hs d.2 (by simp))
  simp only [pipeName, bufferLiteral, List.length_append, List.length_cons, List.length_nil]
  omega

theorem pipeName_ne_nil (s d : Coord) : pipeName s d ≠ [] := by
  simp [pipeName, bufferLiteral]

theorem pipeName_fieldChar {s d : Coord} : ∀ c ∈ pipeName s d, FieldChar c :=
  fun _ h => (pipeName_chars h).fieldChar

theorem requestLine_length (op : Op) (name : Text) (n : Nat) :
    (requestLine op name n).length = name.length + (Nat.toDigits 10 n).length + 3 := by
  simp only [requestLine, List.length_cons, List.length_append]
  omega

theorem gatewayReadLine_requestHeader {op : Op} {s d : Coord} {n : Nat}
    (hs : ∀ z ∈ [s.1, s.2, d.1, d.2], -2 ^ 31 ≤ z ∧ z < 2 ^ 31) (hn : n ≤ 65000) (rest : Bytes) :
    gatewayReadLine 512 (encodeText (requestHeader op (pipeName s d) n) ++ rest) =
      some (requestLine op (pipeName s d) n, rest) := by
  have hdig := toDigits_length_le (show 0 < 5 by decide) (show n < 10 ^ 5 by omega)
  have hlen := pipeName_length_le hs
  rw [encodeText_requestHeader, List.append_assoc, List.singleton_append]
  refine gatewayReadLine_line ?_ ?_ ?_ rest
  · rw [requestLine_length]
    omega
  · exact fun c hc => (requestLine_ascii pipeName_fieldChar hc).trans (by decide)
  · exact fun c hc => requestLine_no_newline pipeName_fieldChar hc

def sentPayload : Op → Bytes → Bytes
  | .W, payload => payload
  | .R, _ => []

/-- The whole wire format. A request whose line fits the stream limit reaches
the router, the gateway and the peer unchanged, and no entry makes the decoder
read outside of it. -/
theorem wire_format_roundtrip {router : Router} {op : Op} {path : Text} {s d : Coord} {peer : Slot}
    {payload : Bytes}
    (hpath : ∀ c ∈ path, FieldChar c) (hlast : lastComponent path = pipeName s d)
    (hint : ∀ z ∈ [s.1, s.2, d.1, d.2], -2 ^ 31 ≤ z ∧ z < 2 ^ 31)
    (hknown : router.coordinates.lookup (coordKey (op.far s d)) = some peer)
    (hn : payload.length ≤ 65000)
    (hline : (requestLine op path payload.length).length ≤ streamLimit) :
    router.parseRequest (encodeText (requestHeader op path payload.length) ++
      sentPayload op payload) =
        .ok ⟨op, pipeName s d, payload.length, sentPayload op payload, peer⟩ ∧
      gatewayReadLine 512
          (encodeText (requestHeader op (pipeName s d) payload.length) ++ sentPayload op payload) =
        some (requestLine op (pipeName s d) payload.length, sentPayload op payload) ∧
      gatewayParseRequest (requestLine op (pipeName s d) payload.length) =
        some (op, pipeName s d, payload.length) ∧
      kBaseHeaderBytes + (encodeFrame (pipeName s d) payload).length ≤ kEntryBytes ∧
      (∀ entry : Bytes, entry.length = kEntryBytes →
        decodeEntry (fillEntry entry (pipeName s d) payload) = .frame (pipeName s d) payload) ∧
      ∀ entry : Bytes, entry.length = kEntryBytes → decodeEntry entry ≠ .outOfBounds := by
  have hmax : maxPayloadBytes = 65197 := rfl
  have hlen := pipeName_length_le hint
  refine ⟨?_, gatewayReadLine_requestHeader hint hn _,
    gatewayParseRequest_requestLine pipeName_fieldChar (pipeName_ne_nil s d) (by omega) (by omega),
    frame_fits (by omega) (by omega), ?_, fun entry he => decodeEntry_in_bounds he⟩
  · have hread : readline (encodeText (requestHeader op path payload.length) ++
        sentPayload op payload) =
        .ok (encodeText (requestHeader op path payload.length), sentPayload op payload) := by
      rw [encodeText_requestHeader, List.append_assoc, List.singleton_append]
      exact readline_ok (encodeText_requestLine_ne hpath) (by rwa [encodeText_length]) _
    have hparse : parseHeader (encodeText (requestHeader op path payload.length)) = _ :=
      parseHeader_requestHeader hpath hn
    rw [hlast] at hparse
    simp only [Router.parseRequest, hread, hparse, peerFor_pipeName hknown, bind, Except.bind, pure,
      Except.pure]
    cases op
    · simp [sentPayload]
    · rfl
  · intro entry he
    exact decodeEntry_fillEntry he (pipeName_ne_nil s d) (by omega)
      (fun c hc => (pipeName_fieldChar c hc).1.trans (by decide)) (by omega)

def oneSlotRouter : Router := Router.init 0 ⟨[(coordKey (0, 0), 0)], [(0, 0)], some 9500⟩

theorem wire_format_roundtrip_four_bytes :
    oneSlotRouter.parseRequest
        (encodeText (requestHeader .W ('.' :: '/' :: pipeName (0, 0) (0, 0)) 4) ++ [1, 2, 3, 4]) =
      .ok ⟨.W, pipeName (0, 0) (0, 0), 4, [1, 2, 3, 4], 0⟩ := by
  have hpath : ∀ c ∈ '.' :: '/' :: pipeName (0, 0) (0, 0), FieldChar c := by
    intro c hc
    rcases List.mem_cons.mp hc with rfl | hc
    · decide
    · rcases List.mem_cons.mp hc with rfl | hc
      · decide
      · exact pipeName_fieldChar c hc
  have hknown : oneSlotRouter.coordinates.lookup (coordKey (Op.W.far (0, 0) (0, 0))) = some 0 := rfl
  have hn : ([1, 2, 3, 4] : Bytes).length ≤ 65000 := by decide
  exact (wire_format_roundtrip hpath rfl (by decide) hknown hn (by decide)).1

theorem slashes_rejected {router : Router} {op : Op} {k n : Nat} {name : Text}
    (hname : ∀ c ∈ name, FieldChar c) (hslash : '/' ∉ name)
    (hlen : streamLimit < k + 1 + name.length + 4) :
    (∀ c ∈ List.replicate k '/' ++ '/' :: name, FieldChar c) ∧
      lastComponent (List.replicate k '/' ++ '/' :: name) = name ∧
      router.parseRequest (encodeText (requestHeader op (List.replicate k '/' ++ '/' :: name) n)) =
        .error (.lineTooLong true) := by
  have hchars : ∀ c ∈ List.replicate k '/' ++ '/' :: name, FieldChar c := by
    intro c hc
    rcases List.mem_append.mp hc with hc | hc
    · rw [List.eq_of_mem_replicate hc]
      exact ⟨by decide, by decide⟩
    · rcases List.mem_cons.mp hc with rfl | hc
      · exact ⟨by decide, by decide⟩
      · exact hname c hc
  refine ⟨hchars, lastComponent_append hslash, ?_⟩
  have hdigit : 0 < (Nat.toDigits 10 n).length := Nat.length_toDigits_pos
  have hlong : streamLimit <
      (encodeText (requestLine op (List.replicate k '/' ++ '/' :: name) n)).length := by
    rw [encodeText_length, requestLine_length, List.length_append, List.length_replicate,
      List.length_cons]
    omega
  have hread := readline_tooLong (encodeText_requestLine_ne hchars) hlong []
  rw [← encodeText_requestHeader op _ n] at hread
  simp only [Router.parseRequest, hread, bind, Except.bind]

def longPath : Text := List.replicate 65521 '/' ++ '/' :: pipeName (0, 0) (0, 0)

/-- The limit bounds the whole line, not the path in it. -/
theorem longPath_rejected :
    (∀ c ∈ longPath, FieldChar c) ∧ longPath.length < streamLimit ∧
      lastComponent longPath = pipeName (0, 0) (0, 0) ∧
      oneSlotRouter.coordinates.lookup (coordKey (0, 0)) = some 0 ∧
      oneSlotRouter.parseRequest (encodeText (requestHeader .W longPath (0 : Nat))) =
        .error (.lineTooLong true) := by
  have hname : (pipeName (0, 0) (0, 0)).length = 13 := by decide
  have hlen : longPath.length < streamLimit := by
    rw [longPath, List.length_append, List.length_replicate, List.length_cons, hname]
    decide
  have hlong : streamLimit < 65521 + 1 + (pipeName (0, 0) (0, 0)).length + 4 := by
    rw [hname]
    decide
  obtain ⟨hchars, hlast, herr⟩ :=
    slashes_rejected pipeName_fieldChar (slash_notMem_pipeName _ _) hlong
  exact ⟨hchars, hlen, hlast, rfl, herr⟩

end ChipSystemSim
