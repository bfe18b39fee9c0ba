import ChipSystemSim.Router

/-! The text half of the PipeComm protocol: the header a client writes, the
parser of the router, and the parser of the gateway. A C++ string is the text
whose characters are its bytes. -/

namespace ChipSystemSim

abbrev Bytes := List UInt8

def encodeText (t : Text) : Bytes := t.map Char.toUInt8

def textOfBytes (b : Bytes) : Text := b.map fun x => Char.ofNat x.toNat

def asciiDecode (b : Bytes) : Option Text :=
  if b.all (· < 128) then some (textOfBytes b) else none

def Op.letter : Op → Char
  | .W => 'W'
  | .R => 'R'

/-- The header line of `remotePipeWrite` and `remotePipeRead`, which is also
the shape of the normalized header the router forwards. -/
def requestHeader (op : Op) (name : Text) (bytes : Int) : Text :=
  [op.letter, ' '] ++ name ++ (' ' :: decimal bytes) ++ ['\n']

/-- The default limit of an asyncio stream. -/
def streamLimit : Nat := 65536

/-- `StreamReader.readline` on everything a client sends: the position of the
newline may not exceed the stream limit. The error is that of a line that has all arrived;
before its newline is there a reader says that it found none. -/
def readline (stream : Bytes) : Except RouterError (Bytes × Bytes) :=
  let line := stream.takeWhile (· != 10)
  if streamLimit < line.length then .error (.lineTooLong (10 ∈ stream))
  else .ok (stream.take (line.length + 1), stream.drop (line.length + 1))

def Op.ofLetter : Char → Option Op
  | 'W' => some .W
  | 'R' => some .R
  | _ => none

def Op.ofField : Text → Option Op
  | [c] => Op.ofLetter c
  | _ => none

/-- The header part of `Router.handle`, up to the byte-count check. -/
def parseHeader (line : Bytes) : Except RouterError (Op × Text × Nat) :=
  match asciiDecode line with
  | none =>
    let before := line.takeWhile (· < 128)
    .error (.notAscii (line.getD before.length 0) before.length)
  | some text =>
    match (text.rdropWhile (· == '\n')).splitOn ' ' with
    | [operation, path, byteText] =>
      match Op.ofField operation, pyInt byteText with
      | none, _ => .error .invalidHeader
      | some _, none => .error (.invalidInteger byteText)
      | some op, some n =>
        if n < 0 ∨ maxRequestBytes < n then .error .invalidByteCount
        else .ok (op, lastComponent path, n.toNat)
    | _ => .error .invalidHeader

structure RoutedRequest where
  op : Op
  name : Text
  byteCount : Nat
  payload : Bytes
  peer : Slot
  deriving DecidableEq, Repr

def Router.parseRequest (r : Router) (stream : Bytes) : Except RouterError RoutedRequest := do
  let (line, rest) ← readline stream
  let (op, name, n) ← parseHeader line
  let payload ← match op with
    | .W => if rest.length < n then .error (.incompleteRead rest.length n) else .ok (rest.take n)
    | .R => .ok []
  let peer ← r.peerFor op name
  return ⟨op, name, n, payload, peer⟩

/-- `ReadLine` of the gateway gives up after 512 characters. -/
def gatewayReadLine : Nat → Bytes → Option (Text × Bytes)
  | 0, _ => none
  | _, [] => none
  | room + 1, b :: rest =>
    if b = 10 then some ([], rest)
    else (gatewayReadLine room rest).map fun (line, rest) => (Char.ofNat b.toNat :: line, rest)

def isCSpace (c : Char) : Bool := c.toNat = 32 || (9 ≤ c.toNat && c.toNat ≤ 13)

def extractChar (t : Text) : Option (Char × Text) :=
  match t.dropWhile isCSpace with
  | [] => none
  | c :: rest => some (c, rest)

def extractWord (t : Text) : Option (Text × Text) :=
  let word := (t.dropWhile isCSpace).takeWhile (!isCSpace ·)
  if word.isEmpty then none else some (word, (t.dropWhile isCSpace).dropWhile (!isCSpace ·))

def extractDigits (t : Text) : Option (Nat × Text) :=
  let digits := t.takeWhile Char.isDigit
  let value := Nat.ofDigitChars 10 digits 0
  if digits.isEmpty ∨ 2 ^ 32 ≤ value then none else some (value, t.dropWhile Char.isDigit)

/-- `stream >> uint32_t`: a minus sign is accepted and negates modulo 2^32. -/
def extractUInt32 (t : Text) : Option (Nat × Text) :=
  match t.dropWhile isCSpace with
  | '-' :: rest => (extractDigits rest).map fun (n, rest) => ((2 ^ 32 - n) % 2 ^ 32, rest)
  | '+' :: rest => extractDigits rest
  | rest => extractDigits rest

def kEntryBytes : Nat := 65536

def kBaseHeaderBytes : Nat := 64

def kFrameBytes : Nat := 20

def maxPayloadBytes : Nat := kEntryBytes - kBaseHeaderBytes - kFrameBytes - 255

/-- The request parser of `Gateway::HandleClient` with all its limits. -/
def gatewayParseRequest (line : Text) : Option (Op × Text × Nat) := do
  let (operation, t) ← extractChar line
  let (name, t) ← extractWord t
  let (bytes, t) ← extractUInt32 t
  if (extractWord t).isSome ∨ 255 < name.length ∨ maxPayloadBytes < bytes then none
  else (Op.ofLetter operation).map fun op => (op, name, bytes)

theorem toNat_toUInt8 {c : Char} (h : c.toNat < 256) : c.toUInt8.toNat = c.toNat := by
  simp only [Char.toUInt8, UInt32.toNat_toUInt8]
  exact Nat.mod_eq_of_lt h

theorem textOfBytes_encodeText {t : Text} (h : ∀ c ∈ t, c.toNat < 256) :
    textOfBytes (encodeText t) = t := by
  induction t with
  | nil => rfl
  | cons c t ih =>
    have hc := h c (by simp)
    have ht := ih fun d hd => h d (by simp [hd])
    simp only [encodeText, textOfBytes, List.map_cons, toNat_toUInt8 hc, Char.ofNat_toNat]
    exact congrArg (c :: ·) ht

theorem asciiDecode_encodeText {t : Text} (h : ∀ c ∈ t, c.toNat < 128) :
    asciiDecode (encodeText t) = some t := by
  have h' : ∀ c ∈ t, c.toNat < 256 := fun c hc => (h c hc).trans (by decide)
  have hall : (encodeText t).all (· < 128) = true := by
    simp only [encodeText, List.all_map, List.all_eq_true, Function.comp_apply, decide_eq_true_eq]
    intro c hc
    rw [UInt8.lt_iff_toNat_lt, toNat_toUInt8 (h' c hc)]
    exact h c hc
  simp only [asciiDecode, hall, if_true, textOfBytes_encodeText h']

def FieldChar (c : Char) : Prop := c.toNat < 128 ∧ isCSpace c = false

instance (c : Char) : Decidable (FieldChar c) := inferInstanceAs (Decidable (_ ∧ _))

theorem FieldChar.ne {c e : Char} (h : FieldChar c) (he : isCSpace e = true) : c ≠ e := by
  rintro rfl
  simp [h.2] at he

theorem fieldChar_of_isDigit {c : Char} (h : c.isDigit = true) : FieldChar c := by
  have hd := isDigit_toNat h
  refine ⟨by omega, ?_⟩
  simp only [isCSpace, Bool.or_eq_false_iff, Bool.and_eq_false_iff, decide_eq_false_iff_not]
  omega

theorem NameChar.fieldChar {c : Char} (h : NameChar c) : FieldChar c := by
  rcases h with h | rfl | rfl | h
  · simp only [bufferLiteral, List.mem_cons, List.not_mem_nil, or_false] at h
    rcases h with rfl | rfl | rfl | rfl | rfl | rfl <;> exact ⟨by decide, by decide⟩
  · exact ⟨by decide, by decide⟩
  · exact ⟨by decide, by decide⟩
  · exact fieldChar_of_isDigit h

theorem letter_fieldChar (op : Op) : FieldChar op.letter := by
  cases op <;> exact ⟨by decide, by decide⟩

theorem decimal_nat (n : Nat) : decimal (n : Int) = Nat.toDigits 10 n := rfl

def requestLine (op : Op) (name : Text) (n : Nat) : Text :=
  op.letter :: ' ' :: (name ++ ' ' :: Nat.toDigits 10 n)

theorem requestHeader_eq (op : Op) (name : Text) (n : Nat) :
    requestHeader op name n = requestLine op name n ++ ['\n'] := by
  simp [requestHeader, requestLine, decimal_nat]

theorem requestLine_mem {op : Op} {name : Text} {n : Nat} (hname : ∀ c ∈ name, FieldChar c)
    {c : Char} (h : c ∈ requestLine op name n) : FieldChar c ∨ c = ' ' := by
  simp only [requestLine, List.mem_cons, List.mem_append] at h
  rcases h with rfl | rfl | h | rfl | h
  · exact Or.inl (letter_fieldChar op)
  · exact Or.inr rfl
  · exact Or.inl (hname c h)
  · exact Or.inr rfl
  · exact Or.inl (fieldChar_of_isDigit (toDigits_isDigit h))

theorem requestLine_ascii {op : Op} {name : Text} {n : Nat} (hname : ∀ c ∈ name, FieldChar c)
    {c : Char} (h : c ∈ requestLine op name n) : c.toNat < 128 := by
  rcases requestLine_mem hname h with h | rfl
  · exact h.1
  · decide

theorem requestLine_no_newline {op : Op} {name : Text} {n : Nat} (hname : ∀ c ∈ name, FieldChar c)
    {c : Char} (h : c ∈ requestLine op name n) : c.toUInt8 ≠ 10 := by
  intro he
  have hlt := requestLine_ascii hname h
  have hn : c.toNat = 10 := by
    rw [← toNat_toUInt8 (hlt.trans (by decide)), he]
    rfl
  rcases requestLine_mem hname h with hf | rfl
  · have := hf.2
    simp [isCSpace, hn] at this
  · exact absurd hn (by decide)

theorem encodeText_append (t u : Text) : encodeText (t ++ u) = encodeText t ++ encodeText u :=
  List.map_append

theorem requestLine_split {op : Op} {name : Text} {n : Nat} (hname : ∀ c ∈ name, FieldChar c) :
    (requestLine op name n).splitOn ' ' = [[op.letter], name, Nat.toDigits 10 n] := by
  have h1 : ' ' ∉ [op.letter] := by
    simpa using ((letter_fieldChar op).ne (by decide)).symm
  have h2 : ' ' ∉ name := fun h => (hname _ h).ne (by decide) rfl
  have h3 : ' ' ∉ Nat.toDigits 10 n := fun h =>
    (fieldChar_of_isDigit (toDigits_isDigit h)).ne (by decide) rfl
  have he : requestLine op name n = [op.letter] ++ ' ' :: (name ++ ' ' :: Nat.toDigits 10 n) := rfl
  rw [he, List.splitOn_append_cons_self_of_not_mem h1, List.splitOn_append_cons_self_of_not_mem h2,
    List.splitOn_eq_singleton h3]

theorem ofField_letter (op : Op) : Op.ofField [op.letter] = some op := by
  cases op <;> rfl

theorem takeWhile_line {line : Bytes} (h : ∀ b ∈ line, b ≠ 10) (rest : Bytes) :
    (line ++ 10 :: rest).takeWhile (· != 10) = line := by
  have hp : ∀ b ∈ line, (b != 10) = true := fun b hb => by simpa using h b hb
  rw [List.takeWhile_append_of_pos hp]
  simp

theorem readline_ok {line : Bytes} (h : ∀ b ∈ line, b ≠ 10) (hlen : line.length ≤ streamLimit)
    (rest : Bytes) : readline (line ++ 10 :: rest) = .ok (line ++ [10], rest) := by
  have htake : (line ++ 10 :: rest).take (line.length + 1) = line ++ [10] := by
    rw [List.take_append, List.take_of_length_le (by omega)]
    simp
  have hdrop : (line ++ 10 :: rest).drop (line.length + 1) = rest := by
    rw [List.drop_append]
    simp
  simp only [readline, takeWhile_line h, Nat.not_lt.mpr hlen, if_false, htake, hdrop]

theorem readline_tooLong {line : Bytes} (h : ∀ b ∈ line, b ≠ 10) (hlen : streamLimit < line.length)
    (rest : Bytes) : readline (line ++ 10 :: rest) = .error (.lineTooLong true) := by
  have hfound : decide (10 ∈ line ++ 10 :: rest) = true := decide_eq_true (by simp)
  simp only [readline, takeWhile_line h, hlen, if_true, hfound]

theorem encodeText_requestHeader (op : Op) (name : Text) (n : Nat) :
    encodeText (requestHeader op name n) = encodeText (requestLine op name n) ++ [10] := by
  rw [requestHeader_eq, encodeText_append]
  rfl

theorem encodeText_requestLine_ne {op : Op} {name : Text} {n : Nat}
    (hname : ∀ c ∈ name, FieldChar c) :
    ∀ b ∈ encodeText (requestLine op name n), b ≠ 10 := by
  intro b hb
  obtain ⟨c, hc, rfl⟩ := List.mem_map.mp hb
  exact requestLine_no_newline hname hc

theorem parseHeader_requestHeader {op : Op} {path : Text} {n : Nat}
    (hpath : ∀ c ∈ path, FieldChar c) (hn : n ≤ 65000) :
    parseHeader (encodeText (requestHeader op path n)) = .ok (op, lastComponent path, n) := by
  have hascii : ∀ c ∈ requestHeader op path n, c.toNat < 128 := by
    intro c hc
    rw [requestHeader_eq] at hc
    rcases List.mem_append.mp hc with hc | hc
    · exact requestLine_ascii hpath hc
    · rw [List.mem_singleton.mp hc]; decide
  have hstrip : (requestHeader op path n).rdropWhile (· == '\n') = requestLine op path n := by
    rw [requestHeader_eq, List.rdropWhile_concat_pos _ _ _ (by simp)]
    refine List.rdropWhile_eq_self_iff.mpr fun hl => ?_
    have hne := requestLine_no_newline hpath (List.getLast_mem hl)
    intro he
    rw [beq_iff_eq.mp he] at hne
    exact hne rfl
  have hlo : ¬((n : Int) < 0 ∨ maxRequestBytes < (n : Int)) := by
    simp only [maxRequestBytes]
    omega
  simp only [parseHeader, asciiDecode_encodeText hascii, hstrip, requestLine_split hpath,
    ofField_letter, pyInt_toDigits, hlo, if_false, Int.toNat_natCast]

theorem gatewayReadLine_line {line : Text} {room : Nat} (hlen : line.length < room)
    (hascii : ∀ c ∈ line, c.toNat < 256) (hne : ∀ c ∈ line, c.toUInt8 ≠ 10) (rest : Bytes) :
    gatewayReadLine room (encodeText line ++ 10 :: rest) = some (line, rest) := by
  induction line generalizing room with
  | nil =>
    obtain ⟨room, rfl⟩ := Nat.exists_eq_add_of_lt hlen
    simp [encodeText, gatewayReadLine]
  | cons c line ih =>
    cases room with
    | zero => simp at hlen
    | succ room =>
      have hrec := ih (by simpa using hlen) (fun d hd => hascii d (by simp [hd]))
        (fun d hd => hne d (by simp [hd]))
      have hc := hne c (by simp)
      simp only [encodeText, List.map_cons, List.cons_append, gatewayReadLine, hc, if_false]
      rw [show List.map Char.toUInt8 line = encodeText line from rfl, hrec]
      simp only [Option.map_some, toNat_toUInt8 (hascii c (by simp)), Char.ofNat_toNat]

theorem dropWhile_fieldChar {c : Char} (h : FieldChar c) (t : Text) :
    (c :: t).dropWhile isCSpace = c :: t := by
  simp [h.2]

theorem extractDigits_toDigits {n : Nat} (hn : n < 2 ^ 32) :
    extractDigits (Nat.toDigits 10 n) = some (n, []) := by
  have ht := takeWhile_toDigits n stopsDigits_nil
  have hd := dropWhile_toDigits n stopsDigits_nil
  rw [List.append_nil] at ht hd
  have hv : ¬(2 ^ 32 ≤ n) := by omega
  simp only [extractDigits, ht, hd, Nat.ofDigitChars_ten_toDigits, List.isEmpty_iff,
    Nat.toDigits_ne_nil, false_or, hv, if_false]

theorem extractUInt32_toDigits {n : Nat} (hn : n < 2 ^ 32) :
    extractUInt32 (' ' :: Nat.toDigits 10 n) = some (n, []) := by
  obtain ⟨c, t, ht, hc⟩ := toDigits_cons n
  have he := extractDigits_toDigits hn
  have hsp : (' ' :: Nat.toDigits 10 n).dropWhile isCSpace = Nat.toDigits 10 n := by
    have : isCSpace ' ' = true := by decide
    rw [List.dropWhile_cons, if_pos this, ht]
    exact dropWhile_fieldChar (fieldChar_of_isDigit hc) t
  unfold extractUInt32
  rw [hsp]
  rw [ht] at he ⊢
  have hminus : c ≠ '-' := by rintro rfl; simp at hc
  have hplus : c ≠ '+' := by rintro rfl; simp at hc
  split
  · rename_i heq; exact absurd (List.cons.inj heq).1 hminus
  · rename_i heq; exact absurd (List.cons.inj heq).1 hplus
  · exact he

theorem extractWord_field {name rest : Text} (hname : ∀ c ∈ name, FieldChar c) (hne : name ≠ []) :
    extractWord (' ' :: (name ++ ' ' :: rest)) = some (name, ' ' :: rest) := by
  have hp : ∀ c ∈ name, (!isCSpace c) = true := fun c hc => by simp [(hname c hc).2]
  have hspace : isCSpace ' ' = true := by decide
  obtain ⟨c, t, rfl⟩ := List.exists_cons_of_ne_nil hne
  have hsp : (' ' :: (c :: t ++ ' ' :: rest)).dropWhile isCSpace = c :: t ++ ' ' :: rest := by
    simp only [List.dropWhile_cons, hspace, if_true, List.cons_append]
    simp [(hname c (by simp)).2]
  simp only [extractWord, hsp, List.takeWhile_append_of_pos hp, List.dropWhile_append_of_pos hp,
    List.takeWhile_cons, List.dropWhile_cons, hspace, Bool.not_true]
  simp

theorem gatewayParseRequest_requestLine {op : Op} {name : Text} {n : Nat}
    (hname : ∀ c ∈ name, FieldChar c) (hne : name ≠ []) (hlen : name.length ≤ 255)
    (hn : n ≤ maxPayloadBytes) :
    gatewayParseRequest (requestLine op name n) = some (op, name, n) := by
  have hmax : maxPayloadBytes = 65197 := rfl
  have hn32 : n < 2 ^ 32 := by omega
  have hchar : extractChar (requestLine op name n) =
      some (op.letter, ' ' :: (name ++ ' ' :: Nat.toDigits 10 n)) := by
    simp only [extractChar, requestLine, dropWhile_fieldChar (letter_fieldChar op)]
  have hlimits : ¬((extractWord []).isSome = true ∨ 255 < name.length ∨ maxPayloadBytes < n) := by
    simp [extractWord]
    omega
  simp only [gatewayParseRequest, hchar, Option.bind_eq_bind, Option.bind_some,
    extractWord_field hname hne, extractUInt32_toDigits hn32, hlimits, if_false]
  cases op <;> rfl

end ChipSystemSim
