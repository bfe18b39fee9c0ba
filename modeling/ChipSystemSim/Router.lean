import ChipSystemSim.Decimal
import Mathlib.Data.List.DropRight
import Mathlib.Data.List.Dedup

/-! The per-slot PipeComm router: pipe names, placement lookup, and the table
of gateway ports. Dictionaries are association lists in insertion order. -/

namespace ChipSystemSim

abbrev Coord := Int × Int

abbrev Slot := Int

inductive Op where
  | W
  | R
  deriving DecidableEq, Repr

def bufferLiteral : Text := ['b', 'u', 'f', 'f', 'e', 'r']

def coordKey (c : Coord) : Text := decimal c.1 ++ ',' :: decimal c.2

/-- The FIFO name InterChiplet gives to the pipe from `s` to `d`. -/
def pipeName (s d : Coord) : Text :=
  bufferLiteral ++
    (decimal s.1 ++ '_' :: (decimal s.2 ++ '_' :: (decimal d.1 ++ '_' :: decimal d.2)))

def matchPipeName (t : Text) : Option (Text × Text × Text × Text) := do
  let t ← t.dropPrefix? bufferLiteral
  let (a, t) ← scanInt t
  let t ← t.dropPrefix? ['_']
  let (b, t) ← scanInt t
  let t ← t.dropPrefix? ['_']
  let (c, t) ← scanInt t
  let t ← t.dropPrefix? ['_']
  let (d, t) ← scanInt t
  if t.isEmpty then some (a, b, c, d) else none

/-- `pipe_name.rsplit("/", 1)[-1]`. -/
def lastComponent (path : Text) : Text := path.rtakeWhile (· != '/')

/-- Item assignment in a Python dictionary: a key keeps its first place. -/
def dictSet {β : Type*} : List (Text × β) → Text → β → List (Text × β)
  | [], key, value => [(key, value)]
  | (k, v) :: rest, key, value =>
    if k = key then (k, value) :: rest else (k, v) :: dictSet rest key value

theorem dictSet_keys {β : Type*} {table : List (Text × β)} {key : Text} {value : β} {m : Text × β}
    (h : m ∈ dictSet table key value) : m.1 = key ∨ m ∈ table := by
  induction table with
  | nil =>
    simp only [dictSet, List.mem_singleton] at h
    exact Or.inl (by rw [h])
  | cons e table ih =>
    rw [dictSet] at h
    split at h
    · rcases List.mem_cons.mp h with rfl | h
      · exact Or.inl ‹_›
      · exact Or.inr (List.mem_cons_of_mem _ h)
    · rcases List.mem_cons.mp h with rfl | h
      · exact Or.inr List.mem_cons_self
      · exact (ih h).imp id (List.mem_cons_of_mem _)

theorem lookup_dictSet {β : Type*} (table : List (Text × β)) (key : Text) (value : β) (k : Text) :
    (dictSet table key value).lookup k = if k = key then some value else table.lookup k := by
  induction table with
  | nil =>
    by_cases hk : k = key
    · simp [dictSet, hk]
    · have hbeq : (k == key) = false := by simpa using hk
      simp [dictSet, hk, List.lookup_cons, hbeq]
  | cons e table ih =>
    obtain ⟨e, v⟩ := e
    rw [dictSet]
    by_cases he : e = key
    · by_cases hk : k = key
      · simp [he, hk]
      · have hbeq : (k == key) = false := by simpa using hk
        simp [he, hk, List.lookup_cons, hbeq]
    · rw [if_neg he, List.lookup_cons, List.lookup_cons, ih]
      by_cases hk : k = e
      · have hne : k ≠ key := hk ▸ he
        simp [hk, he]
      · simp [show (k == e) = false by simpa using hk]

structure Routing where
  coordinateToWorkerSlot : List (Text × Slot)
  workerPhysicalSlots : List (Slot × Int)
  gatewayBasePort : Option Int

structure Router where
  slot : Slot
  coordinates : List (Text × Slot)
  physicalSlots : List (Slot × Int)
  gatewayPorts : List (Slot × Int)

inductive RouterError where
  | lineTooLong (separatorFound : Bool)
  | notAscii (byte : UInt8) (position : Nat)
  | invalidHeader
  | invalidInteger (literal : Text)
  | invalidByteCount
  | incompleteRead (read expected : Nat)
  | unsupportedName (name : Text)
  | noPlacement (coordinate : Text)
  | noGateway (peer : Slot)
  | gatewayUnavailable (error : Text)
  deriving DecidableEq, Repr

/-- The text of the error when nobody listens at a port of this host. -/
def connectFailed (port : Int) : Text :=
  "[Errno 111] Connect call failed ('127.0.0.1', ".toList ++ decimal port ++ [')']

def RouterError.message : RouterError → String
  | lineTooLong true => "Separator is found, but chunk is longer than limit"
  | lineTooLong false => "Separator is not found, and chunk exceed the limit"
  | notAscii byte position =>
    "'ascii' codec can't decode byte 0x" ++ String.ofList (hexByte byte.toNat) ++
    " in position " ++ String.ofList (decimal position) ++ ": ordinal not in range(128)"
  | invalidHeader => "invalid PipeComm request header"
  -- the message shows the first 200 characters of the literal
  | invalidInteger literal =>
    "invalid literal for int() with base 10: " ++ String.ofList ((asciiRepr literal).take 200)
  | incompleteRead read expected => String.ofList (decimal read) ++ " bytes read on a total of " ++
    String.ofList (decimal expected) ++ " expected bytes"
  | invalidByteCount => "invalid PipeComm byte count"
  | unsupportedName name => "unsupported PipeComm name: " ++ String.ofList name
  | noPlacement coordinate => "no worker placement for chiplet " ++ String.ofList coordinate
  | noGateway peer => "no BaseIf gateway for worker slot " ++ String.ofList (decimal peer)
  | gatewayUnavailable error => "gateway unavailable: " ++ String.ofList error

def maxRequestBytes : Int := 65000

/-- `Router.__init__`: the slot's own entry is left out of the port table. -/
def Router.init (slot : Slot) (routing : Routing) : Router :=
  let basePort := routing.gatewayBasePort.getD 9500
  { slot := slot
    coordinates := routing.coordinateToWorkerSlot
    physicalSlots := routing.workerPhysicalSlots
    gatewayPorts :=
      (((routing.coordinateToWorkerSlot.map Prod.snd).dedup.filter (· ≠ slot)).map
        fun peer => (peer, basePort + peer)) }

def Router.peerFor (r : Router) (op : Op) (name : Text) : Except RouterError Slot :=
  match matchPipeName name with
  | none => .error (.unsupportedName name)
  | some (a, b, c, d) =>
    let coordinate := match op with
      | .W => c ++ ',' :: d
      | .R => a ++ ',' :: b
    match r.coordinates.lookup coordinate with
    | none => .error (.noPlacement coordinate)
    | some slot => .ok slot

theorem dropPrefix?_append {α : Type*} [BEq α] [LawfulBEq α] (p t : List α) :
    (p ++ t).dropPrefix? p = some t := by
  induction p with
  | nil => simp
  | cons a p ih => simp [List.dropPrefix?, ih]

theorem dropPrefix?_cons {α : Type*} [BEq α] [LawfulBEq α] (a : α) (t : List α) :
    (a :: t).dropPrefix? [a] = some t :=
  dropPrefix?_append [a] t

theorem stopsDigits_underscore (t : Text) : StopsDigits ('_' :: t) := stopsDigits_cons (by decide)

theorem matchPipeName_pipeName (s d : Coord) :
    matchPipeName (pipeName s d) =
      some (decimal s.1, decimal s.2, decimal d.1, decimal d.2) := by
  have hlast : scanInt (decimal d.2) = some (decimal d.2, []) := by
    simpa using scanInt_decimal d.2 stopsDigits_nil
  simp only [matchPipeName, pipeName, dropPrefix?_append, Option.bind_eq_bind, Option.bind_some,
    scanInt_decimal _ (stopsDigits_underscore _), dropPrefix?_cons, hlast,
    List.isEmpty_nil, if_true]

/-- The end of a pipe that a request is forwarded to: the destination of a
write, the source of a read. -/
def Op.far : Op → Coord → Coord → Coord
  | .W, _, d => d
  | .R, s, _ => s

theorem peerFor_pipeName {r : Router} {op : Op} {s d : Coord} {slot : Slot}
    (h : r.coordinates.lookup (coordKey (op.far s d)) = some slot) :
    r.peerFor op (pipeName s d) = .ok slot := by
  cases op <;> simp only [Op.far, coordKey] at h <;>
    simp only [Router.peerFor, matchPipeName_pipeName, h]

theorem pipeName_injective {s d s' d' : Coord} (h : pipeName s d = pipeName s' d') :
    s = s' ∧ d = d' := by
  have hh := congrArg matchPipeName h
  simp only [matchPipeName_pipeName, Option.some.injEq, Prod.mk.injEq] at hh
  obtain ⟨h1, h2, h3, h4⟩ := hh
  exact ⟨Prod.ext (decimal_injective h1) (decimal_injective h2),
    Prod.ext (decimal_injective h3) (decimal_injective h4)⟩

theorem coordKey_injective : Function.Injective coordKey := by
  intro c d h
  have hs : ∀ t, StopsDigits (',' :: t) := fun t => stopsDigits_cons (by decide)
  have hh := congrArg scanInt h
  simp only [coordKey, scanInt_decimal _ (hs _), Option.some.injEq, Prod.mk.injEq,
    List.cons.injEq, true_and] at hh
  exact Prod.ext (decimal_injective hh.1) (decimal_injective hh.2)

def NameChar (c : Char) : Prop := c ∈ bufferLiteral ∨ c = '_' ∨ c = '-' ∨ c.isDigit = true

theorem nameChar_of_decimal {z : Int} {c : Char} (h : c ∈ decimal z) : NameChar c :=
  Or.inr (Or.inr (decimal_chars h))

theorem pipeName_chars {s d : Coord} {c : Char} (h : c ∈ pipeName s d) : NameChar c := by
  simp only [pipeName, List.mem_append, List.mem_cons] at h
  rcases h with h | h | h | h | h | h | h | h
  · exact Or.inl h
  · exact nameChar_of_decimal h
  · exact Or.inr (Or.inl h)
  · exact nameChar_of_decimal h
  · exact Or.inr (Or.inl h)
  · exact nameChar_of_decimal h
  · exact Or.inr (Or.inl h)
  · exact nameChar_of_decimal h

theorem matchPipeName_chars {name : Text} {g : Text × Text × Text × Text}
    (h : matchPipeName name = some g) : ∀ c ∈ name, NameChar c := by
  have hint : ∀ {t a rest : Text}, scanInt t = some (a, rest) → (∀ c ∈ rest, NameChar c) →
      ∀ c ∈ t, NameChar c := by
    intro t a rest hs hrest c hc
    obtain ⟨rfl, ha⟩ := scanInt_eq_some hs
    rcases List.mem_append.mp hc with hc | hc
    · exact Or.inr (Or.inr (ha c hc))
    · exact hrest c hc
  have hpre : ∀ {p t rest : Text}, t.dropPrefix? p = some rest → (∀ c ∈ p, NameChar c) →
      (∀ c ∈ rest, NameChar c) → ∀ c ∈ t, NameChar c := by
    intro p t rest hs hp hrest c hc
    obtain ⟨p', rfl, hpp⟩ := List.dropPrefix?_eq_some_iff.mp hs
    obtain rfl := beq_iff_eq.mp hpp
    rcases List.mem_append.mp hc with hc | hc
    · exact hp c hc
    · exact hrest c hc
  have hunderscore : ∀ c ∈ ['_'], NameChar c :=
    fun c hc => Or.inr (Or.inl (List.mem_singleton.mp hc))
  simp only [matchPipeName, Option.bind_eq_bind, Option.bind_eq_some_iff] at h
  obtain ⟨t, h0, ⟨a, t1⟩, h1, t2, h2, ⟨b, t3⟩, h3, t4, h4, ⟨c, t5⟩, h5, t6, h6, ⟨d, t7⟩, h7, h⟩ := h
  split at h
  · rename_i he
    have hnil : t7 = [] := List.isEmpty_iff.mp he
    have hend : ∀ c ∈ t7, NameChar c := by simp [hnil]
    exact hpre h0 (fun c hc => Or.inl hc) (hint h1 (hpre h2 hunderscore (hint h3
      (hpre h4 hunderscore (hint h5 (hpre h6 hunderscore (hint h7 hend)))))))
  · cases h

theorem NameChar.toNat_lt {c : Char} (h : NameChar c) : c.toNat < 128 := by
  rcases h with h | rfl | rfl | h
  · simp only [bufferLiteral, List.mem_cons, List.not_mem_nil, or_false] at h
    rcases h with rfl | rfl | rfl | rfl | rfl | rfl <;> decide
  · decide
  · decide
  · have := Char.isDigit_iff_toNat.mp h
    simp at this
    omega

theorem NameChar.ne {c e : Char} (h : NameChar c) (hb : e ∉ bufferLiteral)
    (he : e ≠ '_') (hm : e ≠ '-') (hd : e.isDigit = false) : c ≠ e := by
  rintro rfl
  rcases h with h | h | h | h
  · exact hb h
  · exact he h
  · exact hm h
  · simp [hd] at h

theorem lastComponent_append {pre name : Text} (h : '/' ∉ name) :
    lastComponent (pre ++ '/' :: name) = name := by
  have hp : ∀ c ∈ name.reverse, (c != '/') = true := by
    intro c hc
    have : c ≠ '/' := fun he => h (he ▸ List.mem_reverse.mp hc)
    simpa using this
  simp [lastComponent, List.rtakeWhile, List.reverse_append, List.takeWhile_append_of_pos hp]

theorem lastComponent_self {name : Text} (h : '/' ∉ name) : lastComponent name = name := by
  refine List.rtakeWhile_eq_self_iff.mpr ?_
  intro c hc
  have : c ≠ '/' := fun he => h (he ▸ hc)
  simpa using this

theorem slash_notMem_pipeName (s d : Coord) : '/' ∉ pipeName s d := fun h =>
  (pipeName_chars h).ne (by decide) (by decide) (by decide) (by decide) rfl

theorem gatewayPorts_lookup {slot peer key : _} {routing : Routing}
    (h : routing.coordinateToWorkerSlot.lookup key = some peer) (hne : peer ≠ slot) :
    (Router.init slot routing).gatewayPorts.lookup peer =
      some (routing.gatewayBasePort.getD 9500 + peer) := by
  have hmem : (key, peer) ∈ routing.coordinateToWorkerSlot := by
    obtain ⟨l₁, l₂, he, _⟩ := List.lookup_eq_some_iff.mp h
    simp [he]
  have hm : peer ∈ (routing.coordinateToWorkerSlot.map Prod.snd).dedup.filter (· ≠ slot) := by
    simp only [List.mem_filter, List.mem_dedup, List.mem_map, decide_eq_true_eq]
    exact ⟨⟨(key, peer), hmem, rfl⟩, hne⟩
  simp only [Router.init]
  generalize (routing.coordinateToWorkerSlot.map Prod.snd).dedup.filter (· ≠ slot) = peers at hm
  induction peers with
  | nil => simp at hm
  | cons p peers ih =>
    by_cases he : peer = p
    · subst he; simp
    · have hb : (peer == p) = false := by simpa using he
      simp only [List.map_cons, List.lookup_cons, hb]
      exact ih (by simpa [he] using hm)

end ChipSystemSim
