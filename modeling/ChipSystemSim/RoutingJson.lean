import ChipSystemSim.Json
import ChipSystemSim.IStream
import ChipSystemSim.RoutingTable
import ChipSystemSim.PhaseTwoCounterfactual
import Mathlib.Data.Set.List

/-! The text of `routing.json` and the regular expression that `ReadWorkerRouting`
runs over the whole of it. -/

namespace ChipSystemSim

open Json (Value escape quote indented indentedItems indentedMembers indentedMember newline Escaped)
open IStream (isSpace)

/-- `\s*:\s*([0-9]+)`. -/
def matchValue (t : Text) : Option (Text × Text) := do
  let t ← (t.dropWhile isSpace).dropPrefix? [':']
  scanSome Char.isDigit (t.dropWhile isSpace)

/-- `([0-9]+),([0-9]+)"`. -/
def matchCoordinates (t : Text) : Option ((Text × Text) × Text) := do
  let (x, t) ← scanSome Char.isDigit t
  let t ← t.dropPrefix? [',']
  let (y, t) ← scanSome Char.isDigit t
  let t ← t.dropPrefix? ['"']
  return ((x, y), t)

/-- `coordinate_slot`, with its three groups. -/
def matchEntry (t : Text) : Option ((Text × Text × Text) × Text) := do
  let t ← t.dropPrefix? ['"']
  let ((x, y), t) ← matchCoordinates t
  let (slot, t) ← matchValue t
  return ((x, y, slot), t)

def coordinateEntries (content : Text) : List (Text × Text × Text) := findAll matchEntry 0 content

/-- `static_cast<uint32_t>(std::stoul(digits))`. -/
def stoul (digits : Text) : Except String Nat :=
  if 2 ^ 64 ≤ Nat.ofDigitChars 10 digits 0 then .error "stoul"
  else .ok (Nat.ofDigitChars 10 digits 0 % 2 ^ 32)

def emplaceEntries (width : Nat) : List (Text × Text × Text) → (Nat → Option Nat) →
    Except String (Nat → Option Nat)
  | [], slots => .ok slots
  | (first, second, third) :: entries, slots => do
    let x ← stoul first
    let y ← stoul second
    let slot ← stoul third
    if width ≤ x ∨ width ≤ y then
      throw "worker routing contains a coordinate outside the chiplet topology"
    let node := (y * width + x) % 2 ^ 32
    match slots node with
    | none => emplaceEntries width entries (Function.update slots node (some slot))
    | some other =>
      if other ≠ slot then throw "worker routing maps one chiplet to multiple workers"
      else emplaceEntries width entries slots

/-- `ReadWorkerRouting` on the content of the file. A first entry that is not
rejected is stored, so the map is empty only without entries. -/
def readRoutingText (content : Text) (nodes : Nat) : Except String (Nat → Option Nat) :=
  let width := nodes.sqrt
  if width = 0 ∨ width * width ≠ nodes then
    .error "counterfactual worker routing requires a square chiplet topology"
  else do
    let slots ← emplaceEntries width (coordinateEntries content) fun _ => none
    if coordinateEntries content = [] then
      throw "worker routing has no coordinate_to_worker_slot entries"
    return slots

def channelByPair (channels : List Channel) : List (Text × Text) :=
  channels.foldl (fun table c => dictSet table (coordKey (c.listenerSlot, c.connectorSlot)) c.id) []

def routingJson (transport workload : Text) (channels : List Channel) (routing : Routing) : Value :=
  .obj
    [("version".toList, .num 1),
      ("transport".toList, .str transport),
      ("workload".toList, .str workload),
      ("coordinate_to_worker_slot".toList,
        .obj (routing.coordinateToWorkerSlot.map fun m => (m.1, .num m.2))),
      ("worker_physical_slots".toList,
        .obj (routing.workerPhysicalSlots.map fun m => (decimal m.1, .num m.2))),
      ("channel_by_worker_pair".toList,
        .obj ((channelByPair channels).map fun m => (m.1, .str m.2))),
      ("gateway_base_port".toList, .num 9500)]

def routingText (transport workload : Text) (channels : List Channel) (routing : Routing) : Text :=
  indented 0 (routingJson transport workload channels routing) ++ ['\n']

/-- What `generate_simbricks_routing` writes to its output. -/
def generateRoutingText (placement : Placement) (workload : Text) (topology : Topology)
    (transport : Text) (physical : Option (List Int)) : Except RoutingError Text :=
  (generateRouting placement topology physical).map
    (routingText transport workload topology.channels)

section Strings

variable {e k r : Text}

/-- What stands behind a value: neither a colon nor a digit comes next. -/
def Closes (r : Text) : Prop := ∀ c, (r.dropWhile isSpace).head? = some c → c ≠ ':' ∧
    c.isDigit = false

theorem isSpace_digit {c : Char} (h : c.isDigit = true) : isSpace c = false := by
  have := isDigit_toNat h
  simp only [isSpace, Bool.or_eq_false_iff, decide_eq_false_iff_not, Bool.and_eq_false_iff]
  omega

theorem Closes.stopsDigits (h : Closes r) : StopsDigits r := by
  intro c hc
  cases hdigit : c.isDigit with
  | false => rfl
  | true =>
    cases r with
    | nil => cases hc
    | cons d r =>
      obtain rfl : d = c := Option.some.inj hc
      have := h d (by simp [isSpace_digit hdigit])
      exact this.2 ▸ hdigit.symm

theorem dropPrefix_cons (c : Char) (t : Text) : (c :: t).dropPrefix? [c] = some t := by
  simp [List.dropPrefix?]

theorem dropPrefix_ne {c : Char} {t : Text} (h : t.head? ≠ some c) : t.dropPrefix? [c] = none := by
  cases t with
  | nil => rfl
  | cons d t =>
    have hne : d ≠ c := fun hcd => h (by rw [hcd]; rfl)
    simp [List.dropPrefix?, hne]

theorem dropPrefix_eq_some {c : Char} {t u : Text} (h : t.dropPrefix? [c] = some u) :
    t = c :: u := by
  cases t with
  | nil => cases h
  | cons d t =>
    by_cases hd : c = d
    · rw [← hd, dropPrefix_cons] at h
      rw [← hd, Option.some.inj h]
    · rw [dropPrefix_ne (by simp [Ne.symm hd])] at h
      cases h

theorem Closes.matchValue (h : Closes r) : matchValue r = none := by
  unfold ChipSystemSim.matchValue
  rw [dropPrefix_ne fun hc => (h ':' hc).1 rfl]
  rfl

theorem matchEntry_ne {c : Char} {t : Text} (h : c ≠ '"') : matchEntry (c :: t) = none := by
  unfold matchEntry
  rw [dropPrefix_ne (by simpa using h)]
  rfl

theorem matchEntry_quote (t : Text) : matchEntry ('"' :: t) = do
    let ((x, y), t) ← matchCoordinates t
    let (slot, t) ← matchValue t
    return ((x, y, slot), t) := by
  unfold matchEntry
  rw [dropPrefix_cons]
  rfl

theorem matchCoordinates_stops (h : StopsDigits r) : matchCoordinates r = none := by
  unfold matchCoordinates scanSome
  rw [h.takeWhile]
  rfl

theorem coordinateEntries_skip (h : '"' ∉ e) :
    coordinateEntries (e ++ r) = coordinateEntries r := by
  refine findAll_append ?_
  intro u c v he
  refine matchEntry_ne ?_
  rintro rfl
  exact h (by simp [he])

theorem coordinateEntries_quote (h : matchEntry ('"' :: r) = none) :
    coordinateEntries ('"' :: r) = coordinateEntries r := findAll_none h

theorem matchCoordinates_eq_some {t rest x y : Text}
    (h : matchCoordinates t = some ((x, y), rest)) :
    t = x ++ ',' :: (y ++ '"' :: rest) ∧ x ≠ [] ∧ y ≠ [] ∧ (∀ c ∈ x, c.isDigit = true) ∧
      ∀ c ∈ y, c.isDigit = true := by
  simp only [matchCoordinates, Option.bind_eq_bind, Option.bind_eq_some_iff, Prod.exists] at h
  obtain ⟨x', t₁, hx, t₂, hcomma, y', t₃, hy, t₄, hq, hpair⟩ := h
  cases hpair
  obtain ⟨rfl, hxne, hxd, -⟩ := scanSome_eq_some hx
  obtain ⟨rfl, hyne, hyd, -⟩ := scanSome_eq_some hy
  rw [dropPrefix_eq_some hcomma, dropPrefix_eq_some hq]
  exact ⟨rfl, hxne, hyne, hxd, hyd⟩

theorem matchCoordinates_append {x y : Text} (hx : x ≠ []) (hy : y ≠ [])
    (hxd : ∀ c ∈ x, c.isDigit = true) (hyd : ∀ c ∈ y, c.isDigit = true) :
    matchCoordinates (x ++ ',' :: (y ++ '"' :: r)) = some ((x, y), r) := by
  have hcomma : ∀ t : Text, StopsDigits (',' :: t) := fun t => stopsDigits_cons (by decide)
  have hquote : ∀ t : Text, StopsDigits ('"' :: t) := fun t => stopsDigits_cons (by decide)
  simp only [matchCoordinates, scanSome_append hx hxd (hcomma _), scanSome_append hy hyd (hquote _),
    dropPrefix_cons, Option.bind_eq_bind, Option.bind_some, Option.pure_def]

/-- Inside an escaped string a pair of coordinates ends only at its last quote. -/
theorem matchCoordinates_escaped (he : Escaped e) {x y rest : Text}
    (h : matchCoordinates (e ++ '"' :: r) = some ((x, y), rest)) :
    e = x ++ ',' :: y ∧ rest = r := by
  obtain ⟨ht, -, -, hx, hy⟩ := matchCoordinates_eq_some h
  have hmem : ∀ c ∈ x ++ ',' :: y, c = ',' ∨ c.isDigit = true := by
    intro c hc
    rcases List.mem_append.mp hc with hc | hc
    · exact Or.inr (hx c hc)
    · rcases List.mem_cons.mp hc with rfl | hc
      · exact Or.inl rfl
      · exact Or.inr (hy c hc)
  have hnot : ∀ c, c ≠ ',' → c.isDigit = false → c ∉ x ++ ',' :: y := by
    intro c hcomma hdigit hc
    rcases hmem c hc with rfl | hc
    · exact hcomma rfl
    · rw [hc] at hdigit
      cases hdigit
  have heq : e ++ '"' :: r = (x ++ ',' :: y) ++ '"' :: rest := by simpa using ht
  rcases List.append_eq_append_iff.mp heq with ⟨a, ha, hr⟩ | ⟨b, hb, hr⟩
  · cases a with
    | nil => exact ⟨by simpa using ha.symm, ((List.cons.inj hr).2).symm⟩
    | cons c a =>
      obtain rfl : '"' = c := (List.cons.inj hr).1
      exact absurd (ha ▸ by simp) (hnot '"' (by decide) (by decide))
  · cases b with
    | nil => exact ⟨by simpa using hb, (List.cons.inj hr).2⟩
    | cons c b =>
      obtain rfl : '"' = c := (List.cons.inj hr).1
      obtain ⟨a, ha⟩ := he _ _ hb
      exact absurd (ha ▸ by simp) (hnot '\\' (by decide) (by decide))

theorem matchEntry_escaped (he : Escaped e) (hr : matchValue r = none) :
    matchEntry ('"' :: (e ++ '"' :: r)) = none := by
  rw [matchEntry_quote]
  cases h : matchCoordinates (e ++ '"' :: r) with
  | none => rfl
  | some m =>
    obtain ⟨⟨x, y⟩, rest⟩ := m
    obtain ⟨-, rfl⟩ := matchCoordinates_escaped he h
    simp [hr]

theorem coordinateEntries_string (s : Text) (hr : Closes r) :
    coordinateEntries (quote s ++ r) = coordinateEntries r := by
  have hbody : coordinateEntries (escape s ++ '"' :: r) = coordinateEntries ('"' :: r) := by
    refine findAll_append ?_
    intro u c v hs
    by_cases hc : c = '"'
    · rw [hc] at hs ⊢
      exact matchEntry_escaped ((Json.escaped_escape s).after hs) hr.matchValue
    · exact matchEntry_ne hc
  have hopen := matchEntry_escaped (Json.escaped_escape s) hr.matchValue
  have hclose : matchEntry ('"' :: r) = none := by
    rw [matchEntry_quote, matchCoordinates_stops hr.stopsDigits]
    rfl
  calc coordinateEntries (quote s ++ r)
      = coordinateEntries ('"' :: (escape s ++ '"' :: r)) := by simp [quote]
    _ = coordinateEntries (escape s ++ '"' :: r) := coordinateEntries_quote hopen
    _ = coordinateEntries ('"' :: r) := hbody
    _ = coordinateEntries r := coordinateEntries_quote hclose

end Strings

section Values

def slotEntry (key : Text) : Value → List (Text × Text × Text)
  | .num (.ofNat n) =>
    match matchCoordinates (escape key ++ ['"']) with
    | some ((x, y), _) => [(x, y, decimal n)]
    | none => []
  | _ => []

mutual

/-- The members of a value that the expression takes for entries. -/
def valueEntries : Value → List (Text × Text × Text)
  | .null => []
  | .num _ => []
  | .str _ => []
  | .arr items => itemsEntries items
  | .obj members => membersEntries members

def itemsEntries : List Value → List (Text × Text × Text)
  | [] => []
  | item :: items => valueEntries item ++ itemsEntries items

def membersEntries : List (Text × Value) → List (Text × Text × Text)
  | [] => []
  | member :: members => memberEntries member ++ membersEntries members

def memberEntries : Text × Value → List (Text × Text × Text)
  | (key, value) => slotEntry key value ++ valueEntries value

end

mutual

/-- No key holds a quote. -/
def PlainKeys : Value → Prop
  | .null => True
  | .num _ => True
  | .str _ => True
  | .arr items => PlainItems items
  | .obj members => PlainMembers members

def PlainItems : List Value → Prop
  | [] => True
  | item :: items => PlainKeys item ∧ PlainItems items

def PlainMembers : List (Text × Value) → Prop
  | [] => True
  | member :: members => PlainMember member ∧ PlainMembers members

def PlainMember : Text × Value → Prop
  | (key, value) => '"' ∉ key ∧ PlainKeys value

end

theorem closes_cons {c : Char} {r : Text} (hs : isSpace c = false) (hc : c ≠ ':')
    (hd : c.isDigit = false) : Closes (c :: r) := by
  intro d h
  rw [List.dropWhile_cons_of_neg (by simp [hs])] at h
  obtain rfl : c = d := Option.some.inj h
  exact ⟨hc, hd⟩

theorem dropWhile_newline (level : Nat) (r : Text) :
    (newline level ++ r).dropWhile isSpace = r.dropWhile isSpace := by
  have hall : ∀ c ∈ newline level, isSpace c = true := by
    intro c hc
    rcases List.mem_cons.mp hc with rfl | hc
    · decide
    · rw [List.eq_of_mem_replicate hc]
      decide
  exact List.dropWhile_append_of_pos hall

theorem Closes.newline {r : Text} (h : Closes r) (level : Nat) : Closes (newline level ++ r) := by
  intro c hc
  rw [dropWhile_newline] at hc
  exact h c hc

theorem quote_notMem_newline (level : Nat) : '"' ∉ newline level := by
  intro h
  rcases List.mem_cons.mp h with h | h
  · cases h
  · exact absurd (List.eq_of_mem_replicate h) (by decide)

theorem quote_notMem_decimal (z : Int) : '"' ∉ decimal z := by
  intro h
  rcases decimal_chars h with h | h
  · cases h
  · cases h

theorem indented_head (level : Nat) {v : Value} (h : ∀ n : Nat, v ≠ .num n) :
    ∃ c t, indented level v = c :: t ∧ isSpace c = false ∧ c.isDigit = false := by
  cases v with
  | null => exact ⟨_, _, rfl, by decide, by decide⟩
  | num z =>
    cases z with
    | ofNat n => exact absurd rfl (h n)
    | negSucc n => exact ⟨_, _, rfl, by decide, by decide⟩
  | str s => exact ⟨_, _, rfl, by decide, by decide⟩
  | arr items => cases items <;> exact ⟨_, _, rfl, by decide, by decide⟩
  | obj members => cases members <;> exact ⟨_, _, rfl, by decide, by decide⟩

theorem matchValue_colon (t : Text) :
    matchValue (':' :: ' ' :: t) = scanSome Char.isDigit (t.dropWhile isSpace) := by
  have hcolon : (':' :: ' ' :: t).dropWhile isSpace = ':' :: ' ' :: t :=
    List.dropWhile_cons_of_neg (by decide)
  have hspace : (' ' :: t).dropWhile isSpace = t.dropWhile isSpace :=
    List.dropWhile_cons_of_pos (by decide)
  simp only [matchValue, hcolon, dropPrefix_cons, Option.bind_eq_bind, Option.bind_some, hspace]

theorem matchValue_other {level : Nat} {v : Value} (h : ∀ n : Nat, v ≠ .num n) (r : Text) :
    matchValue (':' :: ' ' :: (indented level v ++ r)) = none := by
  obtain ⟨c, t, ht, hs, hd⟩ := indented_head level h
  rw [matchValue_colon, ht, List.cons_append, List.dropWhile_cons_of_neg (by simp [hs])]
  simp [scanSome, hd]

theorem matchValue_num (n : Nat) {r : Text} (hr : Closes r) :
    matchValue (':' :: ' ' :: (decimal n ++ r)) = some (decimal n, r) := by
  obtain ⟨c, t, ht, hc⟩ := toDigits_cons n
  have hdrop : (decimal n ++ r).dropWhile isSpace = decimal n ++ r := by
    have hhead : decimal n = c :: t := ht
    rw [hhead]
    exact List.dropWhile_cons_of_neg (by simp [isSpace_digit hc])
  rw [matchValue_colon, hdrop]
  exact scanSome_append Nat.toDigits_ne_nil (fun c hc => toDigits_isDigit hc) hr.stopsDigits

theorem escaped_of_notMem {e : Text} (h : '"' ∉ e) : Escaped e := by
  intro a b hab
  exact absurd (hab ▸ by simp) h

theorem matchCoordinates_key {e : Text} (he : Escaped e) (r : Text) :
    matchCoordinates (e ++ '"' :: r) = (matchCoordinates (e ++ ['"'])).map fun m => (m.1, r) := by
  cases h : matchCoordinates (e ++ ['"']) with
  | some m =>
    obtain ⟨⟨x, y⟩, rest⟩ := m
    obtain ⟨rfl, -⟩ := matchCoordinates_escaped he h
    obtain ⟨-, hx, hy, hxd, hyd⟩ := matchCoordinates_eq_some h
    rw [List.append_assoc, List.cons_append, matchCoordinates_append hx hy hxd hyd]
    rfl
  | none =>
    cases h' : matchCoordinates (e ++ '"' :: r) with
    | none => rfl
    | some m =>
      obtain ⟨⟨x, y⟩, rest⟩ := m
      obtain ⟨rfl, -⟩ := matchCoordinates_escaped he h'
      obtain ⟨-, hx, hy, hxd, hyd⟩ := matchCoordinates_eq_some h'
      rw [List.append_assoc, List.cons_append, matchCoordinates_append hx hy hxd hyd] at h
      cases h

theorem coordinateEntries_key {key t : Text} (hkey : '"' ∉ key)
    (h : matchCoordinates (escape key ++ ['"']) = none ∨ matchValue (':' :: t) = none) :
    coordinateEntries (quote key ++ ':' :: t) = coordinateEntries t := by
  have hescape := Json.quote_notMem_escape hkey
  have hopen : matchEntry ('"' :: (escape key ++ '"' :: ':' :: t)) = none := by
    rcases h with h | h
    · rw [matchEntry_quote, matchCoordinates_key (escaped_of_notMem hescape), h]
      rfl
    · exact matchEntry_escaped (escaped_of_notMem hescape) h
  have hclose : matchEntry ('"' :: ':' :: t) = none := by
    rw [matchEntry_quote, matchCoordinates_stops (stopsDigits_cons (by decide))]
    rfl
  calc coordinateEntries (quote key ++ ':' :: t)
      = coordinateEntries ('"' :: (escape key ++ '"' :: ':' :: t)) := by simp [quote]
    _ = coordinateEntries (escape key ++ '"' :: ':' :: t) := coordinateEntries_quote hopen
    _ = coordinateEntries ('"' :: ':' :: t) := coordinateEntries_skip hescape
    _ = coordinateEntries (':' :: t) := coordinateEntries_quote hclose
    _ = coordinateEntries t := findAll_none (matchEntry_ne (by decide))

theorem coordinateEntries_slot {key r x y rest : Text} (n : Nat) (hkey : '"' ∉ key)
    (h : matchCoordinates (escape key ++ ['"']) = some ((x, y), rest)) (hr : Closes r) :
    coordinateEntries (quote key ++ (':' :: ' ' :: (decimal n ++ r))) =
      (x, y, decimal n) :: coordinateEntries r := by
  have hescape := escaped_of_notMem (Json.quote_notMem_escape hkey)
  have hmatch : matchEntry ('"' :: ((escape key ++ '"' :: ':' :: ' ' :: decimal n) ++ r)) =
      some ((x, y, decimal n), r) := by
    rw [matchEntry_quote]
    simp only [List.append_assoc, List.cons_append]
    rw [matchCoordinates_key hescape, h]
    simp [matchValue_num n hr]
  calc coordinateEntries (quote key ++ (':' :: ' ' :: (decimal n ++ r)))
      = coordinateEntries ('"' :: ((escape key ++ '"' :: ':' :: ' ' :: decimal n) ++ r)) := by
        simp [quote]
    _ = (x, y, decimal n) :: coordinateEntries r := findAll_some hmatch

theorem coordinateEntries_member {level : Nat} {key r : Text} {v : Value} (hkey : '"' ∉ key)
    (hr : Closes r) (hv : coordinateEntries (indented level v ++ r) = valueEntries v ++
      coordinateEntries r) :
    coordinateEntries (indentedMember level (key, v) ++ r) =
      memberEntries (key, v) ++ coordinateEntries r := by
  have htext : indentedMember level (key, v) ++ r =
      newline level ++ (quote key ++ (':' :: ' ' :: (indented level v ++ r))) := by
    simp [indentedMember]
  have hspace : coordinateEntries (' ' :: (indented level v ++ r)) = valueEntries v ++
      coordinateEntries r :=
    (findAll_none (matchEntry_ne (by decide))).trans hv
  rw [htext, coordinateEntries_skip (quote_notMem_newline level), memberEntries]
  by_cases hnum : ∃ n : Nat, v = .num n
  · obtain ⟨n, rfl⟩ := hnum
    cases h : matchCoordinates (escape key ++ ['"']) with
    | none =>
      rw [coordinateEntries_key hkey (Or.inl h), hspace]
      simp [slotEntry, h]
    | some m =>
      obtain ⟨⟨x, y⟩, rest⟩ := m
      have hdigits : indented level (.num n) = decimal n := rfl
      rw [hdigits, coordinateEntries_slot n hkey h hr]
      simp [slotEntry, h, valueEntries]
  · have hother : ∀ n : Nat, v ≠ .num n := fun n hn => hnum ⟨n, hn⟩
    have hslot : slotEntry key v = [] := by
      unfold slotEntry
      split
      · exact absurd rfl (hother _)
      · rfl
    rw [coordinateEntries_key hkey (Or.inr (matchValue_other hother r)), hspace, hslot]
    rfl

theorem coordinateEntries_close {level : Nat} {c : Char} {r : Text} (h : c ≠ '"') :
    coordinateEntries (newline level ++ c :: r) = coordinateEntries r :=
  (coordinateEntries_skip (quote_notMem_newline level)).trans (findAll_none (matchEntry_ne h))

theorem closes_comma (r : Text) :
    Closes (',' :: r) := closes_cons (by decide) (by decide) (by decide)

mutual

-- The induction is over the value, with what follows it left open.
theorem coordinateEntries_indented :
    ∀ (v : Value) (level : Nat) (r : Text), PlainKeys v → Closes r →
    coordinateEntries (indented level v ++ r) = valueEntries v ++ coordinateEntries r
  | .null, _, _, _, _ => coordinateEntries_skip (by rw [indented]; decide)
  | .num z, _, _, _, _ => coordinateEntries_skip (quote_notMem_decimal z)
  | .str s, _, _, _, hr => coordinateEntries_string s hr
  | .arr [], _, _, _, _ => coordinateEntries_skip (by rw [indented]; decide)
  | .arr (item :: items), level, r, hv, _ => by
    have hclose : Closes (newline level ++ ']' :: r) :=
      (closes_cons (by decide) (by decide) (by decide)).newline level
    have hopen := findAll_none (m := matchEntry) (c := '[')
      (t := [','].intercalate (indentedItems (level + 1) (item :: items)) ++
        (newline level ++ ']' :: r))
      (matchEntry_ne (by decide))
    have hitems := coordinateEntries_items (item :: items) (level + 1) _ (by simp) hv hclose
    rw [coordinateEntries_close (by decide)] at hitems
    simpa [indented, valueEntries, coordinateEntries] using hopen.trans hitems
  | .obj [], _, _, _, _ => coordinateEntries_skip (by rw [indented]; decide)
  | .obj (member :: members), level, r, hv, _ => by
    have hclose : Closes (newline level ++ '}' :: r) :=
      (closes_cons (by decide) (by decide) (by decide)).newline level
    have hopen := findAll_none (m := matchEntry) (c := '{')
      (t := [','].intercalate (indentedMembers (level + 1) (member :: members)) ++
        (newline level ++ '}' :: r))
      (matchEntry_ne (by decide))
    have hmembers := coordinateEntries_members (member :: members) (level + 1) _ (by simp) hv hclose
    rw [coordinateEntries_close (by decide)] at hmembers
    simpa [indented, valueEntries, coordinateEntries] using hopen.trans hmembers

theorem coordinateEntries_items : ∀ (items : List Value) (level : Nat) (r : Text), items ≠ [] →
    PlainItems items → Closes r →
      coordinateEntries ([','].intercalate (indentedItems level items) ++ r) =
      itemsEntries items ++ coordinateEntries r
  | [], _, _, h, _, _ => absurd rfl h
  | [item], level, r, _, hv, hr => by
    have hitem := coordinateEntries_indented item level r hv.1 hr
    simp only [indentedItems, List.intercalate_singleton, List.append_assoc, itemsEntries,
      List.append_nil]
    rw [coordinateEntries_skip (quote_notMem_newline level), hitem]
  | item :: next :: items, level, r, _, hv, hr => by
    have hitem := coordinateEntries_indented item level
      (',' :: ([','].intercalate (indentedItems level (next :: items)) ++ r)) hv.1 (closes_comma _)
    have hitems := coordinateEntries_items (next :: items) level r (by simp) hv.2 hr
    have hcomma := findAll_none (m := matchEntry) (c := ',')
      (t := [','].intercalate (indentedItems level (next :: items)) ++ r)
        (matchEntry_ne (by decide))
    rw [indentedItems, indentedItems, List.intercalate_cons_cons, itemsEntries, List.append_assoc,
      List.append_assoc, List.append_assoc, coordinateEntries_skip (quote_notMem_newline level)]
    rw [← indentedItems, List.singleton_append, List.append_assoc, hitem, ← hitems]
    exact congrArg _ hcomma

theorem coordinateEntries_members : ∀ (members : List (Text × Value)) (level : Nat) (r : Text),
    members ≠ [] → PlainMembers members → Closes r →
    coordinateEntries ([','].intercalate (indentedMembers level members) ++ r) =
      membersEntries members ++ coordinateEntries r
  | [], _, _, h, _, _ => absurd rfl h
  | [member], level, r, _, hv, hr => by
    have hmember := coordinateEntries_indentedMember member level r hv.1 hr
    simpa [indentedMembers, membersEntries] using hmember
  | member :: next :: members, level, r, _, hv, hr => by
    have hmember := coordinateEntries_indentedMember member level
      (',' :: ([','].intercalate (indentedMembers level (next :: members)) ++ r)) hv.1
        (closes_comma _)
    have hmembers := coordinateEntries_members (next :: members) level r (by simp) hv.2 hr
    have hcomma := findAll_none (m := matchEntry) (c := ',')
      (t := [','].intercalate (indentedMembers level (next :: members)) ++ r)
        (matchEntry_ne (by decide))
    rw [indentedMembers, indentedMembers, List.intercalate_cons_cons, membersEntries,
      List.append_assoc, List.append_assoc]
    rw [← indentedMembers, List.singleton_append, List.append_assoc, hmember, ← hmembers]
    exact congrArg _ hcomma

theorem coordinateEntries_indentedMember : ∀ (member : Text × Value) (level : Nat) (r : Text),
    PlainMember member → Closes r →
    coordinateEntries (indentedMember level member ++ r) = memberEntries member ++
      coordinateEntries r
  | (_, v), level, r, hv, hr =>
    coordinateEntries_member hv.1 hr (coordinateEntries_indented v level r hv.2 hr)

end

end Values

section Entries

theorem membersEntries_map {β : Type*} (f : β → Text × Value) (l : List β) :
    membersEntries (l.map f) = l.flatMap fun m => memberEntries (f m) := by
  induction l with
  | nil => rfl
  | cons m l ih => simp [membersEntries, ih]

theorem plainMembers_map {β : Type*} {f : β → Text × Value} {l : List β}
    (h : ∀ m ∈ l, PlainMember (f m)) : PlainMembers (l.map f) := by
  induction l with
  | nil => trivial
  | cons m l ih => exact ⟨h m (by simp), ih fun m' hm => h m' (List.mem_cons_of_mem m hm)⟩

theorem quote_notMem_coordKey (c : Coord) : '"' ∉ coordKey c := by
  intro h
  rcases List.mem_append.mp h with h | h
  · exact quote_notMem_decimal _ h
  · rcases List.mem_cons.mp h with h | h
    · cases h
    · exact quote_notMem_decimal _ h

theorem escape_of_printable {s : Text} (h : ∀ c ∈ s, c = ',' ∨ c = '-' ∨ c.isDigit = true) :
    escape s = s := by
  have hchar : ∀ c ∈ s, Json.escapeChar c = [c] := by
    intro c hc
    rcases h c hc with rfl | rfl | hd
    · rfl
    · rfl
    · have hrange := isDigit_toNat hd
      have hne : ∀ e : Char, e.isDigit = false → c ≠ e := fun e he => digit_ne hd he
      rw [Json.escapeChar, if_neg (hne _ (by decide)), if_neg (hne _ (by decide)),
        if_neg (hne _ (by decide)), if_neg (hne _ (by decide)), if_neg (hne _ (by decide)),
        if_neg (by omega), if_neg (by omega), if_pos (by omega)]
  rw [escape, List.flatMap_congr hchar, List.flatMap_singleton']

theorem escape_decimal (z : Int) : escape (decimal z) = decimal z :=
  escape_of_printable fun _ hc => Or.inr (decimal_chars hc)

theorem escape_coordKey (c : Coord) : escape (coordKey c) = coordKey c := by
  refine escape_of_printable ?_
  intro d hd
  rcases List.mem_append.mp hd with hd | hd
  · exact Or.inr (decimal_chars hd)
  · rcases List.mem_cons.mp hd with rfl | hd
    · exact Or.inl rfl
    · exact Or.inr (decimal_chars hd)

@[simp]
theorem slotEntry_str (key s : Text) : slotEntry key (.str s) = [] := rfl

@[simp]
theorem slotEntry_obj (key : Text) (members : List (Text × Value)) :
    slotEntry key (.obj members) = [] := rfl

theorem slotEntry_decimal (z slot : Int) : slotEntry (decimal z) (.num slot) = [] := by
  have hnone : matchCoordinates (decimal z ++ ['"']) = none := by
    cases h : matchCoordinates (decimal z ++ ['"']) with
    | none => rfl
    | some m =>
      obtain ⟨⟨x, y⟩, rest⟩ := m
      have hcomma : ',' ∈ decimal z ++ ['"'] := by
        rw [(matchCoordinates_eq_some h).1]
        simp
      rcases List.mem_append.mp hcomma with hm | hm
      · rcases decimal_chars hm with hm | hm <;> cases hm
      · simp at hm
  cases slot with
  | ofNat n => simp [slotEntry, escape_decimal, hnone]
  | negSucc n => rfl

theorem slotEntry_coordKey (x y n : Nat) :
    slotEntry (coordKey (x, y)) (.num n) = [(decimal x, decimal y, decimal n)] := by
  have hmatch : matchCoordinates (coordKey (x, y) ++ ['"']) =
      some ((decimal x, decimal y), []) := by
    rw [coordKey, List.append_assoc, List.cons_append]
    exact matchCoordinates_append Nat.toDigits_ne_nil Nat.toDigits_ne_nil
      (fun c hc => toDigits_isDigit hc)
      (fun c hc => toDigits_isDigit hc)
  rw [← Int.ofNat_eq_natCast n, slotEntry, escape_coordKey, hmatch]
  rfl

theorem channelByPair_keys {channels : List Channel} {m : Text × Text}
    (h : m ∈ channelByPair channels) : '"' ∉ m.1 := by
  suffices hfold : ∀ (l : List Channel) (table : List (Text × Text)), (∀ m ∈ table, '"' ∉ m.1) →
      ∀ m ∈ l.foldl (fun table c => dictSet table (coordKey (c.listenerSlot, c.connectorSlot)) c.id)
        table,
        '"' ∉ m.1 from hfold channels [] (by simp) m h
  intro l
  induction l with
  | nil => exact fun table htable => htable
  | cons c l ih =>
    intro table htable
    refine ih _ ?_
    intro m hm
    rcases dictSet_keys hm with hkey | hm
    · rw [hkey]
      exact quote_notMem_coordKey _
    · exact htable m hm

variable {transport workload : Text} {channels : List Channel} {routing : Routing}

theorem coordinateEntries_routingText (hkeys : ∀ m ∈ routing.coordinateToWorkerSlot, '"' ∉ m.1) :
    coordinateEntries (routingText transport workload channels routing) =
      routing.coordinateToWorkerSlot.flatMap fun m => slotEntry m.1 (.num m.2) := by
  have hplain : PlainKeys (routingJson transport workload channels routing) := by
    refine ⟨⟨by decide, trivial⟩, ⟨by decide, trivial⟩, ⟨by decide, trivial⟩, ⟨by decide, ?_⟩,
      ⟨by decide, ?_⟩, ⟨by decide, ?_⟩, ⟨by decide, trivial⟩, trivial⟩
    · exact plainMembers_map fun m hm => ⟨hkeys m hm, trivial⟩
    · exact plainMembers_map fun m _ => ⟨quote_notMem_decimal m.1, trivial⟩
    · exact plainMembers_map fun m hm => ⟨channelByPair_keys hm, trivial⟩
  have hend : Closes ['\n'] := by
    intro c hc
    cases hc
  have hversion : slotEntry "version".toList (.num 1) = [] := rfl
  have hport : slotEntry "gateway_base_port".toList (.num 9500) = [] := rfl
  have hcoordinates : membersEntries (routing.coordinateToWorkerSlot.map fun m => (m.1, .num m.2)) =
      routing.coordinateToWorkerSlot.flatMap fun m => slotEntry m.1 (.num m.2) := by
    rw [membersEntries_map]
    exact List.flatMap_congr fun m _ => by simp [memberEntries, valueEntries]
  have hphysical : membersEntries
      (routing.workerPhysicalSlots.map fun m => (decimal m.1, .num m.2)) = [] := by
    rw [membersEntries_map]
    exact List.flatMap_eq_nil_iff.mpr fun m _ => by
      simp [memberEntries, valueEntries, slotEntry_decimal]
  have hpairs : membersEntries ((channelByPair channels).map fun m => (m.1, .str m.2)) = [] := by
    rw [membersEntries_map]
    exact List.flatMap_eq_nil_iff.mpr fun m _ => by simp [memberEntries, valueEntries]
  have hrest : coordinateEntries ['\n'] = [] := rfl
  rw [routingText, coordinateEntries_indented _ _ _ hplain hend, hrest, List.append_nil]
  simp only [routingJson, valueEntries, membersEntries, memberEntries, hcoordinates,
    hphysical, hpairs, hversion, hport, slotEntry_str, slotEntry_obj, List.nil_append,
    List.append_nil]

end Entries

section Reading

theorem stoul_decimal {n : Nat} (h : n < 2 ^ 32) : stoul (decimal n) = .ok n := by
  have hvalue : Nat.ofDigitChars 10 (decimal n) 0 = n := Nat.ofDigitChars_ten_toDigits
  rw [stoul, hvalue, if_neg (by omega), Nat.mod_eq_of_lt h]

def entryText (e : Nat × Nat × Nat) : Text × Text × Text :=
  (decimal e.1, decimal e.2.1, decimal e.2.2)

variable {w : Nat}

theorem emplaceEntries_cons (hw : w * w < 2 ^ 32) {x y slot : Nat} (hx : x < w) (hy : y < w)
    (hslot : slot < 2 ^ 32) (entries : List (Text × Text × Text)) (slots : Nat → Option Nat) :
    emplaceEntries w (entryText (x, y, slot) :: entries) slots =
      match slots (y * w + x) with
      | none => emplaceEntries w entries (Function.update slots (y * w + x) (some slot))
      | some other =>
        if other ≠ slot then throw "worker routing maps one chiplet to multiple workers"
        else emplaceEntries w entries slots := by
  have hww : w ≤ w * w := Nat.le_mul_self w
  have hnode : y * w + x < w * w := by
    calc y * w + x < y * w + w := by omega
      _ = (y + 1) * w := by ring
      _ ≤ w * w := Nat.mul_le_mul_right w hy
  have hmod : (y * w + x) % 2 ^ 32 = y * w + x := Nat.mod_eq_of_lt (by omega)
  have hguard : ¬(w ≤ x ∨ w ≤ y) := by omega
  simp only [entryText, emplaceEntries, stoul_decimal (show x < 2 ^ 32 by omega),
    stoul_decimal (show y < 2 ^ 32 by omega), stoul_decimal hslot, bind, Except.bind, hguard,
    if_false, hmod]

/-- Entries that agree with one assignment of slots are all stored, and nothing else is. -/
theorem emplaceEntries_ok (hw : w * w < 2 ^ 32) {assigned : Nat → Option Nat}
    {l : List (Nat × Nat × Nat)}
    (hl : ∀ e ∈ l, e.1 < w ∧ e.2.1 < w ∧ e.2.2 < 2 ^ 32 ∧ assigned (e.2.1 * w + e.1) = some e.2.2)
    {slots : Nat → Option Nat}
    (hslots : ∀ node slot, slots node = some slot → assigned node = some slot) :
    ∃ result, emplaceEntries w (l.map entryText) slots = .ok result ∧
    ∀ node slot, result node = some slot ↔
      slots node = some slot ∨ ∃ e ∈ l, node = e.2.1 * w + e.1 ∧ slot = e.2.2 := by
  induction l generalizing slots with
  | nil => exact ⟨slots, rfl, fun node slot => by simp⟩
  | cons e l ih =>
    obtain ⟨x, y, s⟩ := e
    obtain ⟨hx, hy, hs, hassigned⟩ := hl (x, y, s) (by simp)
    have hrest := fun e he => hl e (List.mem_cons_of_mem _ he)
    rw [List.map_cons, emplaceEntries_cons hw hx hy hs]
    cases hnode : slots (y * w + x) with
    | none =>
      have hupdate : ∀ node slot, Function.update slots (y * w + x) (some s) node = some slot ↔
          slots node = some slot ∨ (node = y * w + x ∧ slot = s) := by
        intro node slot
        by_cases hn : node = y * w + x
        · rw [hn, Function.update_self, hnode]
          simp [eq_comm]
        · simp [hn]
      obtain ⟨result, hresult, hiff⟩ := @ih hrest (Function.update slots (y * w + x) (some s)) (by
        intro node slot h
        rcases (hupdate node slot).mp h with h | ⟨rfl, rfl⟩
        · exact hslots node slot h
        · exact hassigned)
      refine ⟨result, hresult, ?_⟩
      intro node slot
      rw [hiff, hupdate, or_assoc, List.exists_mem_cons_iff]
    | some other =>
      obtain rfl : s = other := Option.some.inj (hassigned.symm.trans (hslots _ _ hnode))
      obtain ⟨result, hresult, hiff⟩ := ih hrest hslots
      refine ⟨result, ?_, ?_⟩
      · simpa using hresult
      · intro node slot
        rw [hiff, List.exists_mem_cons_iff]
        constructor
        · rintro (h | h)
          · exact Or.inl h
          · exact Or.inr (Or.inr h)
        · rintro (h | ⟨rfl, rfl⟩ | h)
          · exact Or.inl h
          · exact Or.inl hnode
          · exact Or.inr h

end Reading

section RoundTrip

variable {placement : Placement} {topology : Topology} {physical : Option (List Int)}
  {workload transport content : Text} {w : Nat}

def InGrid (w : Nat) (c : Coord) : Prop := (0 ≤ c.1 ∧ c.1 < w) ∧ 0 ≤ c.2 ∧ c.2 < w

theorem InGrid.exists_nat {c : Coord} (h : InGrid w c) :
    ∃ x y : Nat, c = (↑x, ↑y) ∧ x < w ∧ y < w := by
  obtain ⟨⟨hx, hxw⟩, hy, hyw⟩ := h
  exact ⟨c.1.toNat, c.2.toNat, Prod.ext (by simp [hx]) (by simp [hy]), by omega, by omega⟩

theorem generateRoutingText_ok
    (h : generateRoutingText placement workload topology transport physical = .ok content) :
    ∃ table, coordinateToSlot placement.processes [] = .ok table ∧
      coordinateEntries content = table.flatMap fun m => slotEntry m.1 (.num m.2) := by
  unfold generateRoutingText at h
  cases hrouting : generateRouting placement topology physical with
  | error e =>
    rw [hrouting] at h
    cases h
  | ok routing =>
    rw [hrouting] at h
    cases h
    have htable := (generateRouting_ok hrouting).1
    refine ⟨_, htable, coordinateEntries_routingText ?_⟩
    intro m hm
    rcases mem_coordinateToSlot htable hm with hm | ⟨p, -, c, -, rfl⟩
    · cases hm
    · exact quote_notMem_coordKey c

def tableEntry (e : Nat × Nat × Nat) : Text × Slot := (coordKey (↑e.1, ↑e.2.1), ↑e.2.2)

theorem flatMap_slotEntry (l : List (Nat × Nat × Nat)) :
    (l.map tableEntry).flatMap (fun m => slotEntry m.1 (.num m.2)) = l.map entryText := by
  rw [List.flatMap_map]
  have hentry : ∀ e ∈ l, slotEntry (tableEntry e).1 (.num (tableEntry e).2) = [entryText e] :=
    fun e _ => slotEntry_coordKey e.1 e.2.1 e.2.2
  rw [List.flatMap_congr hentry, List.map_eq_flatMap]

theorem readRoutingText_square (hw : w ≠ 0) (h : coordinateEntries content ≠ []) :
    readRoutingText content (w * w) = emplaceEntries w (coordinateEntries content)
      fun _ => none := by
  have hsqrt : (w * w).sqrt = w := Nat.sqrt_eq w
  simp only [readRoutingText, hsqrt, hw, h, ne_eq, not_true_eq_false, or_self, if_false, bind,
    Except.bind, pure, Except.pure]
  cases emplaceEntries w (coordinateEntries content) fun _ => none <;> rfl

theorem table_eq_map {table : List (Text × Slot)}
    (htable : coordinateToSlot placement.processes [] = .ok table)
    (hgrid : ∀ p ∈ placement.processes, ∀ c, p.coordinates = some c → InGrid w c)
    (hslots : ∀ p ∈ placement.processes, p.coordinates ≠ none → 0 ≤ p.nodeSlot ∧
    p.nodeSlot < 2 ^ 32) : ∃ l : List (Nat × Nat × Nat), l.map tableEntry = table := by
  have hrange : table ∈ Set.range (List.map tableEntry) := by
    rw [Set.range_list_map]
    intro m hm
    rcases mem_coordinateToSlot htable hm with hm | ⟨p, hp, c, hc, rfl⟩
    · cases hm
    · obtain ⟨x, y, rfl, -, -⟩ := (hgrid p hp c hc).exists_nat
      have hslot := hslots p hp (by simp [hc])
      exact ⟨(x, y, p.nodeSlot.toNat), by simp [tableEntry, hslot.1]⟩
  exact hrange

theorem mem_table {l : List (Nat × Nat × Nat)}
    (htable : coordinateToSlot placement.processes [] = .ok (l.map tableEntry)) {x y slot : Nat} :
    (x, y, slot) ∈ l ↔ ∃ p ∈ placement.processes, p.coordinates = some (↑x, ↑y) ∧
    p.nodeSlot = slot := by
  constructor
  · intro he
    rcases mem_coordinateToSlot htable (List.mem_map_of_mem he) with hm | ⟨p, hp, c, hc, hentry⟩
    · cases hm
    · obtain ⟨hkey, hslot⟩ := Prod.mk.inj hentry
      exact ⟨p, hp, by rw [hc, ← coordKey_injective hkey], hslot.symm⟩
  · rintro ⟨p, hp, hc, hslot⟩
    obtain ⟨l₁, l₂, hl, -⟩ := List.lookup_eq_some_iff.mp (coordinateToSlot_lookup htable hp hc)
    have hm : (coordKey (↑x, ↑y), p.nodeSlot) ∈ l.map tableEntry := by simp [hl]
    obtain ⟨⟨x', y', slot'⟩, he, hentry⟩ := List.mem_map.mp hm
    obtain ⟨hkey, hslot'⟩ := Prod.mk.inj hentry
    obtain ⟨hx, hy⟩ := Prod.mk.inj (coordKey_injective hkey)
    have hslots : (slot' : Int) = slot := hslot'.trans hslot
    simp only [Int.natCast_inj] at hx hy hslots
    rwa [← hx, ← hy, ← hslots]

theorem readRoutingText_generated
    (h : generateRoutingText placement workload topology transport physical = .ok content)
    (hw : w * w < 2 ^ 32) (hgrid : ∀ p ∈ placement.processes, ∀ c,
      p.coordinates = some c → InGrid w c)
    (hslots : ∀ p ∈ placement.processes, p.coordinates ≠ none → 0 ≤ p.nodeSlot ∧
      p.nodeSlot < 2 ^ 32)
    (hplaced : ∃ p ∈ placement.processes, p.coordinates ≠ none) :
    ∃ slots, readRoutingText content (w * w) = .ok slots ∧
    ∀ node slot : Nat, slots node = some slot ↔
      ∃ p ∈ placement.processes, ∃ x y : Nat, p.coordinates = some (↑x, ↑y) ∧ node = y * w + x ∧
        p.nodeSlot = slot := by
  obtain ⟨table, htable, hentries⟩ := generateRoutingText_ok h
  obtain ⟨l, rfl⟩ := table_eq_map htable hgrid hslots
  rw [flatMap_slotEntry] at hentries
  let assigned : Nat → Option Nat := fun node =>
    ((l.map tableEntry).lookup (coordKey (↑(node % w), ↑(node / w)))).map Int.toNat
  have hl : ∀ e ∈ l, e.1 < w ∧ e.2.1 < w ∧ e.2.2 < 2 ^ 32 ∧
      assigned (e.2.1 * w + e.1) = some e.2.2 := by
    rintro ⟨x, y, slot⟩ he
    obtain ⟨p, hp, hc, hslot⟩ := (mem_table htable).mp he
    have hxy := hgrid p hp _ hc
    have hrange := hslots p hp (by simp [hc])
    have hx : x < w := by simpa using hxy.1.2
    have hy : y < w := by simpa using hxy.2.2
    have hmod : (y * w + x) % w = x := Nat.mul_add_mod_of_lt hx
    have hdiv : (y * w + x) / w = y := by
      rw [Nat.mul_comm, Nat.mul_add_div (by omega), Nat.div_eq_of_lt hx, Nat.add_zero]
    simp only [assigned, hmod, hdiv, coordinateToSlot_lookup htable hp hc, hslot]
    exact ⟨hx, hy, by omega, rfl⟩
  obtain ⟨p, hp, hplace⟩ := hplaced
  obtain ⟨c, hc⟩ := Option.ne_none_iff_exists'.mp hplace
  obtain ⟨x, y, rfl, hx, -⟩ := (hgrid p hp c hc).exists_nat
  have hne : coordinateEntries content ≠ [] := by
    have hslot := hslots p hp hplace
    have he : (x, y, p.nodeSlot.toNat) ∈ l := (mem_table htable).mpr ⟨p, hp, hc, by omega⟩
    rw [hentries]
    simpa using List.ne_nil_of_mem he
  obtain ⟨slots, hread, hiff⟩ := @emplaceEntries_ok _ hw _ _ hl (fun _ => none) (by simp)
  refine ⟨slots, ?_, ?_⟩
  · rw [readRoutingText_square (by omega) hne, hentries, hread]
  · intro node slot
    rw [hiff]
    constructor
    · rintro (h | ⟨⟨x, y, s⟩, he, rfl, rfl⟩)
      · cases h
      · obtain ⟨q, hq, hcq, hslot⟩ := (mem_table htable).mp he
        exact ⟨q, hq, x, y, hcq, rfl, hslot⟩
    · rintro ⟨q, hq, x, y, hcq, rfl, hslot⟩
      exact Or.inr ⟨(x, y, slot), (mem_table htable).mpr ⟨q, hq, hcq, hslot⟩, rfl, rfl⟩

def oneWorker : Topology where
  workers := [0]
  channels := []

def placedOn (slot : Int) : Placement where
  swarmNodes := 1
  processes :=
    [⟨.phase1, 0, slot, some (0, 0)⟩, ⟨.phase1, 1, 0, some (1, 0)⟩, ⟨.phase2, 0, 0, none⟩]

theorem readRoutingText_generated_two_placed : ∃ content slots,
    generateRoutingText (placedOn 0) "mlp\"0,1\": 7".toList oneWorker [] none = .ok content ∧
    readRoutingText content (2 * 2) = .ok slots ∧ slots 1 = some 0 ∧
    ∀ slot, slots 2 ≠ some slot := by
  obtain ⟨content, h⟩ : ∃ content,
      generateRoutingText (placedOn 0) "mlp\"0,1\": 7".toList oneWorker [] none = .ok content :=
        ⟨_, rfl⟩
  obtain ⟨slots, hread, hiff⟩ := readRoutingText_generated h (w := 2) (by decide)
    (by simp [placedOn, InGrid]) (by simp [placedOn]) (by simp [placedOn])
  refine ⟨content, slots, h, hread, (hiff 1 0).mpr ?_, ?_⟩
  · exact ⟨⟨.phase1, 1, 0, some (1, 0)⟩, by simp [placedOn], 1, 0, rfl, rfl, rfl⟩
  · intro slot hslot
    obtain ⟨p, hp, x, y, hc, hnode, -⟩ := (hiff 2 slot).mp hslot
    simp only [placedOn, List.mem_cons, List.not_mem_nil, or_false] at hp
    rcases hp with rfl | rfl | rfl <;> simp at hc <;> omega

theorem readRoutingText_placedOn (slot : Int) : ∃ content,
    generateRoutingText (placedOn slot) [] oneWorker [] none = .ok content ∧
    readRoutingText content (2 * 2) =
      emplaceEntries 2 (slotEntry (coordKey (0, 0)) (.num slot) ++ [entryText (1, 0, 0)])
        fun _ => none := by
  obtain ⟨content, h⟩ : ∃ content,
      generateRoutingText (placedOn slot) [] oneWorker [] none = .ok content := ⟨_, rfl⟩
  obtain ⟨table, htable, hentries⟩ := generateRoutingText_ok h
  obtain rfl : [(coordKey (0, 0), slot), (coordKey (1, 0), 0)] = table := Except.ok.inj htable
  have hlist : coordinateEntries content = slotEntry (coordKey (0, 0)) (.num slot) ++
      [entryText (1, 0, 0)] :=
    hentries
  refine ⟨content, h, ?_⟩
  rw [← hlist]
  exact readRoutingText_square (by decide) (by simp [hlist])

/-- Without a placed coordinate the routing is refused. A negative slot drops its
coordinate, and a slot of more than 32 bits is reduced. -/
theorem generated_routing_not_read :
    (∃ content, generateRoutingText ⟨1, [⟨.phase2, 0, 0, none⟩]⟩ [] oneWorker [] none =
      .ok content ∧
      readRoutingText content (1 * 1) =
        .error "worker routing has no coordinate_to_worker_slot entries") ∧
    (∃ content slots, generateRoutingText (placedOn (-1)) [] oneWorker [] none = .ok content ∧
      readRoutingText content (2 * 2) = .ok slots ∧ slots 0 = none) ∧
    ∃ content slots, generateRoutingText (placedOn (2 ^ 32)) [] oneWorker [] none = .ok content ∧
      readRoutingText content (2 * 2) = .ok slots ∧ slots 0 = some 0 := by
  refine ⟨?_, ?_, ?_⟩
  · obtain ⟨content, h⟩ : ∃ content,
        generateRoutingText ⟨1, [⟨.phase2, 0, 0, none⟩]⟩ [] oneWorker [] none = .ok content :=
          ⟨_, rfl⟩
    obtain ⟨table, htable, hentries⟩ := generateRoutingText_ok h
    obtain rfl : [] = table := Except.ok.inj htable
    have hempty : coordinateEntries content = [] := hentries
    have hsqrt : Nat.sqrt (1 * 1) = 1 := Nat.sqrt_eq 1
    exact ⟨content, h, by rw [readRoutingText, hsqrt, hempty]; rfl⟩
  · obtain ⟨content, h, hread⟩ := readRoutingText_placedOn (-1)
    obtain ⟨slots, hslots⟩ : ∃ slots, emplaceEntries 2 [entryText (1, 0, 0)] (fun _ => none) =
        .ok slots :=
      ⟨_, rfl⟩
    refine ⟨content, slots, h, hread.trans hslots, ?_⟩
    cases hslots
    rfl
  · obtain ⟨content, h, hread⟩ := readRoutingText_placedOn (2 ^ 32)
    obtain ⟨slots, hslots⟩ : ∃ slots,
        emplaceEntries 2 [entryText (0, 0, 2 ^ 32), entryText (1, 0, 0)]
        (fun _ => none) = .ok slots := ⟨_, rfl⟩
    refine ⟨content, slots, h, hread.trans hslots, ?_⟩
    cases hslots
    rfl

end RoundTrip

end ChipSystemSim
