import ChipSystemSim.Json

/-! The compact JSON text of a value, and a reader that gives the value back.
The reader knows the values that `Json.Value` has: no fractions and no booleans. -/

namespace Json

open ChipSystemSim (Text decimal scanInt scanInt_decimal StopsDigits stopsDigits_cons decimal_chars)

mutual

/-- `json.dumps(value, separators=(",", ":"))`. -/
def compact : Value → Text
  | .null => "null".toList
  | .num z => decimal z
  | .str s => quote s
  | .arr items => '[' :: ([','].intercalate (compactItems items) ++ [']'])
  | .obj members => '{' :: ([','].intercalate (compactMembers members) ++ ['}'])

def compactItems : List Value → List Text
  | [] => []
  | item :: items => compact item :: compactItems items

def compactMembers : List (Text × Value) → List Text
  | [] => []
  | member :: members => compactMember member :: compactMembers members

def compactMember : Text × Value → Text
  | (key, value) => quote key ++ ':' :: compact value

end

def hexValue (c : Char) : Option Nat :=
  if c.isDigit then some (c.toNat - 48)
  else if 97 ≤ c.toNat ∧ c.toNat ≤ 102 then some (c.toNat - 87)
  else if 65 ≤ c.toNat ∧ c.toNat ≤ 70 then some (c.toNat - 55)
  else none

def readUnit : Text → Option (Nat × Text)
  | a :: b :: c :: d :: t => do
    let a ← hexValue a
    let b ← hexValue b
    let c ← hexValue c
    let d ← hexValue d
    return (((a * 16 + b) * 16 + c) * 16 + d, t)
  | _ => none

def unescape : Char → Option Char
  | '"' => some '"'
  | '\\' => some '\\'
  | '/' => some '/'
  | 'b' => some (Char.ofNat 8)
  | 'f' => some (Char.ofNat 12)
  | 'n' => some '\n'
  | 'r' => some '\r'
  | 't' => some '\t'
  | _ => none

def fromSurrogates (high low : Nat) : Nat := 0x10000 + (high - 0xD800) * 1024 + (low - 0xDC00)

/-- The second half of a surrogate pair. -/
def readLow (high : Nat) : Text → Option (Char × Text)
  | '\\' :: 'u' :: t => do
    let (low, t) ← readUnit t
    if 0xDC00 ≤ low ∧ low < 0xE000 then
      some (Char.ofNat (fromSurrogates high low), t)
    else none
  | _ => none

def readChar : Text → Option (Char × Text)
  | '\\' :: 'u' :: t => do
    let (n, t) ← readUnit t
    if 0xD800 ≤ n ∧ n < 0xDC00 then readLow n t
    else if 0xDC00 ≤ n ∧ n < 0xE000 then none
    else some (Char.ofNat n, t)
  | '\\' :: c :: t => (unescape c).map (·, t)
  | c :: t => if c = '\\' ∨ c.toNat < 32 then none else some (c, t)
  | [] => none

/-- The rest of a string after its opening quote. -/
def readString : Nat → Text → Option (Text × Text)
  | 0, _ => none
  | _ + 1, '"' :: t => some ([], t)
  | fuel + 1, t => do
    let (c, t) ← readChar t
    let (s, t) ← readString fuel t
    return (c :: s, t)

def isBlank (c : Char) : Bool := c = ' ' || c = '\t' || c = '\n' || c = '\r'

def intValue : Text → Int
  | '-' :: digits => -(Nat.ofDigitChars 10 digits 0 : Int)
  | digits => Nat.ofDigitChars 10 digits 0

def readInt (t : Text) : Option (Int × Text) := do
  let (digits, t) ← scanInt t
  if decimal (intValue digits) = digits ∨ digits = ['-', '0'] then some (intValue digits, t)
  else none

def readKey (fuel : Nat) (t : Text) : Option (Text × Text) :=
  match t.dropWhile isBlank with
  | '"' :: t => do
    let (key, t) ← readString fuel t
    let t ← (t.dropWhile isBlank).dropPrefix? [':']
    return (key, t)
  | _ => none

mutual

def readValue : Nat → Text → Option (Value × Text)
  | 0, _ => none
  | fuel + 1, t =>
    match t.dropWhile isBlank with
    | '"' :: t => (readString (t.length + 1) t).map fun (s, t) => (.str s, t)
    | 'n' :: 'u' :: 'l' :: 'l' :: t => some (.null, t)
    | '[' :: t =>
      match t.dropWhile isBlank with
      | ']' :: t => some (.arr [], t)
      | t => (readItems fuel t).map fun (items, t) => (.arr items, t)
    | '{' :: t =>
      match t.dropWhile isBlank with
      | '}' :: t => some (.obj [], t)
      | t => (readMembers fuel t).map fun (members, t) => (.obj members, t)
    | t => (readInt t).map fun (z, t) => (.num z, t)

def readItems : Nat → Text → Option (List Value × Text)
  | 0, _ => none
  | fuel + 1, t => do
    let (item, t) ← readValue fuel t
    match t.dropWhile isBlank with
    | ']' :: t => return ([item], t)
    | ',' :: t =>
      let (items, t) ← readItems fuel t
      return (item :: items, t)
    | _ => none

def readMembers : Nat → Text → Option (List (Text × Value) × Text)
  | 0, _ => none
  | fuel + 1, t => do
    let (key, t) ← readKey (t.length + 1) t
    let (value, t) ← readValue fuel t
    match t.dropWhile isBlank with
    | '}' :: t => return ([(key, value)], t)
    | ',' :: t =>
      let (members, t) ← readMembers fuel t
      return ((key, value) :: members, t)
    | _ => none

end

def loads (t : Text) : Option Value := do
  let (value, rest) ← readValue (t.length + 1) t
  if rest.all isBlank then some value else none

/-- `value.get(key)` of a dictionary, in which the last of equal keys stays. -/
def Value.get (key : Text) : Value → Option Value
  | .obj members => members.reverse.lookup key
  | _ => none

def Value.text : Value → Option Text
  | .str s => some s
  | _ => none

def Value.texts : Value → Option (List Text)
  | .arr items => items.mapM Value.text
  | _ => none

theorem texts_map (l : List Text) : Value.texts (.arr (l.map .str)) = some l := by
  rw [Value.texts, List.mapM_map]
  exact (List.mapM_pure (m := Option) (l := l) (f := id)).trans (by simp)

section Strings

theorem hexValue_hexDigit : ∀ n < 16, hexValue (hexDigit n) = some n := by decide

theorem readUnit_escapeUnit {n : Nat} (h : n < 0x10000) (t : Text) :
    ∃ u, escapeUnit n ++ t = '\\' :: 'u' :: u ∧ readUnit u = some (n, t) := by
  refine ⟨hexDigit (n / 4096 % 16) :: hexDigit (n / 256 % 16) :: hexDigit (n / 16 % 16) ::
    hexDigit (n % 16) :: t, rfl, ?_⟩
  have hdigit : ∀ m : Nat, hexValue (hexDigit (m % 16)) = some (m % 16) :=
    fun m => hexValue_hexDigit _ (Nat.mod_lt m (by decide))
  have hsum : ((n / 4096 % 16 * 16 + n / 256 % 16) * 16 + n / 16 % 16) * 16 + n % 16 = n := by omega
  simp only [readUnit, hdigit, Option.bind_eq_bind, Option.bind_some, Option.pure_def, hsum]

theorem toNat_cases (c : Char) : c.toNat < 0xD800 ∨ (0xDFFF < c.toNat ∧ c.toNat < 0x110000) := by
  exact c.valid

theorem readChar_plain {c : Char} {t : Text} (h : c ≠ '\\') (h32 : 32 ≤ c.toNat) :
    readChar (c :: t) = some (c, t) := by
  have hnot : ¬(c = '\\' ∨ c.toNat < 32) := by
    simp only [h, false_or]
    omega
  unfold readChar
  split
  · simp_all
  · simp_all
  · rename_i heq
    obtain ⟨rfl, rfl⟩ := List.cons.inj heq
    rw [if_neg hnot]
  · simp_all

theorem readChar_unit {c : Char} (h : c.toNat < 0x10000) (t : Text) :
    readChar (escapeUnit c.toNat ++ t) = some (c, t) := by
  have hvalid := toNat_cases c
  obtain ⟨u, hu, hunit⟩ := readUnit_escapeUnit h t
  have hhigh : ¬(0xD800 ≤ c.toNat ∧ c.toNat < 0xDC00) := by omega
  have hlow : ¬(0xDC00 ≤ c.toNat ∧ c.toNat < 0xE000) := by omega
  rw [hu]
  simp only [readChar, hunit, Option.bind_eq_bind, Option.bind_some, if_neg hhigh, if_neg hlow,
    Char.ofNat_toNat]

theorem readLow_escapeUnit {high low : Nat} {c : Char} {t v : Text}
    (h : fromSurrogates high low = c.toNat) (hrange : 0xDC00 ≤ low ∧ low < 0xE000)
    (hv : readUnit v = some (low, t)) : readLow high ('\\' :: 'u' :: v) = some (c, t) := by
  rw [readLow, hv]
  simp only [Option.bind_eq_bind, Option.bind_some]
  rw [if_pos hrange, h, Char.ofNat_toNat]

theorem readChar_high {high : Nat} {c : Char} {t u v : Text}
    (hrange : 0xD800 ≤ high ∧ high < 0xDC00) (hu : readUnit u = some (high, v))
    (h : readLow high v = some (c, t)) : readChar ('\\' :: 'u' :: u) = some (c, t) := by
  rw [readChar, hu]
  simp only [Option.bind_eq_bind, Option.bind_some]
  rw [if_pos hrange, h]

theorem readChar_pair {c : Char} (h : 0x10000 ≤ c.toNat) (t : Text) :
    readChar ((escapeUnit (0xD800 + (c.toNat - 0x10000) / 1024) ++
      escapeUnit (0xDC00 + (c.toNat - 0x10000) % 1024)) ++ t) = some (c, t) := by
  have hvalid := toNat_cases c
  obtain ⟨v, hv, hlow⟩ := readUnit_escapeUnit (n := 0xDC00 + (c.toNat - 0x10000) % 1024)
    (by omega) t
  obtain ⟨u, hu, hhigh⟩ := readUnit_escapeUnit (n := 0xD800 + (c.toNat - 0x10000) / 1024) (by omega)
    ('\\' :: 'u' :: v)
  rw [List.append_assoc, hv, hu]
  refine readChar_high (by omega) hhigh (readLow_escapeUnit ?_ (by omega) hlow)
  unfold fromSurrogates
  omega

theorem readChar_short {c e : Char} (h : unescape e = some c) (t : Text) :
    readChar (['\\', e] ++ t) = some (c, t) := by
  have he : e ≠ 'u' := by
    rintro rfl
    cases h
  simp [readChar, h]

theorem readChar_escapeChar (c : Char) (t : Text) : readChar (escapeChar c ++ t) = some (c, t) := by
  have hofNat : ∀ n : Nat, c.toNat = n → Char.ofNat n = c :=
    fun n hn => by rw [← hn, Char.ofNat_toNat]
  unfold escapeChar
  by_cases hquote : c = '"'
  · rw [if_pos hquote, hquote]
    exact readChar_short rfl t
  rw [if_neg hquote]
  by_cases hslash : c = '\\'
  · rw [if_pos hslash, hslash]
    exact readChar_short rfl t
  rw [if_neg hslash]
  by_cases hn : c = '\n'
  · rw [if_pos hn, hn]
    exact readChar_short rfl t
  rw [if_neg hn]
  by_cases hr : c = '\r'
  · rw [if_pos hr, hr]
    exact readChar_short rfl t
  rw [if_neg hr]
  by_cases ht : c = '\t'
  · rw [if_pos ht, ht]
    exact readChar_short rfl t
  rw [if_neg ht]
  by_cases hb : c.toNat = 8
  · rw [if_pos hb, ← hofNat 8 hb]
    exact readChar_short rfl t
  rw [if_neg hb]
  by_cases hf : c.toNat = 12
  · rw [if_pos hf, ← hofNat 12 hf]
    exact readChar_short rfl t
  rw [if_neg hf]
  split
  · rename_i hprint
    exact readChar_plain hslash hprint.1
  · split
    · rename_i hunit
      exact readChar_unit hunit t
    · exact readChar_pair (by omega) t

theorem escapeChar_head (c : Char) : ∃ d u, escapeChar c = d :: u ∧ d ≠ '"' := by
  cases h : escapeChar c with
  | nil =>
    have := readChar_escapeChar c []
    rw [h] at this
    cases this
  | cons d u =>
    refine ⟨d, u, rfl, ?_⟩
    rintro rfl
    rcases escapeChar_cases c with hc | hc
    · rw [hc] at h
      cases h
    · exact hc (by simp [h])

theorem length_le_escape (s : Text) : s.length ≤ (escape s).length := by
  induction s with
  | nil => exact Nat.zero_le _
  | cons c s ih =>
    obtain ⟨d, u, hhead, -⟩ := escapeChar_head c
    simp only [escape, List.flatMap_cons, hhead, List.length_append, List.length_cons] at ih ⊢
    omega

theorem readString_escape {s : Text} {fuel : Nat} (h : s.length < fuel) (t : Text) :
    readString fuel (escape s ++ '"' :: t) = some (s, t) := by
  induction s generalizing fuel with
  | nil =>
    obtain ⟨fuel, rfl⟩ := Nat.exists_eq_add_one.mpr h
    rfl
  | cons c s ih =>
    obtain ⟨fuel, rfl⟩ := Nat.exists_eq_add_one.mpr (Nat.zero_lt_of_lt h)
    obtain ⟨d, u, hhead, hd⟩ := escapeChar_head c
    have htext : escape (c :: s) ++ '"' :: t = escapeChar c ++ (escape s ++ '"' :: t) := by
      simp [escape]
    have hstep : readString (fuel + 1) (escapeChar c ++ (escape s ++ '"' :: t)) = do
        let (c, t) ← readChar (escapeChar c ++ (escape s ++ '"' :: t))
        let (s, t) ← readString fuel t
        return (c :: s, t) := by
      rw [hhead, List.cons_append, readString]
      exact fun t ht => hd (List.cons.inj ht).1
    rw [htext, hstep, readChar_escapeChar]
    simp [ih (by simpa using h)]

end Strings

section Values

mutual

def size : Value → Nat
  | .null => 1
  | .num _ => 1
  | .str _ => 1
  | .arr items => sizeItems items + 1
  | .obj members => sizeMembers members + 1

def sizeItems : List Value → Nat
  | [] => 0
  | item :: items => size item + sizeItems items + 1

def sizeMembers : List (Text × Value) → Nat
  | [] => 0
  | member :: members => sizeMember member + sizeMembers members + 1

def sizeMember : Text × Value → Nat
  | (_, value) => size value

end

theorem intValue_decimal (z : Int) : intValue (decimal z) = z := by
  cases z with
  | ofNat n =>
    obtain ⟨c, t, ht, hc⟩ := ChipSystemSim.toDigits_cons n
    have hne : c ≠ '-' := ChipSystemSim.digit_ne hc (by decide)
    have hvalue : Nat.ofDigitChars 10 (Nat.toDigits 10 n) 0 = n := Nat.ofDigitChars_ten_toDigits
    rw [ht] at hvalue
    have htext : decimal (Int.ofNat n) = c :: t := ht
    rw [htext, intValue, hvalue]
    · rfl
    · exact fun digits h => hne (List.cons.inj h).1
  | negSucc n =>
    have hvalue : Nat.ofDigitChars 10 (Nat.toDigits 10 (n + 1)) 0 = n + 1 :=
      Nat.ofDigitChars_ten_toDigits
    rw [decimal, intValue, hvalue]
    rfl

theorem readInt_decimal (z : Int) {t : Text} (h : StopsDigits t) :
    readInt (decimal z ++ t) = some (z, t) := by
  simp only [readInt, scanInt_decimal z h, Option.bind_eq_bind, Option.bind_some,
    intValue_decimal, true_or, if_true]

theorem dropWhile_blank {c : Char} (h : isBlank c = false) (t : Text) :
    (c :: t).dropWhile isBlank = c :: t := List.dropWhile_cons_of_neg (by simp [h])

def Starts (c : Char) : Prop :=
  c = '"' ∨ c = 'n' ∨ c = '[' ∨ c = '{' ∨ c = '-' ∨ c.isDigit = true

theorem Starts.not_blank {c : Char} (h : Starts c) : isBlank c = false ∧ c ≠ ']' ∧ c ≠ '}' := by
  rcases h with rfl | rfl | rfl | rfl | rfl | h
  · decide
  · decide
  · decide
  · decide
  · decide
  · have hne : ∀ e : Char, e.isDigit = false → c ≠ e := fun e he => ChipSystemSim.digit_ne h he
    simp [isBlank, hne]

theorem decimal_head (z : Int) : ∃ c t, decimal z = c :: t ∧ (c = '-' ∨ c.isDigit = true) := by
  cases h : decimal z with
  | nil =>
    cases z with
    | ofNat n => exact absurd h Nat.toDigits_ne_nil
    | negSucc n => cases h
  | cons c t => exact ⟨c, t, rfl, decimal_chars (z := z) (by simp [h])⟩

theorem compact_head (v : Value) : ∃ c t, compact v = c :: t ∧ Starts c := by
  cases v with
  | null => exact ⟨'n', _, rfl, by simp [Starts]⟩
  | num z =>
    obtain ⟨c, t, ht, hc⟩ := decimal_head z
    exact ⟨c, t, ht, Or.inr (Or.inr (Or.inr (Or.inr hc)))⟩
  | str s => exact ⟨'"', _, rfl, by simp [Starts]⟩
  | arr items => exact ⟨'[', _, rfl, by simp [Starts]⟩
  | obj members => exact ⟨'{', _, rfl, by simp [Starts]⟩

theorem readValue_int {fuel : Nat} {c : Char} {t : Text} (h : c = '-' ∨ c.isDigit = true) :
    readValue (fuel + 1) (c :: t) = (readInt (c :: t)).map fun (z, t) => (.num z, t) := by
  have hstart : Starts c := Or.inr (Or.inr (Or.inr (Or.inr h)))
  have hne : ∀ e : Char, e ≠ '-' → e.isDigit = false → c ≠ e := by
    intro e hminus hdigit
    rintro rfl
    rcases h with h | h
    · exact hminus h
    · rw [h] at hdigit
      cases hdigit
  rw [readValue, dropWhile_blank hstart.not_blank.1]
  split
  · rename_i heq
    exact absurd (List.cons.inj heq).1 (hne _ (by decide) (by decide))
  · rename_i heq
    exact absurd (List.cons.inj heq).1 (hne _ (by decide) (by decide))
  · rename_i heq
    exact absurd (List.cons.inj heq).1 (hne _ (by decide) (by decide))
  · rename_i heq
    exact absurd (List.cons.inj heq).1 (hne _ (by decide) (by decide))
  · rfl

theorem readValue_str {fuel : Nat} (s t : Text) :
    readValue (fuel + 1) (quote s ++ t) = some (.str s, t) := by
  have htext : quote s ++ t = '"' :: (escape s ++ '"' :: t) := by simp [quote]
  have hlength : s.length < (escape s ++ '"' :: t).length + 1 := by
    have := length_le_escape s
    simp only [List.length_append, List.length_cons]
    omega
  rw [htext, readValue, dropWhile_blank (by decide)]
  simp only [readString_escape hlength, Option.map_some]

theorem readKey_quote {fuel : Nat} {key : Text} (h : key.length < fuel) (t : Text) :
    readKey fuel (quote key ++ ':' :: t) = some (key, t) := by
  have htext : quote key ++ ':' :: t = '"' :: (escape key ++ '"' :: ':' :: t) := by simp [quote]
  rw [htext, readKey, dropWhile_blank (by decide)]
  simp only [readString_escape h, Option.bind_eq_bind, Option.bind_some,
    dropWhile_blank (show isBlank ':' = false by decide)]
  simp [List.dropPrefix?]

section Steps

variable {fuel : Nat} {t u v key : Text} {item value : Value} {items : List Value}
  {members : List (Text × Value)}

theorem readItems_last (h : readValue fuel u = some (item, ']' :: t)) :
    readItems (fuel + 1) u = some ([item], t) := by
  rw [readItems, h]
  simp only [Option.bind_eq_bind, Option.bind_some,
    dropWhile_blank (show isBlank ']' = false by decide)]
  rfl

theorem readItems_more (h : readValue fuel u = some (item, ',' :: v))
    (hrest : readItems fuel v = some (items, t)) :
    readItems (fuel + 1) u = some (item :: items, t) := by
  rw [readItems, h]
  simp only [Option.bind_eq_bind, Option.bind_some,
    dropWhile_blank (show isBlank ',' = false by decide), hrest]
  rfl

theorem readMembers_last (hkey : readKey (u.length + 1) u = some (key, v))
    (h : readValue fuel v = some (value, '}' :: t)) :
    readMembers (fuel + 1) u = some ([(key, value)], t) := by
  rw [readMembers, hkey]
  simp only [Option.bind_eq_bind, Option.bind_some, h,
    dropWhile_blank (show isBlank '}' = false by decide)]
  rfl

theorem readMembers_more {w : Text} (hkey : readKey (u.length + 1) u = some (key, v))
    (h : readValue fuel v = some (value, ',' :: w))
    (hrest : readMembers fuel w = some (members, t)) :
    readMembers (fuel + 1) u = some ((key, value) :: members, t) := by
  rw [readMembers, hkey]
  simp only [Option.bind_eq_bind, Option.bind_some, h,
    dropWhile_blank (show isBlank ',' = false by decide), hrest]
  rfl

theorem readValue_arr {c : Char} (hc : Starts c) (h : readItems fuel (c :: u) = some (items, t)) :
    readValue (fuel + 1) ('[' :: c :: u) = some (.arr items, t) := by
  rw [readValue, dropWhile_blank (by decide)]
  simp only [dropWhile_blank hc.not_blank.1]
  split
  · rename_i heq
    exact absurd (List.cons.inj heq).1 hc.not_blank.2.1
  · rw [h]
    rfl

theorem readValue_obj {c : Char} (hc : Starts c)
    (h : readMembers fuel (c :: u) = some (members, t)) :
    readValue (fuel + 1) ('{' :: c :: u) = some (.obj members, t) := by
  rw [readValue, dropWhile_blank (by decide)]
  simp only [dropWhile_blank hc.not_blank.1]
  split
  · rename_i heq
    exact absurd (List.cons.inj heq).1 hc.not_blank.2.2
  · rw [h]
    rfl

end Steps

theorem intercalate_head {l : Text} (ls : List Text) {c : Char} {u : Text} (h : l = c :: u) :
    ∃ v, [','].intercalate (l :: ls) = c :: v := by
  cases ls with
  | nil => exact ⟨u, by rw [List.intercalate_singleton, h]⟩
  | cons l' ls =>
    exact ⟨_, by rw [List.intercalate_cons_cons, h, List.cons_append, List.cons_append]⟩

theorem key_length (key t : Text) : key.length < (quote key ++ t).length + 1 := by
  have := length_le_escape key
  simp only [quote, List.length_append, List.length_cons]
  omega

mutual

-- The induction is over the value; the fuel only has to bound its size.
theorem readValue_compact : ∀ (v : Value) (fuel : Nat) (t : Text), size v ≤ fuel → StopsDigits t →
    readValue fuel (compact v ++ t) = some (v, t)
  | v, 0, _, h, _ => by
    cases v <;> simp [size] at h
  | .null, fuel + 1, t, _, _ => by
    simp only [compact]
    rfl
  | .num z, fuel + 1, t, _, ht => by
    obtain ⟨c, u, hu, hc⟩ := decimal_head z
    have hint := readInt_decimal z ht
    rw [hu] at hint
    rw [compact, hu, List.cons_append, readValue_int hc, ← List.cons_append, hint]
    rfl
  | .str s, fuel + 1, t, _, _ => readValue_str s t
  | .arr [], fuel + 1, t, _, _ => rfl
  | .arr (item :: items), fuel + 1, t, h, _ => by
    have hitems := readItems_compact (item :: items) fuel t (by simp) (by simpa [size] using h)
    obtain ⟨c, u, hu, hc⟩ := compact_head item
    obtain ⟨v, hv⟩ := intercalate_head (compactItems items) hu
    rw [compactItems, hv] at hitems
    have htext : compact (.arr (item :: items)) ++ t = '[' :: c :: (v ++ ']' :: t) := by
      rw [compact, compactItems, hv]
      simp
    rw [htext]
    exact readValue_arr hc hitems
  | .obj [], fuel + 1, t, _, _ => rfl
  | .obj ((key, value) :: members), fuel + 1, t, h, _ => by
    have hmembers := readMembers_compact ((key, value) :: members) fuel t (by simp)
      (by simpa [size] using h)
    obtain ⟨v, hv⟩ := intercalate_head (compactMembers members)
      (show compactMember (key, value) = '"' :: (escape key ++ ['"'] ++ ':' :: compact value) by
        simp [compactMember, quote])
    rw [compactMembers, hv] at hmembers
    have htext : compact (.obj ((key, value) :: members)) ++ t = '{' :: '"' :: (v ++ '}' :: t) := by
      rw [compact, compactMembers, hv]
      simp
    rw [htext]
    exact readValue_obj (Or.inl rfl) hmembers

theorem readItems_compact : ∀ (items : List Value) (fuel : Nat) (t : Text), items ≠ [] →
    sizeItems items ≤ fuel →
    readItems fuel ([','].intercalate (compactItems items) ++ ']' :: t) = some (items, t)
  | [], _, _, h, _ => absurd rfl h
  | item :: items, 0, _, _, h => by simp [sizeItems] at h
  | [item], fuel + 1, t, _, h => by
    simp only [sizeItems] at h
    have hitem := readValue_compact item fuel (']' :: t) (by omega) (stopsDigits_cons (by decide))
    rw [compactItems, compactItems, List.intercalate_singleton]
    exact readItems_last hitem
  | item :: next :: items, fuel + 1, t, _, h => by
    rw [sizeItems] at h
    have hitem := readValue_compact item fuel
      (',' :: ([','].intercalate (compactItems (next :: items)) ++ ']' :: t)) (by omega)
      (stopsDigits_cons (by decide))
    have hitems := readItems_compact (next :: items) fuel t (by simp) (by omega)
    rw [compactItems, compactItems, List.intercalate_cons_cons, ← compactItems]
    simp only [List.append_assoc, List.cons_append, List.nil_append]
    exact readItems_more hitem hitems

theorem readMembers_compact :
    ∀ (members : List (Text × Value)) (fuel : Nat) (t : Text), members ≠ [] →
    sizeMembers members ≤ fuel →
    readMembers fuel ([','].intercalate (compactMembers members) ++ '}' :: t) = some (members, t)
  | [], _, _, h, _ => absurd rfl h
  | member :: members, 0, _, _, h => by simp [sizeMembers] at h
  | [(key, value)], fuel + 1, t, _, h => by
    simp only [sizeMembers, sizeMember] at h
    have hvalue := readValue_compact value fuel ('}' :: t) (by omega) (stopsDigits_cons (by decide))
    rw [compactMembers, compactMembers, List.intercalate_singleton, compactMember,
      List.append_assoc]
    exact readMembers_last (readKey_quote (key_length _ _) _) hvalue
  | (key, value) :: next :: members, fuel + 1, t, _, h => by
    rw [sizeMembers, sizeMember] at h
    have hvalue := readValue_compact value fuel
      (',' :: ([','].intercalate (compactMembers (next :: members)) ++ '}' :: t)) (by omega)
      (stopsDigits_cons (by decide))
    have hmembers := readMembers_compact (next :: members) fuel t (by simp) (by omega)
    rw [compactMembers, compactMembers, List.intercalate_cons_cons, ← compactMembers, compactMember]
    simp only [List.append_assoc, List.cons_append, List.nil_append]
    exact readMembers_more (readKey_quote (key_length _ _) _) hvalue hmembers

end

mutual

theorem size_le_length : ∀ v : Value, size v ≤ (compact v).length
  | .null => by decide
  | .num z => by
    obtain ⟨c, t, ht, -⟩ := decimal_head z
    simp [size, compact, ht]
  | .str s => by simp [size, compact, quote]
  | .arr items => by
    have := sizeItems_le_length items
    simp only [size, compact, List.length_cons, List.length_append, List.length_nil]
    omega
  | .obj members => by
    have := sizeMembers_le_length members
    simp only [size, compact, List.length_cons, List.length_append, List.length_nil]
    omega

theorem sizeItems_le_length : ∀ items : List Value,
    sizeItems items ≤ ([','].intercalate (compactItems items)).length + 1
  | [] => by simp [sizeItems]
  | [item] => by
    have := size_le_length item
    simp only [sizeItems, compactItems, List.intercalate_singleton]
    omega
  | item :: next :: items => by
    have := size_le_length item
    have hrest := sizeItems_le_length (next :: items)
    rw [sizeItems, compactItems, compactItems, List.intercalate_cons_cons, ← compactItems]
    simp only [List.length_append, List.length_singleton]
    omega

theorem sizeMembers_le_length : ∀ members : List (Text × Value),
    sizeMembers members ≤ ([','].intercalate (compactMembers members)).length + 1
  | [] => by simp [sizeMembers]
  | [(key, value)] => by
    have := size_le_length value
    simp only [sizeMembers, sizeMember, compactMembers, List.intercalate_singleton, compactMember,
      List.length_append, List.length_cons]
    omega
  | (key, value) :: next :: members => by
    have := size_le_length value
    have hrest := sizeMembers_le_length (next :: members)
    rw [sizeMembers, sizeMember, compactMembers, compactMembers, List.intercalate_cons_cons,
      ← compactMembers, compactMember]
    simp only [List.length_append, List.length_cons]
    omega

end

theorem loads_compact (v : Value) {blank : Text} (h : ∀ c ∈ blank, isBlank c = true) :
    loads (compact v ++ blank) = some v := by
  have hstops : StopsDigits blank := by
    intro c hc
    have hblank := h c (List.mem_of_head? hc)
    cases hd : c.isDigit with
    | false => rfl
    | true =>
      have hne : ∀ e : Char, e.isDigit = false → c ≠ e := fun e he => ChipSystemSim.digit_ne hd he
      simp [isBlank, hne] at hblank
  have hsize : size v ≤ (compact v ++ blank).length + 1 := by
    have := size_le_length v
    rw [List.length_append]
    omega
  have hread := readValue_compact v _ blank hsize hstops
  have hblank : blank.all isBlank = true := List.all_eq_true.mpr h
  simp only [loads, hread, Option.bind_eq_bind, Option.bind_some, hblank, if_true]

end Values

section Printable

def Printable (c : Char) : Prop := 32 ≤ c.toNat ∧ c.toNat ≤ 126

theorem printable_hexDigit : ∀ n < 16, Printable (hexDigit n) := by
  unfold Printable
  decide

theorem printable_escapeUnit {n : Nat} {c : Char} (h : c ∈ escapeUnit n) : Printable c := by
  have hdigit : ∀ m : Nat, Printable (hexDigit (m % 16)) :=
    fun m => printable_hexDigit _ (Nat.mod_lt m (by decide))
  simp only [escapeUnit, List.mem_cons, List.not_mem_nil, or_false] at h
  rcases h with rfl | rfl | rfl | rfl | rfl | rfl
  · exact ⟨by decide, by decide⟩
  · exact ⟨by decide, by decide⟩
  all_goals exact hdigit _

theorem printable_escapeChar {c d : Char} (h : d ∈ escapeChar c) : Printable d := by
  have hpair : ∀ e : Char, Printable e → d ∈ ['\\', e] → Printable d := by
    intro e he hd
    rcases List.mem_cons.mp hd with rfl | hd
    · exact ⟨by decide, by decide⟩
    · rw [List.mem_singleton.mp hd]
      exact he
  unfold escapeChar at h
  split at h
  · exact hpair _ ⟨by decide, by decide⟩ h
  split at h
  · exact hpair _ ⟨by decide, by decide⟩ h
  split at h
  · exact hpair _ ⟨by decide, by decide⟩ h
  split at h
  · exact hpair _ ⟨by decide, by decide⟩ h
  split at h
  · exact hpair _ ⟨by decide, by decide⟩ h
  split at h
  · exact hpair _ ⟨by decide, by decide⟩ h
  split at h
  · exact hpair _ ⟨by decide, by decide⟩ h
  split at h
  · rename_i hprint
    rw [List.mem_singleton.mp h]
    exact hprint
  split at h
  · exact printable_escapeUnit h
  · rcases List.mem_append.mp h with h | h
    · exact printable_escapeUnit h
    · exact printable_escapeUnit h

theorem printable_quote {s : Text} {c : Char} (h : c ∈ quote s) : Printable c := by
  rcases List.mem_cons.mp h with rfl | h
  · exact ⟨by decide, by decide⟩
  · rcases List.mem_append.mp h with h | h
    · obtain ⟨d, -, hd⟩ := List.mem_flatMap.mp h
      exact printable_escapeChar hd
    · rw [List.mem_singleton.mp h]
      exact ⟨by decide, by decide⟩

theorem printable_decimal {z : Int} {c : Char} (h : c ∈ decimal z) : Printable c := by
  rcases decimal_chars h with rfl | h
  · exact ⟨by decide, by decide⟩
  · have := ChipSystemSim.isDigit_toNat h
    exact ⟨by omega, by omega⟩

theorem printable_commas {ls : List Text} (hls : ∀ l ∈ ls, ∀ c ∈ l, Printable c) {c : Char}
    (h : c ∈ [','].intercalate ls) : Printable c := by
  rcases ChipSystemSim.mem_intercalate h with h | ⟨l, hl, h⟩
  · rw [List.mem_singleton.mp h]
    exact ⟨by decide, by decide⟩
  · exact hls l hl c h

theorem printable_bracket {a b c : Char} {t : Text} (ha : Printable a) (hb : Printable b)
    (ht : ∀ c ∈ t, Printable c) (h : c ∈ a :: (t ++ [b])) : Printable c := by
  rcases List.mem_cons.mp h with rfl | h
  · exact ha
  · rcases List.mem_append.mp h with h | h
    · exact ht c h
    · rw [List.mem_singleton.mp h]
      exact hb

mutual

/-- The compact text is one line of ASCII. -/
theorem printable_compact : ∀ (v : Value), ∀ c ∈ compact v, Printable c
  | .null, c, h => by
    simp only [compact, String.reduceToList, List.mem_cons, List.not_mem_nil, or_false] at h
    rcases h with rfl | rfl | rfl | rfl <;> exact ⟨by decide, by decide⟩
  | .num z, c, h => printable_decimal h
  | .str s, c, h => printable_quote h
  | .arr items, c, h =>
    printable_bracket ⟨by decide, by decide⟩ ⟨by decide, by decide⟩
      (fun _ hc => printable_commas (printable_items items) hc) h
  | .obj members, c, h =>
    printable_bracket ⟨by decide, by decide⟩ ⟨by decide, by decide⟩
      (fun _ hc => printable_commas (printable_members members) hc) h

theorem printable_items : ∀ (items : List Value), ∀ l ∈ compactItems items, ∀ c ∈ l, Printable c
  | [], _, h, _, _ => by cases h
  | item :: items, l, hl, c, hc => by
    rcases List.mem_cons.mp hl with rfl | hl
    · exact printable_compact item c hc
    · exact printable_items items l hl c hc

theorem printable_members :
    ∀ (members : List (Text × Value)), ∀ l ∈ compactMembers members, ∀ c ∈ l, Printable c
  | [], _, h, _, _ => by cases h
  | (key, value) :: members, l, hl, c, hc => by
    rcases List.mem_cons.mp hl with rfl | hl
    · rcases List.mem_append.mp hc with hc | hc
      · exact printable_quote hc
      · rcases List.mem_cons.mp hc with rfl | hc
        · exact ⟨by decide, by decide⟩
        · exact printable_compact value c hc
    · exact printable_members members l hl c hc

end

end Printable

theorem length_le_intercalate {separator x : Text} {l : List Text} (h : x ∈ l) :
    x.length ≤ (separator.intercalate l).length := by
  induction l with
  | nil => cases h
  | cons y l ih =>
    cases l with
    | nil =>
      rw [List.mem_singleton.mp h, List.intercalate_singleton]
    | cons z l =>
      rw [List.intercalate_cons_cons, List.length_append, List.length_append]
      rcases List.mem_cons.mp h with rfl | h
      · omega
      · have := ih h
        omega

theorem compactItems_eq (items : List Value) : compactItems items = items.map compact := by
  induction items with
  | nil => rfl
  | cons item items ih => rw [compactItems, ih, List.map_cons]

theorem compactMembers_eq (members : List (Text × Value)) :
    compactMembers members = members.map compactMember := by
  induction members with
  | nil => rfl
  | cons member members ih => rw [compactMembers, ih, List.map_cons]

theorem length_item_le {items : List Value} {v : Value} (h : v ∈ items) :
    (compact v).length ≤ (compact (.arr items)).length := by
  have hle : (compact v).length ≤ ([','].intercalate (compactItems items)).length :=
    length_le_intercalate (by rw [compactItems_eq]; exact List.mem_map_of_mem h)
  simp only [compact, List.length_cons, List.length_append]
  omega

theorem length_member_le {members : List (Text × Value)} {key : Text} {v : Value}
    (h : (key, v) ∈ members) : (compact v).length ≤ (compact (.obj members)).length := by
  have hle : (compactMember (key, v)).length ≤
      ([','].intercalate (compactMembers members)).length :=
    length_le_intercalate (by rw [compactMembers_eq]; exact List.mem_map_of_mem h)
  simp only [compactMember, List.length_append, List.length_cons] at hle
  simp only [compact, List.length_cons, List.length_append]
  omega

end Json
