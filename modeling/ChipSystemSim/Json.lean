import ChipSystemSim.Decimal

/-! JSON values and the text that Python's `json.dumps` makes of them. -/

namespace Json

open ChipSystemSim (Text decimal)

def hexDigit (n : Nat) : Char := Char.ofNat (if n < 10 then 48 + n else 87 + n)

/-- `\uXXXX`. -/
def escapeUnit (n : Nat) : Text :=
  ['\\', 'u', hexDigit (n / 4096 % 16), hexDigit (n / 256 % 16), hexDigit (n / 16 % 16),
    hexDigit (n % 16)]

def escapeChar (c : Char) : Text :=
  if c = '"' then ['\\', '"']
  else if c = '\\' then ['\\', '\\']
  else if c = '\n' then ['\\', 'n']
  else if c = '\r' then ['\\', 'r']
  else if c = '\t' then ['\\', 't']
  else if c.toNat = 8 then ['\\', 'b']
  else if c.toNat = 12 then ['\\', 'f']
  else if 32 ≤ c.toNat ∧ c.toNat ≤ 126 then [c]
  else if c.toNat < 0x10000 then escapeUnit c.toNat
  else
    escapeUnit (0xD800 + (c.toNat - 0x10000) / 1024) ++
      escapeUnit (0xDC00 + (c.toNat - 0x10000) % 1024)

def escape (s : Text) : Text := s.flatMap escapeChar

def quote (s : Text) : Text := '"' :: (escape s ++ ['"'])

inductive Value where
  | null
  | num (z : Int)
  | str (s : Text)
  | arr (items : List Value)
  | obj (members : List (Text × Value))

def newline (level : Nat) : Text := '\n' :: List.replicate (2 * level) ' '

mutual

/-- `json.dumps(value, indent=2)`, from an indentation level on. -/
def indented (level : Nat) : Value → Text
  | .null => "null".toList
  | .num z => decimal z
  | .str s => quote s
  | .arr [] => "[]".toList
  | .arr items =>
    '[' :: ([','].intercalate (indentedItems (level + 1) items) ++ newline level ++ [']'])
  | .obj [] => "\x7b\x7d".toList
  | .obj members =>
    '{' :: ([','].intercalate (indentedMembers (level + 1) members) ++ newline level ++ ['}'])

def indentedItems (level : Nat) : List Value → List Text
  | [] => []
  | item :: items => (newline level ++ indented level item) :: indentedItems level items

def indentedMembers (level : Nat) : List (Text × Value) → List Text
  | [] => []
  | member :: members => indentedMember level member :: indentedMembers level members

def indentedMember (level : Nat) : Text × Value → Text
  | (key, value) => newline level ++ (quote key ++ ([':', ' '] ++ indented level value))

end

section Escaping

/-- Every quote is behind a backslash. -/
def Escaped (e : Text) : Prop := ∀ a b, e = a ++ '"' :: b → ∃ a', a = a' ++ ['\\']

theorem hexDigit_ne_quote : ∀ n < 16, hexDigit n ≠ '"' := by decide

theorem quote_notMem_escapeUnit (n : Nat) : '"' ∉ escapeUnit n := by
  have h : ∀ m : Nat, hexDigit (m % 16) ≠ '"' :=
    fun m => hexDigit_ne_quote _ (Nat.mod_lt m (by decide))
  simp only [escapeUnit, List.mem_cons, List.not_mem_nil, or_false, not_or]
  exact ⟨by decide, by decide, (h _).symm, (h _).symm, (h _).symm, (h _).symm⟩

theorem quote_notMem_escapeChar {c : Char} (h : c ≠ '"') : '"' ∉ escapeChar c := by
  unfold escapeChar
  rw [if_neg h]
  split_ifs
  all_goals simp [quote_notMem_escapeUnit, Ne.symm h]

theorem escapeChar_cases (c : Char) : escapeChar c = ['\\', '"'] ∨ '"' ∉ escapeChar c := by
  by_cases hq : c = '"'
  · left
    simp [escapeChar, hq]
  · exact Or.inr (quote_notMem_escapeChar hq)

theorem escaped_escape (s : Text) : Escaped (escape s) := by
  induction s with
  | nil =>
    intro a b h
    simp [escape] at h
  | cons c s ih =>
    intro a b h
    rw [escape, List.flatMap_cons] at h
    rcases List.append_eq_append_iff.mp h with ⟨a', ha, hb⟩ | ⟨b', ha, hb⟩
    · obtain ⟨a'', rfl⟩ := ih a' b hb
      exact ⟨escapeChar c ++ a'', by rw [ha, List.append_assoc]⟩
    · cases b' with
      | nil =>
        obtain ⟨a', ha'⟩ := ih [] b hb.symm
        simp at ha'
      | cons d b' =>
        obtain rfl : '"' = d := (List.cons.inj hb).1
        rcases escapeChar_cases c with hc | hc
        · rw [hc] at ha
          cases a with
          | nil => cases ha
          | cons d a =>
            cases a with
            | nil => exact ⟨[], by rw [(List.cons.inj ha).1]; rfl⟩
            | cons d' a => simp at ha
        · exact absurd (ha ▸ by simp) hc

theorem Escaped.after {e a b : Text} (h : Escaped e) (he : e = a ++ '"' :: b) : Escaped b := by
  intro c d hb
  obtain ⟨a', ha'⟩ := h (a ++ '"' :: c) d (by rw [he, hb]; simp)
  rcases List.eq_nil_or_concat c with rfl | ⟨c', x, rfl⟩
  · have := congrArg List.getLast? ha'
    simp at this
  · have hlast : (a ++ '"' :: c') ++ [x] = a' ++ ['\\'] := by simpa using ha'
    have hx := List.append_inj_right' hlast rfl
    exact ⟨c', by rw [List.concat_eq_append, hx]⟩

theorem quote_notMem_escape {s : Text} (h : '"' ∉ s) : '"' ∉ escape s := by
  intro hm
  obtain ⟨c, hc, hq⟩ := List.mem_flatMap.mp hm
  refine quote_notMem_escapeChar ?_ hq
  rintro rfl
  exact h hc

end Escaping

end Json
