import Mathlib.Data.List.Basic
import Mathlib.Data.List.DropRight
import Mathlib.Data.List.TakeWhile
import Mathlib.Tactic.Common
import Mathlib.Data.Nat.Digits.Defs

/-! Decimal rendering of integers, the scanners that read it back, and Python's
`int` on a text. Text is a list of characters, so that every scanner is a
structural recursion. -/

namespace ChipSystemSim

abbrev Text := List Char

/-- The rendering shared by Python's `str` and C++'s `operator<<` on integers. -/
def decimal : Int → Text
  | .ofNat n => Nat.toDigits 10 n
  | .negSucc n => '-' :: Nat.toDigits 10 (n + 1)

/-- The longest match of `-?\d+` at the start of a text, with what follows it. -/
def scanInt (t : Text) : Option (Text × Text) :=
  match t with
  | '-' :: rest =>
    if (rest.takeWhile Char.isDigit).isEmpty then none
    else some ('-' :: rest.takeWhile Char.isDigit, rest.dropWhile Char.isDigit)
  | _ =>
    if (t.takeWhile Char.isDigit).isEmpty then none
    else some (t.takeWhile Char.isDigit, t.dropWhile Char.isDigit)

def StopsDigits (t : Text) : Prop := ∀ c, t.head? = some c → c.isDigit = false

theorem stopsDigits_nil : StopsDigits [] := by
  intro c h
  simp at h

theorem stopsDigits_cons {c : Char} {t : Text} (h : c.isDigit = false) : StopsDigits (c :: t) := by
  intro d hd
  simp only [List.head?_cons, Option.some.injEq] at hd
  rwa [← hd]

theorem StopsDigits.takeWhile {t : Text} (h : StopsDigits t) : t.takeWhile Char.isDigit = [] := by
  cases t with
  | nil => rfl
  | cons c t => simp [h c rfl]

theorem StopsDigits.dropWhile {t : Text} (h : StopsDigits t) : t.dropWhile Char.isDigit = t := by
  cases t with
  | nil => rfl
  | cons c t => simp [h c rfl]

theorem toDigits_isDigit {n : Nat} {c : Char} (h : c ∈ Nat.toDigits 10 n) : c.isDigit = true :=
  Nat.isDigit_of_mem_toDigits (by decide) (by decide) h

theorem takeWhile_toDigits (n : Nat) {t : Text} (h : StopsDigits t) :
    (Nat.toDigits 10 n ++ t).takeWhile Char.isDigit = Nat.toDigits 10 n := by
  rw [List.takeWhile_append_of_pos (fun _ hc => toDigits_isDigit hc), h.takeWhile, List.append_nil]

theorem dropWhile_toDigits (n : Nat) {t : Text} (h : StopsDigits t) :
    (Nat.toDigits 10 n ++ t).dropWhile Char.isDigit = t := by
  rw [List.dropWhile_append_of_pos (fun _ hc => toDigits_isDigit hc), h.dropWhile]

theorem toDigits_cons (n : Nat) : ∃ c t, Nat.toDigits 10 n = c :: t ∧ c.isDigit = true := by
  cases h : Nat.toDigits 10 n with
  | nil => exact absurd h Nat.toDigits_ne_nil
  | cons c t => exact ⟨c, t, rfl, toDigits_isDigit (n := n) (by simp [h])⟩

theorem scanInt_decimal (z : Int) {t : Text} (h : StopsDigits t) :
    scanInt (decimal z ++ t) = some (decimal z, t) := by
  cases z with
  | ofNat n =>
    obtain ⟨c, l, hl, hc⟩ := toDigits_cons n
    have hm : c ≠ '-' := by rintro rfl; simp at hc
    have ht := takeWhile_toDigits n h
    have hd := dropWhile_toDigits n h
    simp only [decimal, hl, List.cons_append] at ht hd ⊢
    simp [scanInt, ht, hd, hm]
  | negSucc n =>
    have hne : Nat.toDigits 10 (n + 1) ≠ [] := Nat.toDigits_ne_nil
    simp only [decimal, List.cons_append, scanInt, takeWhile_toDigits (n + 1) h,
      dropWhile_toDigits (n + 1) h, List.isEmpty_iff, hne, if_false]

theorem toDigits_injective {m n : Nat} (h : Nat.toDigits 10 m = Nat.toDigits 10 n) : m = n := by
  have hh := congrArg (fun l => Nat.ofDigitChars 10 l 0) h
  simpa using hh

theorem decimal_injective : Function.Injective decimal := by
  intro a b h
  cases a with
  | ofNat m =>
    cases b with
    | ofNat n => exact congrArg Int.ofNat (toDigits_injective h)
    | negSucc n =>
      obtain ⟨c, l, hl, hc⟩ := toDigits_cons m
      simp only [decimal, hl, List.cons.injEq] at h
      rw [h.1] at hc
      simp at hc
  | negSucc m =>
    cases b with
    | ofNat n =>
      obtain ⟨c, l, hl, hc⟩ := toDigits_cons n
      simp only [decimal, hl, List.cons.injEq] at h
      rw [← h.1] at hc
      simp at hc
    | negSucc n =>
      simp only [decimal, List.cons.injEq, true_and] at h
      have := toDigits_injective h
      exact congrArg Int.negSucc (by omega)

theorem decimal_chars {z : Int} {c : Char} (h : c ∈ decimal z) : c = '-' ∨ c.isDigit = true := by
  cases z with
  | ofNat n => exact Or.inr (toDigits_isDigit h)
  | negSucc n =>
    rcases List.mem_cons.mp h with h | h
    · exact Or.inl h
    · exact Or.inr (toDigits_isDigit h)

theorem toDigits_length_le {n k : Nat} (hk : 0 < k) (h : n < 10 ^ k) :
    (Nat.toDigits 10 n).length ≤ k :=
  (Nat.length_toDigits_le_iff (by decide) hk).mpr h

theorem decimal_length_int32 {z : Int} (h : -2 ^ 31 ≤ z ∧ z < 2 ^ 31) :
    (decimal z).length ≤ 11 := by
  cases z with
  | ofNat n =>
    have hn : n < 10 ^ 11 := by have := h.2; simp at this; omega
    exact toDigits_length_le (by decide) hn
  | negSucc n =>
    have hn : n + 1 < 10 ^ 10 := by have := h.1; omega
    have := toDigits_length_le (by decide) hn
    simp only [decimal, List.length_cons]
    omega

theorem scanInt_eq_some {t a rest : Text} (h : scanInt t = some (a, rest)) :
    t = a ++ rest ∧ ∀ c ∈ a, c = '-' ∨ c.isDigit = true := by
  unfold scanInt at h
  split at h
  · rename_i digits
    split at h
    · cases h
    · cases h
      refine ⟨by simp [List.takeWhile_append_dropWhile], ?_⟩
      intro c hc
      rcases List.mem_cons.mp hc with hc | hc
      · exact Or.inl hc
      · exact Or.inr (List.mem_takeWhile_imp hc)
  · split at h
    · cases h
    · cases h
      exact ⟨by simp [List.takeWhile_append_dropWhile], fun c hc =>
        Or.inr (List.mem_takeWhile_imp hc)⟩

theorem isDigit_toNat {c : Char} (h : c.isDigit = true) : 48 ≤ c.toNat ∧ c.toNat ≤ 57 := by
  simpa using Char.isDigit_iff_toNat.mp h

theorem digit_ne {c e : Char} (h : c.isDigit = true) (he : e.isDigit = false) : c ≠ e := by
  rintro rfl
  rw [h] at he
  cases he

theorem notMem_decimal {m : Nat} {e : Char} (he : e.isDigit = false) : e ∉ decimal m :=
  fun h => digit_ne (toDigits_isDigit (n := m) h) he rfl

/-- One or more characters that satisfy `p`, as many as there are. -/
def scanSome (p : Char → Bool) (t : Text) : Option (Text × Text) :=
  if (t.takeWhile p).isEmpty then none else some (t.takeWhile p, t.dropWhile p)

section Scanning

variable {p : Char → Bool} {t a b : Text}

theorem takeWhile_append_stop (ha : ∀ c ∈ a, p c = true)
    (hb : ∀ c, b.head? = some c → p c = false) :
    (a ++ b).takeWhile p = a ∧ (a ++ b).dropWhile p = b := by
  rw [List.takeWhile_append_of_pos ha, List.dropWhile_append_of_pos ha]
  cases b with
  | nil => simp
  | cons c b => simp [hb c rfl]

theorem head_dropWhile (p : Char → Bool) (t : Text) (c : Char)
    (h : (t.dropWhile p).head? = some c) : p c = false := by
  have := List.head?_dropWhile_not p t
  rw [h] at this
  simpa using this

theorem scanSome_eq_some (h : scanSome p t = some (a, b)) :
    t = a ++ b ∧ a ≠ [] ∧ (∀ c ∈ a, p c = true) ∧ ∀ c, b.head? = some c → p c = false := by
  unfold scanSome at h
  split at h
  · cases h
  · rename_i hne
    cases h
    exact ⟨List.takeWhile_append_dropWhile.symm, by simpa using hne, fun c hc =>
      List.mem_takeWhile_imp hc,
      head_dropWhile p t⟩

theorem scanSome_append (hne : a ≠ []) (ha : ∀ c ∈ a, p c = true)
    (hb : ∀ c, b.head? = some c → p c = false) : scanSome p (a ++ b) = some (a, b) := by
  obtain ⟨htake, hdrop⟩ := takeWhile_append_stop ha hb
  simp [scanSome, htake, hdrop, hne]

end Scanning

/-- The digit zero of every script. -/
def decimalZeros : List Nat :=
  [0x30, 0x660, 0x6f0, 0x7c0, 0x966, 0x9e6, 0xa66, 0xae6, 0xb66, 0xbe6, 0xc66, 0xce6, 0xd66, 0xde6,
    0xe50, 0xed0, 0xf20, 0x1040, 0x1090, 0x17e0, 0x1810, 0x1946, 0x19d0, 0x1a80, 0x1a90, 0x1b50,
    0x1bb0, 0x1c40, 0x1c50, 0xa620, 0xa8d0, 0xa900, 0xa9d0, 0xa9f0, 0xaa50, 0xabf0, 0xff10, 0x104a0,
    0x10d30, 0x11066, 0x110f0, 0x11136, 0x111d0, 0x112f0, 0x11450, 0x114d0, 0x11650, 0x116c0,
    0x11730, 0x118e0, 0x11950, 0x11c50, 0x11d50, 0x11da0, 0x16a60, 0x16b50, 0x1d7ce, 0x1d7d8,
    0x1d7e2, 0x1d7ec, 0x1d7f6, 0x1e140, 0x1e2f0, 0x1e950, 0x1fbf0]

def decimalValue (c : Char) : Option Nat :=
  (decimalZeros.find? fun z => z ≤ c.toNat && c.toNat < z + 10).map (c.toNat - ·)

/-- `\d` of a pattern, the decimal digits of all scripts. -/
def isDecimal (c : Char) : Bool := (decimalValue c).isSome

/-- The white space of Python outside ASCII. -/
def isWideSpace (c : Char) : Bool :=
  [0x85, 0xA0, 0x1680, 0x2028, 0x2029, 0x202F, 0x205F, 0x3000].contains c.toNat ||
    (0x2000 ≤ c.toNat && c.toNat ≤ 0x200A)

/-- The white space that `int` drops at both ends. The separators U+001C to U+001F,
which `str.strip` drops, are not among it. -/
def isPySpace (c : Char) : Bool := (9 ≤ c.toNat && c.toNat ≤ 13) || c.toNat = 32

/-- What `int` makes of a character before it reads the number. -/
def asciiOfInt (c : Char) : Char :=
  if c.toNat < 127 then c
  else if isWideSpace c then ' '
  else
    match decimalValue c with
    | some d => d.digitChar
    | none => c

def pyDigits (t : Text) : Option Nat :=
  if (t.splitOn '_').all (fun part => !part.isEmpty && part.all Char.isDigit) then
    some (Nat.ofDigitChars 10 (t.filter (· != '_')) 0)
  else none

def pyInt (t : Text) : Option Int :=
  match ((t.map asciiOfInt).dropWhile isPySpace).rdropWhile isPySpace with
  | '-' :: digits => (pyDigits digits).map fun n => -(n : Int)
  | '+' :: digits => (pyDigits digits).map Int.ofNat
  | digits => (pyDigits digits).map Int.ofNat

/-- Two hexadecimal digits. -/
def hexByte (n : Nat) : Text := [(n / 16).digitChar, (n % 16).digitChar]

/-- One character of a `repr` within the quotes. -/
def reprChar (quote c : Char) : Text :=
  if c = quote ∨ c = '\\' then ['\\', c]
  else if c = '\t' then ['\\', 't']
  else if c = '\n' then ['\\', 'n']
  else if c = '\r' then ['\\', 'r']
  else if c.toNat < 32 ∨ c.toNat = 127 then '\\' :: 'x' :: hexByte c.toNat
  else [c]

/-- `repr` of a text of ASCII characters: double quotes only around a text with an
apostrophe and no double quote. -/
def asciiRepr (t : Text) : Text :=
  let quote := Char.ofNat (if Char.ofNat 39 ∈ t ∧ Char.ofNat 34 ∉ t then 34 else 39)
  quote :: t.flatMap (reprChar quote) ++ [quote]

theorem asciiOfInt_of_isDigit {c : Char} (h : c.isDigit = true) : asciiOfInt c = c := by
  have := isDigit_toNat h
  exact if_pos (by omega)

theorem pyDigits_toDigits (n : Nat) : pyDigits (Nat.toDigits 10 n) = some n := by
  have hu : '_' ∉ Nat.toDigits 10 n := Nat.underscore_not_in_toDigits
  have hf : (Nat.toDigits 10 n).filter (· != '_') = Nat.toDigits 10 n := by
    refine List.filter_eq_self.mpr fun c hc => ?_
    have : c ≠ '_' := fun he => hu (he ▸ hc)
    simpa using this
  have hall : (Nat.toDigits 10 n).all Char.isDigit = true :=
    List.all_eq_true.mpr fun c hc => toDigits_isDigit hc
  simp [pyDigits, List.splitOn_eq_singleton hu, hf, hall, Nat.toDigits_ne_nil]

theorem pyInt_toDigits (n : Nat) : pyInt (Nat.toDigits 10 n) = some (n : Int) := by
  have hsp : ∀ c ∈ Nat.toDigits 10 n, ¬isPySpace c = true := by
    intro c hc
    have := isDigit_toNat (toDigits_isDigit hc)
    simp only [isPySpace, Bool.or_eq_true, Bool.and_eq_true, decide_eq_true_eq]
    omega
  have hmap : (Nat.toDigits 10 n).map asciiOfInt = Nat.toDigits 10 n :=
    (List.map_congr_left fun c hc => asciiOfInt_of_isDigit (toDigits_isDigit hc)).trans
      (List.map_id' _)
  obtain ⟨c, t, ht, hc⟩ := toDigits_cons n
  have hdrop : (Nat.toDigits 10 n).dropWhile isPySpace = Nat.toDigits 10 n := by
    have := hsp c (by simp [ht])
    simp [ht, this]
  have hrdrop : (Nat.toDigits 10 n).rdropWhile isPySpace = Nat.toDigits 10 n :=
    List.rdropWhile_eq_self_iff.mpr fun hl => hsp _ (List.getLast_mem hl)
  have hp := pyDigits_toDigits n
  unfold pyInt
  rw [hmap, hdrop, hrdrop]
  rw [ht] at hp ⊢
  have hminus : c ≠ '-' := by rintro rfl; simp at hc
  have hplus : c ≠ '+' := by rintro rfl; simp at hc
  split
  · rename_i heq; exact absurd (List.cons.inj heq).1 hminus
  · rename_i heq; exact absurd (List.cons.inj heq).1 hplus
  · simp [hp]

theorem mem_intercalate {sep : Text} {ls : List Text} {c : Char} (h : c ∈ sep.intercalate ls) :
    c ∈ sep ∨ ∃ l ∈ ls, c ∈ l := by
  induction ls with
  | nil => cases h
  | cons l ls ih =>
    cases ls with
    | nil =>
      rw [List.intercalate_singleton] at h
      exact Or.inr ⟨l, by simp, h⟩
    | cons l' ls =>
      rw [List.intercalate_cons_cons] at h
      rcases List.mem_append.mp h with h | h
      · rcases List.mem_append.mp h with h | h
        · exact Or.inr ⟨l, by simp, h⟩
        · exact Or.inl h
      · rcases ih h with h | ⟨m, hm, h⟩
        · exact Or.inl h
        · exact Or.inr ⟨m, List.mem_cons_of_mem l hm, h⟩

section Matches

variable {α β : Type*}

/-- All matches from left to right, where `m` matches at the start of a list and
gives what follows the match. The number is what is left to skip of a match. -/
def findAll (m : List α → Option (β × List α)) : Nat → List α → List β
  | _, [] => []
  | skip + 1, _ :: t => findAll m skip t
  | 0, c :: t =>
    match m (c :: t) with
    | none => findAll m 0 t
    | some (b, rest) => b :: findAll m (t.length - rest.length) t

variable {m : List α → Option (β × List α)}

theorem findAll_skip (a t : List α) : findAll m a.length (a ++ t) = findAll m 0 t := by
  induction a with
  | nil => rfl
  | cons c a ih => simpa [findAll] using ih

theorem findAll_none {c : α} {t : List α} (h : m (c :: t) = none) :
    findAll m 0 (c :: t) = findAll m 0 t := by
  simp only [findAll, h]

theorem findAll_some {c : α} {a rest : List α} {b : β} (h : m (c :: (a ++ rest)) = some (b, rest)) :
    findAll m 0 (c :: (a ++ rest)) = b :: findAll m 0 rest := by
  have hlength : (a ++ rest).length - rest.length = a.length := by simp
  simp only [findAll, h, hlength, findAll_skip]

/-- A part in which no match begins is passed over. -/
theorem findAll_append {a t : List α} (h : ∀ u c v, a = u ++ c :: v → m (c :: (v ++ t)) = none) :
    findAll m 0 (a ++ t) = findAll m 0 t := by
  induction a with
  | nil => rfl
  | cons c a ih =>
    rw [List.cons_append, findAll_none (h [] c a rfl)]
    exact ih fun u d v hv => h (c :: u) d v (by rw [hv, List.cons_append])

end Matches

theorem mapM_eq_ok {α β ε : Type} {f : α → Except ε β} {g : α → β} {l : List α}
    (h : ∀ x ∈ l, f x = .ok (g x)) : l.mapM f = .ok (l.map g) := by
  induction l with
  | nil => rfl
  | cons x l ih =>
    rw [List.mapM_cons, h x List.mem_cons_self, ih fun y hy => h y (List.mem_cons_of_mem _ hy)]
    rfl

end ChipSystemSim
