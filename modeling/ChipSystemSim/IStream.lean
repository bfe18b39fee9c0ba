import ChipSystemSim.Decimal
import Mathlib.Algebra.Group.Int.Defs

/-! Integers read from a C++ input stream with `>>`, and the words of its text.
The stream takes a sign for any integer type and ends a number at the first
character that is not a digit, so what it reads need not be a word. -/

namespace IStream

open ChipSystemSim (Text takeWhile_append_stop head_dropWhile isDigit_toNat)

def isSpace (c : Char) : Bool := c.toNat = 32 || (9 ≤ c.toNat && c.toNat ≤ 13)

structure Field where
  blank : Text
  sign : Text
  digits : Text

def takeSign : Text → Text × Text
  | '+' :: t => (['+'], t)
  | '-' :: t => (['-'], t)
  | t => ([], t)

/-- White space, a sign and digits, each as far as it goes, and the rest. -/
def lexField (t : Text) : Field × Text :=
  let (sign, u) := takeSign (t.dropWhile isSpace)
  (⟨t.takeWhile isSpace, sign, u.takeWhile Char.isDigit⟩, u.dropWhile Char.isDigit)

inductive IntType where
  | unsigned (width : Nat)
  | signed (width : Nat)
  deriving DecidableEq

def Field.magnitude (f : Field) : Nat := Nat.ofDigitChars 10 f.digits 0

/-- The value of a field. For an unsigned type a minus sign wraps around. -/
def IntType.convert : IntType → Field → Option Int
  | .unsigned width, f =>
    if f.digits = [] ∨ 2 ^ width ≤ f.magnitude then none
    else if f.sign = ['-'] then some ((2 ^ width - f.magnitude) % 2 ^ width : Nat)
    else some f.magnitude
  | .signed width, f =>
    if f.digits = [] then none
    else if f.sign = ['-'] then if 2 ^ (width - 1) < f.magnitude then none else some (-f.magnitude)
    else if 2 ^ (width - 1) ≤ f.magnitude then none
    else some f.magnitude

structure Stream where
  rest : Text
  eofbit : Bool := false
  failbit : Bool := false

def Stream.after (rest : Text) (failbit : Bool) : Stream :=
  { rest, eofbit := rest.isEmpty, failbit }

def Stream.extract (k : IntType) (s : Stream) : Option Int × Stream :=
  if s.eofbit || s.failbit then (none, { s with failbit := true })
  else
    let (f, rest) := lexField s.rest
    match k.convert f with
    | some v => (some v, .after rest false)
    | none => (none, .after rest true)

/-- A chain of extractions: all values, or none if the stream has failed. -/
def Stream.extractAll : List IntType → Stream → Option (List Int) × Stream
  | [], s => (some [], s)
  | k :: ks, s =>
    let (v, s) := s.extract k
    let (vs, s) := extractAll ks s
    (v.bind fun v => vs.map (v :: ·), s)

def words (t : Text) : List Text := (t.splitOnP isSpace).filter (!·.isEmpty)

/-- A word that spells an integer of the type; only a signed one has a sign. -/
def spell (k : IntType) (w : Text) : Option Int :=
  let (f, rest) := lexField w
  match k with
  | .unsigned _ => if f.blank = [] ∧ f.sign = [] ∧ rest = [] then k.convert f else none
  | .signed _ => if f.blank = [] ∧ rest = [] then k.convert f else none

/-- The fields that a chain of extractions reads, with their values. -/
def lexFields : List IntType → Text → Option (List (Field × Int) × Text)
  | [], t => some ([], t)
  | k :: ks, t =>
    match k.convert (lexField t).1 with
    | none => none
    | some v => (lexFields ks (lexField t).2).map fun (fs, rest) =>
      (((lexField t).1, v) :: fs, rest)

/-- The first field that cannot be read goes to the end of the text. -/
def EndsInside : List IntType → Text → Prop
  | [], _ => False
  | k :: ks, t =>
    match k.convert (lexField t).1 with
    | none => (lexField t).2 = []
    | some _ => EndsInside ks (lexField t).2

theorem lexFields_cons {k : IntType} {ks : List IntType} {t rest : Text} {fs : List (Field × Int)} :
    lexFields (k :: ks) t = some (fs, rest) ↔ ∃ v gs, k.convert (lexField t).1 = some v ∧
      lexFields ks (lexField t).2 = some (gs, rest) ∧ fs = ((lexField t).1, v) :: gs := by
  cases hv : k.convert (lexField t).1 with
  | none => simp [lexFields, hv]
  | some v =>
    cases hgs : lexFields ks (lexField t).2 with
    | none => simp [lexFields, hv, hgs]
    | some r =>
      obtain ⟨gs, rest'⟩ := r
      simp only [lexFields, hv, hgs, Option.map_some, Option.some.injEq, Prod.mk.injEq]
      constructor
      · rintro ⟨rfl, rfl⟩
        exact ⟨v, gs, rfl, ⟨rfl, rfl⟩, rfl⟩
      · rintro ⟨v', gs', rfl, ⟨rfl, rfl⟩, rfl⟩
        exact ⟨rfl, rfl⟩

section Extraction

variable {k : IntType} {ks : List IntType} {s : Stream} {t : Text}

/-- A stream that has not failed; at the end of the text it may know so. -/
structure Stream.Reads (s : Stream) (t : Text) : Prop where
  rest : s.rest = t
  failbit : s.failbit = false
  eofbit : s.eofbit = true → t = []

theorem Stream.Reads.extract (h : s.Reads t) : s.extract k =
    (k.convert (lexField t).1, .after (lexField t).2 (k.convert (lexField t).1).isNone) := by
  obtain ⟨rest, eofbit, failbit⟩ := s
  obtain ⟨rfl, rfl, heof⟩ := h
  cases eofbit with
  | true =>
    obtain rfl := heof rfl
    cases k <;> rfl
  | false =>
    simp only [Stream.extract, Bool.or_self, Bool.false_eq_true, if_false]
    cases k.convert (lexField rest).1 <;> rfl

theorem reads_after (t : Text) : (Stream.after t false).Reads t := ⟨rfl, rfl, List.isEmpty_iff.mp⟩

theorem extractAll_failed (ks : List IntType) (h : s.failbit = true) :
    (s.extractAll ks).2.failbit = true ∧ (s.extractAll ks).2.eofbit = s.eofbit := by
  induction ks generalizing s with
  | nil => exact ⟨h, rfl⟩
  | cons k ks ih =>
    have hs : s.extract k = (none, { s with failbit := true }) := by
      simp [Stream.extract, h]
    simp only [Stream.extractAll, hs]
    exact ih rfl

theorem Stream.Reads.extractAll (h : s.Reads t) {fs : List (Field × Int)} {rest : Text}
    (hlex : lexFields ks t = some (fs, rest)) :
    ∃ s' : Stream, s.extractAll ks = (some (fs.map Prod.snd), s') ∧ s'.Reads rest := by
  induction ks generalizing s t fs with
  | nil =>
    cases hlex
    exact ⟨s, rfl, h⟩
  | cons k ks ih =>
    obtain ⟨v, gs, hv, hgs, rfl⟩ := lexFields_cons.mp hlex
    obtain ⟨s', hs', hreads⟩ := ih (reads_after (lexField t).2) hgs
    refine ⟨s', ?_, hreads⟩
    simp only [Stream.extractAll, h.extract, hv, Option.isNone_some, hs']
    rfl

theorem Stream.Reads.extractAll_none (h : s.Reads t) (hlex : lexFields ks t = none) :
    (s.extractAll ks).1 = none ∧ ((s.extractAll ks).2.eofbit = true ↔ EndsInside ks t) := by
  induction ks generalizing s t with
  | nil => cases hlex
  | cons k ks ih =>
    cases hv : k.convert (lexField t).1 with
    | none =>
      have heof := (extractAll_failed ks (s := .after (lexField t).2 true) rfl).2
      simp only [Stream.extractAll, h.extract, hv, Option.isNone_none, heof, EndsInside,
        Option.bind_none, true_and]
      exact List.isEmpty_iff
    | some v =>
      simp only [lexFields, hv, Option.map_eq_none_iff] at hlex
      have hnext := reads_after (lexField t).2
      obtain ⟨hnone, heof⟩ := ih hnext hlex
      simp only [Stream.extractAll, h.extract, hv, Option.isNone_some, hnone, EndsInside, heof]
      simp

theorem endsInside_lexFields (h : EndsInside ks t) : lexFields ks t = none := by
  induction ks generalizing t with
  | nil => cases h
  | cons k ks ih =>
    cases hv : k.convert (lexField t).1 with
    | none => simp [lexFields, hv]
    | some v =>
      simp only [EndsInside, hv] at h
      simp [lexFields, hv, ih h]

end Extraction

section Lexing

theorem isSpace_of_isDigit {c : Char} (h : c.isDigit = true) : isSpace c = false := by
  have := isDigit_toNat h
  simp only [isSpace, Bool.or_eq_false_iff, Bool.and_eq_false_iff, decide_eq_false_iff_not]
  omega

def IsSign (sign : Text) : Prop := sign = [] ∨ sign = ['+'] ∨ sign = ['-']

theorem takeSign_eq (t : Text) : t = (takeSign t).1 ++ (takeSign t).2 ∧ IsSign (takeSign t).1 := by
  unfold takeSign
  split
  · exact ⟨rfl, Or.inr (Or.inl rfl)⟩
  · exact ⟨rfl, Or.inr (Or.inr rfl)⟩
  · exact ⟨rfl, Or.inl rfl⟩

theorem takeSign_append {sign t : Text} (h : IsSign sign)
    (ht : ∀ c, t.head? = some c → c ≠ '+' ∧ c ≠ '-') : takeSign (sign ++ t) = (sign, t) := by
  rcases h with rfl | rfl | rfl
  · cases t with
    | nil => rfl
    | cons c t =>
      obtain ⟨hplus, hminus⟩ := ht c rfl
      simp [takeSign, hplus, hminus]
  · rfl
  · rfl

/-- Where a field starts, ends and what it is made of. -/
structure IsField (f : Field) (rest : Text) : Prop where
  blank : ∀ c ∈ f.blank, isSpace c = true
  sign : IsSign f.sign
  digits : ∀ c ∈ f.digits, c.isDigit = true
  stop : ∀ c, rest.head? = some c → c.isDigit = false

theorem lexField_eq (t : Text) :
    t = (lexField t).1.blank ++ ((lexField t).1.sign ++ ((lexField t).1.digits ++ (lexField t).2)) ∧
      IsField (lexField t).1 (lexField t).2 := by
  obtain ⟨hsplit, hsign⟩ := takeSign_eq (t.dropWhile isSpace)
  refine ⟨?_, fun c hc => List.mem_takeWhile_imp hc, hsign, fun c hc => List.mem_takeWhile_imp hc,
    fun c hc => head_dropWhile _ _ _ hc⟩
  have hspace := List.takeWhile_append_dropWhile (p := isSpace) (l := t)
  have hdigits := List.takeWhile_append_dropWhile (p := Char.isDigit)
    (l := (takeSign (t.dropWhile isSpace)).2)
  conv_lhs => rw [← hspace, hsplit, ← hdigits]
  rfl

theorem lexField_append {f : Field} {rest : Text} (h : IsField f rest) (hne : f.digits ≠ []) :
    lexField (f.blank ++ (f.sign ++ (f.digits ++ rest))) = (f, rest) := by
  obtain ⟨d, ds, hds⟩ := List.exists_cons_of_ne_nil hne
  have hd : d.isDigit = true := h.digits d (by simp [hds])
  have hsignOf : ∀ c, (f.digits ++ rest).head? = some c → c ≠ '+' ∧ c ≠ '-' := by
    intro c hc
    obtain rfl : d = c := by simpa [hds] using hc
    constructor
    · rintro rfl
      exact absurd hd (by decide)
    · rintro rfl
      exact absurd hd (by decide)
  have hspace : ∀ c, (f.sign ++ (f.digits ++ rest)).head? = some c → isSpace c = false := by
    intro c hc
    rcases h.sign with hs | hs | hs
    · obtain rfl : d = c := by simpa [hs, hds] using hc
      exact isSpace_of_isDigit hd
    · obtain rfl : '+' = c := by simpa [hs] using hc
      decide
    · obtain rfl : '-' = c := by simpa [hs] using hc
      decide
  obtain ⟨htake, hdrop⟩ := takeWhile_append_stop h.blank hspace
  obtain ⟨htake', hdrop'⟩ := takeWhile_append_stop h.digits h.stop
  simp only [lexField, htake, hdrop, takeSign_append h.sign hsignOf, htake', hdrop']

theorem lexField_blank {t : Text} (h : ∀ c ∈ t, isSpace c = true) :
    lexField t = (⟨t, [], []⟩, []) := by
  have hdrop : t.dropWhile isSpace = [] := List.dropWhile_eq_nil_iff.mpr h
  have htake : t.takeWhile isSpace = t := List.takeWhile_eq_self_iff.mpr h
  simp [lexField, hdrop, htake, takeSign]

theorem convert_digits {k : IntType} {f : Field} {v : Int} (h : k.convert f = some v) :
    f.digits ≠ [] := by
  intro hnil
  cases k <;> simp [IntType.convert, hnil] at h

theorem lexField_length {k : IntType} {t : Text} {v : Int} (h : k.convert (lexField t).1 = some v) :
    (lexField t).2.length < t.length := by
  have hlength := congrArg List.length (lexField_eq t).1
  have hpos := List.length_pos_of_ne_nil (convert_digits h)
  simp only [List.length_append] at hlength
  omega

theorem lexFields_length {ks : List IntType} {t rest : Text} {fs : List (Field × Int)}
    (h : lexFields ks t = some (fs, rest)) : rest.length + ks.length ≤ t.length := by
  induction ks generalizing t fs with
  | nil =>
    cases h
    exact le_rfl
  | cons k ks ih =>
    obtain ⟨v, gs, hv, hgs, rfl⟩ := lexFields_cons.mp h
    have hle := ih hgs
    have hlt := lexField_length hv
    simp only [List.length_cons]
    omega

/-- What follows a field does not start with a digit. -/
theorem lexFields_stop {k : IntType} {ks : List IntType} {t rest : Text} {fs : List (Field × Int)}
    (h : lexFields (k :: ks) t = some (fs, rest)) :
    ∀ c, rest.head? = some c → c.isDigit = false := by
  induction ks generalizing k t fs with
  | nil =>
    obtain ⟨v, gs, -, hgs, -⟩ := lexFields_cons.mp h
    cases hgs
    exact (lexField_eq t).2.stop
  | cons k' ks ih =>
    obtain ⟨v, gs, -, hgs, -⟩ := lexFields_cons.mp h
    exact ih hgs

theorem convert_blank (k : IntType) (f : Field) (blank : Text) :
    k.convert ⟨blank, f.sign, f.digits⟩ = k.convert f := by
  cases k <;> rfl

end Lexing

section Words

variable {t w rest : Text} {ws : List Text}

def Separated (t : Text) : Prop := ∀ c, t.head? = some c → isSpace c = true

theorem words_cons {c : Char} (h : isSpace c = true) (t : Text) : words (c :: t) = words t := by
  simp [words, List.splitOnP_cons_eq_if_modifyHead, h]

theorem words_blank {blank : Text} (h : ∀ c ∈ blank, isSpace c = true) (t : Text) :
    words (blank ++ t) = words t := by
  induction blank with
  | nil => rfl
  | cons c blank ih =>
    rw [List.cons_append, words_cons (h c List.mem_cons_self), ih fun d hd =>
      h d (List.mem_cons_of_mem c hd)]

theorem words_append (hne : w ≠ []) (hw : ∀ c ∈ w, isSpace c = false) (hrest : Separated rest) :
    words (w ++ rest) = w :: words rest := by
  cases rest with
  | nil => simp [words, List.splitOnP_eq_singleton hw, hne]
  | cons c rest =>
    have hc := hrest c rfl
    rw [words_cons hc, words, List.splitOnP_append_cons_of_forall_mem hw c hc]
    simp [words, hne]

theorem words_split (t : Text) : ((∀ c ∈ t, isSpace c = true) ∧ words t = []) ∨
    ∃ blank w rest, t = blank ++ (w ++ rest) ∧ (∀ c ∈ blank, isSpace c = true) ∧ w ≠ [] ∧
      (∀ c ∈ w, isSpace c = false) ∧ Separated rest ∧ words t = w :: words rest := by
  have hblank : ∀ c ∈ t.takeWhile isSpace, isSpace c = true := fun c hc => List.mem_takeWhile_imp hc
  have hsplit := List.takeWhile_append_dropWhile (p := isSpace) (l := t)
  cases hu : t.dropWhile isSpace with
  | nil =>
    rw [hu, List.append_nil] at hsplit
    rw [hsplit] at hblank
    refine Or.inl ⟨hblank, ?_⟩
    rw [← List.append_nil t, words_blank hblank]
    rfl
  | cons c u =>
    have hc : isSpace c = false := head_dropWhile _ t c (by rw [hu]; rfl)
    let w := (t.dropWhile isSpace).takeWhile (!isSpace ·)
    let rest := (t.dropWhile isSpace).dropWhile (!isSpace ·)
    have hw : ∀ d ∈ w, isSpace d = false := fun d hd => by simpa using List.mem_takeWhile_imp hd
    have hne : w ≠ [] := by simp [w, hu, hc]
    have hrest : Separated rest := fun d hd => by simpa using head_dropWhile _ _ _ hd
    have ht : t = t.takeWhile isSpace ++ (w ++ rest) := by
      rw [List.takeWhile_append_dropWhile, hsplit]
    refine Or.inr ⟨_, w, rest, ht, hblank, hne, hw, hrest, ?_⟩
    conv_lhs => rw [ht]
    rw [words_blank hblank, words_append hne hw hrest]

theorem words_of_blank (h : ∀ c ∈ t, isSpace c = true) : words t = [] := by
  rw [← List.append_nil t, words_blank h]
  rfl

theorem words_eq_nil (h : words t = []) : ∀ c ∈ t, isSpace c = true := by
  rcases words_split t with ⟨hblank, -⟩ | ⟨blank, w, rest, -, -, -, -, -, hwords⟩
  · exact hblank
  · rw [hwords] at h
    cases h

/-- The word of a field that ends where a word may end. -/
theorem words_lexField {k : IntType} {v : Int} (h : k.convert (lexField t).1 = some v)
    (hrest : Separated (lexField t).2) :
    words t = ((lexField t).1.sign ++ (lexField t).1.digits) :: words (lexField t).2 := by
  obtain ⟨ht, hfield⟩ := lexField_eq t
  have hne : (lexField t).1.sign ++ (lexField t).1.digits ≠ [] := by simp [convert_digits h]
  have hw : ∀ c ∈ (lexField t).1.sign ++ (lexField t).1.digits, isSpace c = false := by
    intro c hc
    rcases List.mem_append.mp hc with hc | hc
    · rcases hfield.sign with hs | hs | hs
      · simp [hs] at hc
      · obtain rfl : c = '+' := by simpa [hs] using hc
        decide
      · obtain rfl : c = '-' := by simpa [hs] using hc
        decide
    · exact isSpace_of_isDigit (hfield.digits c hc)
  conv_lhs => rw [ht]
  rw [words_blank hfield.blank, ← List.append_assoc, words_append hne hw hrest]

theorem spell_lexField {k : IntType} {v : Int} (h : k.convert (lexField t).1 = some v)
    (hsign : ∀ width, k = .unsigned width → (lexField t).1.sign = []) :
    spell k ((lexField t).1.sign ++ (lexField t).1.digits) = some v := by
  obtain ⟨-, hfield⟩ := lexField_eq t
  have hdigits : (lexField t).1.digits ≠ [] := convert_digits h
  have hlex := @lexField_append ⟨[], (lexField t).1.sign, (lexField t).1.digits⟩ []
    ⟨by simp, hfield.sign, hfield.digits, by simp⟩ hdigits
  simp only [List.nil_append, List.append_nil] at hlex
  cases k with
  | unsigned width =>
    simp only [spell, hlex, convert_blank]
    simpa only [hsign width rfl, and_self, if_true] using h
  | signed width =>
    simp only [spell, hlex, convert_blank, and_self, if_true]
    exact h

/-- A word that spells an integer is read as that integer. -/
theorem lexField_spell {k : IntType} {v : Int} (h : words t = w :: ws)
    (hspell : spell k w = some v) :
    k.convert (lexField t).1 = some v ∧ words (lexField t).2 = ws ∧ Separated (lexField t).2 ∧
      ∀ width, k = .unsigned width → (lexField t).1.sign = [] := by
  rcases words_split t with ⟨-, hnil⟩ | ⟨blank, w', rest, ht, hblank, hne, hw, hrest, hwords⟩
  · rw [hnil] at h
    cases h
  · rw [hwords] at h
    cases h
    obtain ⟨hwsplit, hfield⟩ := lexField_eq w
    have hparts : (lexField w).1.blank = [] ∧ (lexField w).2 = [] ∧
        k.convert (lexField w).1 = some v ∧
        ∀ width, k = .unsigned width → (lexField w).1.sign = [] := by
      cases k with
      | unsigned width =>
        simp only [spell] at hspell
        split at hspell
        · rename_i hcond
          exact ⟨hcond.1, hcond.2.2, hspell, fun _ _ => hcond.2.1⟩
        · cases hspell
      | signed width =>
        simp only [spell] at hspell
        split at hspell
        · rename_i hcond
          exact ⟨hcond.1, hcond.2, hspell, fun _ hk => by cases hk⟩
        · cases hspell
    obtain ⟨hb, hr, hconvert, hsign⟩ := hparts
    rw [hb, hr, List.nil_append, List.append_nil] at hwsplit
    have hstop : ∀ c, rest.head? = some c → c.isDigit = false := by
      intro c hc
      by_contra hd
      rw [Bool.not_eq_false] at hd
      have := hrest c hc
      rw [isSpace_of_isDigit hd] at this
      cases this
    have hdigits : (lexField w).1.digits ≠ [] := convert_digits hconvert
    have hlex := @lexField_append ⟨blank, (lexField w).1.sign, (lexField w).1.digits⟩ rest
      ⟨hblank, hfield.sign, hfield.digits, hstop⟩ hdigits
    simp only [← List.append_assoc] at hlex
    rw [List.append_assoc blank, ← hwsplit, List.append_assoc, ← ht] at hlex
    rw [hlex]
    exact ⟨by rw [convert_blank]; exact hconvert, rfl, hrest, hsign⟩

/-- A field that is plainly written starts where a word may start. -/
theorem separated_of_field {k : IntType} {v : Int} (h : k.convert (lexField t).1 = some v)
    (ht : ∀ c, t.head? = some c → c.isDigit = false)
    (hplain : (lexField t).1.sign = [] ∨ (lexField t).1.blank ≠ []) : Separated t := by
  intro c hc
  obtain ⟨hsplit, hfield⟩ := lexField_eq t
  cases hblank : (lexField t).1.blank with
  | cons b bs =>
    rw [hsplit, hblank] at hc
    obtain rfl : b = c := by simpa using hc
    exact hfield.blank b (by simp [hblank])
  | nil =>
    have hsign := hplain.resolve_right (by simp [hblank])
    obtain ⟨d, ds, hds⟩ := List.exists_cons_of_ne_nil (convert_digits h)
    rw [hsplit, hblank, hsign, hds] at hc
    obtain rfl : d = c := by simpa using hc
    have hdigit := hfield.digits d (by simp [hds])
    have := ht d (by rw [hsplit, hblank, hsign, hds]; rfl)
    rw [hdigit] at this
    cases this

/-- The integers that the first words spell, and the words after them. -/
def spellAll : List IntType → List Text → Option (List Int × List Text)
  | [], ws => some ([], ws)
  | _ :: _, [] => none
  | k :: ks, w :: ws => do
    let v ← spell k w
    let (vs, ws) ← spellAll ks ws
    return (v :: vs, ws)

/-- Only a signed field has a sign, and it stands apart from the field before. -/
def PlainField : IntType → Field → Prop
  | .unsigned _, f => f.sign = []
  | .signed _, f => f.blank ≠ []

theorem PlainField.or {k : IntType} {f : Field} (h : PlainField k f) :
    f.sign = [] ∨ f.blank ≠ [] := by
  cases k with
  | unsigned width => exact Or.inl h
  | signed width => exact Or.inr h

theorem PlainField.sign {k : IntType} {f : Field} (h : PlainField k f) (width : Nat)
    (hk : k = .unsigned width) : f.sign = [] := by
  subst hk
  exact h

theorem spellAll_lexFields {ks : List IntType} {fs : List (Field × Int)}
    (h : lexFields ks t = some (fs, rest))
    (hplain : List.Forall₂ (fun k f => PlainField k f.1) ks fs) (hrest : Separated rest) :
    spellAll ks (words t) = some (fs.map Prod.snd, words rest) := by
  induction ks generalizing t fs with
  | nil =>
    cases h
    rfl
  | cons k ks ih =>
    obtain ⟨v, gs, hv, hgs, rfl⟩ := lexFields_cons.mp h
    obtain ⟨hfirst, hothers⟩ := List.forall₂_cons.mp hplain
    have hsep : Separated (lexField t).2 := by
      cases ks with
      | nil =>
        cases hgs
        exact hrest
      | cons k' ks =>
        obtain ⟨v', gs', hv', -, rfl⟩ := lexFields_cons.mp hgs
        exact separated_of_field hv' (lexField_eq t).2.stop (List.forall₂_cons.mp hothers).1.or
    rw [words_lexField hv hsep, spellAll, spell_lexField hv hfirst.sign, ih hgs hothers]
    rfl

theorem lexFields_spellAll {ks : List IntType} {vs : List Int}
    (h : spellAll ks (words t) = some (vs, ws))
    (hfirst : ∀ width ks', ks = .signed width :: ks' → Separated t) :
    ∃ fs rest, lexFields ks t = some (fs, rest) ∧ fs.map Prod.snd = vs ∧ words rest = ws ∧
      List.Forall₂ (fun k f => PlainField k f.1) ks fs := by
  induction ks generalizing t vs with
  | nil =>
    cases h
    exact ⟨[], t, rfl, rfl, rfl, .nil⟩
  | cons k ks ih =>
    cases hw : words t with
    | nil =>
      rw [hw] at h
      cases h
    | cons w ws' =>
      rw [hw, spellAll] at h
      simp only [Option.bind_eq_bind, Option.bind_eq_some_iff] at h
      obtain ⟨v, hv, ⟨vs', ws''⟩, hvs, h⟩ := h
      cases h
      obtain ⟨hconvert, hwords, hsep, hsign⟩ := lexField_spell hw hv
      rw [← hwords] at hvs
      obtain ⟨fs, rest, hlex, rfl, hrest, hplain⟩ := ih hvs fun _ _ _ => hsep
      refine ⟨((lexField t).1, v) :: fs, rest, ?_, rfl, hrest, .cons ?_ hplain⟩
      · exact lexFields_cons.mpr ⟨v, fs, hconvert, hlex, rfl⟩
      · cases k with
        | unsigned width => exact hsign width rfl
        | signed width =>
          have hspace := hfirst width ks rfl
          intro hnil
          cases t with
          | nil => cases hw
          | cons c t =>
            have hc := hspace c rfl
            simp [lexField, hc] at hnil

end Words

end IStream
