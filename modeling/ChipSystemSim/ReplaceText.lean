import ChipSystemSim.Decimal
import Mathlib.Data.List.Infix

/-! Replacing every occurrence of a text. For a replacement that keeps the text
and adds something after it, the result has the same occurrences of any other
text that does not run across the end of an addition. -/

namespace ChipSystemSim

/-- `str.replace`; the number is what is left to skip of an occurrence. -/
def replaceAll (old new : Text) : Nat → Text → Text
  | _, [] => []
  | skip + 1, _ :: t => replaceAll old new skip t
  | 0, c :: t =>
    if old <+: c :: t then new ++ replaceAll old new (old.length - 1) t
    else c :: replaceAll old new 0 t

/-- `str.replace` with the count 1. -/
def replaceFirst (old new : Text) : Text → Text
  | [] => []
  | c :: t =>
    if old <+: c :: t then new ++ (c :: t).drop old.length else c :: replaceFirst old new t

/-- An occurrence of `b` can begin before the end of an occurrence of `a` and end after it. -/
def Overlaps (a b : Text) : Prop := ∃ p ∈ b.inits, p ≠ [] ∧ p ≠ b ∧ (p <:+ a ∨ a <:+ p)

instance (a b : Text) : Decidable (Overlaps a b) :=
  inferInstanceAs (Decidable (∃ p ∈ b.inits, p ≠ [] ∧ p ≠ b ∧ (p <:+ a ∨ a <:+ p)))

/-- No occurrence of `b` has a part in common with the text `ins`. -/
def Foreign (b ins : Text) : Prop :=
  ins ≠ [] ∧ (∀ c ∈ ins.head?, c ∉ b) ∧ (∀ c ∈ ins.getLast?, c ∉ b) ∧ ¬ b <:+: ins

instance (b ins : Text) : Decidable (Foreign b ins) :=
  decidable_of_iff (ins ≠ [] ∧ ins.head?.all (· ∉ b) ∧ ins.getLast?.all (· ∉ b) ∧
    ¬ b <:+: ins) <| by
    simp only [Foreign, Option.all_eq_true, decide_eq_true_eq, Option.mem_def]

section

variable {a b new t u ins : Text}

theorem replaceAll_skip (a t : Text) :
    replaceAll b new a.length (a ++ t) = replaceAll b new 0 t := by
  induction a with
  | nil => rfl
  | cons c a ih => simpa [replaceAll] using ih

theorem replaceAll_found (h : a ≠ []) (u : Text) :
    replaceAll a new 0 (a ++ u) = new ++ replaceAll a new 0 u := by
  obtain ⟨c, l, rfl⟩ := List.exists_cons_of_ne_nil h
  have hp : c :: l <+: c :: (l ++ u) := ⟨u, rfl⟩
  rw [List.cons_append, replaceAll, if_pos hp, List.length_cons, Nat.add_sub_cancel,
    replaceAll_skip]

theorem replaceAll_absent (h : ¬ a <:+: t) : replaceAll a new 0 t = t := by
  induction t with
  | nil => rfl
  | cons c t ih =>
    rw [List.infix_cons_iff, not_or] at h
    rw [replaceAll, if_neg h.1, ih h.2]

/-- The first occurrence is replaced, and the text after it is searched again. -/
theorem replaceAll_cases (h : a ≠ []) (new t : Text) :
    ¬ a <:+: t ∨ ∃ s u, t = s ++ a ++ u ∧ replaceAll a new 0 t = s ++ new ++
      replaceAll a new 0 u := by
  induction t with
  | nil =>
    left
    simpa using h
  | cons c t ih =>
    by_cases hp : a <+: c :: t
    · obtain ⟨u, hu⟩ := hp
      refine Or.inr ⟨[], u, by simpa using hu.symm, ?_⟩
      rw [← hu, replaceAll_found h]
      rfl
    · rcases ih with hno | ⟨s, u, rfl, hs⟩
      · left
        rw [List.infix_cons_iff, not_or]
        exact ⟨hp, hno⟩
      · refine Or.inr ⟨c :: s, u, rfl, ?_⟩
        rw [replaceAll, if_neg hp, hs]
        rfl

theorem replaceFirst_absent (h : ¬ a <:+: t) : replaceFirst a new t = t := by
  induction t with
  | nil => rfl
  | cons c t ih =>
    rw [List.infix_cons_iff, not_or] at h
    rw [replaceFirst, if_neg h.1, ih h.2]

theorem replaceFirst_cases (h : a ≠ []) (new t : Text) :
    ¬ a <:+: t ∨ ∃ s u, t = s ++ a ++ u ∧ replaceFirst a new t = s ++ new ++ u := by
  induction t with
  | nil =>
    left
    simpa using h
  | cons c t ih =>
    by_cases hp : a <+: c :: t
    · obtain ⟨u, hu⟩ := hp
      refine Or.inr ⟨[], u, by simpa using hu.symm, ?_⟩
      rw [replaceFirst, if_pos ⟨u, hu⟩, ← hu, List.drop_left]
      rfl
    · rcases ih with hno | ⟨s, u, rfl, hs⟩
      · left
        rw [List.infix_cons_iff, not_or]
        exact ⟨hp, hno⟩
      · refine Or.inr ⟨c :: s, u, rfl, ?_⟩
        rw [replaceFirst, if_neg hp, hs]
        rfl

theorem getLast?_of_suffix {p : Text} (hp : p ≠ []) (ha : a ≠ []) (h : p <:+ a ∨ a <:+ p) :
    p.getLast? = a.getLast? := by
  rcases h with ⟨r, rfl⟩ | ⟨r, rfl⟩
  · exact (List.getLast?_append_of_ne_nil r hp).symm
  · exact List.getLast?_append_of_ne_nil r ha

/-- The last character of `a` is in `b` at most once, and there `b` does not agree with `a`. -/
theorem not_overlaps {e : Char} {b₁ b₂ : Text} (he : a.getLast? = some e) (hfirst : e ∉ b₁.dropLast)
    (hsecond : e ∉ b₂) (h : b₁ = [] ∨ b₂ = [] ∨ ¬ (b₁ <:+ a ∨ a <:+ b₁)) :
    ¬ Overlaps a (b₁ ++ b₂) := by
  rintro ⟨p, hp, hne, hproper, hcross⟩
  have ha : a ≠ [] := by
    rintro rfl
    cases he
  have hlast := (getLast?_of_suffix hne ha hcross).trans he
  have hwhole : p ≠ b₁ := by
    rintro rfl
    rcases h with h | h | h
    · exact hne h
    · exact hproper (by rw [h, List.append_nil])
    · exact h hcross
  rw [List.mem_inits] at hp
  rcases List.prefix_or_prefix_of_prefix hp (List.prefix_append b₁ b₂) with ⟨r, rfl⟩ | ⟨q, rfl⟩
  · -- `p` ends before the end of the first part
    have hr : r ≠ [] := by
      rintro rfl
      simp at hwhole
    rw [List.dropLast_append_of_ne_nil hr] at hfirst
    exact hfirst (List.mem_append_left _ (List.mem_of_getLast? hlast))
  · have hq : q ≠ [] := by
      rintro rfl
      simp at hwhole
    rw [List.getLast?_append_of_ne_nil b₁ hq] at hlast
    exact hsecond (((List.prefix_append_right_inj b₁).mp hp).mem (List.mem_of_getLast? hlast))

theorem Foreign.of_mem {e : Char} (hne : ins ≠ []) (hfirst : ∀ c ∈ ins.head?, c ∉ b)
    (hlast : ∀ c ∈ ins.getLast?, c ∉ b) (he : e ∈ b) (hins : e ∉ ins) : Foreign b ins :=
  ⟨hne, hfirst, hlast, fun hb => hins (hb.mem he)⟩

theorem infix_of_not_overlaps (h : ¬ Overlaps a b) {s : Text} (hb : b <:+: s ++ a ++ u) :
    b <:+: s ++ a ∨ b <:+: u := by
  rcases List.infix_append_iff_ne_nil.mp hb with hs | hu | ⟨p, q, hp, hq, rfl, hsuffix, -⟩
  · exact Or.inl hs
  · exact Or.inr hu
  · refine absurd ⟨p, ?_, hp, ?_, ?_⟩ h
    · rw [List.mem_inits]
      exact List.prefix_append p q
    · simpa using hq
    · exact List.suffix_or_suffix_of_suffix hsuffix (List.suffix_append s a)

theorem Foreign.infix_or (h : Foreign b ins) {x y : Text} (hb : b <:+: x ++ ins ++ y) :
    b <:+: x ∨ b <:+: y := by
  obtain ⟨hne, hfirst, hlast, hinside⟩ := h
  rcases List.infix_append_iff_ne_nil.mp hb with hx | hy | ⟨p, q, hp, -, rfl, hsuffix, -⟩
  · rcases List.infix_append_iff_ne_nil.mp hx with hx | hin | ⟨p, q, -, hq, rfl, -, hstarts⟩
    · exact Or.inl hx
    · exact absurd hin hinside
    · -- the first character of the addition would be in `b`
      obtain ⟨c, l, rfl⟩ := List.exists_cons_of_ne_nil hq
      obtain ⟨r, rfl⟩ := hstarts
      exact absurd (List.mem_append_right p List.mem_cons_self) (hfirst c rfl)
  · exact Or.inr hy
  · -- and here the last one
    have hlastp : p.getLast? = ins.getLast? := by
      obtain ⟨r, hr⟩ := hsuffix
      rw [← List.getLast?_append_of_ne_nil r hp, hr, List.getLast?_append_of_ne_nil x hne]
    have hmem := List.getLast_mem hp
    refine absurd (List.mem_append_left q hmem) (hlast _ ?_)
    rw [← hlastp, List.getLast?_eq_some_getLast hp]
    exact rfl

theorem infix_replaceAll (ha : a ≠ []) (h : ¬ Overlaps a b) (ins : Text) (hb : b <:+: t) :
    b <:+: replaceAll a (a ++ ins) 0 t := by
  induction hn : t.length using Nat.strong_induction_on generalizing t with
  | _ n ih =>
    rcases replaceAll_cases ha (a ++ ins) t with hno | ⟨s, u, rfl, hreplace⟩
    · rwa [replaceAll_absent hno]
    · have hshort : u.length < n := by
        have := List.length_pos_iff.mpr ha
        simp only [List.length_append] at hn
        omega
      rw [hreplace]
      rcases infix_of_not_overlaps h hb with hs | hu
      · rw [← List.append_assoc, List.append_assoc]
        exact hs.trans (List.prefix_append _ _).isInfix
      · exact (ih _ hshort hu rfl).trans (List.suffix_append _ _).isInfix

theorem infix_of_infix_replaceAll (ha : a ≠ []) (h : Foreign b ins)
    (hb : b <:+: replaceAll a (a ++ ins) 0 t) : b <:+: t := by
  induction hn : t.length using Nat.strong_induction_on generalizing t with
  | _ n ih =>
    rcases replaceAll_cases ha (a ++ ins) t with hno | ⟨s, u, rfl, hreplace⟩
    · rwa [replaceAll_absent hno] at hb
    · have hshort : u.length < n := by
        have := List.length_pos_iff.mpr ha
        simp only [List.length_append] at hn
        omega
      rw [hreplace, ← List.append_assoc] at hb
      rcases h.infix_or hb with hs | hu
      · exact hs.trans (List.prefix_append _ _).isInfix
      · exact (ih _ hshort hu rfl).trans (List.suffix_append _ _).isInfix

/-- The replacement is in the result where there was something to replace. -/
theorem replacement_infix (ha : a ≠ []) (new : Text) (h : a <:+: t) :
    new <:+: replaceAll a new 0 t := by
  rcases replaceAll_cases ha new t with hno | ⟨s, u, rfl, hreplace⟩
  · exact absurd h hno
  · rw [hreplace]
    exact List.infix_append s new _

theorem infix_replaceFirst (ha : a ≠ []) (h : ¬ Overlaps a b) (hb : b <:+: t) :
    b <:+: replaceFirst a (a ++ ins) t := by
  rcases replaceFirst_cases ha (a ++ ins) t with hno | ⟨s, u, rfl, hreplace⟩
  · rwa [replaceFirst_absent hno]
  · rw [hreplace]
    rcases infix_of_not_overlaps h hb with hs | hu
    · rw [← List.append_assoc, List.append_assoc]
      exact hs.trans (List.prefix_append _ _).isInfix
    · exact hu.trans (List.suffix_append _ _).isInfix

theorem replacement_infix_first (ha : a ≠ []) (h : a <:+: t) : new <:+: replaceFirst a new t := by
  rcases replaceFirst_cases ha new t with hno | ⟨s, u, rfl, hreplace⟩
  · exact absurd h hno
  · rw [hreplace]
    exact List.infix_append s new u

end

end ChipSystemSim
