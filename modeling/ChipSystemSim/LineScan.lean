import ChipSystemSim.Decimal
import Mathlib.Data.List.Infix

/-! Searching the lines of a log. A scanner built of literals and of runs of
characters, none of which has a line end, finds in a text what it finds in its
lines, one after the other. -/

namespace ChipSystemSim

variable {β : Type}

/-- A scanner that does not look past a line end. -/
structure LineScan (m : Text → Option (β × Text)) : Prop where
  stops : ∀ u rest, m (u ++ '\n' :: rest) = (m u).map fun p => (p.1, p.2 ++ '\n' :: rest)
  suffix : ∀ u p, m u = some p → p.2 <:+ u

theorem dropPrefix?_line {p : Text} (hp : '\n' ∉ p) (u rest : Text) :
    (u ++ '\n' :: rest).dropPrefix? p = (u.dropPrefix? p).map (· ++ '\n' :: rest) := by
  induction p generalizing u with
  | nil => simp
  | cons c p ih =>
    rw [List.mem_cons, not_or] at hp
    cases u with
    | nil =>
      have hne : ('\n' == c) = false := by simpa using hp.1
      simp [List.dropPrefix?, hne]
    | cons d u =>
      simp only [List.cons_append, List.dropPrefix?]
      split
      · exact ih hp.2 u
      · rfl

theorem dropPrefix?_suffix {p u t : Text} (h : u.dropPrefix? p = some t) : t <:+ u := by
  obtain ⟨p', rfl, -⟩ := List.dropPrefix?_eq_some_iff.mp h
  exact List.suffix_append p' t

theorem takeWhile_line_end {p : Char → Bool} (hp : p '\n' = false) (u rest : Text) :
    (u ++ '\n' :: rest).takeWhile p = u.takeWhile p ∧
      (u ++ '\n' :: rest).dropWhile p = u.dropWhile p ++ '\n' :: rest := by
  induction u with
  | nil => simp [hp]
  | cons c u ih =>
    simp only [List.cons_append, List.takeWhile_cons, List.dropWhile_cons, ih.1]
    split
    · exact ⟨trivial, ih.2⟩
    · exact ⟨trivial, rfl⟩

theorem scanSome_line {p : Char → Bool} (hp : p '\n' = false) (u rest : Text) :
    scanSome p (u ++ '\n' :: rest) = (scanSome p u).map fun x => (x.1, x.2 ++ '\n' :: rest) := by
  obtain ⟨htake, hdrop⟩ := takeWhile_line_end hp u rest
  rw [scanSome, scanSome, htake, hdrop]
  split <;> rfl

theorem scanSome_suffix {p : Char → Bool} {u : Text} {x : Text × Text} (h : scanSome p u = some x) :
    x.2 <:+ u := by
  obtain ⟨hsplit, -⟩ := scanSome_eq_some h
  exact ⟨x.1, hsplit.symm⟩

theorem LineScan.pure (b : β) : LineScan fun t => some (b, t) :=
  ⟨fun _ _ => rfl, fun _ _ h => by cases h; exact List.suffix_rfl⟩

theorem LineScan.literal {p : Text} {k : Text → Option (β × Text)} (hp : '\n' ∉ p)
    (hk : LineScan k) : LineScan fun t => t.dropPrefix? p >>= k := by
  constructor
  · intro u rest
    simp only [dropPrefix?_line hp]
    cases u.dropPrefix? p with
    | none => rfl
    | some t => exact hk.stops t rest
  · intro u x hx
    simp only [Option.bind_eq_bind, Option.bind_eq_some_iff] at hx
    obtain ⟨t, ht, hx⟩ := hx
    exact (hk.suffix t x hx).trans (dropPrefix?_suffix ht)

theorem LineScan.run {p : Char → Bool} {k : Text × Text → Option (β × Text)} (hp : p '\n' = false)
    (hk : ∀ a, LineScan fun t => k (a, t)) : LineScan fun t => scanSome p t >>= k := by
  constructor
  · intro u rest
    simp only [scanSome_line hp]
    cases scanSome p u with
    | none => rfl
    | some x => exact (hk x.1).stops x.2 rest
  · intro u x hx
    simp only [Option.bind_eq_bind, Option.bind_eq_some_iff] at hx
    obtain ⟨y, hy, hx⟩ := hx
    exact ((hk y.1).suffix y.2 x hx).trans (scanSome_suffix hy)

section Lines

variable {m : Text → Option (β × Text)}

theorem findAll_line (hm : LineScan m) (hnil : m [] = none) (u rest : Text) :
    findAll m 0 (u ++ '\n' :: rest) = findAll m 0 u ++ findAll m 0 rest := by
  induction hn : u.length using Nat.strong_induction_on generalizing u with
  | _ n ih =>
    cases u with
    | nil =>
      have hend : m ('\n' :: rest) = none := by
        have := hm.stops [] rest
        rwa [hnil] at this
      exact findAll_none hend
    | cons c u =>
      rw [List.length_cons] at hn
      have hstops := hm.stops (c :: u) rest
      rw [List.cons_append] at hstops ⊢
      cases hc : m (c :: u) with
      | none =>
        rw [hc] at hstops
        rw [findAll_none hstops, findAll_none hc]
        exact ih u.length (by omega) u rfl
      | some p =>
        obtain ⟨b, r⟩ := p
        obtain ⟨a, ha⟩ : r <:+ c :: u := hm.suffix _ _ hc
        rw [hc, Option.map_some] at hstops
        dsimp only at hstops
        cases a with
        | nil =>
          -- an empty match: the search goes on behind the first character
          rw [List.nil_append] at ha
          have hskip : ∀ t : Text, u.length + t.length - (r.length + t.length) = 0 := by
            intro t
            rw [ha, List.length_cons]
            omega
          have hzero := hskip []
          simp only [List.length_nil, Nat.add_zero] at hzero
          simp only [findAll, hstops, hc, List.length_append, hskip, hzero, List.cons_append]
          rw [ih u.length (by omega) u rfl]
        | cons d a =>
          rw [List.cons_append, List.cons.injEq] at ha
          obtain ⟨rfl, rfl⟩ := ha
          have hshort : r.length < n := by
            rw [List.length_append] at hn
            omega
          rw [List.append_assoc] at hstops ⊢
          rw [findAll_some hstops, findAll_some hc, ih r.length hshort r rfl, List.cons_append]

theorem findAll_lines (hm : LineScan m) (hnil : m [] = none) (lines : List Text) :
    findAll m 0 (['\n'].intercalate lines) = lines.flatMap (findAll m 0) := by
  induction lines with
  | nil => rfl
  | cons l lines ih =>
    cases lines with
    | nil => simp
    | cons l' lines =>
      rw [List.intercalate_cons_cons, List.append_assoc, List.singleton_append,
        findAll_line hm hnil, ih]
      rfl

end Lines

section Marker

/-- A literal whose first character stands nowhere else in it. -/
def Marker (lit : Text) : Prop := ∃ c l, lit = c :: l ∧ c ∉ l

variable {lit lead t : Text} {m : Text → Option (β × Text)}

theorem dropPrefix?_none {p t : Text} (h : ¬ p <+: t) : t.dropPrefix? p = none := by
  cases hd : t.dropPrefix? p with
  | none => rfl
  | some rest =>
    obtain ⟨p', rfl, hp⟩ := List.dropPrefix?_eq_some_iff.mp hd
    rw [beq_iff_eq.mp hp] at h
    exact absurd (List.prefix_append p rest) h

/-- A marker begins at its own first character and nowhere before it. -/
theorem Marker.not_prefix_before {u v : Text} {c : Char} (hlit : Marker lit)
    (hlead : ¬ lit <:+: lead) (hv : lead = u ++ c :: v) : ¬ lit <+: c :: (v ++ (lit ++ t)) := by
  obtain ⟨first, l, hl, hfirst⟩ := hlit
  intro h
  rw [← List.cons_append] at h
  rcases List.prefix_or_prefix_of_prefix h (List.prefix_append (c :: v) (lit ++ t)) with hin | hin
  · exact hlead (hin.isInfix.trans (hv ▸ (List.suffix_append u (c :: v)).isInfix))
  · -- the second first character would stand inside the literal
    obtain ⟨r, hr⟩ := hin
    cases r with
    | nil =>
      rw [List.append_nil] at hr
      exact hlead (hr ▸ hv ▸ (List.suffix_append u (c :: v)).isInfix)
    | cons d r =>
      rw [← hr, List.prefix_append_right_inj, List.append_assoc, List.cons_append,
        List.cons_prefix_cons] at h
      rw [hl, List.cons_append, List.cons.injEq] at hr
      refine hfirst ?_
      rw [← hr.2, ← hr.1, ← h.1]
      simp

theorem findAll_unmarked (hm : ∀ t, ¬ lit <+: t → m t = none) (h : ¬ lit <:+: t) :
    findAll m 0 t = [] := by
  rw [← List.append_nil t]
  refine findAll_append fun u c v hv => ?_
  rw [List.append_nil]
  exact hm _ fun hstarts => h (hstarts.isInfix.trans (hv ▸ (List.suffix_append u (c :: v)).isInfix))

theorem findAll_lead (hm : ∀ t, ¬ lit <+: t → m t = none) (hlit : Marker lit)
    (h : ¬ lit <:+: lead) : findAll m 0 (lead ++ (lit ++ t)) = findAll m 0 (lit ++ t) :=
  findAll_append fun _ _ _ hv => hm _ (hlit.not_prefix_before h hv)

theorem findAll_unmatched (hm : ∀ t, ¬ lit <+: t → m t = none) (hlit : Marker lit)
    (hnone : m (lit ++ t) = none) (ht : ∀ c ∈ t, lit.head? ≠ some c) :
    findAll m 0 (lit ++ t) = [] := by
  obtain ⟨first, l, rfl, hfirst⟩ := hlit
  rw [← List.append_nil (first :: l ++ t)]
  refine findAll_append fun u c v hv => ?_
  rw [List.append_nil]
  cases u with
  | nil =>
    rw [List.nil_append] at hv
    rw [← hv, hnone]
  | cons d u =>
    refine hm _ fun hstarts => ?_
    rw [List.cons_prefix_cons] at hstarts
    rw [List.cons_append, List.cons_append, List.cons.injEq] at hv
    have hmem : first ∈ l ++ t := by
      rw [hv.2, hstarts.1]
      simp
    rcases List.mem_append.mp hmem with hin | hin
    · exact hfirst hin
    · exact ht first hin rfl

end Marker

end ChipSystemSim
