import ChipSystemSim.TextLines
import ChipSystemSim.RequestHeader

/-! The test limits that a worker sets in its copy of `gpgpusim.config`. The
pattern is a raw string with doubled backslashes, so each of them stands for
itself: `\\s*` is a backslash and any number of the letter s. -/

namespace ChipSystemSim

open TextLines

/-- The white space of `str.rstrip` and of `\s`. -/
def isUnicodeSpace (c : Char) : Bool :=
  isPySpace c || (28 ≤ c.toNat && c.toNat ≤ 31) || isWideSpace c

def rstrip (t : Text) : Text := t.rdropWhile isUnicodeSpace

/-- What `read_text` makes of the line ends. -/
def universalNewlines : Text → Text
  | [] => []
  | '\r' :: '\n' :: t => '\n' :: universalNewlines t
  | c :: t => (if c = '\r' then '\n' else c) :: universalNewlines t

def maxCompletedCta : Text := "-gpgpu_max_completed_cta".toList

def maxInsn : Text := "-gpgpu_max_insn".toList

def endsLine : Text → Bool
  | [] => true
  | c :: _ => c = '#'

/-- The two groups of a match of `^(\\s*OPTION\\s+)\\d+(\\s*(?:#.*)?)$` with a line. -/
def matchEscaped (option line : Text) : Option (Text × Text) := do
  let t ← line.dropPrefix? ['\\']
  let indent := t.takeWhile (· = 's')
  let t ← (t.dropWhile (· = 's')).dropPrefix? option
  let t ← t.dropPrefix? ['\\']
  let (gap, t) ← scanSome (· = 's') t
  let t ← t.dropPrefix? ['\\']
  let (_, tail) ← scanSome (· = 'd') t
  let t ← tail.dropPrefix? ['\\']
  if endsLine (t.dropWhile (· = 's')) then some ('\\' :: indent ++ option ++ '\\' :: gap, tail)
  else none

def replaceLine (option : Text) (maximum : Nat) (line : Text) : Text :=
  match matchEscaped option line with
  | some (before, after) => before ++ decimal maximum ++ after
  | none => line

def escapedCount (option t : Text) : Nat :=
  (t.splitOn '\n').countP fun line => (matchEscaped option line).isSome

/-- `re.subn`: no part of the pattern matches a newline, so a match is a line. -/
def subn (option : Text) (maximum : Nat) (t : Text) : Text × Nat :=
  (['\n'].intercalate ((t.splitOn '\n').map (replaceLine option maximum)), escapedCount option t)

def limitLine (limit : Text × Nat) : Text := limit.1 ++ ' ' :: decimal limit.2

def setLimit (updated : Text) (limit : Text × Nat) : Except String Text :=
  let (replaced, replacements) := subn limit.1 limit.2 updated
  if replacements = 0 then .ok (rstrip updated ++ '\n' :: limitLine limit ++ ['\n'])
  else if replacements ≠ 1 then
    .error ("GPGPU-Sim option " ++ String.ofList limit.1 ++ " was found more than once")
  else .ok replaced

/-- The options whose maximum is not `None`. -/
def requested (maximumCompletedCta maximumInstructions : Option Nat) : List (Text × Nat) :=
  [(maxCompletedCta, maximumCompletedCta), (maxInsn, maximumInstructions)].filterMap fun limit =>
    limit.2.map fun maximum => (limit.1, maximum)

/-- What is written to the configuration, or the error that leaves it alone. -/
def setGpgpuTestLimits (configuration : Option Text)
    (maximumCompletedCta maximumInstructions : Option Nat) : Except String Text :=
  match configuration with
  | none => .error "GPGPU-Sim CTA limit requested but gpgpusim.config is missing"
  | some text =>
    (requested maximumCompletedCta maximumInstructions).foldlM setLimit (universalNewlines text)

/-- An option line is the option and a number, perhaps indented or with a comment. -/
def matchOption (option line : Text) : Option (Text × Text × Text) := do
  let indent := line.takeWhile isUnicodeSpace
  let t ← (line.dropWhile isUnicodeSpace).dropPrefix? option
  let (gap, t) ← scanSome isUnicodeSpace t
  let (digits, tail) ← scanSome Char.isDigit t
  if endsLine (tail.dropWhile isUnicodeSpace) then some (indent ++ option ++ gap, digits, tail)
  else none

def optionCount (option : Text) (lines : List Text) : Nat :=
  lines.countP fun line => (matchOption option line).isSome

def setLine (limits : List (Text × Nat)) (line : Text) : Text :=
  (limits.findSome? fun limit => (matchOption limit.1 line).map fun (before, _, after) =>
    before ++ decimal limit.2 ++ after).getD line

/-- Each option line is rewritten in place, and the options without one follow. -/
structure Applied (limits : List (Text × Nat)) (old new : List Text) : Prop where
  rewritten : new = old.map (setLine limits) ++
    (limits.filter fun limit => optionCount limit.1 old = 0).map limitLine
  once : ∀ limit ∈ limits,
    new.filterMap (fun line => (matchOption limit.1 line).map fun (_, digits, _) => digits) =
      [decimal limit.2]

/-- What the limits are for, on a text and the result for it. -/
structure LimitsSet (text : Text) (maximumCompletedCta maximumInstructions : Option Nat)
    (result : Except String Text) : Prop where
  applied :
    (∀ option ∈ [maxCompletedCta, maxInsn],
    optionCount option (lines (universalNewlines text)) ≤ 1) →
    ∃ new, result = .ok new ∧
      Applied (requested maximumCompletedCta maximumInstructions)
        (lines (universalNewlines text)) (lines new)
  refused : (∃ limit ∈ requested maximumCompletedCta maximumInstructions,
    2 ≤ optionCount limit.1 (lines (universalNewlines text))) → ∃ message, result = .error message

/-- An option starts with a dash and is part of one line. -/
structure OptionName (option : Text) : Prop where
  dash : ∃ name, option = '-' :: name
  backslash : '\\' ∉ option
  newline : '\n' ∉ option

theorem optionName_maxCompletedCta : OptionName maxCompletedCta := ⟨⟨_, rfl⟩, by decide, by decide⟩

theorem optionName_maxInsn : OptionName maxInsn := ⟨⟨_, rfl⟩, by decide, by decide⟩

theorem isUnicodeSpace_of_isDigit {c : Char} (h : c.isDigit = true) : isUnicodeSpace c = false := by
  have := isDigit_toNat h
  simp only [isUnicodeSpace, isPySpace, isWideSpace, List.contains_eq_mem, List.mem_cons,
    List.not_mem_nil, or_false, Bool.or_eq_false_iff, Bool.and_eq_false_iff,
    decide_eq_false_iff_not]
  omega

section OptionLines

variable {option line before digits after : Text}

structure OptionLine (option line before digits after : Text) : Prop where
  split : line = before ++ (digits ++ after)
  before : ∃ indent gap, before = indent ++ (option ++ gap) ∧ gap ≠ [] ∧
    (∀ c ∈ indent, isUnicodeSpace c = true) ∧ ∀ c ∈ gap, isUnicodeSpace c = true
  some_digit : digits ≠ []
  all_digits : ∀ c ∈ digits, c.isDigit = true
  no_digit : ∀ c, after.head? = some c → c.isDigit = false
  ends : endsLine (after.dropWhile isUnicodeSpace) = true

theorem matchOption_eq_some (h : matchOption option line = some (before, digits, after)) :
    OptionLine option line before digits after := by
  simp only [matchOption, Option.bind_eq_bind, Option.bind_eq_some_iff] at h
  obtain ⟨t, ht, ⟨gap, u⟩, hu, ⟨ds, v⟩, hv, h⟩ := h
  split at h
  · rename_i hends
    cases h
    obtain ⟨p, hp, hpeq⟩ := List.dropPrefix?_eq_some_iff.mp ht
    obtain rfl := beq_iff_eq.mp hpeq
    obtain ⟨rfl, hgap, hspace, -⟩ := scanSome_eq_some hu
    obtain ⟨rfl, hne, hdigits, hstop⟩ := scanSome_eq_some hv
    refine ⟨?_, ⟨line.takeWhile isUnicodeSpace, gap, by simp, hgap,
      fun c hc => List.mem_takeWhile_imp hc, hspace⟩, hne, hdigits, hstop, hends⟩
    have hline := List.takeWhile_append_dropWhile (p := isUnicodeSpace) (l := line)
    rw [hp] at hline
    simpa using hline.symm
  · cases h

theorem OptionLine.matchOption (hname : OptionName option)
    (h : OptionLine option line before digits after) :
    matchOption option line = some (before, digits, after) := by
  obtain ⟨rfl, ⟨indent, gap, rfl, hgap, hindent, hspace⟩, hne, hdigits, hstop, hends⟩ := h
  obtain ⟨name, rfl⟩ := hname.dash
  have hfirst : ∀ c, (('-' :: name) ++ (gap ++ (digits ++ after))).head? = some c →
      isUnicodeSpace c = false := by
    intro c hc
    cases hc
    decide
  have hsecond : ∀ c, (digits ++ after).head? = some c → isUnicodeSpace c = false := by
    intro c hc
    cases digits with
    | nil => exact absurd rfl hne
    | cons d ds =>
      obtain rfl : d = c := by simpa using hc
      exact isUnicodeSpace_of_isDigit (hdigits d List.mem_cons_self)
  obtain ⟨htake, hdrop⟩ := takeWhile_append_stop hindent hfirst
  have hassoc : indent ++ ('-' :: name ++ gap) ++ (digits ++ after) =
      indent ++ ('-' :: name ++ (gap ++ (digits ++ after))) := by simp
  simp only [ChipSystemSim.matchOption, hassoc, htake, hdrop, dropPrefix?_append,
    Option.bind_eq_bind, Option.bind_some, scanSome_append hgap hspace hsecond,
    scanSome_append hne hdigits hstop, hends, if_true, List.append_assoc]

theorem matchOption_nil (hname : OptionName option) : (matchOption option []).isSome = false := by
  obtain ⟨name, rfl⟩ := hname.dash
  rfl

/-- White space at the end does not make a line an option line. -/
theorem matchOption_concat (hname : OptionName option) {c : Char} (hc : isUnicodeSpace c = true)
    (h : (matchOption option (line ++ [c])).isSome = true) :
    (matchOption option line).isSome = true := by
  obtain ⟨⟨before, digits, after⟩, hm⟩ := Option.isSome_iff_exists.mp h
  have hl := matchOption_eq_some hm
  have hdigit : c.isDigit = false := by
    by_contra hd
    rw [isUnicodeSpace_of_isDigit (by simpa using hd)] at hc
    cases hc
  -- the digits end with a digit, so the white space is part of what follows them
  obtain ⟨rest, rfl, rfl⟩ : ∃ rest, after = rest ++ [c] ∧ line = before ++ (digits ++ rest) := by
    have hsplit := hl.split
    rcases List.eq_nil_or_concat' after with rfl | ⟨rest, d, rfl⟩
    · obtain ⟨ds, d, rfl⟩ := (List.eq_nil_or_concat' digits).resolve_left hl.some_digit
      have hlast := congrArg List.getLast? hsplit
      simp only [List.append_nil, ← List.append_assoc, List.getLast?_concat,
        Option.some.injEq] at hlast
      rw [hlast, hl.all_digits d (by simp)] at hdigit
      cases hdigit
    · have hlast := congrArg List.getLast? hsplit
      have hinit := congrArg List.dropLast hsplit
      simp only [← List.append_assoc, List.getLast?_concat, Option.some.injEq,
        List.dropLast_concat] at hlast hinit
      exact ⟨rest, by rw [hlast], by rw [hinit, List.append_assoc]⟩
  refine Option.isSome_iff_exists.mpr
    ⟨_, OptionLine.matchOption hname ⟨rfl, hl.before, hl.some_digit, hl.all_digits,
    fun d hd => hl.no_digit d ?_, ?_⟩⟩
  · cases rest with
    | nil => cases hd
    | cons x rest => exact hd
  · have hends := hl.ends
    rw [List.dropWhile_append] at hends
    cases hrest : rest.dropWhile isUnicodeSpace with
    | nil => rfl
    | cons x u => simpa [hrest, endsLine] using hends

end OptionLines

section Escaped

variable {option line before after : Text}

theorem matchEscaped_eq_some (h : matchEscaped option line = some (before, after)) :
    ∃ indent gap ds, before = '\\' :: (indent ++ (option ++ '\\' :: gap)) ∧
      line = before ++ '\\' :: (ds ++ after) ∧ (∀ c ∈ indent, c = 's') ∧ (∀ c ∈ ds, c = 'd') := by
  simp only [matchEscaped, Option.bind_eq_bind, Option.bind_eq_some_iff] at h
  obtain ⟨t, ht, u, hu, v, hv, ⟨gap, w⟩, hw, x, hx, ⟨ds, tail⟩, htail, y, hy, h⟩ := h
  split at h
  · cases h
    obtain ⟨p, rfl, hp⟩ := List.dropPrefix?_eq_some_iff.mp ht
    obtain rfl := beq_iff_eq.mp hp
    obtain ⟨p, hindent, hp⟩ := List.dropPrefix?_eq_some_iff.mp hu
    obtain rfl := beq_iff_eq.mp hp
    obtain ⟨p, rfl, hp⟩ := List.dropPrefix?_eq_some_iff.mp hv
    obtain rfl := beq_iff_eq.mp hp
    obtain ⟨rfl, -, -, -⟩ := scanSome_eq_some hw
    obtain ⟨p, hpx, hp⟩ := List.dropPrefix?_eq_some_iff.mp hx
    obtain rfl := beq_iff_eq.mp hp
    obtain ⟨rfl, -, hds, -⟩ := scanSome_eq_some htail
    refine ⟨t.takeWhile (· = 's'), gap, ds, by simp, ?_, ?_, ?_⟩
    · have hline := List.takeWhile_append_dropWhile (p := (· = 's')) (l := t)
      rw [hindent] at hline
      simp only at hpx
      rw [hpx] at hline
      simpa using hline.symm
    · intro c hc
      simpa using List.mem_takeWhile_imp hc
    · intro c hc
      simpa using hds c hc
  · cases h

/-- A replacement takes one backslash away. -/
theorem count_replaceLine (option : Text) (maximum : Nat) (line : Text) :
    (replaceLine option maximum line).count '\\' + (matchEscaped option line).isSome.toNat =
      line.count '\\' := by
  unfold replaceLine
  cases h : matchEscaped option line with
  | none => simp
  | some groups =>
    obtain ⟨before, after⟩ := groups
    obtain ⟨indent, gap, ds, -, rfl, -, hds⟩ := matchEscaped_eq_some h
    have hzero : (decimal maximum).count '\\' = 0 :=
      List.count_eq_zero.mpr (notMem_decimal (by decide))
    have hds' : ds.count '\\' = 0 :=
      List.count_eq_zero.mpr fun hmem => absurd (hds _ hmem) (by decide)
    simp only [List.count_append, List.count_cons, hzero, hds', Option.isSome_some, Bool.toNat_true,
      beq_self_eq_true, if_true]
    omega

theorem count_subn (option : Text) (maximum : Nat) (t : Text) :
    (subn option maximum t).1.count '\\' + (subn option maximum t).2 = t.count '\\' := by
  have hsum : ∀ ls : List Text, ((ls.map (replaceLine option maximum)).map (List.count '\\')).sum +
      ls.countP (fun line => (matchEscaped option line).isSome) =
        (ls.map (List.count '\\')).sum := by
    intro ls
    induction ls with
    | nil => rfl
    | cons line ls ih =>
      have hline := count_replaceLine option maximum line
      simp only [List.map_cons, List.sum_cons, List.countP_cons]
      cases hm : (matchEscaped option line).isSome with
      | true =>
        simp only [hm, Bool.toNat_true] at hline
        simp only [if_true]
        omega
      | false =>
        simp only [hm, Bool.toNat_false] at hline
        simp only [Bool.false_eq_true, if_false]
        omega
  rw [subn, count_intercalate (by decide), escapedCount, hsum, count_splitOn (by decide)]

end Escaped

section Appending

variable {limits : List (Text × Nat)} {limit : Text × Nat}

theorem count_rstrip (t : Text) : (rstrip t).count '\\' = t.count '\\' := by
  have hsplit := List.rdropWhile_append_rtakeWhile (p := isUnicodeSpace) (l := t)
  have hzero : (t.rtakeWhile isUnicodeSpace).count '\\' = 0 :=
    List.count_eq_zero.mpr fun h => absurd (List.mem_rtakeWhile_imp h) (by decide)
  have hcount := congrArg (List.count '\\') hsplit
  rw [List.count_append, hzero] at hcount
  exact hcount

def appended (t : Text) (limits : List (Text × Nat)) : Text :=
  rstrip t ++ (limits.flatMap (fun limit => '\n' :: limitLine limit) ++ ['\n'])

theorem newline_notMem_limitLine (h : OptionName limit.1) : '\n' ∉ limitLine limit := by
  simp only [limitLine, List.mem_append, List.mem_cons, not_or]
  exact ⟨h.newline, by decide, notMem_decimal (by decide)⟩

theorem backslash_notMem_limitLine (h : OptionName limit.1) : '\\' ∉ limitLine limit := by
  simp only [limitLine, List.mem_append, List.mem_cons, not_or]
  exact ⟨h.backslash, by decide, notMem_decimal (by decide)⟩

theorem splitOn_flatMap (h : ∀ limit ∈ limits, OptionName limit.1) (t : Text) :
    (t ++ limits.flatMap fun limit => '\n' :: limitLine limit).splitOn '\n' =
      t.splitOn '\n' ++ limits.map limitLine := by
  induction limits generalizing t with
  | nil => simp
  | cons limit limits ih =>
    have hline : '\n' ∉ limitLine limit := newline_notMem_limitLine (h limit List.mem_cons_self)
    rw [List.flatMap_cons, List.cons_append, List.splitOn_append_cons_self,
      ih fun x hx => h x (List.mem_cons_of_mem _ hx), List.splitOn_eq_singleton hline]
    rfl

theorem lines_appended (h : ∀ limit ∈ limits, OptionName limit.1) (t : Text) :
    lines (appended t limits) = (rstrip t).splitOn '\n' ++ limits.map limitLine := by
  rw [appended, ← List.append_assoc, lines_append_newline, splitOn_flatMap h]
  exact List.append_nil _

theorem rstrip_newline (t : Text) : rstrip (t ++ ['\n']) = rstrip t :=
  List.rdropWhile_concat_pos _ _ _ (by decide)

theorem rstrip_appended (t : Text) (limits : List (Text × Nat)) :
    rstrip (appended t limits) = rstrip t ++ limits.flatMap fun limit => '\n' ::
      limitLine limit := by
  rw [appended, ← List.append_assoc, rstrip_newline]
  rcases List.eq_nil_or_concat' limits with rfl | ⟨init, limit, rfl⟩
  · rw [List.flatMap_nil, List.append_nil]
    exact List.rdropWhile_idempotent _ _
  · obtain ⟨ds, d, hd⟩ := (List.eq_nil_or_concat' (decimal limit.2)).resolve_left
      Nat.toDigits_ne_nil
    have hmem : d ∈ decimal limit.2 := by simp [hd]
    have hdigit : d.isDigit = true := toDigits_isDigit (n := limit.2) hmem
    have htext : rstrip t ++ (init ++ [limit]).flatMap (fun limit => '\n' :: limitLine limit) =
        (rstrip t ++ init.flatMap (fun limit => '\n' :: limitLine limit) ++ '\n' ::
          (limit.1 ++ ' ' :: ds)) ++
          [d] := by
      simp [limitLine, hd]
    rw [htext]
    exact List.rdropWhile_concat_neg _ _ _ (by simp [isUnicodeSpace_of_isDigit hdigit])

theorem matchEscaped_limitLine (h : OptionName limit.1) (option : Text) :
    matchEscaped option (limitLine limit) = none := by
  obtain ⟨name, hname⟩ := h.dash
  simp [matchEscaped, limitLine, hname, List.dropPrefix?]

theorem escapedCount_flatMap (h : ∀ limit ∈ limits, OptionName limit.1) (option t : Text) :
    escapedCount option (t ++ limits.flatMap fun limit => '\n' :: limitLine limit) =
      escapedCount option t := by
  have hzero : (limits.map limitLine).countP (fun line => (matchEscaped option line).isSome) =
      0 := by
    refine List.countP_eq_zero.mpr fun line hline => ?_
    obtain ⟨limit, hlimit, rfl⟩ := List.mem_map.mp hline
    simp [matchEscaped_limitLine (h limit hlimit)]
  rw [escapedCount, splitOn_flatMap h, List.countP_append, hzero]
  rfl

theorem escapedCount_newline (option t : Text) :
    escapedCount option (t ++ ['\n']) = escapedCount option t := by
  rw [escapedCount, List.splitOn_append_cons_self, List.countP_append]
  rfl

theorem escapedCount_appended (h : ∀ limit ∈ limits, OptionName limit.1) (option t : Text) :
    escapedCount option (appended t limits) = escapedCount option (rstrip t) := by
  rw [appended, ← List.append_assoc, escapedCount_newline, escapedCount_flatMap h]

theorem appended_appended (t : Text) (limits limits' : List (Text × Nat)) :
    appended (appended t limits) limits' = appended t (limits ++ limits') := by
  rw [appended, rstrip_appended, appended, List.flatMap_append]
  simp

theorem setLimit_append {t : Text} (h : escapedCount limit.1 t = 0) :
    setLimit t limit = .ok (appended t [limit]) := by
  simp [setLimit, subn, h, appended]

/-- Without the literal backslashes every requested option is appended. -/
theorem setLimits_append {t : Text} (h : ∀ limit ∈ limits, OptionName limit.1) (hne : limits ≠ [])
    (hfirst : ∀ limit ∈ limits, escapedCount limit.1 t = 0)
    (hrest : ∀ limit ∈ limits, escapedCount limit.1 (rstrip t) = 0) :
    limits.foldlM setLimit t = .ok (appended t limits) := by
  induction limits generalizing t with
  | nil => exact absurd rfl hne
  | cons limit limits ih =>
    have hone : ∀ l ∈ [limit], OptionName l.1 :=
      List.forall_mem_singleton.mpr (h limit List.mem_cons_self)
    rw [List.foldlM_cons, setLimit_append (hfirst limit List.mem_cons_self)]
    cases hlimits : limits with
    | nil => rfl
    | cons l ls =>
      rw [← hlimits]
      refine (ih (fun l hl => h l (List.mem_cons_of_mem _ hl)) (by simp [hlimits]) ?_ ?_).trans ?_
      · intro l hl
        rw [escapedCount_appended hone]
        exact hrest l (List.mem_cons_of_mem _ hl)
      · intro l hl
        rw [rstrip_appended, escapedCount_flatMap hone]
        exact hrest l (List.mem_cons_of_mem _ hl)
      · rw [appended_appended]
        rfl

theorem count_appended (h : ∀ limit ∈ limits, OptionName limit.1) (t : Text) :
    (appended t limits).count '\\' = t.count '\\' := by
  have hzero : (limits.flatMap fun limit => '\n' :: limitLine limit).count '\\' = 0 := by
    refine List.count_eq_zero.mpr fun hmem => ?_
    obtain ⟨limit, hlimit, hmem⟩ := List.mem_flatMap.mp hmem
    rcases List.mem_cons.mp hmem with hmem | hmem
    · cases hmem
    · exact backslash_notMem_limitLine (h limit hlimit) hmem
  rw [appended, List.count_append, List.count_append, hzero, count_rstrip]
  simp

theorem setLimit_count {t u : Text} (h : OptionName limit.1) (hset : setLimit t limit = .ok u) :
    u.count '\\' ≤ t.count '\\' ∧
      (t.count '\\' ≤ u.count '\\' → escapedCount limit.1 t = 0 ∧ u = appended t [limit]) := by
  by_cases hzero : escapedCount limit.1 t = 0
  · rw [setLimit_append hzero] at hset
    cases hset
    have hcount : (appended t [limit]).count '\\' = t.count '\\' :=
      count_appended (by simpa using h) t
    exact ⟨hcount.le, fun _ => ⟨hzero, rfl⟩⟩
  · have hcount := count_subn limit.1 limit.2 t
    have hsnd : (subn limit.1 limit.2 t).2 = escapedCount limit.1 t := rfl
    simp only [setLimit, hsnd, hzero, if_false] at hset
    split at hset
    · cases hset
    · cases hset
      exact ⟨by omega, fun hle => by omega⟩

theorem setLimits_count {t new : Text} (h : ∀ limit ∈ limits, OptionName limit.1)
    (hset : limits.foldlM setLimit t = .ok new) :
    new.count '\\' ≤ t.count '\\' ∧
    (t.count '\\' ≤ new.count '\\' → limits ≠ [] → new = appended t limits ∧
      ∀ limit ∈ limits, escapedCount limit.1 t = 0 ∨ escapedCount limit.1 (rstrip t) = 0) := by
  induction limits generalizing t with
  | nil =>
    cases hset
    exact ⟨le_rfl, fun _ hne => absurd rfl hne⟩
  | cons limit limits ih =>
    have hone : ∀ l ∈ [limit], OptionName l.1 :=
      List.forall_mem_singleton.mpr (h limit List.mem_cons_self)
    rw [List.foldlM_cons] at hset
    cases hu : setLimit t limit with
    | error m =>
      rw [hu] at hset
      cases hset
    | ok u =>
      rw [hu] at hset
      obtain ⟨hle, hstep⟩ := setLimit_count (h limit List.mem_cons_self) hu
      obtain ⟨hle', hrest⟩ := ih (fun l hl => h l (List.mem_cons_of_mem _ hl)) hset
      refine ⟨hle'.trans hle, fun hcount _ => ?_⟩
      obtain ⟨hzero, rfl⟩ := hstep (hcount.trans hle')
      cases hlimits : limits with
      | nil =>
        rw [hlimits] at hset
        cases hset
        exact ⟨rfl, List.forall_mem_singleton.mpr (Or.inl hzero)⟩
      | cons l ls =>
        rw [← hlimits]
        obtain ⟨hnew, hescaped⟩ := hrest (hle.trans hcount) (by simp [hlimits])
        refine ⟨by rw [hnew, appended_appended]; rfl, fun l hl => ?_⟩
        rcases List.mem_cons.mp hl with rfl | hl
        · exact Or.inl hzero
        · right
          have := hescaped l hl
          rwa [rstrip_appended, escapedCount_flatMap hone, escapedCount_appended hone,
            or_self] at this

end Appending

section Requested

variable {cta insn : Option Nat} {limit : Text × Nat}

theorem requested_names (h : limit ∈ requested cta insn) : OptionName limit.1 := by
  obtain ⟨⟨option, maximum⟩, hmem, hlimit⟩ := List.mem_filterMap.mp h
  obtain ⟨m, -, rfl⟩ := Option.map_eq_some_iff.mp hlimit
  simp only [List.mem_cons, Prod.mk.injEq, List.not_mem_nil, or_false] at hmem
  rcases hmem with ⟨rfl, -⟩ | ⟨rfl, -⟩
  · exact optionName_maxCompletedCta
  · exact optionName_maxInsn

theorem matchOption_limitLine (h : OptionName limit.1) :
    matchOption limit.1 (limitLine limit) = some (limit.1 ++ [' '], decimal limit.2, []) := by
  refine OptionLine.matchOption h ⟨by simp [limitLine], ⟨[], [' '], rfl, by simp, by simp, ?_⟩,
    Nat.toDigits_ne_nil, fun c hc => toDigits_isDigit (n := limit.2) hc, by simp, rfl⟩
  exact List.forall_mem_singleton.mpr (by decide)

def optionValues (option : Text) (lines : List Text) : List Text :=
  lines.filterMap fun line => (matchOption option line).map fun (_, digits, _) => digits

theorem length_optionValues (option : Text) (lines : List Text) :
    (optionValues option lines).length = optionCount option lines := by
  rw [optionValues, List.length_filterMap_eq_countP]
  simp [optionCount]

theorem optionValues_requested (h : limit ∈ requested cta insn) :
    optionValues limit.1 ((requested cta insn).map limitLine) = [decimal limit.2] := by
  have hcta (m : Nat) : matchOption maxCompletedCta (limitLine (maxCompletedCta, m)) =
      some (maxCompletedCta ++ [' '], decimal m, []) :=
        matchOption_limitLine optionName_maxCompletedCta
  have hinsn (m : Nat) : matchOption maxInsn (limitLine (maxInsn, m)) =
      some (maxInsn ++ [' '], decimal m, []) :=
    matchOption_limitLine optionName_maxInsn
  have hcta' (m : Nat) : matchOption maxInsn (limitLine (maxCompletedCta, m)) = none := rfl
  have hinsn' (m : Nat) : matchOption maxCompletedCta (limitLine (maxInsn, m)) = none := rfl
  cases cta with
  | none =>
    cases insn with
    | none => cases h
    | some m =>
      obtain rfl : limit = (maxInsn, m) := by simpa [requested] using h
      simp [requested, optionValues, hinsn]
  | some k =>
    cases insn with
    | none =>
      obtain rfl : limit = (maxCompletedCta, k) := by simpa [requested] using h
      simp [requested, optionValues, hcta]
    | some m =>
      have hcases : limit = (maxCompletedCta, k) ∨
      limit = (maxInsn, m) := by simpa [requested] using h
      rcases hcases with rfl | rfl
      · simp [requested, optionValues, hcta, hinsn']
      · simp [requested, optionValues, hinsn, hcta']

end Requested

section Applied

variable {limits : List (Text × Nat)} {t new : Text}

theorem setLine_of_absent {line : Text}
    (h : ∀ limit ∈ limits, (matchOption limit.1 line).isSome = false) :
    setLine limits line = line := by
  have hnone : limits.findSome?
      (fun limit => (matchOption limit.1 line).map fun (before, _, after) =>
      before ++ decimal limit.2 ++ after) = none := by
    refine List.findSome?_eq_none_iff.mpr fun limit hlimit => ?_
    rw [Option.map_eq_none_iff]
    simpa using h limit hlimit
  rw [setLine, hnone, Option.getD_none]

theorem count_setLine (limits : List (Text × Nat)) (line : Text) :
    (setLine limits line).count '\\' = line.count '\\' := by
  unfold setLine
  cases h : limits.findSome? fun limit => (matchOption limit.1 line).map fun (before, _, after) =>
      before ++ decimal limit.2 ++ after with
  | none => rfl
  | some l =>
    obtain ⟨limit, -, hlimit⟩ := List.exists_of_findSome?_eq_some h
    obtain ⟨⟨before, digits, after⟩, hm, rfl⟩ := Option.map_eq_some_iff.mp hlimit
    have hl := matchOption_eq_some hm
    have hdigits : digits.count '\\' = 0 :=
      List.count_eq_zero.mpr fun hmem => absurd (hl.all_digits _ hmem) (by decide)
    have hzero : (decimal limit.2).count '\\' = 0 :=
      List.count_eq_zero.mpr (notMem_decimal (by decide))
    rw [Option.getD_some, hl.split]
    simp [hdigits, hzero]

theorem applied_count (hnames : ∀ limit ∈ limits, OptionName limit.1)
    (h : Applied limits (lines t) (lines new)) : new.count '\\' = t.count '\\' := by
  have hzero : ((((limits.filter fun limit => optionCount limit.1 (lines t) = 0).map limitLine)).map
      (List.count '\\')).sum = 0 := by
    refine List.sum_eq_zero_iff_forall_eq_nat.mpr fun n hn => ?_
    obtain ⟨line, hline, rfl⟩ := List.mem_map.mp hn
    obtain ⟨limit, hlimit, rfl⟩ := List.mem_map.mp hline
    exact List.count_eq_zero.mpr
      (backslash_notMem_limitLine (hnames limit (List.mem_filter.mp hlimit).1))
  rw [← count_lines (by decide) new, ← count_lines (by decide) t, h.rewritten, List.map_append,
    List.sum_append, hzero, Nat.add_zero, List.map_map]
  congr 1
  exact List.map_congr_left fun line _ => count_setLine limits line

/-- No requested option is there yet, no line spells the backslashes of the
pattern, and the text ends with a line. -/
structure Fresh (limits : List (Text × Nat)) (t : Text) : Prop where
  absent : ∀ limit ∈ limits, optionCount limit.1 (lines t) = 0
  unescaped : ∀ limit ∈ limits, ∀ line ∈ lines t, matchEscaped limit.1 line = none
  ended : t = rstrip t ++ ['\n'] ∨ (t = rstrip t ∧ t ≠ [])

theorem rstrip_getLast (t : Text) : (rstrip t).getLast? ≠ some '\n' := by
  intro hlast
  have hne : rstrip t ≠ [] := by
    rintro hnil
    rw [hnil] at hlast
    cases hlast
  have hnot := List.rdropWhile_last_not isUnicodeSpace t hne
  rw [List.getLast?_eq_some_getLast hne, Option.some.injEq] at hlast
  change ¬isUnicodeSpace ((rstrip t).getLast hne) = true at hnot
  rw [hlast] at hnot
  exact hnot (by decide)

theorem Fresh.splitOn (h : Fresh limits t) : (rstrip t).splitOn '\n' = lines t :=
  ((lines_eq_splitOn_iff (rstrip_getLast t)).mpr h.ended).symm

theorem escapedCount_eq_zero {option : Text}
    (h : ∀ line ∈ lines t, matchEscaped option line = none) : escapedCount option t = 0 := by
  refine List.countP_eq_zero.mpr fun line hline => ?_
  have hmem : line ∈ lines t ∨ line = [] := by
    by_cases hlast : (t.splitOn '\n').getLast? = some []
    · obtain ⟨init, hinit⟩ := List.getLast?_eq_some_iff.mp hlast
      simpa [lines, hinit] using hline
    · exact Or.inl (by simpa [lines, hlast] using hline)
  rcases hmem with hmem | rfl
  · simp [h line hmem]
  · simp [matchEscaped, List.dropPrefix?]

theorem mem_splitOn_of_mem_lines {line : Text} (h : line ∈ lines t) : line ∈ t.splitOn '\n' := by
  unfold lines at h
  split at h
  · exact List.dropLast_subset _ h
  · exact h

theorem optionCount_lines_le (option t : Text) :
    optionCount option (lines t) ≤ optionCount option (t.splitOn '\n') := by
  unfold lines
  split
  · exact (List.dropLast_sublist _).countP_le
  · exact le_rfl

theorem matchEscaped_of_escapedCount {option line : Text} (h : escapedCount option t = 0)
    (hline : line ∈ t.splitOn '\n') : matchEscaped option line = none := by
  have := List.countP_eq_zero.mp h line hline
  simpa using this

theorem map_setLine_of_absent {ls : List Text}
    (habsent : ∀ limit ∈ limits, optionCount limit.1 ls = 0) : ls.map (setLine limits) = ls := by
  conv_rhs => rw [← List.map_id ls]
  apply List.map_congr_left
  intro line hline
  apply setLine_of_absent
  intro limit hlimit
  simpa using List.countP_eq_zero.mp (habsent limit hlimit) line hline

theorem Fresh.applied {cta insn : Option Nat} (h : Fresh (requested cta insn) t)
    (hne : requested cta insn ≠ []) :
    (requested cta insn).foldlM setLimit t = .ok (appended t (requested cta insn)) ∧
      Applied (requested cta insn) (lines t) (lines (appended t (requested cta insn))) := by
  have hnames : ∀ limit ∈ requested cta insn, OptionName limit.1 := fun limit => requested_names
  have hlines := lines_appended hnames t
  rw [h.splitOn] at hlines
  refine ⟨setLimits_append hnames hne ?_ ?_, ?_, ?_⟩
  · exact fun limit hlimit => escapedCount_eq_zero (h.unescaped limit hlimit)
  · intro limit hlimit
    refine List.countP_eq_zero.mpr fun line hline => ?_
    rw [h.splitOn] at hline
    simp [h.unescaped limit hlimit line hline]
  · rw [hlines, map_setLine_of_absent h.absent,
      List.filter_eq_self.mpr fun limit hlimit => by simpa using h.absent limit hlimit]
  · intro limit hlimit
    change optionValues limit.1 _ = _
    have hnone : optionValues limit.1 (lines t) = [] := by
      rw [← List.length_eq_zero_iff, length_optionValues]
      exact h.absent limit hlimit
    rw [hlines, optionValues, List.filterMap_append, ← optionValues, ← optionValues, hnone,
      List.nil_append]
    exact optionValues_requested hlimit

theorem Applied.fresh {cta insn : Option Nat}
    (hset : (requested cta insn).foldlM setLimit t = .ok new)
    (h : Applied (requested cta insn) (TextLines.lines t) (TextLines.lines new))
    (hne : requested cta insn ≠ []) : Fresh (requested cta insn) t := by
  have hnames : ∀ limit ∈ requested cta insn, OptionName limit.1 := fun limit => requested_names
  obtain ⟨rfl, hescaped⟩ := (setLimits_count hnames hset).2 (applied_count hnames h).ge hne
  have hlines := lines_appended hnames t
  -- the appended line is the only one of its option, so the text had none
  have habsent : ∀ limit ∈ requested cta insn, optionCount limit.1 (TextLines.lines t) = 0 := by
    intro limit hlimit
    have honce := congrArg List.length (h.once limit hlimit)
    change (optionValues limit.1 _).length = 1 at honce
    rw [hlines, optionValues, List.filterMap_append, ← optionValues, ← optionValues,
      List.length_append, optionValues_requested hlimit, length_optionValues] at honce
    have hle : optionCount limit.1 (t.splitOn '\n') ≤ optionCount limit.1
        ((rstrip t).splitOn '\n') := by
      have hsplit : rstrip t ++ t.rtakeWhile isUnicodeSpace = t := List.rdropWhile_append_rtakeWhile
      conv_lhs => rw [← hsplit]
      exact countP_splitOn_le (matchOption_nil (hnames limit hlimit))
        (fun line c hc hm => matchOption_concat (hnames limit hlimit) hc hm) (rstrip t)
        fun c hc => List.mem_rtakeWhile_imp hc
    have hsub := optionCount_lines_le limit.1 t
    rw [List.length_singleton] at honce
    omega
  have hsplitOn : TextLines.lines t = (rstrip t).splitOn '\n' := by
    have hrewritten := h.rewritten
    rw [hlines, map_setLine_of_absent habsent,
      List.filter_eq_self.mpr fun limit hlimit => by simpa using habsent limit hlimit] at hrewritten
    exact (List.append_cancel_right hrewritten).symm
  refine ⟨habsent, fun limit hlimit line hline => ?_,
    (lines_eq_splitOn_iff (rstrip_getLast t)).mp hsplitOn⟩
  rcases hescaped limit hlimit with hzero | hzero
  · exact matchEscaped_of_escapedCount hzero (mem_splitOn_of_mem_lines hline)
  · exact matchEscaped_of_escapedCount hzero (hsplitOn ▸ hline)

theorem applied_iff (t : Text) (cta insn : Option Nat) :
    (∃ new, (requested cta insn).foldlM setLimit t = .ok new ∧
      Applied (requested cta insn) (lines t) (lines new)) ↔
    requested cta insn = [] ∨ Fresh (requested cta insn) t := by
  by_cases hne : requested cta insn = []
  · rw [hne]
    refine iff_of_true ⟨t, rfl, ?_, by simp⟩ (Or.inl rfl)
    have hold : setLine [] = id := rfl
    simp [hold]
  · constructor
    · rintro ⟨new, hset, happlied⟩
      exact Or.inr (happlied.fresh hset hne)
    · rintro (hnil | hfresh)
      · exact absurd hnil hne
      · exact ⟨_, hfresh.applied hne⟩

end Applied

section Refused

/-- The pattern of a requested option matches twice, on the text as it is when
the loop gets to the option. -/
def TwiceEscaped (cta insn : Option Nat) (t : Text) : Prop :=
  (cta.isSome ∧ 2 ≤ escapedCount maxCompletedCta t) ∨
    (insn.isSome ∧ 2 ≤ escapedCount maxInsn
      (if cta.isSome ∧ escapedCount maxCompletedCta t = 0 then rstrip t else t))

theorem setLimit_error_iff {t : Text} {limit : Text × Nat} :
    (∃ m, setLimit t limit = .error m) ↔ 2 ≤ escapedCount limit.1 t := by
  have hsnd : (subn limit.1 limit.2 t).2 = escapedCount limit.1 t := rfl
  simp only [setLimit, hsnd]
  split
  · exact iff_of_false (by simp) (by omega)
  · split
    · exact iff_of_true ⟨_, rfl⟩ (by omega)
    · exact iff_of_false (by simp) (by omega)

theorem setLimit_ok {t : Text} {limit : Text × Nat} (h : escapedCount limit.1 t < 2) :
    setLimit t limit = .ok (if escapedCount limit.1 t = 0 then appended t [limit]
      else (subn limit.1 limit.2 t).1) := by
  by_cases hzero : escapedCount limit.1 t = 0
  · rw [setLimit_append hzero, if_pos hzero]
  · have hone : escapedCount limit.1 t = 1 := by omega
    have hsnd : (subn limit.1 limit.2 t).2 = escapedCount limit.1 t := rfl
    simp [setLimit, hsnd, hone]

theorem newline_notMem_replaceLine {option : Text} {maximum : Nat} {line : Text} (h : '\n' ∉ line) :
    '\n' ∉ replaceLine option maximum line := by
  unfold replaceLine
  cases hm : matchEscaped option line with
  | none => exact h
  | some groups =>
    obtain ⟨before, after⟩ := groups
    obtain ⟨-, -, ds, -, rfl, -, -⟩ := matchEscaped_eq_some hm
    simp only [List.mem_append, List.mem_cons, not_or] at h ⊢
    exact ⟨⟨h.1, notMem_decimal (by decide)⟩, h.2.2.2⟩

theorem matchEscaped_other {indent : Text} (h : ∀ c ∈ indent, c = 's') (rest : Text) :
    matchEscaped maxInsn ('\\' :: (indent ++ (maxCompletedCta ++ rest))) = none := by
  have hstop : ∀ c, (maxCompletedCta ++ rest).head? = some c → (decide (c = 's')) = false := by
    intro c hc
    cases hc
    decide
  obtain ⟨-, hdrop⟩ := takeWhile_append_stop (p := (· = 's')) (by simpa using h) hstop
  have hnone : (maxCompletedCta ++ rest).dropPrefix? maxInsn = none := rfl
  simp only [matchEscaped, dropPrefix?_cons, Option.bind_eq_bind, Option.bind_some, hdrop, hnone,
    Option.bind_none]

theorem escapedCount_subn (maximum : Nat) (t : Text) :
    escapedCount maxInsn (subn maxCompletedCta maximum t).1 = escapedCount maxInsn t := by
  rw [escapedCount, subn, splitOn_map fun _ => newline_notMem_replaceLine, List.countP_map,
    escapedCount]
  refine List.countP_congr fun line _ => ?_
  rw [Function.comp_apply]
  unfold replaceLine
  cases hm : matchEscaped maxCompletedCta line with
  | none => rfl
  | some groups =>
    obtain ⟨before, after⟩ := groups
    obtain ⟨indent, gap, ds, rfl, rfl, hindent, -⟩ := matchEscaped_eq_some hm
    have h₁ := matchEscaped_other hindent ('\\' :: gap ++ '\\' :: (ds ++ after))
    have h₂ := matchEscaped_other hindent ('\\' :: gap ++ (decimal maximum ++ after))
    simp only [List.append_assoc, List.cons_append] at h₁ h₂ ⊢
    rw [h₁, h₂]

theorem setLimits_error_cons (t : Text) (limit : Text × Nat) (limits : List (Text × Nat)) :
    (∃ m, (limit :: limits).foldlM setLimit t = .error m) ↔ 2 ≤ escapedCount limit.1 t ∨
      (escapedCount limit.1 t < 2 ∧ ∃ m, limits.foldlM setLimit
        (if escapedCount limit.1 t = 0 then appended t [limit] else (subn limit.1 limit.2 t).1) =
          .error m) := by
  rw [List.foldlM_cons]
  rcases Nat.lt_or_ge (escapedCount limit.1 t) 2 with hlt | hge
  · rw [setLimit_ok hlt]
    exact ⟨fun h => Or.inr ⟨hlt, h⟩, fun h => (h.resolve_left (by omega)).2⟩
  · obtain ⟨m, hm⟩ := setLimit_error_iff.mpr hge
    rw [hm]
    exact iff_of_true ⟨m, rfl⟩ (Or.inl hge)

theorem setLimits_error_singleton (t : Text) (limit : Text × Nat) :
    (∃ m, [limit].foldlM setLimit t = .error m) ↔ 2 ≤ escapedCount limit.1 t := by
  rw [setLimits_error_cons]
  refine ⟨fun h => h.resolve_right ?_, Or.inl⟩
  rintro ⟨-, m, hm⟩
  cases hm

theorem refused_iff (t : Text) (cta insn : Option Nat) :
    (∃ m, (requested cta insn).foldlM setLimit t = .error m) ↔ TwiceEscaped cta insn t := by
  cases cta with
  | none =>
    cases insn with
    | none =>
      refine iff_of_false ?_ (by simp [TwiceEscaped])
      rintro ⟨m, hm⟩
      cases hm
    | some m =>
      refine (setLimits_error_singleton t (maxInsn, m)).trans ?_
      simp [TwiceEscaped]
  | some k =>
    cases insn with
    | none =>
      refine (setLimits_error_singleton t (maxCompletedCta, k)).trans ?_
      simp [TwiceEscaped]
    | some m =>
      refine (setLimits_error_cons t (maxCompletedCta, k) [(maxInsn, m)]).trans ?_
      rw [setLimits_error_singleton]
      have hone : ∀ l ∈ [(maxCompletedCta, k)], OptionName l.1 :=
        List.forall_mem_singleton.mpr optionName_maxCompletedCta
      have hinsn : escapedCount maxInsn (if escapedCount maxCompletedCta t = 0 then
          appended t [(maxCompletedCta, k)] else (subn maxCompletedCta k t).1) =
          escapedCount maxInsn (if escapedCount maxCompletedCta t = 0 then rstrip t else t) := by
        split
        · rw [escapedCount_appended hone]
        · rw [escapedCount_subn]
      simp only [TwiceEscaped, Option.isSome_some, true_and, hinsn]
      omega

end Refused

/-- The limits are set as they should be exactly if a text with at most one line
for each option is fresh, and a text with a duplicate has the pattern twice. -/
theorem limitsSet_iff (text : Text) (cta insn : Option Nat) :
    LimitsSet text cta insn (setGpgpuTestLimits (some text) cta insn) ↔
      ((∀ option ∈ [maxCompletedCta, maxInsn],
        optionCount option (lines (universalNewlines text)) ≤ 1) →
        requested cta insn = [] ∨ Fresh (requested cta insn) (universalNewlines text)) ∧
      ((∃ limit ∈ requested cta insn, 2 ≤ optionCount limit.1 (lines (universalNewlines text))) →
        TwiceEscaped cta insn (universalNewlines text)) := by
  constructor
  · intro h
    exact ⟨fun hone => (applied_iff _ cta insn).mp (h.applied hone),
      fun htwice => (refused_iff _ cta insn).mp (h.refused htwice)⟩
  · rintro ⟨happlied, hrefused⟩
    exact ⟨fun hone => (applied_iff _ cta insn).mpr (happlied hone),
      fun htwice => (refused_iff _ cta insn).mpr (hrefused htwice)⟩

/-- An option that is already there is appended a second time. -/
theorem present_option_not_set :
    ¬LimitsSet "-gpgpu_max_insn 0\n".toList none (some 5)
      (setGpgpuTestLimits (some "-gpgpu_max_insn 0\n".toList) none (some 5)) := by
  intro h
  rcases (applied_iff _ none (some 5)).mp (h.applied (by decide)) with hnil | hfresh
  · cases hnil
  · have := hfresh.absent (maxInsn, 5) (by simp [requested])
    exact absurd this (by decide)

end ChipSystemSim
