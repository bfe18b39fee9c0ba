import ChipSystemSim.Decimal

/-! Python's `argparse` for a parser whose options take one value each, beside the
`-h` and `--help` it adds, with one positional and a remainder behind them. Every
string in front of the first `--` is classified, the remainder too. -/

namespace ChipSystemSim.Argparse

/-- What `_parse_optional` makes of a string. -/
inductive Kind where
  | argument
  | option (name : Text) (value : Option Text)
  | unknown
  | ambiguous
  deriving DecidableEq, Repr

def helpOptions : List Text := ["-h".toList, "--help".toList]

/-- `partition("=")`. -/
def partitionEquals (t : Text) : Text × Option Text :=
  (t.takeWhile (· != '='), (t.dropWhile (· != '=')).tail?)

/-- `_get_option_tuples`: the options that a string may abbreviate. Two dashes split
at the equals sign only, a single dash may have its value attached. -/
def optionTuples (options : List Text) (t : Text) : List (Text × Option Text) :=
  if "--".toList.isPrefixOf t then
    (options.filter (partitionEquals t).1.isPrefixOf).map fun name => (name, (partitionEquals t).2)
  else
    options.filterMap fun name =>
      if name = t.take 2 then some (name, some (t.drop 2))
      else if t.isPrefixOf name then some (name, none)
      else none

/-- `^-\d+$|^-\d*\.\d+$`, where the end may stand before a last newline. -/
def negativeNumber : Text → Bool
  | '-' :: t =>
    let t := if t.getLast? = some '\n' then t.dropLast else t
    (!t.isEmpty && t.all isDecimal) ||
      match t.dropWhile isDecimal with
      | '.' :: fraction => !fraction.isEmpty && fraction.all isDecimal
      | _ => false
  | _ => false

def parseOptional (options : List Text) (t : Text) : Kind :=
  if t.head? ≠ some '-' then .argument
  else if t ∈ options then .option t none
  else if t.length = 1 then .argument
  else if (partitionEquals t).2.isSome ∧ (partitionEquals t).1 ∈ options then
    .option (partitionEquals t).1 (partitionEquals t).2
  else
    match optionTuples options t with
    | _ :: _ :: _ => .ambiguous
    | [(name, value)] => .option name value
    | [] => if negativeNumber t ∨ ' ' ∈ t then .argument else .unknown

structure Parsed where
  options : List (Text × Text)
  positional : Text
  remainder : List Text

def Parsed.add (option : Text × Text) (p : Parsed) : Parsed :=
  { p with options := option :: p.options }

def dashes : Text := "--".toList

/-- The pattern of a positional takes the `--` behind it too. -/
def dropDashes (l : List Text) : List Text := if l.head? = some dashes then l.tail else l

/-- A string that is taken for an argument in front of the first `--`. -/
def IsArgument (options : List Text) (t : Text) : Prop :=
  t ≠ dashes ∧ parseOptional (helpOptions ++ options) t = .argument

instance (options : List Text) (t : Text) : Decidable (IsArgument options t) :=
  inferInstanceAs (Decidable (_ ∧ _))

/-- The strings from left to right, once they are classified. Help ends the program,
and so does a string that is left over. -/
def consume (options : List Text) : List Text → Option Parsed
  | [] => none
  | a :: rest =>
    if a = dashes then rest.head?.map fun b => ⟨[], b, rest.tail⟩
    else
      match parseOptional (helpOptions ++ options) a with
      | .argument => some ⟨[], a, dropDashes rest⟩
      | .option name value =>
        if name ∈ helpOptions then none
        else
          match value, rest with
          | some value, rest => (consume options rest).map (Parsed.add (name, value))
          | none, value :: rest =>
            if IsArgument options value then (consume options rest).map (Parsed.add (name, value))
            else none
          | none, [] => none
      | .unknown => none
      | .ambiguous => none

/-- A string in front of the first `--` that abbreviates two options ends the program. -/
def Ambiguous (options l : List Text) : Prop :=
  ∃ t ∈ l.takeWhile (· != dashes), parseOptional (helpOptions ++ options) t = .ambiguous

instance (options l : List Text) : Decidable (Ambiguous options l) :=
  inferInstanceAs (Decidable (∃ t ∈ _, _))

def parseArgs (options l : List Text) : Option Parsed :=
  if Ambiguous options l then none else consume options l

variable {options l : List Text} {name value a : Text} {p : Parsed}

theorem isArgument_of_head {t : Text} (h : t.head? ≠ some '-') : IsArgument options t := by
  refine ⟨?_, if_pos h⟩
  rintro rfl
  exact h rfl

/-- The name of an option with a value: it starts with a dash, and is no help. -/
def IsOption (options : List Text) (name : Text) : Prop :=
  name.head? = some '-' ∧ name ≠ dashes ∧ name ∈ options ∧ name ∉ helpOptions

instance (options : List Text) (name : Text) : Decidable (IsOption options name) :=
  inferInstanceAs (Decidable (_ ∧ _ ∧ _ ∧ _))

theorem IsOption.parseOptional (h : IsOption options name) :
    parseOptional (helpOptions ++ options) name = .option name none := by
  rw [Argparse.parseOptional, if_neg (not_not.mpr h.1), if_pos (List.mem_append_right _ h.2.2.1)]

theorem consume_argument (h : IsArgument options a) (rest : List Text) :
    consume options (a :: rest) = some ⟨[], a, dropDashes rest⟩ := by
  rw [consume, if_neg h.1, h.2]

theorem consume_option (h : IsOption options name) (rest : List Text) :
    consume options (name :: value :: rest) =
      if IsArgument options value then (consume options rest).map (Parsed.add (name, value))
      else none := by
  rw [consume, if_neg h.2.1, h.parseOptional]
  simp only [if_neg h.2.2.2]

/-- The options of a command line as they are written, each with its value. -/
def written (pairs : List (Text × Text)) : List Text := pairs.flatMap fun pair => [pair.1, pair.2]

@[simp] theorem written_cons (pair : Text × Text) (pairs : List (Text × Text)) :
    written (pair :: pairs) = pair.1 :: pair.2 :: written pairs := rfl

theorem consume_written {pairs : List (Text × Text)} (h : ∀ pair ∈ pairs, IsOption options pair.1)
    (hvalue : ∀ pair ∈ pairs, IsArgument options pair.2) (ha : IsArgument options a) :
    consume options (written pairs ++ a :: l) = some ⟨pairs, a, dropDashes l⟩ := by
  induction pairs with
  | nil => exact consume_argument ha l
  | cons pair pairs ih =>
    have hrest := ih (fun q hq => h q (List.mem_cons_of_mem _ hq))
      fun q hq => hvalue q (List.mem_cons_of_mem _ hq)
    rw [written_cons, List.cons_append, List.cons_append,
      consume_option (h pair List.mem_cons_self), if_pos (hvalue pair List.mem_cons_self), hrest]
    rfl

theorem length_dropDashes (l : List Text) : (dropDashes l).length ≤ l.length := by
  unfold dropDashes
  split <;> simp

theorem dropDashes_eq_self_iff : dropDashes l = l ↔ l.head? ≠ some dashes := by
  unfold dropDashes
  split
  · rename_i h
    cases l with
    | nil => cases h
    | cons b l => simp [h]
  · rename_i h
    simp [h]

/-- How a command line that is read starts: with the positional, with an option, or with
the dashes in front of the positional. -/
theorem consume_cases {rest : List Text} (h : consume options (a :: rest) = some p) :
    (IsArgument options a ∧ p.remainder = dropDashes rest) ∨
    (¬IsArgument options a ∧ ∃ later q, later.length ≤ rest.length ∧
      consume options later = some q ∧ p.remainder = q.remainder) ∨
    a = dashes ∧ ∃ b, rest = b :: p.remainder := by
  rw [consume] at h
  split at h
  · rename_i ha
    obtain ⟨b, hb, rfl⟩ := Option.map_eq_some_iff.mp h
    exact Or.inr (Or.inr ⟨ha, b, (List.eq_cons_of_mem_head? hb)⟩)
  · rename_i hne
    cases hk : parseOptional (helpOptions ++ options) a with
    | argument =>
      rw [hk] at h
      cases h
      exact Or.inl ⟨⟨hne, hk⟩, rfl⟩
    | option name value =>
      have hnot : ¬IsArgument options a := fun harg => by cases hk.symm.trans harg.2
      simp only [hk] at h
      split at h
      · cases h
      · split at h
        · obtain ⟨q, hq, rfl⟩ := Option.map_eq_some_iff.mp h
          exact Or.inr (Or.inl ⟨hnot, _, q, le_rfl, hq, rfl⟩)
        · split at h
          · obtain ⟨q, hq, rfl⟩ := Option.map_eq_some_iff.mp h
            exact Or.inr (Or.inl ⟨hnot, _, q, by simp, hq, rfl⟩)
          · cases h
        · cases h
    | unknown => simp [hk] at h
    | ambiguous => simp [hk] at h

theorem consume_length (h : consume options l = some p) : p.remainder.length < l.length := by
  induction hn : l.length using Nat.strong_induction_on generalizing l p with
  | _ n ih =>
    subst hn
    cases l with
    | nil => cases h
    | cons a rest =>
      rcases consume_cases h with ⟨-, hr⟩ | ⟨-, later, q, hl, hq, hr⟩ | ⟨-, b, hr⟩
      · rw [hr, List.length_cons]
        exact Nat.lt_succ_of_le (length_dropDashes rest)
      · have hlater := ih later.length (by rw [List.length_cons]; omega) hq rfl
        rw [hr, List.length_cons]
        omega
      · rw [hr, List.length_cons, List.length_cons]
        omega

/-- Only a positional that comes first leaves all that stands behind it. -/
theorem isArgument_of_consume {rest : List Text} (h : consume options (a :: rest) = some p)
    (hrest : p.remainder = rest) : IsArgument options a ∧ rest.head? ≠ some dashes := by
  rcases consume_cases h with ⟨ha, hr⟩ | ⟨-, later, q, hl, hq, hr⟩ | ⟨-, b, hr⟩
  · exact ⟨ha, dropDashes_eq_self_iff.mp (hr.symm.trans hrest)⟩
  · have hlater := consume_length hq
    rw [← hr, hrest] at hlater
    omega
  · rw [hrest] at hr
    exact absurd (congrArg List.length hr) (by simp)

theorem takeWhile_written {pairs : List (Text × Text)} (h : ∀ pair ∈ pairs, IsOption options pair.1)
    (hvalue : ∀ pair ∈ pairs, IsArgument options pair.2) (l : List Text) :
    (written pairs ++ l).takeWhile (· != dashes) = written pairs ++ l.takeWhile (· != dashes) := by
  refine List.takeWhile_append_of_pos fun t ht => ?_
  obtain ⟨pair, hpair, ht⟩ := List.mem_flatMap.mp ht
  rcases List.mem_cons.mp ht with rfl | ht
  · simpa using (h pair hpair).2.1
  · rw [List.mem_singleton.mp ht]
    simpa using (hvalue pair hpair).1

theorem ambiguous_written {pairs : List (Text × Text)} (h : ∀ pair ∈ pairs, IsOption options pair.1)
    (hvalue : ∀ pair ∈ pairs, IsArgument options pair.2) (ha : IsArgument options a) :
    Ambiguous options (written pairs ++ a :: l) ↔ Ambiguous options l := by
  have hone : (a :: l).takeWhile (· != dashes) = a :: l.takeWhile (· != dashes) :=
    List.takeWhile_cons_of_pos (by simpa using ha.1)
  simp only [Ambiguous, takeWhile_written h hvalue, hone, List.mem_append, List.mem_cons]
  constructor
  · rintro ⟨t, ht | rfl | ht, hk⟩
    · obtain ⟨pair, hpair, ht⟩ := List.mem_flatMap.mp ht
      rcases List.mem_cons.mp ht with rfl | ht
      · cases hk.symm.trans (h pair hpair).parseOptional
      · rw [List.mem_singleton.mp ht] at hk
        cases hk.symm.trans (hvalue pair hpair).2
    · cases hk.symm.trans ha.2
    · exact ⟨t, ht, hk⟩
  · rintro ⟨t, ht, hk⟩
    exact ⟨t, Or.inr (Or.inr ht), hk⟩

theorem arguments_of_consume {pairs : List (Text × Text)}
    (h : ∀ pair ∈ pairs, IsOption options pair.1) {rest : List Text}
    (hc : consume options (written pairs ++ rest) = some p) :
    (∀ pair ∈ pairs, IsArgument options pair.2) ∧
      ∃ q, consume options rest = some q ∧ p.remainder = q.remainder := by
  induction pairs generalizing p with
  | nil => exact ⟨by simp, p, hc, rfl⟩
  | cons pair pairs ih =>
    rw [written_cons, List.cons_append, List.cons_append,
      consume_option (h pair List.mem_cons_self)] at hc
    split at hc
    · rename_i hpair
      obtain ⟨q, hq, rfl⟩ := Option.map_eq_some_iff.mp hc
      obtain ⟨hpairs, hrest⟩ := ih (fun r hr => h r (List.mem_cons_of_mem _ hr)) hq
      exact ⟨List.forall_mem_cons.mpr ⟨hpair, hpairs⟩, hrest⟩
    · cases hc

theorem parseArgs_written {pairs : List (Text × Text)} (h : ∀ pair ∈ pairs, IsOption options pair.1)
    (hpairs : ∀ pair ∈ pairs, IsArgument options pair.2) (ha : IsArgument options a)
    (hhead : l.head? ≠ some dashes) (hambiguous : ¬Ambiguous options l) :
    parseArgs options (written pairs ++ a :: l) = some ⟨pairs, a, l⟩ := by
  rw [parseArgs, if_neg (fun hl => hambiguous ((ambiguous_written h hpairs ha).mp hl)),
    consume_written h hpairs ha, dropDashes_eq_self_iff.mpr hhead]

/-- When a command line is read as it is written: every value and the positional are
arguments, the remainder does not start with `--`, and nothing in front of a `--` in
the remainder abbreviates two options. -/
theorem parseArgs_written_iff {pairs : List (Text × Text)}
    (h : ∀ pair ∈ pairs, IsOption options pair.1) :
    (∃ p, parseArgs options (written pairs ++ a :: l) = some p ∧ p.remainder = l) ↔
      (∀ pair ∈ pairs, IsArgument options pair.2) ∧ IsArgument options a ∧
        l.head? ≠ some dashes ∧ ¬Ambiguous options l := by
  constructor
  · rintro ⟨p, hp, hl⟩
    unfold parseArgs at hp
    split at hp
    · cases hp
    · rename_i hambiguous
      obtain ⟨hpairs, q, hq, hr⟩ := arguments_of_consume h hp
      obtain ⟨ha, hhead⟩ := isArgument_of_consume hq (hr.symm.trans hl)
      exact ⟨hpairs, ha, hhead, fun hl => hambiguous ((ambiguous_written h hpairs ha).mpr hl)⟩
  · rintro ⟨hpairs, ha, hhead, hambiguous⟩
    exact ⟨⟨pairs, a, l⟩, parseArgs_written h hpairs ha hhead hambiguous, rfl⟩

end ChipSystemSim.Argparse
