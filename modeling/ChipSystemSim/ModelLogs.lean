import ChipSystemSim.LineScan
import ChipSystemSim.Router

/-! The final models that the ranks of a data-parallel run print, and what the
matrix runner reads of them in the merged logs. -/

namespace ChipSystemSim

/-- What the two languages do with numbers: `\d` and `int` on its matches, `float`, and a double
behind `setprecision(17)`. -/
structure NumberText (F : Type) where
  digit : Char → Bool
  int : Text → Nat
  float : Text → Except Text F
  shown : F → Text
  digit_ascii : ∀ c, c.toNat < 128 → digit c = c.isDigit
  shown_chars : ∀ x, ∀ c ∈ shown x, c.isDigit = true ∨ c ∈ ['+', '-', '.', 'e', 'i', 'n', 'f', 'a']

variable {F : Type} (N : NumberText F)

def resultLead : Text := "MLP_DP_RESULT rank=".toList

def iterationsKey : Text := " iterations=".toList

def steadyKey : Text := " steady_ns=".toList

def parametersKey : Text := " parameters=".toList

def valuesKey : Text := " values=".toList

/-- The fields of a result behind the number of iterations. -/
def resultTail (kParameters : Nat) (steady : Int) (model : List F) : Text :=
  steadyKey ++ (decimal steady ++ (parametersKey ++ (decimal kParameters ++ (valuesKey ++
    model.flatMap fun value => N.shown value ++ [',']))))

def printResult (kParameters rank iterations : Nat) (steady : Int) (model : List F) : Text :=
  resultLead ++
    (decimal rank ++
    (iterationsKey ++ (decimal iterations ++ resultTail N kParameters steady model)))

/-- The groups of a match of `RESULT`. -/
structure ResultMatch where
  rank : Text
  iterations : Text
  parameters : Text
  values : Text

def valueChar (c : Char) : Bool := c.isDigit || ['e', 'E', '+', '.', ',', '-'].contains c

/-- `RESULT` at the start of a text. -/
def matchResult (t : Text) : Option (ResultMatch × Text) :=
  t.dropPrefix? resultLead >>= fun t => scanSome N.digit t >>= fun (rank, t) =>
  t.dropPrefix? iterationsKey >>= fun t => scanSome N.digit t >>= fun (iterations, t) =>
  t.dropPrefix? parametersKey >>= fun t => scanSome N.digit t >>= fun (parameters, t) =>
  t.dropPrefix? valuesKey >>= fun t => scanSome valueChar t >>= fun (values, t) =>
  some (⟨rank, iterations, parameters, values⟩, t)

def ResultMatch.items (m : ResultMatch) : List Text := (m.values.splitOn ',').filter (· ≠ [])

/-- The values of a match, which must be of a run of 100 iterations and as many as it says. -/
def ResultMatch.read (m : ResultMatch) : Except Text (List F) := do
  let values ← m.items.mapM N.float
  if N.int m.iterations ≠ 100 ∨ N.int m.parameters ≠ values.length then
    throw ("malformed MLP-DP result for rank ".toList ++ decimal (N.int m.rank))
  pure values

section Reading

variable [BEq F]

/-- The body of the loop; a rank keeps its first model. -/
def addModel (models : List (Nat × List F)) (m : ResultMatch) : Except Text (List (Nat × List F)) :=
  do
  let values ← m.read N
  match models.lookup (N.int m.rank) with
  | none => pure (models ++ [(N.int m.rank, values)])
  | some previous =>
    if previous == values then pure models
    else throw ("rank ".toList ++
      (decimal (N.int m.rank) ++ " emitted conflicting final models".toList))

def foundRanks (models : List (Nat × List F)) : Text :=
  '[' :: (", ".toList.intercalate
    (((models.map Prod.fst).mergeSort).map fun rank => decimal rank) ++ [']'])

def modelsFromLogs (log : Text) : Except Text (List (Nat × List F)) := do
  let models ← (findAll (matchResult N) 0 log).foldlM (addModel N) []
  if (∀ rank ∈ models.map Prod.fst, rank < 8) ∧ ∀ rank ∈ List.range 8,
    rank ∈ models.map Prod.fst then pure models
  else throw ("expected ranks 0..7, found ".toList ++ foundRanks models)

/-- A line of a log: the result of a rank behind what the log driver puts in front of it, or
another line. -/
inductive ModelEntry where
  | printed (lead : { t : Text // ¬ resultLead <:+: t }) (rank : Fin 8)
  | other (line : Text)

section Log

variable (kParameters : Nat) (steady : Fin 8 → Int) (models : Fin 8 → List F)

def ModelEntry.line : ModelEntry → Text
  | printed lead rank => lead.val ++ printResult N kParameters rank 100 (steady rank) (models rank)
  | other line => line

def modelLog (entries : List ModelEntry) : Text :=
  ['\n'].intercalate (entries.map (ModelEntry.line N kParameters steady models))

def ReadsModels (log : Text) : Prop :=
  ∃ found, modelsFromLogs N log = .ok found ∧
    ∀ rank : Fin 8, found.lookup rank.val = some (models rank)

/-- The matches in the lines that `print_result` did not print. -/
def otherResults (entries : List ModelEntry) : List ResultMatch :=
  entries.flatMap fun e => match e with
    | .printed _ _ => []
    | .other line => findAll (matchResult N) 0 line

/-- A match that is a well-formed result of a rank with the values of its model. -/
def Repeats (before : List ResultMatch) (m : ResultMatch) : Prop :=
  ∃ rank : Fin 8, N.int m.rank = rank ∧ N.int m.iterations = 100 ∧
    ∃ values, m.items.mapM N.float = .ok values ∧
    N.int m.parameters = values.length ∧
    if ∃ b ∈ before, N.int b.rank = N.int m.rank then (models rank == values) = true
    else models rank = values

/-- Results without the field, of all the ranks and with the values of the models. -/
def Supplies (results : List ResultMatch) : Prop :=
  (∀ rank : Fin 8, ∃ m ∈ results, N.int m.rank = rank) ∧
    ∀ before m after, results = before ++ m :: after → Repeats N models before m

end Log

end Reading

theorem digit_line_end : N.digit '\n' = false := N.digit_ascii '\n' (by decide)

theorem lineScan_matchResult : LineScan (matchResult N) :=
  .literal (by decide) <| .run (digit_line_end N) fun rank =>
  .literal (by decide) <| .run (digit_line_end N) fun iterations =>
  .literal (by decide) <| .run (digit_line_end N) fun parameters =>
  .literal (by decide) <| .run (by decide) fun values =>
    .pure (ResultMatch.mk rank iterations parameters values)

theorem matchResult_none {t : Text} (h : ¬ resultLead <+: t) : matchResult N t = none := by
  rw [matchResult, dropPrefix?_none h]
  rfl

theorem resultLead_marker : Marker resultLead := by
  have h : resultLead = _ := String.toList_ofList
  rw [h]
  exact ⟨_, _, rfl, by decide⟩

theorem digit_decimal (n : Nat) : ∀ c ∈ decimal n, N.digit c = true := by
  intro c hc
  have hdigit : c.isDigit = true := toDigits_isDigit hc
  have hascii : c.toNat < 128 := by
    simp only [Char.isDigit, Bool.and_eq_true, decide_eq_true_eq] at hdigit
    have h := UInt32.le_iff_toNat_le.mp hdigit.2
    exact Nat.lt_of_le_of_lt h (by decide)
  rw [N.digit_ascii c hascii, hdigit]

/-- The digits of a number end before a key. -/
theorem scan_decimal (n : Nat) {key t : Text} (h : key.head? = some ' ') :
    scanSome N.digit (decimal n ++ (key ++ t)) = some (decimal n, key ++ t) := by
  apply scanSome_append
  · exact Nat.toDigits_ne_nil
  · exact digit_decimal N n
  · intro c hc
    rw [List.head?_append, h, Option.some_or, Option.some.injEq] at hc
    rw [← hc, N.digit_ascii ' ' (by decide)]
    rfl

/-- The field of the steady time stands where the pattern has the number of parameters. -/
theorem matchResult_printResult (kParameters rank iterations : Nat) (steady : Int)
    (model : List F) :
    matchResult N (printResult N kParameters rank iterations steady model) = none := by
  have hfield : ∀ t, (steadyKey ++ t).dropPrefix? parametersKey = none := by
    intro t
    have hs : steadyKey = _ := String.toList_ofList
    have hp : parametersKey = _ := String.toList_ofList
    rw [hs, hp]
    rfl
  rw [matchResult, printResult, dropPrefix?_append]
  simp only [Option.bind_eq_bind, Option.bind_some]
  rw [scan_decimal N rank (by decide)]
  simp only [Option.bind_some, dropPrefix?_append]
  rw [resultTail, scan_decimal N iterations (by decide)]
  simp only [Option.bind_some, hfield]
  rfl

theorem shown_ne {x : F} {c : Char} (h : c ∈ N.shown x) : c ≠ 'M' := by
  rintro rfl
  rcases N.shown_chars x 'M' h with hc | hc
  · exact absurd hc (by decide)
  · exact absurd hc (by decide)

theorem decimal_ne {z : Int} {c : Char} (h : c ∈ decimal z) : c ≠ 'M' := by
  rintro rfl
  rcases decimal_chars h with hc | hc
  · exact absurd hc (by decide)
  · exact absurd hc (by decide)

/-- A result has no other place where a match could begin. -/
theorem findAll_printResult (kParameters rank iterations : Nat) (steady : Int) (model : List F) :
    findAll (matchResult N) 0 (printResult N kParameters rank iterations steady model) = [] := by
  have hkeys : ∀ key ∈ [iterationsKey, steadyKey, parametersKey, valuesKey], 'M' ∉ key := by
    have hi : iterationsKey = _ := String.toList_ofList
    have hs : steadyKey = _ := String.toList_ofList
    have hp : parametersKey = _ := String.toList_ofList
    have hv : valuesKey = _ := String.toList_ofList
    rw [hi, hs, hp, hv]
    decide
  apply findAll_unmatched (fun _ => matchResult_none N) resultLead_marker
  · exact matchResult_printResult N kParameters rank iterations steady model
  · intro c hc h
    have hhead : resultLead.head? = some 'M' := by decide
    rw [hhead, Option.some.injEq] at h
    have hkey : ∀ key ∈ [iterationsKey, steadyKey, parametersKey, valuesKey], c ∈ key → c ≠ 'M' :=
      fun key hin hc heq => hkeys key hin (heq ▸ hc)
    refine absurd h.symm ?_
    simp only [resultTail, List.mem_append, List.mem_flatMap, List.mem_singleton] at hc
    rcases hc with hc | hc | hc | hc | hc | hc | hc | hc | ⟨value, -, hc | hc⟩
    · exact decimal_ne hc
    · exact hkey iterationsKey (by simp) hc
    · exact decimal_ne hc
    · exact hkey steadyKey (by simp) hc
    · exact decimal_ne hc
    · exact hkey parametersKey (by simp) hc
    · exact decimal_ne hc
    · exact hkey valuesKey (by simp) hc
    · exact shown_ne N hc
    · rw [hc]
      decide

theorem findAll_modelLog (kParameters : Nat) (steady : Fin 8 → Int) (models : Fin 8 → List F)
    (entries : List ModelEntry) :
    findAll (matchResult N) 0 (modelLog N kParameters steady models entries) =
      otherResults N entries := by
  rw [modelLog, findAll_lines (lineScan_matchResult N) (matchResult_none N (by decide)),
    List.flatMap_map]
  refine List.flatMap_congr fun e _ => ?_
  cases e with
  | other line => rfl
  | printed lead rank =>
    rw [ModelEntry.line, printResult,
      findAll_lead (fun _ => matchResult_none N) resultLead_marker lead.property]
    exact findAll_printResult N kParameters rank 100 (steady rank) (models rank)

theorem read_eq_ok {m : ResultMatch} {values : List F} :
    m.read N = .ok values ↔
      m.items.mapM N.float = .ok values ∧ N.int m.iterations = 100 ∧
      N.int m.parameters = values.length := by
  rw [ResultMatch.read]
  cases hitems : m.items.mapM N.float with
  | error e => simp [bind, Except.bind]
  | ok found =>
    simp only [bind, Except.bind]
    split
    · rename_i hbad
      constructor
      · intro h
        cases h
      · rintro ⟨h, hiterations, hparameters⟩
        cases h
        exact absurd hbad (by simp [hiterations, hparameters])
    · rename_i hgood
      rw [not_or, not_not, not_not] at hgood
      constructor
      · intro h
        cases h
        exact ⟨rfl, hgood⟩
      · rintro ⟨h, -⟩
        exact h

theorem lookup_concat (models : List (Nat × List F)) (rank : Nat) (values : List F) (k : Nat) :
    (models ++ [(rank, values)]).lookup k = (models.lookup k).or
      (if k = rank then some values else none) := by
  rw [List.lookup_append]
  by_cases hk : k = rank
  · subst hk
    rw [if_pos rfl, List.lookup_cons_self]
  · rw [if_neg hk, List.lookup_cons, beq_false_of_ne hk]
    rfl

def wanted (printed : Fin 8 → List F) (k : Nat) : Option (List F) :=
  if h : k < 8 then some (printed ⟨k, h⟩) else none

theorem wanted_rank (printed : Fin 8 → List F) (rank : Fin 8) :
    wanted printed rank = some (printed rank) := by
  rw [wanted, dif_pos rank.isLt]

theorem wanted_eq_some {printed : Fin 8 → List F} {k : Nat} {values : List F}
    (h : wanted printed k = some values) : ∃ rank : Fin 8, k = rank ∧ printed rank = values := by
  rw [wanted] at h
  split at h
  · rename_i hk
    exact ⟨⟨k, hk⟩, rfl, Option.some.inj h⟩
  · cases h

/-- The models of the ranks that were met, and no others. -/
def Holds (printed : Fin 8 → List F) (before : List ResultMatch) (models : List (Nat × List F)) :
    Prop :=
  ∀ k, models.lookup k = if ∃ b ∈ before, N.int b.rank = k then wanted printed k else none

theorem exists_concat {N : NumberText F} {before : List ResultMatch} {m : ResultMatch} {k : Nat} :
    (∃ b ∈ before ++ [m], N.int b.rank = k) ↔ (∃ b ∈ before, N.int b.rank = k) ∨
    N.int m.rank = k := by
  simp [or_and_right, exists_or]

section Reading

variable [BEq F] {N} {m : ResultMatch} {models models' : List (Nat × List F)}

theorem addModel_cases (h : addModel N models m = .ok models') :
    ∃ values, m.read N = .ok values ∧
      ((models.lookup (N.int m.rank) = none ∧ models' = models ++ [(N.int m.rank, values)]) ∨
        ∃ previous, models.lookup (N.int m.rank) = some previous ∧ (previous == values) = true ∧
        models' = models) := by
  rw [addModel] at h
  cases hread : m.read N with
  | error e =>
    rw [hread] at h
    cases h
  | ok values =>
    rw [hread] at h
    simp only [bind, Except.bind] at h
    refine ⟨values, rfl, ?_⟩
    cases hlookup : models.lookup (N.int m.rank) with
    | none =>
      rw [hlookup] at h
      cases h
      exact .inl ⟨rfl, rfl⟩
    | some previous =>
      rw [hlookup] at h
      dsimp only at h
      split at h
      · rename_i hsame
        cases h
        exact .inr ⟨previous, rfl, hsame, rfl⟩
      · cases h

theorem addModel_new {values : List F} (hread : m.read N = .ok values)
    (h : models.lookup (N.int m.rank) = none) :
    addModel N models m = .ok (models ++ [(N.int m.rank, values)]) := by
  rw [addModel, hread, h]
  rfl

theorem addModel_again {values previous : List F} (hread : m.read N = .ok values)
    (h : models.lookup (N.int m.rank) = some previous) (hsame : (previous == values) = true) :
    addModel N models m = .ok models := by
  rw [addModel, hread, h]
  simp only [bind, Except.bind, hsame]
  rfl

theorem addModel_keeps (h : addModel N models m = .ok models') {k : Nat} {values : List F}
    (hk : models.lookup k = some values) : models'.lookup k = some values := by
  obtain ⟨read, -, ⟨-, rfl⟩ | ⟨previous, -, -, rfl⟩⟩ := addModel_cases h
  · rw [lookup_concat, hk, Option.some_or]
  · exact hk

theorem foldlM_addModel_keeps (results : List ResultMatch) {models found : List (Nat × List F)}
    (h : results.foldlM (addModel N) models = .ok found) {k : Nat} {values : List F}
    (hk : models.lookup k = some values) : found.lookup k = some values := by
  induction results generalizing models with
  | nil =>
    cases h
    exact hk
  | cons m results ih =>
    rw [List.foldlM_cons] at h
    cases hadd : addModel N models m with
    | error e =>
      rw [hadd] at h
      cases h
    | ok models' =>
      rw [hadd] at h
      exact ih h (addModel_keeps hadd hk)

variable {printed : Fin 8 → List F} {before : List ResultMatch}

/-- A result that agrees with what was printed is taken. -/
theorem addModel_repeats (hmodels : Holds N printed before models)
    (h : Repeats N printed before m) :
    ∃ models', addModel N models m = .ok models' ∧ Holds N printed (before ++ [m]) models' := by
  obtain ⟨rank, hrank, hiterations, values, hitems, hparameters, hvalues⟩ := h
  have hread : m.read N = .ok values := (read_eq_ok N).mpr ⟨hitems, hiterations, hparameters⟩
  have hlookup := hmodels (N.int m.rank)
  split at hvalues
  · rename_i hmet
    rw [if_pos hmet, hrank, wanted_rank, ← hrank] at hlookup
    refine ⟨models, addModel_again hread hlookup hvalues, fun k => ?_⟩
    rw [hmodels k]
    refine if_congr (Iff.symm ?_) rfl rfl
    rw [exists_concat]
    constructor
    · rintro (hk | rfl)
      · exact hk
      · exact hmet
    · exact .inl
  · rename_i hnew
    rw [if_neg hnew] at hlookup
    refine ⟨_, addModel_new hread hlookup, fun k => ?_⟩
    rw [lookup_concat]
    by_cases hk : k = N.int m.rank
    · subst hk
      rw [hlookup, if_pos rfl, if_pos (exists_concat.mpr (.inr rfl)), hrank, wanted_rank, hvalues]
      rfl
    · rw [if_neg hk, Option.or_none, hmodels k]
      refine if_congr (Iff.symm ?_) rfl rfl
      rw [exists_concat]
      constructor
      · rintro (hmet | rfl)
        · exact hmet
        · exact absurd rfl hk
      · exact .inl

/-- A result that is taken agrees with what was printed, if the run ends with that. -/
theorem repeats_of_addModel (hmodels : Holds N printed before models)
    (h : addModel N models m = .ok models')
    (hend : ∀ k values, models'.lookup k = some values → wanted printed k = some values) :
    Repeats N printed before m := by
  obtain ⟨values, hread, hcase⟩ := addModel_cases h
  obtain ⟨hitems, hiterations, hparameters⟩ := (read_eq_ok N).mp hread
  rcases hcase with ⟨hnew, rfl⟩ | ⟨previous, hlookup, hsame, rfl⟩
  · have hwant : wanted printed (N.int m.rank) = some values := by
      apply hend
      rw [lookup_concat, hnew, if_pos rfl, Option.none_or]
    obtain ⟨rank, hrank, hvalues⟩ := wanted_eq_some hwant
    refine ⟨rank, hrank, hiterations, values, hitems, hparameters, ?_⟩
    have hunmet : ¬ ∃ b ∈ before, N.int b.rank = N.int m.rank := by
      intro hmet
      have hlookup := hmodels (N.int m.rank)
      rw [if_pos hmet, hwant, hnew] at hlookup
      cases hlookup
    rw [if_neg hunmet]
    exact hvalues
  · have hmet : ∃ b ∈ before, N.int b.rank = N.int m.rank := by
      by_contra hunmet
      have hnone := hmodels (N.int m.rank)
      rw [if_neg hunmet, hlookup] at hnone
      cases hnone
    obtain ⟨rank, hrank, hvalues⟩ := wanted_eq_some (hend _ _ hlookup)
    refine ⟨rank, hrank, hiterations, values, hitems, hparameters, ?_⟩
    rw [if_pos hmet, hvalues]
    exact hsame

theorem foldlM_repeats (results : List ResultMatch) {before : List ResultMatch}
    {models : List (Nat × List F)} (hmodels : Holds N printed before models)
    (h : ∀ mid m after, results = mid ++ m :: after → Repeats N printed (before ++ mid) m) :
    ∃ found, results.foldlM (addModel N) models = .ok found ∧
    Holds N printed (before ++ results) found := by
  induction results generalizing before models with
  | nil => exact ⟨models, rfl, by rwa [List.append_nil]⟩
  | cons m results ih =>
    have hfirst := h [] m results rfl
    rw [List.append_nil] at hfirst
    obtain ⟨models', hadd, hmodels'⟩ := addModel_repeats hmodels hfirst
    have hrest : ∀ mid m' after, results = mid ++ m' :: after →
        Repeats N printed (before ++ [m] ++ mid) m' := by
      intro mid m' after hsplit
      rw [List.append_assoc, List.singleton_append]
      exact h (m :: mid) m' after (by rw [hsplit, List.cons_append])
    obtain ⟨found, hfound, hholds⟩ := ih hmodels' hrest
    refine ⟨found, ?_, ?_⟩
    · rw [List.foldlM_cons, hadd]
      exact hfound
    · rwa [List.append_assoc, List.singleton_append] at hholds

theorem repeats_of_foldlM (results : List ResultMatch) {before : List ResultMatch}
    {models found : List (Nat × List F)} (hmodels : Holds N printed before models)
    (h : results.foldlM (addModel N) models = .ok found)
    (hend : ∀ k values, found.lookup k = some values → wanted printed k = some values) :
    ∀ mid m after, results = mid ++ m :: after → Repeats N printed (before ++ mid) m := by
  induction results generalizing before models with
  | nil =>
    intro mid m after hsplit
    simp at hsplit
  | cons m results ih =>
    rw [List.foldlM_cons] at h
    cases hadd : addModel N models m with
    | error e =>
      rw [hadd] at h
      cases h
    | ok models' =>
      rw [hadd] at h
      have hfirst : Repeats N printed before m :=
        repeats_of_addModel hmodels hadd fun k values hk =>
          hend k values (foldlM_addModel_keeps results h hk)
      obtain ⟨again, hagain, hmodels'⟩ := addModel_repeats hmodels hfirst
      rw [hadd, Except.ok.injEq] at hagain
      subst hagain
      intro mid m' after hsplit
      cases mid with
      | nil =>
        rw [List.nil_append, List.cons.injEq] at hsplit
        rw [List.append_nil, ← hsplit.1]
        exact hfirst
      | cons d mid =>
        rw [List.cons_append, List.cons.injEq] at hsplit
        have hrest := ih hmodels' h mid m' after hsplit.2
        rwa [List.append_assoc, List.singleton_append, hsplit.1] at hrest

theorem modelsFromLogs_eq_ok {log : Text} {found : List (Nat × List F)} :
    modelsFromLogs N log = .ok found ↔
      (findAll (matchResult N) 0 log).foldlM (addModel N) [] = .ok found ∧
        (∀ rank ∈ found.map Prod.fst, rank < 8) ∧ ∀ rank ∈ List.range 8,
          rank ∈ found.map Prod.fst := by
  rw [modelsFromLogs]
  cases hfold : (findAll (matchResult N) 0 log).foldlM (addModel N) [] with
  | error e => simp [bind, Except.bind]
  | ok models =>
    simp only [bind, Except.bind]
    split
    · rename_i hranks
      constructor
      · intro h
        cases h
        exact ⟨rfl, hranks⟩
      · exact fun h => h.1
    · rename_i hranks
      constructor
      · intro h
        cases h
      · rintro ⟨h, hall⟩
        cases h
        exact absurd hall hranks

omit [BEq F] in
theorem mem_keys_iff {found : List (Nat × List F)} {k : Nat} :
    k ∈ found.map Prod.fst ↔ ∃ values, found.lookup k = some values := by
  constructor
  · intro h
    cases hlookup : found.lookup k with
    | some values => exact ⟨values, rfl⟩
    | none =>
      obtain ⟨e, he, rfl⟩ := List.mem_map.mp h
      exact absurd (List.lookup_eq_none_iff.mp hlookup e he) (by simp)
  · rintro ⟨values, h⟩
    obtain ⟨front, back, rfl, -⟩ := List.lookup_eq_some_iff.mp h
    simp

/-- The runner gets the models exactly when lines of another form supply them: what
`print_result` prints is never a match. -/
theorem models_read_iff (N : NumberText F) (kParameters : Nat) (steady : Fin 8 → Int)
    (models : Fin 8 → List F) (entries : List ModelEntry) :
    ReadsModels N models (modelLog N kParameters steady models entries) ↔
      Supplies N models (otherResults N entries) := by
  have hempty : Holds N models [] [] := by
    intro k
    rw [if_neg (by simp)]
    rfl
  rw [ReadsModels]
  simp only [modelsFromLogs_eq_ok, findAll_modelLog]
  constructor
  · rintro ⟨found, ⟨hfold, hbelow, -⟩, hfound⟩
    have hend : ∀ k values, found.lookup k = some values → wanted models k = some values := by
      intro k values hk
      have hlt : k < 8 := hbelow k (mem_keys_iff.mpr ⟨values, hk⟩)
      rw [wanted, dif_pos hlt, ← hk]
      exact (hfound ⟨k, hlt⟩).symm
    have hrepeats := repeats_of_foldlM _ hempty hfold hend
    obtain ⟨again, hagain, hholds⟩ := foldlM_repeats _ hempty hrepeats
    rw [hfold, Except.ok.injEq] at hagain
    subst hagain
    refine ⟨fun rank => ?_, hrepeats⟩
    by_contra hunmet
    have hnone := hholds rank
    rw [List.nil_append, if_neg hunmet, hfound rank] at hnone
    cases hnone
  · rintro ⟨hall, hrepeats⟩
    obtain ⟨found, hfold, hholds⟩ := foldlM_repeats _ hempty hrepeats
    have hfound : ∀ rank : Fin 8, found.lookup rank.val = some (models rank) := by
      intro rank
      rw [hholds rank, List.nil_append, if_pos (hall rank), wanted_rank]
    refine ⟨found, ⟨hfold, fun k hk => ?_, fun k hk => ?_⟩, hfound⟩
    · obtain ⟨values, hlookup⟩ := mem_keys_iff.mp hk
      rw [hholds k] at hlookup
      split at hlookup
      · obtain ⟨rank, rfl, -⟩ := wanted_eq_some hlookup
        exact rank.isLt
      · cases hlookup
    · rw [mem_keys_iff]
      exact ⟨_, hfound ⟨k, List.mem_range.mp hk⟩⟩

end Reading

def wholeNumbers : NumberText Int where
  digit := Char.isDigit
  int t := Nat.ofDigitChars 10 t 0
  float t :=
    match scanInt t with
    | some ('-' :: t, []) => .ok (-(Nat.ofDigitChars 10 t 0 : Int))
    | some (t, []) => .ok (Nat.ofDigitChars 10 t 0 : Int)
    | _ => .error "could not convert string to float".toList
  shown := decimal
  digit_ascii _ _ := rfl
  shown_chars := by
    intro z c hc
    rcases decimal_chars hc with rfl | h
    · exact .inr (by decide)
    · exact .inl h

def printedEntries : List ModelEntry :=
  (List.finRange 8).map fun rank => .printed ⟨[], by decide⟩ rank

theorem printed_models_unread :
    modelsFromLogs wholeNumbers
      (modelLog wholeNumbers 1 (fun _ => 5) (fun _ => [0]) printedEntries) =
        .error "expected ranks 0..7, found []".toList ∧
      ¬ ReadsModels wholeNumbers (fun _ => [0])
        (modelLog wholeNumbers 1 (fun _ => 5) (fun _ => [0]) printedEntries) := by
  have hnone : otherResults wholeNumbers printedEntries = [] := by
    rw [otherResults, List.flatMap_eq_nil_iff]
    intro e he
    obtain ⟨rank, -, rfl⟩ := List.mem_map.mp he
    rfl
  have herror : modelsFromLogs wholeNumbers
      (modelLog wholeNumbers 1 (fun _ => 5) (fun _ => [0]) printedEntries) =
      .error "expected ranks 0..7, found []".toList := by
    have hempty : foundRanks ([] : List (Nat × List Int)) = ['[', ']'] := by
      rw [foundRanks, List.map_nil, List.mergeSort_nil]
      rfl
    rw [modelsFromLogs, findAll_modelLog, hnone, List.foldlM_nil, pure_bind,
      if_neg (by decide), hempty]
    rfl
  refine ⟨herror, ?_⟩
  rintro ⟨found, hfound, -⟩
  rw [herror] at hfound
  cases hfound

end ChipSystemSim
