import ChipSystemSim.LineScan
import ChipSystemSim.Router
import Mathlib.Data.List.Infix

/-! The exit reports of the workers, and what the scalability runner reads of
them: the last return code of each phase-one process. -/

namespace ChipSystemSim

def exitLead : Text := "worker: process phase1-".toList

def exitMiddle : Text := " exited rc=".toList

def phaseOneId (index : Nat) : Text := "phase1-".toList ++ decimal index

/-- What `handle` prints when a phase-one process has ended. -/
def exitReport (index : Nat) (returnCode : Int) : Text :=
  exitLead ++ (decimal index ++ (exitMiddle ++ decimal returnCode))

/-- `PHASE_ONE_EXIT` at the start of a text: the name of the process and the digits of its code. -/
def matchExit (t : Text) : Option ((Text × Text) × Text) :=
  t.dropPrefix? exitLead >>= fun t => scanSome Char.isDigit t >>= fun (index, t) =>
  t.dropPrefix? exitMiddle >>= fun t => scanSome Char.isDigit t >>= fun (code, t) =>
  some (("phase1-".toList ++ index, code), t)

/-- The dictionary comprehension: a later report of a process replaces an earlier one. -/
def phaseOneExits (log : Text) : List (Text × Int) :=
  (findAll matchExit 0 log).foldl
    (fun exits e => dictSet exits e.1 (Nat.ofDigitChars 10 e.2 0 : Int)) []

/-- `deploy_sample` on a transport log. -/
def failedExits (log : Text) : List (Text × Int) := (phaseOneExits log).filter fun e => e.2 ≠ 0

/-- A text of a line that is not a report of a phase-one process. -/
def PlainText := { t : Text // ¬ exitLead <:+: t }

/-- A line of a log: a report behind what the log driver puts in front of it, or another line. -/
inductive LogEntry where
  | exited (lead : PlainText) (index : Nat) (returnCode : Int)
  | other (line : PlainText)

def LogEntry.line : LogEntry → Text
  | exited lead index returnCode => lead.val ++ exitReport index returnCode
  | other line => line.val

def logText (entries : List LogEntry) : Text := ['\n'].intercalate (entries.map LogEntry.line)

/-- The codes that were reported for a process, in the order of the log. -/
def returnCodes (entries : List LogEntry) (index : Nat) : List Int :=
  entries.filterMap fun e => match e with
    | .exited _ i returnCode => if i = index then some returnCode else none
    | .other _ => none

/-- The runner knows the last code of each process that exited, and sees a failure where the
last code of one is not zero. -/
def ReportsLastExits (entries : List LogEntry) : Prop :=
  (∀ index returnCode, (returnCodes entries index).getLast? = some returnCode →
    (phaseOneExits (logText entries)).lookup (phaseOneId index) = some returnCode) ∧
  (failedExits (logText entries) ≠ [] ↔
    ∃ index returnCode, (returnCodes entries index).getLast? = some returnCode ∧ returnCode ≠ 0)

theorem lineScan_matchExit : LineScan matchExit :=
  .literal (by decide) <| .run (by decide) fun index => .literal (by decide) <|
    .run (by decide) fun code =>
    .pure ("phase1-".toList ++ index, code)

theorem matchExit_none {t : Text} (h : ¬ exitLead <+: t) : matchExit t = none := by
  rw [matchExit, dropPrefix?_none h]
  rfl

theorem exitLead_marker : Marker exitLead := by
  have h : exitLead = _ := String.toList_ofList
  rw [h]
  exact ⟨_, _, rfl, by decide⟩

theorem w_notMem_report (index : Nat) (returnCode : Int) :
    ∀ c ∈ decimal index ++ (exitMiddle ++ decimal returnCode), exitLead.head? ≠ some c := by
  have hhead : exitLead.head? = some 'w' := by decide
  have hmiddle : 'w' ∉ exitMiddle := by
    have h : exitMiddle = _ := String.toList_ofList
    rw [h]
    decide
  have hdecimal : ∀ z : Int, ∀ c ∈ decimal z, c ≠ 'w' := by
    rintro z c hc rfl
    rcases decimal_chars hc with h | h
    · exact absurd h (by decide)
    · exact absurd h (by decide)
  intro c hc h
  rw [hhead, Option.some.injEq] at h
  simp only [List.mem_append] at hc
  rcases hc with hc | hc | hc
  · exact hdecimal _ c hc h.symm
  · exact hmiddle (h ▸ hc)
  · exact hdecimal _ c hc h.symm

/-- The scanner on a report, up to its code. -/
theorem matchExit_report (index : Nat) (returnCode : Int) :
    matchExit (exitReport index returnCode) =
      (scanSome Char.isDigit (decimal returnCode)).map fun x => ((phaseOneId index, x.1), x.2) := by
  have hindex : scanSome Char.isDigit (decimal index ++ (exitMiddle ++ decimal returnCode)) =
      some (decimal index, exitMiddle ++ decimal returnCode) := by
    refine scanSome_append Nat.toDigits_ne_nil (fun c hc => toDigits_isDigit hc) ?_
    intro c hc
    have hhead : exitMiddle.head? = some ' ' := by decide
    rw [List.head?_append, hhead, Option.some_or] at hc
    cases hc
    decide
  rw [matchExit, exitReport, dropPrefix?_append]
  simp only [Option.bind_eq_bind, Option.bind_some, hindex, dropPrefix?_append]
  cases scanSome Char.isDigit (decimal returnCode) with
  | none => rfl
  | some x => rfl

theorem findAll_report (index : Nat) (returnCode : Int) :
    findAll matchExit 0 (exitReport index returnCode) =
      if 0 ≤ returnCode then [(phaseOneId index, decimal returnCode)] else [] := by
  have hmatch := matchExit_report index returnCode
  cases returnCode with
  | ofNat code =>
    obtain ⟨first, l, hl, -⟩ := exitLead_marker
    have hcode : scanSome Char.isDigit (decimal (.ofNat code)) =
        some (decimal (.ofNat code), []) := by
      conv_lhs => rw [← List.append_nil (decimal (.ofNat code))]
      apply scanSome_append
      · exact Nat.toDigits_ne_nil
      · exact fun c hc => toDigits_isDigit (n := code) hc
      · exact fun c hc => by cases hc
    rw [hcode, Option.map_some, exitReport, hl, List.cons_append] at hmatch
    have hpos : 0 ≤ Int.ofNat code := Int.natCast_nonneg code
    rw [if_pos hpos, exitReport, hl, List.cons_append]
    rw [← List.append_nil (l ++ _)] at hmatch ⊢
    exact findAll_some hmatch
  | negSucc code =>
    have hsign : scanSome Char.isDigit (decimal (.negSucc code)) = none := rfl
    rw [hsign, Option.map_none] at hmatch
    rw [if_neg (by omega)]
    apply findAll_unmatched (fun _ => matchExit_none) exitLead_marker
    · exact hmatch
    · exact w_notMem_report index (.negSucc code)

/-- What the scanner finds in a line. -/
def LogEntry.reported : LogEntry → List (Text × Text)
  | exited _ index returnCode =>
    if 0 ≤ returnCode then [(phaseOneId index, decimal returnCode)] else []
  | other _ => []

theorem findAll_entry (e : LogEntry) : findAll matchExit 0 e.line = e.reported := by
  cases e with
  | exited lead index returnCode =>
    rw [LogEntry.line, LogEntry.reported, ← findAll_report]
    exact findAll_lead (fun _ => matchExit_none) exitLead_marker lead.property
  | other line => exact findAll_unmarked (fun _ => matchExit_none) line.property

theorem findAll_logText (entries : List LogEntry) :
    findAll matchExit 0 (logText entries) = entries.flatMap LogEntry.reported := by
  rw [logText, findAll_lines lineScan_matchExit (matchExit_none (by decide)), List.flatMap_map]
  exact List.flatMap_congr fun e _ => findAll_entry e

section Dictionary

variable {β : Type*} {l table : List (Text × β)} {k : Text} {v : β}

theorem lookup_foldl_dictSet (l table : List (Text × β)) (k : Text) :
    (l.foldl (fun d e => dictSet d e.1 e.2) table).lookup k =
      ((l.filter fun e => e.1 = k).getLast?.map Prod.snd).or (table.lookup k) := by
  induction l generalizing table with
  | nil => simp
  | cons e l ih =>
    rw [List.foldl_cons, ih, lookup_dictSet]
    by_cases he : e.1 = k
    · rw [List.filter_cons_of_pos (by simpa using he), List.getLast?_cons, if_pos he.symm]
      cases (l.filter fun e => e.1 = k).getLast? <;> simp
    · rw [List.filter_cons_of_neg (by simpa using he), if_neg (Ne.symm he)]

theorem dictSet_nodup (h : (table.map Prod.fst).Nodup) (k : Text) (v : β) :
    ((dictSet table k v).map Prod.fst).Nodup := by
  induction table with
  | nil => simp [dictSet]
  | cons e table ih =>
    obtain ⟨e, w⟩ := e
    rw [List.map_cons, List.nodup_cons] at h
    rw [dictSet]
    split
    · rw [List.map_cons, List.nodup_cons]
      exact h
    · rename_i hne
      rw [List.map_cons, List.nodup_cons]
      refine ⟨fun hmem => ?_, ih h.2⟩
      obtain ⟨m, hm, hfst⟩ := List.mem_map.mp hmem
      rcases dictSet_keys hm with hkey | hold
      · exact hne (hfst.symm.trans hkey)
      · exact h.1 (List.mem_map.mpr ⟨m, hold, hfst⟩)

theorem foldl_dictSet_nodup (l : List (Text × β)) {table : List (Text × β)}
    (h : (table.map Prod.fst).Nodup) :
    ((l.foldl (fun d e => dictSet d e.1 e.2) table).map Prod.fst).Nodup := by
  induction l generalizing table with
  | nil => exact h
  | cons e l ih => exact ih (dictSet_nodup h e.1 e.2)

theorem lookup_of_mem (h : (table.map Prod.fst).Nodup) (hmem : (k, v) ∈ table) :
    table.lookup k = some v := by
  obtain ⟨before, after, rfl⟩ := List.append_of_mem hmem
  refine List.lookup_eq_some_iff.mpr ⟨before, after, rfl, fun p hp => ?_⟩
  rw [List.map_append, List.nodup_append] at h
  have hne := h.2.2 p.1 (List.mem_map_of_mem hp) k (by simp)
  simpa using hne.symm

theorem mem_of_lookup (h : table.lookup k = some v) : (k, v) ∈ table := by
  obtain ⟨before, after, rfl, -⟩ := List.lookup_eq_some_iff.mp h
  simp

end Dictionary

theorem phaseOneId_injective {i j : Nat} (h : phaseOneId i = phaseOneId j) : i = j := by
  have := decimal_injective (List.append_cancel_left h)
  omega

/-- The pairs of the comprehension, before the later ones replace the earlier ones. -/
def exitPairs (entries : List LogEntry) : List (Text × Int) :=
  (entries.flatMap LogEntry.reported).map fun e => (e.1, (Nat.ofDigitChars 10 e.2 0 : Int))

theorem phaseOneExits_eq (entries : List LogEntry) :
    phaseOneExits (logText entries) = (exitPairs entries).foldl
      (fun d e => dictSet d e.1 e.2) [] := by
  rw [phaseOneExits, findAll_logText, exitPairs, List.foldl_map]

/-- Of the codes of a process the pairs have those without a sign. -/
theorem exitPairs_filter (entries : List LogEntry) (index : Nat) :
    (exitPairs entries).filter (fun e => e.1 = phaseOneId index) =
      ((returnCodes entries index).filter (0 ≤ ·)).map fun returnCode =>
        (phaseOneId index, returnCode) := by
  induction entries with
  | nil => rfl
  | cons e entries ih =>
    have hcons : exitPairs (e :: entries) =
        e.reported.map (fun e => (e.1, (Nat.ofDigitChars 10 e.2 0 : Int))) ++
          exitPairs entries := by
      rw [exitPairs, List.flatMap_cons, List.map_append]
      rfl
    rw [hcons, List.filter_append, ih]
    cases e with
    | other line => rfl
    | exited lead i returnCode =>
      by_cases hindex : i = index
      · subst hindex
        have hcodes : returnCodes (.exited lead i returnCode :: entries) i = returnCode ::
            returnCodes entries i := by
          simp [returnCodes]
        rw [hcodes]
        cases returnCode with
        | ofNat code =>
          have hpos : 0 ≤ Int.ofNat code := Int.natCast_nonneg code
          have hvalue : (Nat.ofDigitChars 10 (decimal (.ofNat code)) 0 : Int) = .ofNat code := by
            rw [decimal]
            simp
          rw [LogEntry.reported, if_pos hpos, List.map_singleton, hvalue,
            List.filter_cons_of_pos (by simp), List.filter_cons_of_pos (by simp), List.map_cons]
          rfl
        | negSucc code =>
          have hneg : ¬ 0 ≤ Int.negSucc code := by omega
          simp [LogEntry.reported, hneg]
      · have hcodes : returnCodes (.exited lead i returnCode :: entries) index =
            returnCodes entries index := by
          simp [returnCodes, hindex]
        have hname : phaseOneId i ≠ phaseOneId index := fun h => hindex (phaseOneId_injective h)
        rw [hcodes, LogEntry.reported]
        split
        · rw [List.map_singleton, List.filter_cons_of_neg (by simpa using hname)]
          rfl
        · rfl

theorem lookup_phaseOneExits (entries : List LogEntry) (index : Nat) :
    (phaseOneExits (logText entries)).lookup (phaseOneId index) =
      ((returnCodes entries index).filter (0 ≤ ·)).getLast? := by
  rw [phaseOneExits_eq, lookup_foldl_dictSet, exitPairs_filter, List.getLast?_map, Option.map_map,
    List.lookup_nil, Option.or_none]
  cases ((returnCodes entries index).filter (0 ≤ ·)).getLast? with
  | none => rfl
  | some returnCode => rfl

theorem foldl_dictSet_keys {β : Type*} {l table : List (Text × β)} {e : Text × β}
    (h : e ∈ l.foldl (fun d e => dictSet d e.1 e.2) table) :
    e.1 ∈ l.map Prod.fst ∨ e.1 ∈ table.map Prod.fst := by
  induction l generalizing table with
  | nil => exact .inr (List.mem_map_of_mem h)
  | cons a l ih =>
    rcases ih h with hl | htable
    · exact .inl (List.mem_cons_of_mem _ hl)
    · obtain ⟨m, hm, hfst⟩ := List.mem_map.mp htable
      rcases dictSet_keys hm with hkey | hold
      · exact .inl (by rw [← hfst, hkey]; exact List.mem_cons_self)
      · exact .inr (by rw [← hfst]; exact List.mem_map_of_mem hold)

theorem phaseOneExits_key {entries : List LogEntry} {e : Text × Int}
    (h : e ∈ phaseOneExits (logText entries)) : ∃ index, e.1 = phaseOneId index := by
  rw [phaseOneExits_eq] at h
  rcases foldl_dictSet_keys h with hpair | hnil
  · obtain ⟨x, hx, hfst⟩ := List.mem_map.mp hpair
    obtain ⟨y, hy, rfl⟩ := List.mem_map.mp hx
    obtain ⟨entry, -, hreported⟩ := List.mem_flatMap.mp hy
    cases entry with
    | other line => cases hreported
    | exited lead index returnCode =>
      rw [LogEntry.reported] at hreported
      split at hreported
      · rw [List.mem_singleton] at hreported
        exact ⟨index, by rw [← hfst, hreported]⟩
      · cases hreported
  · cases hnil

theorem mem_phaseOneExits (entries : List LogEntry) (index : Nat) (code : Int) :
    (phaseOneId index, code) ∈ phaseOneExits (logText entries) ↔
      ((returnCodes entries index).filter (0 ≤ ·)).getLast? = some code := by
  rw [← lookup_phaseOneExits]
  refine ⟨lookup_of_mem ?_, mem_of_lookup⟩
  rw [phaseOneExits_eq]
  exact foldl_dictSet_nodup _ List.nodup_nil

theorem failedExits_ne_nil (entries : List LogEntry) :
    failedExits (logText entries) ≠ [] ↔
      ∃ index code, ((returnCodes entries index).filter (0 ≤ ·)).getLast? = some code ∧
      code ≠ 0 := by
  constructor
  · intro h
    obtain ⟨e, he⟩ := List.exists_mem_of_ne_nil _ h
    rw [failedExits, List.mem_filter, decide_eq_true_eq] at he
    obtain ⟨index, hindex⟩ := phaseOneExits_key he.1
    refine ⟨index, e.2, ?_, he.2⟩
    rw [← mem_phaseOneExits, ← hindex]
    exact he.1
  · rintro ⟨index, code, hlast, hcode⟩
    rw [← mem_phaseOneExits] at hlast
    apply List.ne_nil_of_mem
    rw [failedExits, List.mem_filter, decide_eq_true_eq]
    exact ⟨hlast, hcode⟩

/-- A code with a sign is not seen: the runner then reads an earlier one of the process, or none. -/
theorem getLast?_filter_nonneg {codes : List Int} {code : Int} (hlast : codes.getLast? = some code)
    (hcode : 0 ≤ code) : (codes.filter (0 ≤ ·)).getLast? = some code := by
  obtain ⟨before, rfl⟩ := List.getLast?_eq_some_iff.mp hlast
  rw [List.filter_append, List.filter_cons_of_pos (by simpa using hcode), List.filter_nil,
    List.getLast?_append, List.getLast?_singleton, Option.some_or]

theorem getLast?_of_filter {codes : List Int} {code : Int}
    (h : (codes.filter (0 ≤ ·)).getLast? = some code) : ∃ last, codes.getLast? = some last := by
  cases hlast : codes.getLast? with
  | some last => exact ⟨last, rfl⟩
  | none =>
    rw [List.getLast?_eq_none_iff] at hlast
    rw [hlast] at h
    cases h

/-- The codes of the processes are reported as they are exactly when no process was last
ended by a signal. -/
theorem last_exits_reported_iff (entries : List LogEntry) :
    ReportsLastExits entries ↔
      ∀ index returnCode, (returnCodes entries index).getLast? = some returnCode →
        0 ≤ returnCode := by
  constructor
  · rintro ⟨hcodes, -⟩ index returnCode hlast
    have hread := hcodes index returnCode hlast
    rw [lookup_phaseOneExits] at hread
    have hmem := List.mem_of_getLast? hread
    rw [List.mem_filter, decide_eq_true_eq] at hmem
    exact hmem.2
  · intro hsigned
    have hread : ∀ index returnCode, (returnCodes entries index).getLast? = some returnCode →
        ((returnCodes entries index).filter (0 ≤ ·)).getLast? = some returnCode :=
      fun index returnCode hlast => getLast?_filter_nonneg hlast (hsigned index returnCode hlast)
    refine ⟨fun index returnCode hlast => ?_, ?_⟩
    · rw [lookup_phaseOneExits]
      exact hread index returnCode hlast
    · rw [failedExits_ne_nil]
      constructor
      · rintro ⟨index, code, hcode, hne⟩
        obtain ⟨last, hlast⟩ := getLast?_of_filter hcode
        refine ⟨index, last, hlast, ?_⟩
        have hsame : some code = some last := hcode.symm.trans (hread index last hlast)
        cases hsame
        exact hne
      · rintro ⟨index, returnCode, hlast, hne⟩
        exact ⟨index, returnCode, hread index returnCode hlast, hne⟩

def segfaultLog : List LogEntry := [.exited ⟨[], by decide⟩ 0 (-11)]

theorem segfault_unreported :
    (returnCodes segfaultLog 0).getLast? = some (-11) ∧ phaseOneExits (logText segfaultLog) = [] ∧
      failedExits (logText segfaultLog) = [] ∧ ¬ ReportsLastExits segfaultLog := by
  have hexits : phaseOneExits (logText segfaultLog) = [] := by
    rw [phaseOneExits_eq]
    rfl
  refine ⟨by decide, hexits, ?_, ?_⟩
  · rw [failedExits, hexits]
    rfl
  · rintro ⟨hcodes, -⟩
    have hread := hcodes 0 (-11) (by decide)
    rw [hexits] at hread
    cases hread

end ChipSystemSim
