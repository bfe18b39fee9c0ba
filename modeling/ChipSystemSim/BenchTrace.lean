import ChipSystemSim.IStream
import ChipSystemSim.PhaseTwo

/-! The reader of the bench trace. It stops at the first record that it cannot
read, and takes that for the end of the trace if the text ends there. -/

namespace ChipSystemSim

open IStream

/-- The types of a bench record's members, in the order they are read. -/
def benchTypes : List IntType :=
  [.unsigned 64, .unsigned 64, .unsigned 32, .unsigned 32, .unsigned 64, .signed 64]

def benchRecord (values : List Int) : BenchRecord where
  sourceCycle := (values.getD 0 0).toNat
  destinationCycle := (values.getD 1 0).toNat
  source := (values.getD 2 0).toNat
  destination := (values.getD 3 0).toNat
  flits := (values.getD 4 0).toNat
  descriptor := values.getD 5 0

theorem extractAll_benchTypes {s s' : Stream} {values : List Int}
    (h : s.extractAll benchTypes = (some values, s')) : s'.rest.length < s.rest.length := by
  have hgood : s.eofbit = false ∧ s.failbit = false := by
    by_contra hbad
    have hextract : (s.extract (.unsigned 64)).1 = none := by
      have : (s.eofbit || s.failbit) = true := by
        cases heof : s.eofbit <;> cases hfail : s.failbit <;> simp_all
      simp [Stream.extract, this]
    have hnone : (s.extractAll benchTypes).1 = none := by
      simp [Stream.extractAll, benchTypes, hextract]
    rw [h] at hnone
    cases hnone
  have hreads : s.Reads s.rest := ⟨rfl, hgood.2, by simp [hgood.1]⟩
  cases hlex : lexFields benchTypes s.rest with
  | none =>
    have hnone := (hreads.extractAll_none hlex).1
    rw [h] at hnone
    cases hnone
  | some r =>
    obtain ⟨fs, rest⟩ := r
    obtain ⟨s'', hs'', hrest⟩ := hreads.extractAll hlex
    rw [h] at hs''
    cases hs''
    have hle := lexFields_length hlex
    rw [hrest.rest]
    simp only [benchTypes, List.length_cons] at hle
    omega

def readRecords (path : String) (s : Stream) : Except String (List BenchRecord) :=
  match _h : s.extractAll benchTypes with
  | (some values, s') =>
    if (benchRecord values).flits = 0 then .error "bench record has zero flits"
    else (readRecords path s').map (benchRecord values :: ·)
  | (none, s') => if s'.eofbit then .ok [] else .error ("invalid bench trace record in " ++ path)
termination_by s.rest.length
decreasing_by exact extractAll_benchTypes _h

def readBench (path : String) (file : Option Text) : Except String (List BenchRecord) :=
  match file with
  | none => .error ("cannot open bench trace: " ++ path)
  | some text => readRecords path { rest := text }

/-- Words that spell complete records, each with a positive number of flits. -/
inductive Spells : List Text → List BenchRecord → Prop
  | nil : Spells [] []
  | record {ws ws' : List Text} {values : List Int} {records : List BenchRecord}
      (h : spellAll benchTypes ws = some (values, ws')) (hflits : (benchRecord values).flits ≠ 0)
      (hrest : Spells ws' records) : Spells ws (benchRecord values :: records)

/-- The stream reads complete records, and then less than a record to the end of
the text: this part is the tail. -/
inductive ReadsToEnd : Text → List (List (Field × Int)) → Text → Prop
  | tail {t : Text} (h : EndsInside benchTypes t) : ReadsToEnd t [] t
  | record {t rest tail : Text} {fs : List (Field × Int)} {records : List (List (Field × Int))}
      (h : lexFields benchTypes t = some (fs, rest))
      (hflits : (benchRecord (fs.map Prod.snd)).flits ≠ 0)
      (hrest : ReadsToEnd rest records tail) : ReadsToEnd t (fs :: records) tail

def recordsOf (records : List (List (Field × Int))) : List BenchRecord :=
  records.map fun fs => benchRecord (fs.map Prod.snd)

section Reading

variable {path : String} {t tail : Text} {records : List (List (Field × Int))} {s s' : Stream}

theorem readRecords_some {values : List Int} (h : s.extractAll benchTypes = (some values, s')) :
    readRecords path s = if (benchRecord values).flits = 0 then .error "bench record has zero flits"
      else (readRecords path s').map (benchRecord values :: ·) := by
  rw [readRecords]
  split
  · rename_i values' s'' h'
    rw [h] at h'
    cases h'
    rfl
  · rename_i s'' h'
    rw [h] at h'
    cases h'

theorem readRecords_none (h : (s.extractAll benchTypes).1 = none) :
    readRecords path s = if (s.extractAll benchTypes).2.eofbit then .ok []
      else .error ("invalid bench trace record in " ++ path) := by
  rw [readRecords]
  split
  · rename_i values' s'' h'
    rw [h'] at h
    cases h
  · rename_i s'' h'
    rw [h']

theorem ReadsToEnd.readRecords (h : ReadsToEnd t records tail) (hs : s.Reads t) :
    readRecords path s = .ok (recordsOf records) := by
  induction h generalizing s with
  | tail h =>
    obtain ⟨hnone, heof⟩ := hs.extractAll_none (endsInside_lexFields h)
    rw [readRecords_none hnone, if_pos (heof.mpr h)]
    rfl
  | record h hflits hrest ih =>
    obtain ⟨s', hs', hreads⟩ := hs.extractAll h
    rw [readRecords_some hs', if_neg hflits, ih hreads]
    rfl

theorem readsToEnd_of_readRecords (hs : s.Reads t) {rs : List BenchRecord}
    (h : readRecords path s = .ok rs) :
    ∃ records tail, ReadsToEnd t records tail ∧ rs = recordsOf records := by
  -- each record leaves a shorter text
  induction hn : t.length using Nat.strong_induction_on generalizing t s rs with
  | _ n ih =>
    cases hlex : lexFields benchTypes t with
    | none =>
      obtain ⟨hnone, heof⟩ := hs.extractAll_none hlex
      rw [readRecords_none hnone] at h
      split at h
      · rename_i heofbit
        cases h
        exact ⟨[], t, .tail (heof.mp heofbit), rfl⟩
      · cases h
    | some r =>
      obtain ⟨fs, rest⟩ := r
      obtain ⟨s', hs', hreads⟩ := hs.extractAll hlex
      rw [readRecords_some hs'] at h
      split at h
      · cases h
      · rename_i hflits
        have hle := lexFields_length hlex
        simp only [benchTypes, List.length_cons] at hle
        cases hrs : readRecords path s' with
        | error m =>
          rw [hrs] at h
          cases h
        | ok rs' =>
          rw [hrs] at h
          cases h
          obtain ⟨records, tail, hread, rfl⟩ := ih rest.length (by omega) hreads hrs rfl
          exact ⟨fs :: records, tail, .record hlex hflits hread, rfl⟩

theorem ReadsToEnd.unique (h : ReadsToEnd t records tail) {records' : List (List (Field × Int))}
    {tail' : Text} (h' : ReadsToEnd t records' tail') : records = records' ∧ tail = tail' := by
  induction h generalizing records' with
  | tail h =>
    cases h' with
    | tail => exact ⟨rfl, rfl⟩
    | record hlex => simp [endsInside_lexFields h] at hlex
  | record hlex hflits hrest ih =>
    cases h' with
    | tail h => simp [endsInside_lexFields h] at hlex
    | record hlex' hflits' hrest' =>
      rw [hlex] at hlex'
      cases hlex'
      obtain ⟨rfl, rfl⟩ := ih hrest'
      exact ⟨rfl, rfl⟩

end Reading

section Grammar

variable {t tail : Text} {records : List (List (Field × Int))}

def PlainRecord (fs : List (Field × Int)) : Prop :=
  List.Forall₂ (fun k f => PlainField k f.1) benchTypes fs

/-- Nothing is out of the ordinary in the text as the stream reads it. -/
structure Plain (records : List (List (Field × Int))) (tail : Text) : Prop where
  fields : ∀ fs ∈ records, PlainRecord fs
  tail : ∀ c ∈ tail, isSpace c = true

theorem readsToEnd_of_spells {rs : List BenchRecord} (h : Spells (words t) rs) :
    ∃ records tail, ReadsToEnd t records tail ∧ Plain records tail ∧ rs = recordsOf records := by
  generalize hws : words t = ws at h
  induction h generalizing t with
  | nil =>
    have hblank := words_eq_nil hws
    refine ⟨[], t, .tail ?_, ⟨by simp, hblank⟩, rfl⟩
    simp [EndsInside, benchTypes, lexField_blank hblank, IntType.convert]
  | record hspell hflits hrest ih =>
    rw [← hws] at hspell
    obtain ⟨fs, rest, hlex, rfl, hwords, hplain⟩ := lexFields_spellAll hspell (by simp [benchTypes])
    obtain ⟨records, tail, hread, hrecords, rfl⟩ := ih hwords
    exact ⟨fs :: records, tail, .record hlex hflits hread,
      ⟨List.forall_mem_cons.mpr ⟨hplain, hrecords.fields⟩, hrecords.tail⟩, rfl⟩

/-- Plain text after a record is apart from it. -/
theorem ReadsToEnd.separated (h : ReadsToEnd t records tail) (hplain : Plain records tail)
    (hstop : ∀ c, t.head? = some c → c.isDigit = false) : Separated t := by
  cases h with
  | tail h => exact fun c hc => hplain.tail c (List.mem_of_mem_head? hc)
  | record hlex hflits hrest =>
    obtain ⟨v, gs, hv, -, rfl⟩ := lexFields_cons.mp hlex
    have hfirst := (List.forall₂_cons.mp (hplain.fields _ List.mem_cons_self)).1
    exact separated_of_field hv hstop hfirst.or

theorem ReadsToEnd.spells (h : ReadsToEnd t records tail) (hplain : Plain records tail) :
    Spells (words t) (recordsOf records) := by
  induction h with
  | tail h =>
    rw [words_of_blank hplain.tail]
    exact .nil
  | record hlex hflits hrest ih =>
    obtain ⟨hfirst, hothers⟩ := List.forall_mem_cons.mp hplain.fields
    have hsep := hrest.separated ⟨hothers, hplain.tail⟩ (lexFields_stop hlex)
    exact .record (spellAll_lexFields hlex hfirst hsep) hflits (ih ⟨hothers, hplain.tail⟩)

end Grammar

theorem readBench_eq_ok {path : String} {text tail : Text} {records : List (List (Field × Int))}
    (h : ReadsToEnd text records tail) : readBench path (some text) = .ok (recordsOf records) :=
  h.readRecords ⟨rfl, rfl, by simp⟩

/-- The reader accepts exactly the grammar if and only if, where the stream reads
the text to its end, no unsigned field has a sign, each descriptor stands apart
from the flits before it, and only white space follows the last record. -/
theorem readBench_grammar_iff (path : String) (text : Text) :
    (∀ rs, readBench path (some text) = .ok rs ↔ Spells (words text) rs) ↔
      ∀ records tail, ReadsToEnd text records tail → Plain records tail := by
  have hs : Stream.Reads { rest := text } text := ⟨rfl, rfl, by simp⟩
  constructor
  · intro hgrammar records tail hread
    obtain ⟨records', tail', hread', hplain, -⟩ :=
      readsToEnd_of_spells ((hgrammar _).mp (readBench_eq_ok hread))
    obtain ⟨rfl, rfl⟩ := hread.unique hread'
    exact hplain
  · intro hplain rs
    constructor
    · intro h
      obtain ⟨records, tail, hread, rfl⟩ := readsToEnd_of_readRecords hs h
      exact hread.spells (hplain records tail hread)
    · intro h
      obtain ⟨records, tail, hread, -, rfl⟩ := readsToEnd_of_spells h
      exact readBench_eq_ok hread

/-- A record that is cut short is dropped without an error. -/
theorem truncated_record_accepted :
    ¬∀ rs, readBench "bench.txt" (some "1 2 3".toList) = .ok rs ↔
      Spells (words "1 2 3".toList) rs := by
  intro h
  have hread : ReadsToEnd "1 2 3".toList [] "1 2 3".toList := by
    refine .tail ?_
    change ([] : Text) = []
    rfl
  have hspells := (h []).mp (readBench_eq_ok hread)
  have hwords : words "1 2 3".toList = ["1".toList, "2".toList, "3".toList] := by decide
  rw [hwords] at hspells
  cases hspells

end ChipSystemSim
