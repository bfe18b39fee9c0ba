import Mathlib.Data.List.Basic
import Mathlib.Tactic.Common

/-! Comma-separated values: Python's `csv` reader with the default dialect, and
what it makes of rows that need no quotes. -/

namespace Csv

abbrev Field := List Char

inductive Mode where
  | startRecord
  | startField
  | inField
  | inQuotedField
  | quoteInQuotedField

def isNewline (c : Char) : Bool := c = '\n' || c = '\r'

/-- The records of a text, read with a record and a field that are open. -/
def records : Mode → List Field → Field → List Char → List (List Field)
  | .startRecord, _, _, [] => []
  | _, row, field, [] => [row ++ [field]]
  | .startRecord, row, field, c :: t =>
    if isNewline c then [] :: records .startRecord [] [] t
    else if c = '"' then records .inQuotedField row field t
    else if c = ',' then records .startField (row ++ [field]) [] t
    else records .inField row (field ++ [c]) t
  | .startField, row, field, c :: t =>
    if isNewline c then (row ++ [field]) :: records .startRecord [] [] t
    else if c = '"' then records .inQuotedField row field t
    else if c = ',' then records .startField (row ++ [field]) [] t
    else records .inField row (field ++ [c]) t
  | .inField, row, field, c :: t =>
    if isNewline c then (row ++ [field]) :: records .startRecord [] [] t
    else if c = ',' then records .startField (row ++ [field]) [] t
    else records .inField row (field ++ [c]) t
  | .inQuotedField, row, field, c :: t =>
    if c = '"' then records .quoteInQuotedField row field t
    else records .inQuotedField row (field ++ [c]) t
  | .quoteInQuotedField, row, field, c :: t =>
    if isNewline c then (row ++ [field]) :: records .startRecord [] [] t
    else if c = '"' then records .inQuotedField row (field ++ [c]) t
    else if c = ',' then records .startField (row ++ [field]) [] t
    else records .inField row (field ++ [c]) t

abbrev Row := List (Field × Option Field)

/-- `DictReader` skips empty rows and gives a short row `None` for the rest. -/
def dictRows (text : List Char) : List Row :=
  match records .startRecord [] [] text with
  | [] => []
  | names :: rows => (rows.filter (!·.isEmpty)).map fun row => names.zipIdx.map fun (name, i) =>
    (name, row[i]?)

def Row.get (row : Row) (name : Field) : Option (Option Field) := row.reverse.lookup name

def line (fields : List Field) : List Char := [','].intercalate fields ++ ['\n']

def Plain (field : Field) : Prop := ∀ c ∈ field, isNewline c = false ∧ c ≠ '"' ∧ c ≠ ','

instance (field : Field) : Decidable (Plain field) :=
  List.decidableBAll (fun c => isNewline c = false ∧ c ≠ '"' ∧ c ≠ ',') field

theorem Plain.of_cons {c : Char} {field : Field} (h : Plain (c :: field)) : Plain field :=
  fun d hd => h d (List.mem_cons_of_mem c hd)

theorem records_inField {field : Field} (h : Plain field) (row : List Field) (read : Field)
    (t : List Char) :
    records .inField row read (field ++ t) = records .inField row (read ++ field) t := by
  induction field generalizing read with
  | nil => simp
  | cons c field ih =>
    obtain ⟨hn, -, hc⟩ := h c List.mem_cons_self
    rw [List.cons_append, records, hn, if_neg Bool.false_ne_true, if_neg hc, ih h.of_cons]
    simp

theorem records_field {field : Field} (h : Plain field) (row : List Field) (t : List Char) :
    records .startField row [] (field ++ ',' :: t) = records .startField (row ++ [field]) [] t ∧
    records .startField row [] (field ++ '\n' :: t) = (row ++ [field]) ::
      records .startRecord [] [] t := by
  cases field with
  | nil => simp [records, isNewline]
  | cons c field =>
    obtain ⟨hn, hq, hc⟩ := h c List.mem_cons_self
    have hstart : ∀ u, records .startField row [] (c :: u) = records .inField row [c] u := by
      intro u
      rw [records, hn, if_neg Bool.false_ne_true, if_neg hq, if_neg hc, List.nil_append]
    constructor
    · rw [List.cons_append, hstart, records_inField h.of_cons row [c], records]
      simp [isNewline]
    · rw [List.cons_append, hstart, records_inField h.of_cons row [c], records]
      simp [isNewline]

theorem records_fields {fields : List Field} (hne : fields ≠ []) (h : ∀ f ∈ fields, Plain f)
    (row : List Field) (t : List Char) : records .startField row [] (line fields ++ t) =
      (row ++ fields) :: records .startRecord [] [] t := by
  induction fields generalizing row with
  | nil => exact absurd rfl hne
  | cons f fields ih =>
    have hf := records_field (h f List.mem_cons_self)
    cases fields with
    | nil => simpa [line] using (hf row t).2
    | cons g fields =>
      have hline : line (f :: g :: fields) ++ t = f ++ ',' :: (line (g :: fields) ++ t) := by
        simp [line, List.intercalate_cons_cons]
      rw [hline, (hf row _).1, ih (List.cons_ne_nil _ _) fun x hx =>
        h x (List.mem_cons_of_mem f hx)]
      simp

/-- A record starts as a field does, unless it starts with a newline. -/
theorem records_start {c : Char} (hc : isNewline c = false) (t : List Char) :
    records .startRecord [] [] (c :: t) = records .startField [] [] (c :: t) := by
  simp only [records, hc, Bool.false_eq_true, if_false]

/-- A row that does not print as an empty line, and needs no quotes. -/
def PlainRow (row : List Field) : Prop := (∃ c f fields, row = (c :: f) :: fields) ∧
    ∀ f ∈ row, Plain f

theorem records_line {row : List Field} (h : PlainRow row) (t : List Char) :
    records .startRecord [] [] (line row ++ t) = row :: records .startRecord [] [] t := by
  obtain ⟨⟨c, f, fields, rfl⟩, hplain⟩ := h
  obtain ⟨u, hu⟩ : ∃ u, line ((c :: f) :: fields) ++ t = c :: u := by
    cases fields with
    | nil => exact ⟨_, rfl⟩
    | cons g fields => exact ⟨_, rfl⟩
  have hc := (hplain (c :: f) List.mem_cons_self c List.mem_cons_self).1
  rw [hu, records_start hc, ← hu, records_fields (List.cons_ne_nil _ _) hplain []]
  rfl

theorem records_lines {rows : List (List Field)} (h : ∀ row ∈ rows, PlainRow row) :
    records .startRecord [] [] (rows.flatMap line) = rows := by
  induction rows with
  | nil => rfl
  | cons row rows ih =>
    rw [List.flatMap_cons, records_line (h row List.mem_cons_self),
      ih fun x hx => h x (List.mem_cons_of_mem row hx)]

theorem dictRows_lines {names : List Field} {rows : List (List Field)} (hnames : PlainRow names)
    (h : ∀ row ∈ rows, PlainRow row) : dictRows (line names ++ rows.flatMap line) =
      rows.map fun row => names.zipIdx.map fun (name, i) => (name, row[i]?) := by
  have hrows : rows.filter (!·.isEmpty) = rows := by
    refine List.filter_eq_self.mpr fun row hrow => ?_
    obtain ⟨⟨c, f, fields, rfl⟩, -⟩ := h row hrow
    rfl
  rw [dictRows, records_line hnames, records_lines h]
  simp only [hrows]

end Csv
