import ChipSystemSim.Decimal
import Mathlib.Data.List.Infix

/-! The text of an undirected Graphviz graph as far as its edge statements go. A
scanner follows comments, strings and attribute lists over the lines and counts the
edge operators outside of them. A line has one edge statement, a chain of numeric
nodes with anything in front of it and behind it that has no operator, or none. -/

namespace ChipSystemSim.Graphviz

/-- Where the next character stands. At a `start` a line begins, `dash` and `slash` are
one character into an operator or a comment, `star` into the end of a block comment. -/
inductive Mode where
  | start
  | code
  | dash
  | slash
  | line
  | block
  | star
  | quoted
  | escaped
  | html (depth : Nat)
  deriving DecidableEq, Repr

structure Scanner where
  mode : Mode
  inList : Bool
  deriving DecidableEq, Repr

def Scanner.init : Scanner := ⟨.start, false⟩

def Scanner.code : Scanner := ⟨.code, false⟩

/-- A character outside of comments and strings. -/
def Scanner.plain (inList : Bool) (c : Char) : Scanner :=
  if c = '\n' then ⟨.start, inList⟩
  else if c = '"' then ⟨.quoted, inList⟩
  else if c = '<' then ⟨.html 1, inList⟩
  else if c = '/' then ⟨.slash, inList⟩
  else if c = '-' then ⟨.dash, inList⟩
  else if c = '[' then ⟨.code, true⟩
  else if c = ']' then ⟨.code, false⟩
  else ⟨.code, inList⟩

def Scanner.step (s : Scanner) (c : Char) : Scanner :=
  match s.mode with
  | .start => if c = '#' then ⟨.line, s.inList⟩ else plain s.inList c
  | .code => plain s.inList c
  | .dash => if c = '-' then ⟨.code, s.inList⟩ else plain s.inList c
  | .slash =>
    if c = '/' then ⟨.line, s.inList⟩
    else if c = '*' then ⟨.block, s.inList⟩
    else plain s.inList c
  | .line => if c = '\n' then ⟨.start, s.inList⟩ else s
  | .block => if c = '*' then ⟨.star, s.inList⟩ else s
  | .star =>
    if c = '/' then ⟨.code, s.inList⟩ else if c = '*' then s else ⟨.block, s.inList⟩
  | .quoted =>
    if c = '"' then ⟨.code, s.inList⟩ else if c = '\\' then ⟨.escaped, s.inList⟩ else s
  | .escaped => ⟨.quoted, s.inList⟩
  | .html depth =>
    if c = '<' then ⟨.html (depth + 1), s.inList⟩
    else if c = '>' then ⟨if depth = 1 then .code else .html (depth - 1), s.inList⟩
    else s

def Scanner.scan (s : Scanner) (t : Text) : Scanner := t.foldl Scanner.step s

/-- The edge operators of a text, outside of attribute lists. -/
def Scanner.operators : Scanner → Text → Nat
  | _, [] => 0
  | s, c :: t => (if s = ⟨.dash, false⟩ ∧ c = '-' then 1 else 0) + (s.step c).operators t

/-- Statements may begin here. -/
def Scanner.AtCode (s : Scanner) : Prop := s = .init ∨ s = .code

instance (s : Scanner) : Decidable s.AtCode := inferInstanceAs (Decidable (_ ∨ _))

def isWhite (c : Char) : Bool := c = ' ' ∨ c = '\t' ∨ c = '\r'

/-- Blanks and block comments. -/
inductive IsFiller : Text → Prop
  | nil : IsFiller []
  | blank {c : Char} {t : Text} (hc : isWhite c = true) (ht : IsFiller t) : IsFiller (c :: t)
  | comment {body t : Text} (hbody : ¬"*/".toList <:+: body) (ht : IsFiller t) :
      IsFiller ("/*".toList ++ (body ++ ("*/".toList ++ t)))

abbrev Filler := { t : Text // IsFiller t }

def isIdChar (c : Char) : Bool := c.isAlphanum || c = '_' || c = '.' || 128 ≤ c.toNat

/-- A numeric node, which may be written as a string. -/
structure NodeId where
  digits : Text
  digits_ne : digits ≠ []
  isDigit : ∀ c ∈ digits, c.isDigit = true
  quoted : Bool := false

def NodeId.text (n : NodeId) : Text :=
  if n.quoted then '"' :: (n.digits ++ ['"']) else n.digits

/-- `--` and the node behind it. -/
structure EdgeRhs where
  before : Filler
  after : Filler
  target : NodeId

def EdgeRhs.text (l : EdgeRhs) : Text := l.before ++ ("--".toList ++ (l.after ++ l.target.text))

/-- A line with an edge statement. What stands in front of the chain ends with a token that
does not go on with it, and what stands behind it does not go on with its last node. -/
structure EdgeLine where
  front : Text
  indent : Filler
  first : NodeId
  links : List EdgeRhs
  links_ne : links ≠ []
  after : Text
  front_ends : ∀ c, front.getLast? = some c → isWhite c = false ∧ c ∉ ['/', ':', '+', '='] ∧
    (isIdChar c = true → indent.1 ≠ [])
  after_starts : ∀ c, after.head? = some c → isIdChar c = false
  after_plus : ∀ gap : Filler, ¬gap.1 ++ ['+'] <+: after

namespace EdgeLine

variable (e : EdgeLine)

def chain : Text := e.first.text ++ e.links.flatMap EdgeRhs.text

def text : Text := e.front ++ (e.indent ++ (e.chain ++ e.after))

def ids : List Text := e.first.digits :: e.links.map fun l => l.target.digits

end EdgeLine

inductive GraphLine where
  | edge (e : EdgeLine)
  | other (line : Text)

def GraphLine.text : GraphLine → Text
  | .edge e => e.text
  | .other line => line

def GraphLine.ids : GraphLine → List Text
  | .edge e => e.ids
  | .other _ => []

/-- The line is what it is said to be, when the scanner meets it in this state. -/
def GraphLine.OkAt (s : Scanner) : GraphLine → Prop
  | .edge e =>
    s.operators e.front = 0 ∧ (s.scan e.front).AtCode ∧ Scanner.code.operators e.after = 0
  | .other line => s.operators line = 0

instance (s : Scanner) (l : GraphLine) : Decidable (l.OkAt s) :=
  match l with
  | .edge _ => inferInstanceAs (Decidable (_ ∧ _ ∧ _))
  | .other _ => inferInstanceAs (Decidable (_ = _))

def LinesOk : Scanner → List GraphLine → Prop
  | _, [] => True
  | s, l :: rest => l.OkAt s ∧ LinesOk ((s.scan l.text).step '\n') rest

def decideLinesOk : (s : Scanner) → (lines : List GraphLine) → Decidable (LinesOk s lines)
  | _, [] => inferInstanceAs (Decidable True)
  | s, l :: rest =>
    have := decideLinesOk ((s.scan l.text).step '\n') rest
    inferInstanceAs (Decidable (_ ∧ _))

instance (s : Scanner) (lines : List GraphLine) : Decidable (LinesOk s lines) :=
  decideLinesOk s lines

section Operators

variable {s : Scanner} {t : Text}

theorem Scanner.scan_append (s : Scanner) (a b : Text) : s.scan (a ++ b) = (s.scan a).scan b :=
  List.foldl_append

theorem Scanner.operators_append (s : Scanner) (a b : Text) :
    s.operators (a ++ b) = s.operators a + (s.scan a).operators b := by
  induction a generalizing s with
  | nil => simp [operators, scan]
  | cons c a ih =>
    rw [List.cons_append, operators, operators, ih, Nat.add_assoc]
    rfl

/-- The text has no operator for the scanner, and leaves it where statements may begin. -/
def Passes (s : Scanner) (t : Text) : Prop := s.operators t = 0 ∧ (s.scan t).AtCode

theorem isDigit_of_isWhite {c : Char} (h : isWhite c = true) : c.isDigit = false := by
  simp only [isWhite, decide_eq_true_eq] at h
  rcases h with rfl | rfl | rfl <;> decide

theorem passes_cons (hs : s.AtCode) {c : Char} (hstep : s.step c = .code) (ht : Passes .code t) :
    Passes s (c :: t) := by
  have hdash : ¬(s = ⟨.dash, false⟩ ∧ c = '-') := by
    rintro ⟨rfl, -⟩
    exact absurd hs (by decide)
  refine ⟨?_, ?_⟩
  · rw [Scanner.operators, if_neg hdash, hstep, ht.1]
  · change ((s.step c).scan t).AtCode
    rw [hstep]
    exact ht.2

theorem passes_nil (hs : s.AtCode) : Passes s [] := ⟨rfl, hs⟩

theorem step_isWhite (hs : s.AtCode) {c : Char} (hc : isWhite c = true) : s.step c = .code := by
  simp only [isWhite, decide_eq_true_eq] at hc
  rcases hs with rfl | rfl <;> rcases hc with rfl | rfl | rfl <;> decide

theorem step_isDigit (hs : s.AtCode) {c : Char} (hc : c.isDigit = true) : s.step c = .code := by
  have hne : ∀ d : Char, d.isDigit = false → c ≠ d := fun d hd => digit_ne hc hd
  have hplain : Scanner.plain false c = .code := by
    simp only [Scanner.plain, hne '\n' (by decide), hne '"' (by decide), hne '<' (by decide),
      hne '/' (by decide), hne '-' (by decide), hne '[' (by decide), hne ']' (by decide), if_false]
    rfl
  rcases hs with rfl | rfl
  · exact (if_neg (hne '#' (by decide))).trans hplain
  · exact hplain

/-- Inside a block comment nothing counts until it ends. -/
theorem scan_body {body : Text} (hbody : ¬"*/".toList <:+: body) {s : Scanner}
    (hs : s = ⟨.block, false⟩ ∨ s = ⟨.star, false⟩ ∧ body.head? ≠ some '/') :
    s.operators body = 0 ∧ (s.scan body = ⟨.block, false⟩ ∨ s.scan body = ⟨.star, false⟩) := by
  induction body generalizing s with
  | nil =>
    rcases hs with rfl | ⟨rfl, -⟩
    · exact ⟨rfl, Or.inl rfl⟩
    · exact ⟨rfl, Or.inr rfl⟩
  | cons c body ih =>
    have htail : ¬"*/".toList <:+: body :=
      fun h => hbody (h.trans (List.suffix_cons c body).isInfix)
    have hnext : s.step c = ⟨.block, false⟩ ∨
        s.step c = ⟨.star, false⟩ ∧ body.head? ≠ some '/' := by
      by_cases hstar : c = '*'
      · have hhead : body.head? ≠ some '/' := by
          intro h
          obtain ⟨rest, rfl⟩ : ∃ rest, body = '/' :: rest := ⟨_, List.eq_cons_of_mem_head? h⟩
          exact hbody ⟨[], rest, by rw [hstar]; rfl⟩
        rcases hs with rfl | ⟨rfl, -⟩
        · exact Or.inr ⟨if_pos hstar, hhead⟩
        · subst hstar
          exact Or.inr ⟨rfl, hhead⟩
      · rcases hs with rfl | ⟨rfl, hslash⟩
        · exact Or.inl (if_neg hstar)
        · have hne : c ≠ '/' := fun h => hslash (congrArg some h)
          exact Or.inl ((if_neg hne).trans (if_neg hstar))
    have hcount : ¬(s = ⟨.dash, false⟩ ∧ c = '-') := by
      rintro ⟨rfl, -⟩
      rcases hs with h | ⟨h, -⟩ <;> cases h
    obtain ⟨hops, hscan⟩ := ih htail hnext
    exact ⟨by rw [Scanner.operators, if_neg hcount, hops], hscan⟩

theorem passes_filler (ht : IsFiller t) (hs : s.AtCode) : Passes s t := by
  induction ht generalizing s with
  | nil => exact passes_nil hs
  | blank hc _ ih => exact passes_cons hs (step_isWhite hs hc) (ih (Or.inr rfl))
  | @comment body t hbody _ ih =>
    have hopen : s.operators "/*".toList = 0 ∧ s.scan "/*".toList = ⟨.block, false⟩ := by
      rcases hs with rfl | rfl <;> decide
    obtain ⟨hops, hscan⟩ := scan_body hbody (Or.inl rfl)
    have hclose : ∀ s' : Scanner, s' = ⟨.block, false⟩ ∨ s' = ⟨.star, false⟩ →
        s'.operators "*/".toList = 0 ∧ s'.scan "*/".toList = .code := by
      rintro s' (rfl | rfl) <;> decide
    obtain ⟨hops', hscan'⟩ := hclose _ hscan
    obtain ⟨hops'', hat⟩ := ih (s := .code) (Or.inr rfl)
    refine ⟨?_, ?_⟩
    · rw [Scanner.operators_append, hopen.1, hopen.2, Scanner.operators_append, hops,
        Scanner.operators_append, hops', hscan', hops'']
    · rw [Scanner.scan_append, hopen.2, Scanner.scan_append, Scanner.scan_append, hscan']
      exact hat

theorem passes_digits (h : ∀ c ∈ t, c.isDigit = true) (hne : t ≠ []) (hs : s.AtCode) :
    Passes s t ∧ s.scan t = .code := by
  induction t generalizing s with
  | nil => exact absurd rfl hne
  | cons c t ih =>
    have hstep := step_isDigit hs (h c List.mem_cons_self)
    cases t with
    | nil => exact ⟨passes_cons hs hstep (passes_nil (Or.inr rfl)), hstep⟩
    | cons d t =>
      obtain ⟨hpasses, hscan⟩ := ih (fun e he => h e (List.mem_cons_of_mem c he))
        (List.cons_ne_nil d t) (Or.inr rfl)
      refine ⟨passes_cons hs hstep hpasses, ?_⟩
      change (s.step c).scan (d :: t) = .code
      rw [hstep, hscan]

theorem scan_quoted (h : ∀ c ∈ t, c.isDigit = true) :
    Scanner.operators ⟨.quoted, false⟩ t = 0 ∧ Scanner.scan ⟨.quoted, false⟩ t =
      ⟨.quoted, false⟩ := by
  induction t with
  | nil => exact ⟨rfl, rfl⟩
  | cons c t ih =>
    have hc := h c List.mem_cons_self
    have hstep : Scanner.step ⟨.quoted, false⟩ c = ⟨.quoted, false⟩ :=
      (if_neg (digit_ne hc (by decide))).trans (if_neg (digit_ne hc (by decide)))
    obtain ⟨hops, hscan⟩ := ih fun d hd => h d (List.mem_cons_of_mem c hd)
    refine ⟨?_, ?_⟩
    · rw [Scanner.operators, if_neg (fun h => absurd h.1 (by decide)), hstep, hops]
    · change (Scanner.step ⟨.quoted, false⟩ c).scan t = _
      rw [hstep, hscan]

theorem scan_node (n : NodeId) (hs : s.AtCode) :
    s.operators n.text = 0 ∧ s.scan n.text = .code := by
  unfold NodeId.text
  split
  · obtain ⟨hops, hscan⟩ := scan_quoted n.isDigit
    have hopen : s.step '"' = ⟨.quoted, false⟩ := by rcases hs with rfl | rfl <;> decide
    have hdash : ¬(s = ⟨.dash, false⟩ ∧ '"' = '-') := fun h => absurd h.2 (by decide)
    refine ⟨?_, ?_⟩
    · rw [Scanner.operators, if_neg hdash, hopen, Scanner.operators_append, hops, hscan]
      decide
    · change (s.step '"').scan (n.digits ++ ['"']) = .code
      rw [hopen, Scanner.scan_append, hscan]
      decide
  · obtain ⟨hpasses, hscan⟩ := passes_digits n.isDigit n.digits_ne hs
    exact ⟨hpasses.1, hscan⟩

theorem scan_link (l : EdgeRhs) (hs : s.AtCode) :
    s.operators l.text = 1 ∧ s.scan l.text = .code := by
  obtain ⟨hbefore, hat⟩ := passes_filler l.before.2 hs
  have hdashes : ∀ s' : Scanner, s'.AtCode →
      s'.operators "--".toList = 1 ∧ s'.scan "--".toList = .code := by
    rintro s' (rfl | rfl) <;> decide
  obtain ⟨hone, hcode⟩ := hdashes _ hat
  obtain ⟨hafter, hat'⟩ := passes_filler l.after.2 (s := .code) (Or.inr rfl)
  obtain ⟨htarget, hend⟩ := scan_node l.target hat'
  refine ⟨?_, ?_⟩
  · rw [EdgeRhs.text, Scanner.operators_append, hbefore, Scanner.operators_append, hone, hcode,
      Scanner.operators_append, hafter, htarget]
  · rw [EdgeRhs.text, Scanner.scan_append, Scanner.scan_append, hcode, Scanner.scan_append, hend]

theorem scan_links (links : List EdgeRhs) :
    Scanner.code.operators (links.flatMap EdgeRhs.text) = links.length ∧
      Scanner.code.scan (links.flatMap EdgeRhs.text) = .code := by
  induction links with
  | nil => exact ⟨rfl, rfl⟩
  | cons l links ih =>
    obtain ⟨hone, hcode⟩ := scan_link l (s := .code) (Or.inr rfl)
    rw [List.flatMap_cons, Scanner.operators_append, Scanner.scan_append, hone, hcode, ih.1, ih.2,
      List.length_cons, Nat.add_comm]
    exact ⟨rfl, rfl⟩

/-- The edge operators of the line are those of its chain, so that it has no other edge
statement. -/
theorem EdgeLine.operators_text {e : EdgeLine} (h : (GraphLine.edge e).OkAt s) :
    s.operators e.text = e.links.length := by
  obtain ⟨hfront, hat, hafter⟩ := h
  obtain ⟨hindent, hat'⟩ := passes_filler e.indent.2 hat
  obtain ⟨hfirst, hcode⟩ := scan_node e.first hat'
  obtain ⟨hlinks, hend⟩ := scan_links e.links
  rw [EdgeLine.text, EdgeLine.chain, Scanner.operators_append, hfront, Scanner.operators_append,
    hindent, List.append_assoc, Scanner.operators_append, hfirst, hcode, Scanner.operators_append,
    hlinks, hend, hafter, Nat.zero_add, Nat.zero_add, Nat.zero_add, Nat.add_zero]

/-- A line without an edge statement is none of those with one. -/
theorem EdgeLine.not_other {e : EdgeLine} (h : (GraphLine.edge e).OkAt s) :
    ¬(GraphLine.other e.text).OkAt s := by
  intro hother
  have hzero : e.links.length = 0 := (operators_text h).symm.trans hother
  exact e.links_ne (List.eq_nil_of_length_eq_zero hzero)

end Operators

end ChipSystemSim.Graphviz
