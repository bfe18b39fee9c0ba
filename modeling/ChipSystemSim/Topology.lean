import ChipSystemSim.Graphviz
import ChipSystemSim.PhaseTwoFiles

/-! `ReadTopology` on a Graphviz file with one edge statement on a line: the links of the
chains, and the other numbers on their lines. -/

namespace ChipSystemSim

namespace Topology

open Graphviz

def digitRuns (t : Text) : List Text := findAll (scanSome Char.isDigit) 0 t

def number (digits : Text) : Nat := Nat.ofDigitChars 10 digits 0

/-- The number as `ReadTopology` keeps it. -/
def node (digits : Text) : Nat := number digits % 2 ^ 32

section Runs

theorem digitRuns_cons {c : Char} (hc : c.isDigit = false) (t : Text) :
    digitRuns (c :: t) = digitRuns t := by
  apply findAll_none
  simp [scanSome, hc]

theorem digitRuns_run {d t : Text} (hne : d ≠ []) (hd : ∀ c ∈ d, c.isDigit = true)
    (ht : StopsDigits t) : digitRuns (d ++ t) = d :: digitRuns t := by
  cases d with
  | nil => exact absurd rfl hne
  | cons c d => exact findAll_some (scanSome_append hne hd ht)

/-- A run of digits does not go on behind another character. -/
theorem digitRuns_append (a : Text) {b : Text} (hb : StopsDigits b) :
    digitRuns (a ++ b) = digitRuns a ++ digitRuns b := by
  induction hn : a.length using Nat.strong_induction_on generalizing a with
  | _ n ih =>
    cases a with
    | nil => rfl
    | cons c a =>
      by_cases hc : c.isDigit = true
      · -- the run that starts here, then what follows it
        obtain ⟨d, rest, hsplit, hne, hd, hrest⟩ : ∃ d rest, c :: a = d ++ rest ∧ d ≠ [] ∧
            (∀ e ∈ d, e.isDigit = true) ∧ StopsDigits rest := by
          refine ⟨(c :: a).takeWhile Char.isDigit, (c :: a).dropWhile Char.isDigit,
            List.takeWhile_append_dropWhile.symm, ?_, fun e he => List.mem_takeWhile_imp he,
            head_dropWhile _ _⟩
          simp [hc]
        have hstops : StopsDigits (rest ++ b) := by
          cases rest with
          | nil => exact hb
          | cons e rest => exact stopsDigits_cons (hrest e rfl)
        have hshorter : rest.length < n := by
          have hlength := congrArg List.length hsplit
          have hpos := List.length_pos_of_ne_nil hne
          rw [List.length_append] at hlength
          omega
        rw [hsplit, List.append_assoc, digitRuns_run hne hd hstops, digitRuns_run hne hd hrest,
          ih rest.length hshorter rest rfl, List.cons_append]
      · rw [Bool.not_eq_true] at hc
        have hlength : a.length < n := by
          rw [← hn, List.length_cons]
          exact Nat.lt_succ_self _
        rw [List.cons_append, digitRuns_cons hc, digitRuns_cons hc, ih a.length hlength a rfl]

theorem digitRuns_skip {a b : Text} (ha : ∀ c ∈ a, c.isDigit = false) :
    digitRuns (a ++ b) = digitRuns b := by
  induction a with
  | nil => rfl
  | cons c a ih =>
    rw [List.cons_append, digitRuns_cons (ha c List.mem_cons_self), ih fun d hd =>
      ha d (List.mem_cons_of_mem c hd)]

end Runs

section Edges

variable {α β ε : Type}

theorem forall_ok_of_mapM {f : α → Except ε β} {l : List α} {r : List β} (h : l.mapM f = .ok r) :
    ∀ x ∈ l, ∃ y, f x = .ok y := by
  induction l generalizing r with
  | nil => simp
  | cons x l ih =>
    rw [List.mapM_cons] at h
    cases hx : f x with
    | error e =>
      rw [hx] at h
      cases h
    | ok y =>
      cases hl : l.mapM f with
      | error e =>
        rw [hx, hl] at h
        cases h
      | ok ys =>
        intro z hz
        rcases List.mem_cons.mp hz with rfl | hz
        · exact ⟨y, hx⟩
        · exact ih hl z hz

theorem mem_zip_tail {l : List α} {a b : α} : (a, b) ∈ l.zip l.tail ↔ [a, b] <:+: l := by
  induction l with
  | nil => simp
  | cons x l ih =>
    cases l with
    | nil =>
      simp only [List.tail_cons, List.zip_nil_right, List.not_mem_nil, false_iff]
      intro h
      have := h.length_le
      simp at this
    | cons y l =>
      rw [List.infix_cons_iff, ← ih]
      simp [List.zip_cons_cons, List.tail_cons]

theorem mem_lineEdges {nodes : List Nat} {p : Nat × Nat} :
    p ∈ lineEdges nodes ↔ ∃ a b, [a, b] <:+: nodes ∧ a ≠ b ∧ p = (min a b, max a b) := by
  simp only [lineEdges, List.mem_map, List.mem_filter, decide_eq_true_eq, Prod.exists, mem_zip_tail]
  constructor
  · rintro ⟨a, b, ⟨hpair, hne⟩, rfl⟩
    exact ⟨a, b, hpair, hne, rfl⟩
  · rintro ⟨a, b, hpair, hne, rfl⟩
    exact ⟨a, b, ⟨hpair, hne⟩, rfl⟩

theorem mem_edgeSet {edges : List (Nat × Nat)} {p : Nat × Nat} : p ∈ edgeSet edges ↔ p ∈ edges := by
  rw [edgeSet, List.mem_insertionSort, List.mem_dedup]

theorem nodup_edgeSet (edges : List (Nat × Nat)) : (edgeSet edges).Nodup :=
  (List.perm_insertionSort _ _).nodup_iff.mpr (List.nodup_dedup edges)

theorem stoul_eq (digits : Text) :
    stoul digits = if 2 ^ 64 ≤ number digits then .error "stoul" else .ok (node digits) := rfl

theorem lineNodes_ok {line : Text} (h : ∀ d ∈ digitRuns line, number d < 2 ^ 64) :
    lineNodes line = .ok ((digitRuns line).map node) := by
  apply mapM_eq_ok
  intro d hd
  rw [stoul_eq, if_neg (not_le.mpr (h d hd))]

theorem number_lt_of_lineNodes {line : Text} {nodes : List Nat} (h : lineNodes line = .ok nodes) :
    ∀ d ∈ digitRuns line, number d < 2 ^ 64 := by
  intro d hd
  obtain ⟨n, hn⟩ := forall_ok_of_mapM h d hd
  rw [stoul_eq] at hn
  split at hn
  · cases hn
  · rename_i hlt
    exact not_le.mp hlt

end Edges

/-- A line that `ReadTopology` looks at. -/
def Marked (line : Text) : Prop := "--".toList <:+: line

instance (line : Text) : Decidable (Marked line) := inferInstanceAs (Decidable (_ <:+: _))

section Reading

variable {path : String} {text : Text} {edges : List (Nat × Nat)}

/-- The pairs of different nodes that follow each other on a line with `--`. -/
def LineLink (line : Text) (p : Nat × Nat) : Prop :=
  ∃ x y, [x, y] <:+: digitRuns line ∧ node x ≠ node y ∧
    p = (min (node x) (node y), max (node x) (node y))

theorem mem_lineEdges_node {line : Text} {p : Nat × Nat} :
    p ∈ lineEdges ((digitRuns line).map node) ↔ LineLink line p := by
  rw [mem_lineEdges]
  constructor
  · rintro ⟨a, b, hpair, hne, hp⟩
    obtain ⟨l, hl, hmap⟩ := List.infix_map_iff.mp hpair
    match l, hmap with
    | [x, y], hmap =>
      cases hmap
      exact ⟨x, y, hl, hne, hp⟩
  · rintro ⟨x, y, hpair, hne, hp⟩
    exact ⟨node x, node y, hpair.map node, hne, hp⟩

def markedLines (text : Text) : List Text :=
  (TextLines.lines text).filter fun line => decide (Marked line)

def textEdges (text : Text) : List (Nat × Nat) :=
  edgeSet (((markedLines text).map fun line => (digitRuns line).map node).flatMap lineEdges)

theorem mem_markedLines {line : Text} :
    line ∈ markedLines text ↔ line ∈ TextLines.lines text ∧ Marked line := by
  rw [markedLines, List.mem_filter, decide_eq_true_eq]

theorem mem_textEdges {p : Nat × Nat} :
    p ∈ textEdges text ↔ ∃ line ∈ markedLines text, LineLink line p := by
  rw [textEdges, mem_edgeSet, List.mem_flatMap]
  constructor
  · rintro ⟨nodes, hnodes, hp⟩
    obtain ⟨line, hline, rfl⟩ := List.mem_map.mp hnodes
    exact ⟨line, hline, mem_lineEdges_node.mp hp⟩
  · rintro ⟨line, hline, hp⟩
    exact ⟨_, List.mem_map_of_mem hline, mem_lineEdges_node.mpr hp⟩

theorem readTopology_eq (h : ∀ line ∈ markedLines text, ∀ d ∈ digitRuns line, number d < 2 ^ 64) :
    readTopology path (some text) =
      if textEdges text = [] then .error ("topology contains no undirected '--' edges: " ++ path)
      else .ok (textEdges text) := by
  have hnodes : (markedLines text).mapM lineNodes =
      .ok ((markedLines text).map fun line => (digitRuns line).map node) :=
    mapM_eq_ok fun line hline => lineNodes_ok (h line hline)
  show ((markedLines text).mapM lineNodes >>= fun nodes => _) = _
  rw [hnodes]
  show (if textEdges text = [] then throw _ else _) = _
  split <;> rfl

theorem number_lt_of_readTopology (h : readTopology path (some text) = .ok edges) :
    ∀ line ∈ markedLines text, ∀ d ∈ digitRuns line, number d < 2 ^ 64 := by
  intro line hline
  cases hnodes : (markedLines text).mapM lineNodes with
  | error e =>
    change ((markedLines text).mapM lineNodes >>= fun nodes => _) = _ at h
    rw [hnodes] at h
    cases h
  | ok nodes =>
    obtain ⟨ns, hns⟩ := forall_ok_of_mapM hnodes line hline
    exact number_lt_of_lineNodes hns

theorem readTopology_eq_ok :
    readTopology path (some text) = .ok edges ↔
      (∀ line ∈ markedLines text, ∀ d ∈ digitRuns line, number d < 2 ^ 64) ∧ textEdges text ≠ [] ∧
        edges = textEdges text := by
  constructor
  · intro h
    have hlt := number_lt_of_readTopology h
    rw [readTopology_eq hlt] at h
    split at h
    · cases h
    · rename_i hne
      cases h
      exact ⟨hlt, hne, rfl⟩
  · rintro ⟨hlt, hne, rfl⟩
    rw [readTopology_eq hlt, if_neg hne]

end Reading

section Graphs

/-- Two neighbours of a chain, and the numbers of the comments between them. -/
structure Joint where
  left : Text
  between : List Text
  right : Text

def Joint.runs (j : Joint) : List Text := j.left :: (j.between ++ [j.right])

def linkJoints : Text → List EdgeRhs → List Joint
  | _, [] => []
  | left, l :: links =>
    ⟨left, digitRuns l.before.1 ++ digitRuns l.after.1, l.target.digits⟩ ::
      linkJoints l.target.digits links

def joints : GraphLine → List Joint
  | .edge e => linkJoints e.first.digits e.links
  | .other _ => []

def chain (line : GraphLine) : List Nat := line.ids.map number

/-- Two numbers that follow each other on a line with `--` without being neighbours of its chain. -/
def Stray (x y : Text) : GraphLine → Prop
  | .edge e =>
    [x, y] <:+: digitRuns (e.front ++ e.indent) ++ [e.first.digits] ∨
      (∃ j ∈ joints (.edge e), j.between ≠ [] ∧ [x, y] <:+: j.runs) ∨
      [x, y] <:+: e.ids.getLast (List.cons_ne_nil _ _) :: digitRuns e.after
  | .other line => Marked line ∧ [x, y] <:+: digitRuns line

/-- A Graphviz file with at most one edge statement on a line. -/
structure GraphFile where
  text : Text
  lines : List GraphLine
  reads : TextLines.lines text = lines.map GraphLine.text
  linesOk : LinesOk .init lines

variable (g : GraphFile)

def GraphFile.Adjacent (a b : Nat) : Prop := ∃ line ∈ g.lines, [a, b] <:+: chain line

/-- The unordered pairs of different nodes that are adjacent. -/
def GraphFile.IsLink (p : Nat × Nat) : Prop :=
  ∃ a b, g.Adjacent a b ∧ a ≠ b ∧ p = (min a b, max a b)

/-- The links of the file, each once. -/
def GraphFile.ReadRight (path : String) : Prop :=
  ∃ edges, readTopology path (some g.text) = .ok edges ∧ edges.Nodup ∧
    ∀ p, p ∈ edges ↔ g.IsLink p

/-- There is a link, its nodes and the numbers beside it fit, the numbers outside the chains only
repeat links, and neighbours with a number between them follow each other elsewhere. -/
structure GraphFile.Plain : Prop where
  linked : ∃ p, g.IsLink p
  nodes_lt : ∀ a b, g.Adjacent a b → a ≠ b → a < 2 ^ 32 ∧ b < 2 ^ 32
  numbers_lt : ∀ line ∈ g.lines, Marked line.text → ∀ d ∈ digitRuns line.text, number d < 2 ^ 64
  stray_links : ∀ line ∈ g.lines, ∀ x y, Stray x y line →
    node x = node y ∨ g.IsLink (min (node x) (node y), max (node x) (node y))
  uncut : ∀ line ∈ g.lines, ∀ j ∈ joints line, j.between ≠ [] → number j.left ≠ number j.right →
    ∃ other ∈ g.lines, Marked other.text ∧ LineLink other.text
      (min (node j.left) (node j.right), max (node j.left) (node j.right))

end Graphs

section Statements

theorem stops_append {a b : Text} (ha : StopsDigits a) (hb : StopsDigits b) :
    StopsDigits (a ++ b) := by
  cases a with
  | nil => exact hb
  | cons c a => exact stopsDigits_cons (ha c rfl)

/-- A run of digits does not begin in front of a character that is none. -/
theorem digitRuns_append_of_last {a : Text} (ha : ∀ c, a.getLast? = some c → c.isDigit = false)
    (b : Text) : digitRuns (a ++ b) = digitRuns a ++ digitRuns b := by
  rcases List.eq_nil_or_concat a with rfl | ⟨front, c, rfl⟩
  · rfl
  · rw [List.concat_eq_append] at ha ⊢
    have hc : c.isDigit = false := ha c (by simp)
    have hend : digitRuns [c] = [] := digitRuns_cons hc []
    rw [List.append_assoc, List.singleton_append, digitRuns_append front (stopsDigits_cons hc),
      digitRuns_append front (stopsDigits_cons hc), digitRuns_cons hc, hend, List.append_nil]

theorem isDigit_of_isIdChar {c : Char} (h : isIdChar c = false) : c.isDigit = false := by
  simp only [isIdChar, Char.isAlphanum, Bool.or_eq_false_iff] at h
  exact h.1.1.1.2

theorem stops_filler {t : Text} (h : IsFiller t) : StopsDigits t := by
  cases h with
  | nil => exact stopsDigits_nil
  | blank hc _ => exact stopsDigits_cons (isDigit_of_isWhite hc)
  | comment _ _ => exact stopsDigits_cons (by decide)

theorem last_filler {t : Text} (h : IsFiller t) : ∀ c, t.getLast? = some c → c.isDigit = false := by
  induction h with
  | nil => simp
  | @blank d t hd _ ih =>
    intro c hc
    cases t with
    | nil =>
      cases hc
      exact isDigit_of_isWhite hd
    | cons e t => exact ih c hc
  | @comment body t _ _ ih =>
    intro c hc
    cases t with
    | nil =>
      rw [List.append_nil, ← List.append_assoc, List.getLast?_append] at hc
      cases hc
      decide
    | cons e t =>
      rw [← List.append_assoc, ← List.append_assoc, List.getLast?_append] at hc
      exact ih c (by simpa using hc)

theorem digitRuns_node (n : NodeId) {t : Text} (ht : StopsDigits t) :
    digitRuns (n.text ++ t) = n.digits :: digitRuns t := by
  have hquote : '"'.isDigit = false := by decide
  unfold NodeId.text
  split
  · rw [List.cons_append, digitRuns_cons hquote, List.append_assoc, List.singleton_append,
      digitRuns_run n.digits_ne n.isDigit (stopsDigits_cons hquote), digitRuns_cons hquote]
  · exact digitRuns_run n.digits_ne n.isDigit ht

theorem stops_links (links : List EdgeRhs) {t : Text} (ht : StopsDigits t) :
    StopsDigits (links.flatMap EdgeRhs.text ++ t) := by
  cases links with
  | nil => exact ht
  | cons l links =>
    rw [List.flatMap_cons, List.append_assoc, EdgeRhs.text, List.append_assoc]
    exact stops_append (stops_filler l.before.2) (stopsDigits_cons (by decide))

def linkRuns (l : EdgeRhs) : List Text :=
  digitRuns l.before.1 ++ digitRuns l.after.1 ++ [l.target.digits]

theorem digitRuns_links (links : List EdgeRhs) {t : Text} (ht : StopsDigits t) :
    digitRuns (links.flatMap EdgeRhs.text ++ t) = links.flatMap linkRuns ++ digitRuns t := by
  have hdashes : ∀ c ∈ "--".toList, c.isDigit = false :=
    List.forall_mem_cons.mpr ⟨rfl, List.forall_mem_singleton.mpr rfl⟩
  induction links with
  | nil => rfl
  | cons l links ih =>
    rw [List.flatMap_cons, List.append_assoc, EdgeRhs.text, List.append_assoc, List.append_assoc,
      List.append_assoc, digitRuns_append_of_last (last_filler l.before.2), digitRuns_skip hdashes,
      digitRuns_append_of_last (last_filler l.after.2), digitRuns_node _ (stops_links links ht), ih]
    simp [linkRuns]

variable (e : EdgeLine)

theorem stops_after : StopsDigits e.after :=
  fun c hc => isDigit_of_isIdChar (e.after_starts c hc)

theorem last_front : ∀ c, (e.front ++ e.indent).getLast? = some c → c.isDigit = false := by
  intro c hc
  rw [List.getLast?_append] at hc
  cases hindent : e.indent.1.getLast? with
  | some d =>
    rw [hindent] at hc
    cases hc
    exact last_filler e.indent.2 _ hindent
  | none =>
    rw [hindent] at hc
    have hnil : e.indent.1 = [] := List.getLast?_eq_none_iff.mp hindent
    refine isDigit_of_isIdChar ?_
    by_contra hid
    exact (e.front_ends c hc).2.2 (by simpa using hid) hnil

theorem digitRuns_edge : digitRuns e.text = digitRuns (e.front ++ e.indent) ++ [e.first.digits] ++
    (e.links.flatMap linkRuns ++ digitRuns e.after) := by
  rw [EdgeLine.text, EdgeLine.chain, ← List.append_assoc, digitRuns_append_of_last (last_front e),
    List.append_assoc e.first.text, digitRuns_node _ (stops_links e.links (stops_after e)),
    digitRuns_links e.links (stops_after e)]
  simp

theorem marked_edge : Marked e.text := by
  obtain ⟨l, links, hlinks⟩ := List.exists_cons_of_ne_nil e.links_ne
  refine ⟨e.front ++ (e.indent.1 ++ (e.first.text ++ l.before.1)),
    l.after.1 ++ (l.target.text ++ (links.flatMap EdgeRhs.text ++ e.after)), ?_⟩
  simp only [EdgeLine.text, EdgeLine.chain, hlinks, List.flatMap_cons, EdgeRhs.text,
    List.append_assoc]

/-- A pair in two parts is in the first or begins with its last element or later. -/
theorem pair_infix_append {α : Type} {x y : α} {l m : List α} (hl : l ≠ []) :
    [x, y] <:+: l ++ m ↔ [x, y] <:+: l ∨ [x, y] <:+: l.getLast hl :: m := by
  constructor
  · intro h
    rcases List.infix_append_iff_ne_nil.mp h with h | h | ⟨l₁, l₂, hl₁, hl₂, hxy, hsuffix, hstart⟩
    · exact Or.inl h
    · exact Or.inr (h.trans (List.suffix_cons _ _).isInfix)
    · -- the pair is split between them
      obtain ⟨rfl, rfl⟩ : l₁ = [x] ∧ l₂ = [y] := by
        match l₁, l₂, hxy with
        | [a], [b], hxy =>
          cases hxy
          exact ⟨rfl, rfl⟩
        | [], _, _ => exact absurd rfl hl₁
        | _ :: _ :: l, l₂, hxy =>
          cases l₂ with
          | nil => exact absurd rfl hl₂
          | cons b l₂ => simp at hxy
        | [a], b :: c :: l₂, hxy => simp at hxy
      obtain ⟨front, rfl⟩ := hsuffix
      right
      rw [List.getLast_append_singleton]
      obtain ⟨rest, rfl⟩ := hstart
      exact ⟨[], rest, rfl⟩
  · rintro (h | h)
    · exact h.trans (List.prefix_append l m).isInfix
    · have hsplit : l ++ m = l.dropLast ++ (l.getLast hl :: m) := by
        rw [← List.singleton_append, ← List.append_assoc, List.dropLast_append_getLast]
      rw [hsplit]
      exact h.trans (List.suffix_append _ _).isInfix

theorem not_pair_infix_singleton {α : Type} {x y a : α} : ¬[x, y] <:+: [a] :=
  fun h => absurd h.length_le (by simp)

theorem pair_infix_cons_cons {α : Type} {x y a b : α} {l : List α} :
    [x, y] <:+: a :: b :: l ↔ (x = a ∧ y = b) ∨ [x, y] <:+: b :: l := by
  rw [List.infix_cons_iff, List.cons_prefix_cons, List.cons_prefix_cons]
  simp

/-- The pairs of a chain and of what follows it. -/
theorem pair_infix_links (links : List EdgeRhs) (left : Text) (rest : List Text) {x y : Text} :
    [x, y] <:+: left :: (links.flatMap linkRuns ++ rest) ↔
      (∃ j ∈ linkJoints left links, [x, y] <:+: j.runs) ∨
        [x, y] <:+: (left :: links.map fun l => l.target.digits).getLast (List.cons_ne_nil _ _) ::
          rest := by
  induction links generalizing left with
  | nil => simp [linkJoints]
  | cons l links ih =>
    have hsplit : left :: ((l :: links).flatMap linkRuns ++ rest) =
        (left :: linkRuns l) ++ (links.flatMap linkRuns ++ rest) := by
      simp
    have hlast : (left :: linkRuns l).getLast (List.cons_ne_nil _ _) = l.target.digits := by
      simp [linkRuns]
    rw [hsplit, pair_infix_append (List.cons_ne_nil _ _), hlast, ih, linkJoints,
      List.exists_mem_cons_iff, ← or_assoc]
    rfl

theorem pair_infix_ids (links : List EdgeRhs) (left : Text) {x y : Text} :
    [x, y] <:+: (left :: links.map fun l => l.target.digits) ↔
      ∃ j ∈ linkJoints left links, x = j.left ∧ y = j.right := by
  induction links generalizing left with
  | nil =>
    simp only [List.map_nil, linkJoints, List.not_mem_nil, false_and, exists_false, iff_false]
    exact not_pair_infix_singleton
  | cons l links ih =>
    rw [List.map_cons, pair_infix_cons_cons, ih, linkJoints, List.exists_mem_cons_iff]

/-- The pairs on a line are the neighbours of its chain with no number between them, and the
stray ones. -/
theorem lineLink_iff (line : GraphLine) (p : Nat × Nat) :
    Marked line.text ∧ LineLink line.text p ↔
      ∃ x y, ((∃ j ∈ joints line, j.between = [] ∧ x = j.left ∧ y = j.right) ∨ Stray x y line) ∧
        node x ≠ node y ∧ p = (min (node x) (node y), max (node x) (node y)) := by
  cases line with
  | edge e =>
    have hpairs : ∀ x y, [x, y] <:+: digitRuns e.text ↔
        (∃ j ∈ joints (.edge e), j.between = [] ∧ x = j.left ∧ y = j.right) ∨
          Stray x y (.edge e) := by
      intro x y
      have hlead : (digitRuns (e.front ++ e.indent) ++ [e.first.digits]).getLast (by simp) =
          e.first.digits := by simp
      have hjoint : (∃ j ∈ joints (.edge e), [x, y] <:+: j.runs) ↔
          (∃ j ∈ joints (.edge e), j.between = [] ∧ x = j.left ∧ y = j.right) ∨
            ∃ j ∈ joints (.edge e), j.between ≠ [] ∧ [x, y] <:+: j.runs := by
        rw [← exists_or]
        refine exists_congr fun j => ?_
        rw [← and_or_left]
        refine and_congr_right fun _ => ?_
        by_cases hbetween : j.between = []
        · simp [Joint.runs, hbetween, pair_infix_cons_cons, not_pair_infix_singleton]
        · simp [hbetween]
      rw [digitRuns_edge, pair_infix_append (by simp), hlead, pair_infix_links]
      change _ ∨ (∃ j ∈ joints (.edge e), _) ∨ _ ↔ _
      rw [hjoint, or_assoc, or_left_comm]
      rfl
    simp only [GraphLine.text, marked_edge, true_and, LineLink, hpairs]
  | other line =>
    simp only [GraphLine.text, joints, Stray, LineLink, List.not_mem_nil, false_and, exists_false,
      false_or]
    constructor
    · rintro ⟨hmarked, x, y, hpair, hne, hp⟩
      exact ⟨x, y, ⟨hmarked, hpair⟩, hne, hp⟩
    · rintro ⟨x, y, ⟨hmarked, hpair⟩, hne, hp⟩
      exact ⟨hmarked, x, y, hpair, hne, hp⟩

end Statements

section Files

variable (g : GraphFile) {path : String}

theorem lineLink_of_mem {p : Nat × Nat} :
    p ∈ textEdges g.text ↔ ∃ line ∈ g.lines, Marked line.text ∧ LineLink line.text p := by
  rw [mem_textEdges]
  constructor
  · rintro ⟨line, hline, hlink⟩
    obtain ⟨hmem, hmarked⟩ := mem_markedLines.mp hline
    rw [g.reads] at hmem
    obtain ⟨l, hl, rfl⟩ := List.mem_map.mp hmem
    exact ⟨l, hl, hmarked, hlink⟩
  · rintro ⟨l, hl, hmarked, hlink⟩
    refine ⟨l.text, mem_markedLines.mpr ⟨?_, hmarked⟩, hlink⟩
    rw [g.reads]
    exact List.mem_map_of_mem hl

theorem mem_textEdges_file {p : Nat × Nat} :
    p ∈ textEdges g.text ↔ ∃ line ∈ g.lines, ∃ x y,
      ((∃ j ∈ joints line, j.between = [] ∧ x = j.left ∧ y = j.right) ∨ Stray x y line) ∧
        node x ≠ node y ∧ p = (min (node x) (node y), max (node x) (node y)) := by
  simp only [lineLink_of_mem, lineLink_iff]

theorem numbers_lt_iff :
    (∀ line ∈ markedLines g.text, ∀ d ∈ digitRuns line, number d < 2 ^ 64) ↔
      ∀ line ∈ g.lines, Marked line.text → ∀ d ∈ digitRuns line.text, number d < 2 ^ 64 := by
  simp only [mem_markedLines, g.reads, List.mem_map]
  constructor
  · intro h line hline hmarked
    exact h line.text ⟨⟨line, hline, rfl⟩, hmarked⟩
  · rintro h _ ⟨⟨line, hline, rfl⟩, hmarked⟩
    exact h line hline hmarked

theorem adjacent_iff {a b : Nat} :
    g.Adjacent a b ↔ ∃ line ∈ g.lines, ∃ j ∈ joints line, number j.left = a ∧
    number j.right = b := by
  have hids : ∀ (line : GraphLine) (x y : Text),
      [x, y] <:+: line.ids ↔ ∃ j ∈ joints line, x = j.left ∧ y = j.right := by
    intro line x y
    cases line with
    | edge e => exact pair_infix_ids e.links e.first.digits
    | other line => simp [GraphLine.ids, joints]
  constructor
  · rintro ⟨line, hline, hpair⟩
    obtain ⟨l, hl, hmap⟩ := List.infix_map_iff.mp hpair
    obtain ⟨x, tail, rfl, rfl, htail⟩ := List.map_eq_cons_iff.mp hmap.symm
    obtain ⟨y, rest, rfl, rfl, hrest⟩ := List.map_eq_cons_iff.mp htail
    obtain rfl := List.map_eq_nil_iff.mp hrest
    obtain ⟨j, hj, rfl, rfl⟩ := (hids line x y).mp hl
    exact ⟨line, hline, j, hj, rfl, rfl⟩
  · rintro ⟨line, hline, j, hj, rfl, rfl⟩
    exact ⟨line, hline, ((hids line j.left j.right).mpr ⟨j, hj, rfl, rfl⟩).map number⟩

theorem node_of_lt {d : Text} (h : number d < 2 ^ 32) : node d = number d := Nat.mod_eq_of_lt h

theorem node_lt (d : Text) : node d < 2 ^ 32 := Nat.mod_lt _ (by decide)

variable {g}

theorem GraphFile.Plain.mem_edges (h : g.Plain) {p : Nat × Nat} :
    p ∈ textEdges g.text ↔ g.IsLink p := by
  constructor
  · intro hp
    obtain ⟨line, hline, x, y, ⟨j, hj, -, rfl, rfl⟩ | hstray, hne, rfl⟩ :=
      (mem_textEdges_file g).mp hp
    · have hadjacent : g.Adjacent (number j.left) (number j.right) :=
        (adjacent_iff g).mpr ⟨line, hline, j, hj, rfl, rfl⟩
      have hnumbers : number j.left ≠ number j.right := fun heq => hne (congrArg (· % 2 ^ 32) heq)
      obtain ⟨hx, hy⟩ := h.nodes_lt _ _ hadjacent hnumbers
      rw [node_of_lt hx, node_of_lt hy]
      exact ⟨number j.left, number j.right, hadjacent, hnumbers, rfl⟩
    · exact (h.stray_links line hline x y hstray).resolve_left hne
  · rintro ⟨a, b, hadjacent, hne, rfl⟩
    obtain ⟨ha, hb⟩ := h.nodes_lt a b hadjacent hne
    obtain ⟨line, hline, j, hj, rfl, rfl⟩ := (adjacent_iff g).mp hadjacent
    rw [← node_of_lt ha, ← node_of_lt hb]
    by_cases hbetween : j.between = []
    · refine (mem_textEdges_file g).mpr
        ⟨line, hline, j.left, j.right, Or.inl ⟨j, hj, hbetween, rfl, rfl⟩, ?_, rfl⟩
      rwa [node_of_lt ha, node_of_lt hb]
    · exact (lineLink_of_mem g).mpr (h.uncut line hline j hj hbetween hne)

theorem lt_of_mem_textEdges {a b : Nat} (h : (min a b, max a b) ∈ textEdges g.text) :
    a < 2 ^ 32 ∧ b < 2 ^ 32 := by
  obtain ⟨line, hline, x, y, -, -, hp⟩ := (mem_textEdges_file g).mp h
  have hx := node_lt x
  have hy := node_lt y
  obtain ⟨hmin, hmax⟩ := Prod.mk.injEq _ _ _ _ ▸ hp
  omega

theorem plain_of_mem_edges
    (hlt : ∀ line ∈ markedLines g.text, ∀ d ∈ digitRuns line, number d < 2 ^ 64)
    (hne : textEdges g.text ≠ []) (hedges : ∀ p, p ∈ textEdges g.text ↔ g.IsLink p) : g.Plain := by
  have hnodes : ∀ a b, g.Adjacent a b → a ≠ b → a < 2 ^ 32 ∧ b < 2 ^ 32 :=
    fun a b hadjacent hab => lt_of_mem_textEdges ((hedges _).mpr ⟨a, b, hadjacent, hab, rfl⟩)
  refine ⟨?_, hnodes, (numbers_lt_iff g).mp hlt, ?_, ?_⟩
  · obtain ⟨p, hp⟩ := List.exists_mem_of_ne_nil _ hne
    exact ⟨p, (hedges p).mp hp⟩
  · intro line hline x y hstray
    by_cases hxy : node x = node y
    · exact Or.inl hxy
    · exact Or.inr ((hedges _).mp
        ((mem_textEdges_file g).mpr ⟨line, hline, x, y, Or.inr hstray, hxy, rfl⟩))
  · intro line hline j hj _ hab
    have hadjacent : g.Adjacent (number j.left) (number j.right) :=
      (adjacent_iff g).mpr ⟨line, hline, j, hj, rfl, rfl⟩
    obtain ⟨ha, hb⟩ := hnodes _ _ hadjacent hab
    rw [node_of_lt ha, node_of_lt hb]
    exact (lineLink_of_mem g).mp ((hedges _).mpr ⟨_, _, hadjacent, hab, rfl⟩)

/-- The links are read right exactly from plain files. -/
theorem read_topology_iff (g : GraphFile) (path : String) : g.ReadRight path ↔ g.Plain := by
  constructor
  · rintro ⟨edges, hread, -, hedges⟩
    obtain ⟨hlt, hne, rfl⟩ := readTopology_eq_ok.mp hread
    exact plain_of_mem_edges hlt hne hedges
  · intro h
    have hne : textEdges g.text ≠ [] := by
      obtain ⟨p, hp⟩ := h.linked
      exact List.ne_nil_of_mem (h.mem_edges.mpr hp)
    refine ⟨textEdges g.text,
      readTopology_eq_ok.mpr ⟨(numbers_lt_iff g).mpr h.numbers_lt, hne, rfl⟩, nodup_edgeSet _,
      fun p => h.mem_edges⟩

/-- What starts with another token does not go on with a string. -/
theorem not_plus_of_head {c : Char} (hblank : isWhite c = false) (hslash : c ≠ '/')
    (hplus : c ≠ '+') (rest : Text) (gap : Filler) : ¬gap.1 ++ ['+'] <+: c :: rest := by
  rcases gap with ⟨gap, hgap⟩
  intro h
  cases hgap with
  | nil => exact hplus (List.cons_prefix_cons.mp h).1.symm
  | blank hb _ =>
    rw [(List.cons_prefix_cons.mp h).1, hblank] at hb
    cases hb
  | comment _ _ => exact hslash (List.cons_prefix_cons.mp h).1.symm

def zero : NodeId := ⟨['0'], List.cons_ne_nil _ _, List.forall_mem_singleton.mpr rfl, false⟩

def one : NodeId := ⟨['1'], List.cons_ne_nil _ _, List.forall_mem_singleton.mpr rfl, false⟩

def noFiller : Filler := ⟨[], .nil⟩

def oneBlank : Filler := ⟨[' '], .blank (by decide) .nil⟩

def weightedEdge : EdgeLine where
  front := []
  indent := noFiller
  first := zero
  links := [⟨noFiller, noFiller, one⟩]
  links_ne := List.cons_ne_nil _ _
  after := "[weight=2];".toList
  front_ends := by simp
  after_starts := fun c hc => Option.some.inj hc ▸ by decide
  after_plus := not_plus_of_head (by decide) (by decide) (by decide) _

def weightedGraph : GraphFile where
  text := "graph \x7b\n0--1[weight=2];\n\x7d\n".toList
  lines := [.other "graph \x7b".toList, .edge weightedEdge, .other "\x7d".toList]
  reads := by decide +kernel
  linesOk := by decide +kernel

/-- The weight becomes a node with a link to the last one of the chain. -/
theorem weight_makes_link : ¬weightedGraph.ReadRight "topology.gv" := by
  rintro ⟨edges, hread, -, hedges⟩
  obtain ⟨-, -, rfl⟩ := readTopology_eq_ok.mp hread
  have hmem : (1, 2) ∈ textEdges weightedGraph.text := by decide +kernel
  obtain ⟨a, b, ⟨line, hline, hpair⟩, -, hp⟩ := (hedges (1, 2)).mp hmem
  have hchains : ∀ l ∈ weightedGraph.lines, chain l ⊆ [0, 1] := by decide +kernel
  have ha : a ∈ [0, 1] := hchains line hline (hpair.subset List.mem_cons_self)
  have hb : b ∈ [0, 1] :=
    hchains line hline (hpair.subset (List.mem_cons_of_mem a List.mem_cons_self))
  simp only [List.mem_cons, List.not_mem_nil, or_false] at ha hb
  simp only [Prod.mk.injEq] at hp
  omega

/-- A graph on one line, with a string for a node. -/
def shortGraph : GraphFile where
  text := "graph \x7b \"0\" -- 1; \x7d".toList
  lines := [.edge
    { front := "graph \x7b".toList
      indent := oneBlank
      first := { zero with quoted := true }
      links := [⟨oneBlank, oneBlank, one⟩]
      links_ne := List.cons_ne_nil _ _
      after := "; \x7d".toList
      front_ends := fun c hc => Option.some.inj hc ▸ by decide
      after_starts := fun c hc => Option.some.inj hc ▸ by decide
      after_plus := not_plus_of_head (by decide) (by decide) (by decide) _ }]
  reads := by decide +kernel
  linesOk := by decide +kernel

example : readTopology "topology.gv" (some shortGraph.text) = .ok [(0, 1)] := by
  rw [readTopology_eq (by decide +kernel)]
  decide +kernel

end Files

end Topology

end ChipSystemSim
