import Mathlib.Algebra.Group.Int.Defs
import Mathlib.Algebra.Group.Nat.Defs
import Mathlib.Data.Fin.VecNotation
import Mathlib.Data.Fintype.Card
import Mathlib.Data.List.FinRange
import Mathlib.Logic.Relation

/-! The relaxation loop of the BFS compatibility task. A vertex counts as visited
only once it is expanded, so an edge inside a level reaches a vertex that is
still in the frontier. -/

-- walks of a given length in a relation, and the distance from a vertex
namespace Walks

variable {α : Type*} {R : α → α → Prop} {s u v : α} {d k : Nat}

inductive Walk (R : α → α → Prop) (s : α) : Nat → α → Prop
  | refl : Walk R s 0 s
  | step {k : Nat} {u v : α} (h : Walk R s k u) (huv : R u v) : Walk R s (k + 1) v

theorem walk_iff_reachable : (∃ k, Walk R s k v) ↔ Relation.ReflTransGen R s v := by
  constructor
  · rintro ⟨k, h⟩
    induction h with
    | refl => exact .refl
    | step _ huv ih => exact ih.tail huv
  · intro h
    induction h with
    | refl => exact ⟨0, .refl⟩
    | tail _ huv ih =>
      obtain ⟨k, hk⟩ := ih
      exact ⟨k + 1, hk.step huv⟩

/-- The shortest walk from `s` to `v` has `d` steps. -/
def Dist (R : α → α → Prop) (s : α) (d : Nat) (v : α) : Prop :=
  Walk R s d v ∧ ∀ k, Walk R s k v → d ≤ k

theorem dist_start : Dist R s 0 s := ⟨.refl, fun _ _ => Nat.zero_le _⟩

theorem Dist.unique (h : Dist R s d v) (h' : Dist R s k v) : d = k :=
  Nat.le_antisymm (h.2 k h'.1) (h'.2 d h.1)

theorem exists_dist (h : Walk R s k v) : ∃ d ≤ k, Dist R s d v := by
  classical
  have hex : ∃ k, Walk R s k v := ⟨k, h⟩
  exact ⟨Nat.find hex, Nat.find_min' hex h, Nat.find_spec hex, fun _ hk => Nat.find_min' hex hk⟩

theorem Dist.pred (h : Dist R s (d + 1) v) : ∃ u, Dist R s d u ∧ R u v := by
  obtain ⟨hwalk, hmin⟩ := h
  cases hwalk with
  | step hu huv =>
    refine ⟨_, ⟨hu, fun k hk => ?_⟩, huv⟩
    have := hmin (k + 1) (hk.step huv)
    omega

/-- A neighbour is at most one step farther. -/
theorem Dist.next (h : Dist R s d u) (huv : R u v) : ∃ k ≤ d + 1, Dist R s k v :=
  exists_dist (h.1.step huv)

theorem Dist.earlier (h : Dist R s d v) (hk : k ≤ d) : ∃ u, Dist R s k u := by
  induction d generalizing v with
  | zero =>
    obtain rfl : k = 0 := by omega
    exact ⟨v, h⟩
  | succ d ih =>
    rcases Nat.lt_or_ge d k with hlt | hle
    · obtain rfl : k = d + 1 := by omega
      exact ⟨v, h⟩
    · obtain ⟨u, hu, _⟩ := h.pred
      exact ih hu hle

/-- Each distance up to `d` has a vertex of its own. -/
theorem Dist.lt_card [Fintype α] (h : Dist R s d v) : d < Fintype.card α := by
  choose f hf using fun i : Fin (d + 1) => h.earlier (Nat.lt_succ_iff.mp i.isLt)
  have hinj : Function.Injective f := by
    intro i j hij
    have hj := hf j
    rw [← hij] at hj
    exact Fin.ext ((hf i).unique hj)
  have hcard := Fintype.card_le_of_injective f hinj
  rw [Fintype.card_fin] at hcard
  omega

end Walks

namespace ChipSystemSim

abbrev kNodeCount : Nat := 6

abbrev kEdgeCount : Nat := 8

def asInt32 (z : Int) : Int := z.bmod (2 ^ 32)

structure BfsGraph (n m : Nat) where
  starts : Fin n → Int
  edgeCounts : Fin n → Int
  edges : Fin m → Int

structure BfsState (n : Nat) where
  frontier : Fin n → Bool
  visited : Fin n → Bool
  costs : Fin n → Int
  nextFrontier : Fin n → Bool
  progressed : Bool

namespace BfsGraph

variable {n m : Nat} (g : BfsGraph n m)

def last (node : Fin n) : Int := asInt32 (g.starts node + g.edgeCounts node)

def edgeIndices (node : Fin n) : List Int :=
  (List.range (g.last node - g.starts node).toNat).map fun i => g.starts node + i

/-- The vertex at the end of an edge, if both the edge and the vertex exist. -/
def neighbour (edgeIndex : Int) : Option (Fin n) :=
  if h : 0 ≤ edgeIndex ∧ edgeIndex < m then
    let neighbour := g.edges ⟨edgeIndex.toNat, by omega⟩
    if h : 0 ≤ neighbour ∧ neighbour < n then some ⟨neighbour.toNat, by omega⟩ else none
  else none

def relaxEdge (node : Fin n) (st : BfsState n) (edgeIndex : Int) : BfsState n :=
  match g.neighbour edgeIndex with
  | none => st
  | some neighbour =>
    if st.visited neighbour then st
    else { st with
      costs := Function.update st.costs neighbour (st.costs node + 1)
      nextFrontier := Function.update st.nextFrontier neighbour true
      progressed := true }

def expand (st : BfsState n) (node : Fin n) : BfsState n :=
  if st.frontier node then
    (g.edgeIndices node).foldl (g.relaxEdge node) { st with
      frontier := Function.update st.frontier node false
      visited := Function.update st.visited node true }
  else st

def round (st : BfsState n) : BfsState n :=
  let st := (List.finRange n).foldl g.expand
    { st with nextFrontier := fun _ => false, progressed := false }
  { st with frontier := st.nextFrontier }

/-- The loop over the rounds, left as soon as a round makes no progress. -/
def relax : Nat → BfsState n → BfsState n
  | 0, st => st
  | rounds + 1, st =>
    let st := g.round st
    if st.progressed then relax rounds st else st

/-- The state with the frontier `{s}` that the CPU participant supplies. -/
def start (s : Fin n) (costs : Fin n → Int) : BfsState n where
  frontier := fun v => v = s
  visited := fun _ => false
  costs := costs
  nextFrontier := fun _ => false
  progressed := false

def bfs (s : Fin n) (costs : Fin n → Int) : Fin n → Int := (g.relax n (start s costs)).costs

def Adj (u v : Fin n) : Prop := ∃ e ∈ g.edgeIndices u, g.neighbour e = some v

instance (u v : Fin n) : Decidable (g.Adj u v) := inferInstanceAs (Decidable (∃ e ∈ _, _))

section Spec

variable {g}

/-- The step that `expand` takes at the vertices in `hit`, which are not visited. -/
structure Hits (node : Fin n) (hit : Fin n → Prop) (st st' : BfsState n) : Prop where
  frontier : st'.frontier = st.frontier
  visited : st'.visited = st.visited
  costs : ∀ w, hit w → st'.costs w = st.costs node + 1
  next : ∀ w, hit w → st'.nextFrontier w = true
  costs_other : ∀ w, ¬hit w → st'.costs w = st.costs w
  next_other : ∀ w, ¬hit w → st'.nextFrontier w = st.nextFrontier w
  progressed : st'.progressed = true ↔ st.progressed = true ∨ ∃ w, hit w

theorem relaxEdge_hits (node : Fin n) (st : BfsState n) (e : Int) :
    Hits node (fun w => g.neighbour e = some w ∧ st.visited w = false) st
      (g.relaxEdge node st e) := by
  unfold relaxEdge
  cases hn : g.neighbour e with
  | none => exact ⟨rfl, rfl, by simp, by simp, by simp, by simp, by simp⟩
  | some x =>
    cases hx : st.visited x with
    | true =>
      have hnot : ∀ w, ¬(some x = some w ∧ st.visited w = false) := by
        rintro w ⟨he, hw⟩
        cases he
        simp [hx] at hw
      refine ⟨by simp [hx], by simp [hx], fun w h => absurd h (hnot w), fun w h =>
        absurd h (hnot w),
        by simp [hx], by simp [hx], ?_⟩
      simp only [hx, if_true]
      exact ⟨Or.inl, fun h => h.resolve_right fun ⟨w, hw⟩ => hnot w hw⟩
    | false =>
      simp only [hx, Bool.false_eq_true, if_false]
      refine ⟨rfl, rfl, ?_, ?_, ?_, ?_, ?_⟩
      · rintro w ⟨he, -⟩
        cases he
        exact Function.update_self ..
      · rintro w ⟨he, -⟩
        cases he
        exact Function.update_self ..
      · intro w hw
        exact Function.update_of_ne (fun he => hw ⟨by rw [he], by rw [he]; exact hx⟩) ..
      · intro w hw
        exact Function.update_of_ne (fun he => hw ⟨by rw [he], by rw [he]; exact hx⟩) ..
      · exact ⟨fun _ => Or.inr ⟨x, rfl, hx⟩, fun _ => rfl⟩

theorem foldl_relaxEdge_hits (node : Fin n) (st : BfsState n) (hnode : st.visited node = true)
    (l : List Int) :
    Hits node (fun w => (∃ e ∈ l, g.neighbour e = some w) ∧ st.visited w = false) st
      (l.foldl (g.relaxEdge node) st) := by
  induction l generalizing st with
  | nil => exact ⟨rfl, rfl, by simp, by simp, by simp, by simp, by simp⟩
  | cons e l ih =>
    have h₁ := relaxEdge_hits (g := g) node st e
    have hsame : (g.relaxEdge node st e).costs node = st.costs node :=
      h₁.costs_other node fun h => by simp [hnode] at h
    have h₂ := ih _ ((congrFun h₁.visited node).trans hnode)
    rw [h₁.visited] at h₂
    have hcases : ∀ {w}, (∃ e' ∈ e :: l, g.neighbour e' = some w) ∧ st.visited w = false ↔
        (g.neighbour e = some w ∧ st.visited w = false) ∨
          ((∃ e' ∈ l, g.neighbour e' = some w) ∧ st.visited w = false) := by
      intro w
      simp only [List.mem_cons, exists_eq_or_imp]
      exact or_and_right
    rw [List.foldl_cons]
    refine ⟨h₂.frontier.trans h₁.frontier, h₂.visited.trans h₁.visited, ?_, ?_, ?_, ?_, ?_⟩
    · intro w hw
      by_cases hl : (∃ e' ∈ l, g.neighbour e' = some w) ∧ st.visited w = false
      · rw [h₂.costs w hl, hsame]
      · rw [h₂.costs_other w hl, h₁.costs w ((hcases.mp hw).resolve_right hl)]
    · intro w hw
      by_cases hl : (∃ e' ∈ l, g.neighbour e' = some w) ∧ st.visited w = false
      · exact h₂.next w hl
      · rw [h₂.next_other w hl]
        exact h₁.next w ((hcases.mp hw).resolve_right hl)
    · intro w hw
      rw [h₂.costs_other w fun h => hw (hcases.mpr (Or.inr h)),
        h₁.costs_other w fun h => hw (hcases.mpr (Or.inl h))]
    · intro w hw
      rw [h₂.next_other w fun h => hw (hcases.mpr (Or.inr h)),
        h₁.next_other w fun h => hw (hcases.mpr (Or.inl h))]
    · rw [h₂.progressed, h₁.progressed]
      simp only [hcases, exists_or, or_assoc]

/-- The end of an edge of `u` that is not visited once `u` is. -/
def Relaxed (g : BfsGraph n m) (st : BfsState n) (u w : Fin n) : Prop :=
  g.Adj u w ∧ w ≠ u ∧ st.visited w = false

theorem expand_hits {u : Fin n} {st : BfsState n} (h : st.frontier u = true) :
    Hits u (g.Relaxed st u)
      { st with
        frontier := Function.update st.frontier u false
        visited := Function.update st.visited u true } (g.expand st u) := by
  have hits := foldl_relaxEdge_hits (g := g) u { st with
    frontier := Function.update st.frontier u false
    visited := Function.update st.visited u true } (Function.update_self ..) (g.edgeIndices u)
  have hrelaxed : (fun w => (∃ e ∈ g.edgeIndices u, g.neighbour e = some w) ∧
      Function.update st.visited u true w = false) = g.Relaxed st u := by
    funext w
    by_cases hw : w = u
    · simp [Relaxed, hw]
    · simp [Relaxed, Adj, hw]
  simp only [expand, h, if_true]
  exact hrelaxed ▸ hits

theorem expand_idle {u : Fin n} {st : BfsState n} (h : st.frontier u = false) :
    g.expand st u = st := by
  simp [expand, h]

end Spec

theorem foldl_finRange {β : Type*} {f : β → Fin n → β} {I : Nat → β → Prop} {b : β} (h₀ : I 0 b)
    (hstep : ∀ (u : Fin n) (b : β), I u b → I (u + 1) (f b u)) :
    I n ((List.finRange n).foldl f b) := by
  have htake : ∀ p ≤ n, I p (((List.finRange n).take p).foldl f b) := by
    intro p hp
    induction p with
    | zero => simpa using h₀
    | succ p ih =>
      have hlt : p < (List.finRange n).length := by rw [List.length_finRange]; exact hp
      rw [List.take_succ_eq_append_getElem hlt, List.foldl_append, List.foldl_cons, List.foldl_nil]
      have hget : (List.finRange n)[p] = ⟨p, hp⟩ := by simp
      rw [hget]
      exact hstep ⟨p, hp⟩ _ (ih (by omega))
  have h := htake n le_rfl
  rwa [List.take_of_length_le (by simp)] at h

section Levels

variable {g} {s : Fin n} {costs : Fin n → Int} {d p : Nat} {st : BfsState n}

/-- In a round at distance `d` the vertices before `p` have been expanded. -/
structure Scanned (g : BfsGraph n m) (s : Fin n) (d p : Nat) (st : BfsState n) : Prop where
  frontier : ∀ w, st.frontier w = true ↔ Walks.Dist g.Adj s d w ∧ p ≤ w
  visited : ∀ w, st.visited w = true ↔
    (∃ k < d, Walks.Dist g.Adj s k w) ∨ (Walks.Dist g.Adj s d w ∧ w < p)
  least : ∀ w, Walks.Dist g.Adj s d w → d ≤ st.costs w

theorem Scanned.not_visited (h : Scanned g s d p st) {w : Fin n} (hw : Walks.Dist g.Adj s d w)
    (hp : p ≤ w) : st.visited w = false := by
  rw [← Bool.not_eq_true, h.visited]
  rintro (⟨k, hk, hdist⟩ | ⟨_, hlt⟩)
  · have := hdist.unique hw
    omega
  · omega

theorem Scanned.step {u : Fin n} (h : Scanned g s d u st) :
    Scanned g s d (u + 1) (g.expand st u) := by
  cases hu : st.frontier u with
  | true =>
    have hdist := ((h.frontier u).mp hu).1
    have hits := g.expand_hits hu
    refine ⟨?_, ?_, ?_⟩
    · intro w
      rw [hits.frontier]
      by_cases hw : w = u
      · simp [hw]
      · have hne : (w : Nat) ≠ u := fun he => hw (Fin.ext he)
        simp only [Function.update_of_ne hw, h.frontier]
        exact and_congr_right fun _ => by omega
    · intro w
      rw [hits.visited]
      by_cases hw : w = u
      · subst hw
        simp [hdist]
      · have hne : (w : Nat) ≠ u := fun he => hw (Fin.ext he)
        simp only [Function.update_of_ne hw, h.visited]
        exact or_congr_right (and_congr_right fun _ => by omega)
    · intro w hw
      by_cases hr : g.Relaxed st u w
      · rw [hits.costs w hr]
        exact (h.least u hdist).trans (Int.le_add_one le_rfl)
      · rw [hits.costs_other w hr]
        exact h.least w hw
  | false =>
    rw [g.expand_idle hu]
    have hnot : ¬Walks.Dist g.Adj s d u := fun hdist => by
      rw [(h.frontier u).mpr ⟨hdist, le_rfl⟩] at hu
      cases hu
    have hne : ∀ {w : Fin n}, Walks.Dist g.Adj s d w → (w : Nat) ≠ u := by
      intro w hw he
      exact hnot (Fin.ext he ▸ hw)
    refine ⟨?_, ?_, h.least⟩
    · intro w
      rw [h.frontier]
      exact and_congr_right fun hw => by have := hne hw; omega
    · intro w
      rw [h.visited]
      exact or_congr_right (and_congr_right fun hw => by have := hne hw; omega)

/-- No edge leads to a later vertex at the same distance `d`. -/
def Ordered (g : BfsGraph n m) (s : Fin n) (d : Nat) : Prop :=
  ∀ u v, g.Adj u v → Walks.Dist g.Adj s d u → Walks.Dist g.Adj s d v → ¬u < v

/-- As long as the edges are ordered the costs are distances. -/
structure Exact (g : BfsGraph n m) (s : Fin n) (costs : Fin n → Int) (d p : Nat)
    (st : BfsState n) : Prop
    extends Scanned g s d p st where
  level : ∀ k ≤ d, ∀ w, Walks.Dist g.Adj s k w → st.costs w = k
  next : ∀ w, st.nextFrontier w = true ↔
    Walks.Dist g.Adj s (d + 1) w ∧ ∃ u : Fin n, u < p ∧ Walks.Dist g.Adj s d u ∧ g.Adj u w
  reached : ∀ w, st.nextFrontier w = true → st.costs w = d + 1
  others : ∀ w, (∀ k ≤ d, ¬Walks.Dist g.Adj s k w) → st.nextFrontier w = false →
    st.costs w = costs w
  progressed : st.progressed = true ↔ ∃ w, st.nextFrontier w = true

/-- What `expand` relaxes then is exactly the neighbours one step farther. -/
theorem Scanned.relaxed_iff {u w : Fin n} (h : Scanned g s d u st) (hord : g.Ordered s d)
    (hu : Walks.Dist g.Adj s d u) :
    g.Relaxed st u w ↔ g.Adj u w ∧ Walks.Dist g.Adj s (d + 1) w := by
  constructor
  · rintro ⟨hadj, hne, hvisited⟩
    refine ⟨hadj, ?_⟩
    have hnot :
        ¬((∃ k < d, Walks.Dist g.Adj s k w) ∨ (Walks.Dist g.Adj s d w ∧ (w : Nat) < u)) := by
      rw [← h.visited, hvisited]
      exact Bool.false_ne_true
    obtain ⟨k, hk, hdist⟩ := hu.next hadj
    rcases Nat.lt_trichotomy k d with hlt | rfl | hlt
    · exact absurd (Or.inl ⟨k, hlt, hdist⟩) hnot
    · have hge : ¬(w : Nat) < u := fun hlt => hnot (Or.inr ⟨hdist, hlt⟩)
      have hle : ¬u < w := hord u w hadj hu hdist
      exact absurd (Fin.ext (by omega)) hne
    · obtain rfl : k = d + 1 := by omega
      exact hdist
  · rintro ⟨hadj, hdist⟩
    refine ⟨hadj, ?_, ?_⟩
    · rintro rfl
      have := hu.unique hdist
      omega
    · rw [← Bool.not_eq_true, h.visited]
      rintro (⟨k, hk, hk'⟩ | ⟨hd, _⟩)
      · have := hk'.unique hdist
        omega
      · have := hd.unique hdist
        omega

theorem exists_lt_succ_iff {u : Fin n} {p : Fin n → Prop} (hu : ¬p u) :
    (∃ x : Fin n, (x : Nat) < u ∧ p x) ↔ ∃ x : Fin n, (x : Nat) < u + 1 ∧ p x := by
  constructor
  · rintro ⟨x, hx, hp⟩
    exact ⟨x, Nat.lt_succ_of_lt hx, hp⟩
  · rintro ⟨x, hx, hp⟩
    refine ⟨x, ?_, hp⟩
    have hne : (x : Nat) ≠ u := by
      intro he
      obtain rfl := Fin.ext he
      exact hu hp
    omega

theorem Exact.step {u : Fin n} (h : Exact g s costs d u st) (hord : g.Ordered s d) :
    Exact g s costs d (u + 1) (g.expand st u) := by
  cases hu : st.frontier u with
  | true =>
    have hdist := ((h.frontier u).mp hu).1
    have hits := g.expand_hits hu
    have hrelaxed : ∀ w, g.Relaxed st u w ↔ g.Adj u w ∧ Walks.Dist g.Adj s (d + 1) w :=
      fun w => h.toScanned.relaxed_iff hord hdist
    have hcost : st.costs u = d := h.level d le_rfl u hdist
    have hfar : ∀ {w k}, k ≤ d → Walks.Dist g.Adj s k w → ¬g.Relaxed st u w := by
      intro w k hk hw hr
      have := hw.unique ((hrelaxed w).mp hr).2
      omega
    refine ⟨h.toScanned.step, ?_, ?_, ?_, ?_, ?_⟩
    · intro k hk w hw
      rw [hits.costs_other w (hfar hk hw)]
      exact h.level k hk w hw
    · intro w
      by_cases hr : g.Relaxed st u w
      · obtain ⟨hadj, hw⟩ := (hrelaxed w).mp hr
        exact iff_of_true (hits.next w hr) ⟨hw, u, Nat.lt_succ_self _, hdist, hadj⟩
      · rw [hits.next_other w hr, h.next w]
        apply and_congr_right
        intro hw
        apply exists_lt_succ_iff
        exact fun hlast => hr ((hrelaxed w).mpr ⟨hlast.2, hw⟩)
    · intro w hw
      by_cases hr : g.Relaxed st u w
      · rw [hits.costs w hr]
        exact congrArg (· + 1) hcost
      · rw [hits.next_other w hr] at hw
        rw [hits.costs_other w hr]
        exact h.reached w hw
    · intro w hw hnext
      have hr : ¬g.Relaxed st u w := fun hr => by
        rw [hits.next w hr] at hnext
        cases hnext
      rw [hits.next_other w hr] at hnext
      rw [hits.costs_other w hr]
      exact h.others w hw hnext
    · rw [hits.progressed]
      constructor
      · rintro (hp | ⟨w, hr⟩)
        · obtain ⟨w, hw⟩ := h.progressed.mp hp
          by_cases hr : g.Relaxed st u w
          · exact ⟨w, hits.next w hr⟩
          · exact ⟨w, (hits.next_other w hr).trans hw⟩
        · exact ⟨w, hits.next w hr⟩
      · rintro ⟨w, hw⟩
        by_cases hr : g.Relaxed st u w
        · exact Or.inr ⟨w, hr⟩
        · exact Or.inl (h.progressed.mpr ⟨w, (hits.next_other w hr).symm.trans hw⟩)
  | false =>
    have hscan := h.toScanned.step
    rw [g.expand_idle hu] at hscan ⊢
    have hnot : ¬Walks.Dist g.Adj s d u := fun hdist => by
      rw [(h.frontier u).mpr ⟨hdist, le_rfl⟩] at hu
      cases hu
    refine ⟨hscan, h.level, ?_, h.reached, h.others, h.progressed⟩
    intro w
    rw [h.next w]
    apply and_congr_right
    intro hw
    apply exists_lt_succ_iff
    exact fun hlast => hnot hlast.1

/-- The state before the round at distance `d`. -/
structure Level (g : BfsGraph n m) (s : Fin n) (costs : Fin n → Int) (d : Nat)
    (st : BfsState n) : Prop where
  frontier : ∀ w, st.frontier w = true ↔ Walks.Dist g.Adj s d w
  visited : ∀ w, st.visited w = true ↔ ∃ k < d, Walks.Dist g.Adj s k w
  level : ∀ k ≤ d, ∀ w, Walks.Dist g.Adj s k w → st.costs w = k
  others : ∀ w, (∀ k ≤ d, ¬Walks.Dist g.Adj s k w) → st.costs w = costs w

theorem Level.scanned (h : Level g s costs d st) :
    Scanned g s d 0 { st with nextFrontier := fun _ => false, progressed := false } := by
  refine ⟨?_, ?_, ?_⟩
  · intro w
    simpa using h.frontier w
  · intro w
    simpa using h.visited w
  · intro w hw
    exact le_of_eq (h.level d le_rfl w hw).symm

theorem Level.round (h : Level g s costs d st) (hord : g.Ordered s d) :
    Level g s costs (d + 1) (g.round st) ∧
      ((g.round st).progressed = true ↔ ∃ w, Walks.Dist g.Adj s (d + 1) w) := by
  have hexact : Exact g s costs d n ((List.finRange n).foldl g.expand
      { st with nextFrontier := fun _ => false, progressed := false }) := by
    refine foldl_finRange ⟨h.scanned, h.level, ?_, ?_, ?_, ?_⟩ fun u st hst => hst.step hord
    · simp
    · simp
    · exact fun w hw _ => h.others w hw
    · simp
  have hnext : ∀ w, (g.round st).frontier w = true ↔ Walks.Dist g.Adj s (d + 1) w := by
    intro w
    refine (hexact.next w).trans ⟨And.left, fun hw => ⟨hw, ?_⟩⟩
    obtain ⟨u, hu, hadj⟩ := hw.pred
    exact ⟨u, u.isLt, hu, hadj⟩
  refine ⟨⟨hnext, ?_, ?_, ?_⟩, hexact.progressed.trans (exists_congr hnext)⟩
  · intro w
    refine (hexact.visited w).trans ⟨?_, ?_⟩
    · rintro (⟨k, hk, hw⟩ | ⟨hw, _⟩)
      · exact ⟨k, Nat.lt_succ_of_lt hk, hw⟩
      · exact ⟨d, Nat.lt_succ_self d, hw⟩
    · rintro ⟨k, hk, hw⟩
      rcases Nat.lt_succ_iff_lt_or_eq.mp hk with hk | rfl
      · exact Or.inl ⟨k, hk, hw⟩
      · exact Or.inr ⟨hw, w.isLt⟩
  · intro k hk w hw
    rcases Nat.le_succ_iff.mp hk with hk | rfl
    · exact hexact.level k hk w hw
    · exact hexact.reached w ((hnext w).mpr hw)
  · intro w hw
    refine hexact.others w (fun k hk => hw k (Nat.le_succ_of_le hk)) ?_
    rw [← Bool.not_eq_true]
    exact fun hn => hw (d + 1) le_rfl ((hnext w).mp hn)

theorem level_start (hs : costs s = 0) : Level g s costs 0 (start s costs) := by
  have hzero : ∀ {w}, Walks.Dist g.Adj s 0 w → w = s := by
    rintro w ⟨hwalk, _⟩
    cases hwalk
    rfl
  refine ⟨?_, by simp [start], ?_, fun w _ => rfl⟩
  · intro w
    simp only [start, decide_eq_true_eq]
    constructor
    · rintro rfl
      exact Walks.dist_start
    · exact hzero
  · intro k hk w hw
    obtain rfl : k = 0 := by omega
    rw [hzero hw]
    exact hs

end Levels

section Result

variable {g} {s : Fin n} {costs : Fin n → Int}

/-- The costs are distances, and where there is none they are as before. -/
def Correct (g : BfsGraph n m) (s : Fin n) (costs result : Fin n → Int) : Prop :=
  (∀ v d, Walks.Dist g.Adj s d v → result v = d) ∧
  ∀ v, ¬Relation.ReflTransGen g.Adj s v → result v = costs v

theorem Level.correct {d : Nat} {st : BfsState n} (h : Level g s costs d st)
    (hd : ∀ k w, Walks.Dist g.Adj s k w → k ≤ d) : g.Correct s costs st.costs := by
  constructor
  · intro v k hv
    exact h.level k (hd k v hv) v hv
  · intro v hv
    refine h.others v fun k _ hk => hv ?_
    exact Walks.walk_iff_reachable.mp ⟨k, hk.1⟩

theorem Level.relax_correct (hord : ∀ d, g.Ordered s d) {rounds d : Nat} {st : BfsState n}
    (hn : d + rounds = n) (h : Level g s costs d st) :
    g.Correct s costs (g.relax rounds st).costs := by
  induction rounds generalizing d st with
  | zero =>
    refine h.correct fun k w hw => ?_
    have hk := hw.lt_card
    rw [Fintype.card_fin] at hk
    omega
  | succ rounds ih =>
    obtain ⟨hlevel, hprogressed⟩ := h.round (hord d)
    simp only [relax]
    split
    · exact ih (by omega) hlevel
    · rename_i hstop
      refine hlevel.correct fun k w hw => ?_
      by_contra hk
      exact hstop (hprogressed.mpr (hw.earlier (by omega)))

/-- The rounds before the first edge that is out of order are as they should be. -/
theorem relax_eq_of_ordered (hs : costs s = 0) {d : Nat} (hord : ∀ k < d, g.Ordered s k) {x : Fin n}
    (hx : Walks.Dist g.Adj s d x) :
    ∃ st, Level g s costs d st ∧ g.relax n (start s costs) = g.relax (n - d) st := by
  induction d generalizing x with
  | zero => exact ⟨_, level_start hs, rfl⟩
  | succ d ih =>
    obtain ⟨w, hw⟩ := hx.earlier (Nat.le_succ d)
    obtain ⟨st, hst, hrelax⟩ := ih (fun k hk => hord k (by omega)) hw
    obtain ⟨hlevel, hprogressed⟩ := hst.round (hord d (by omega))
    refine ⟨_, hlevel, ?_⟩
    have hn := hx.lt_card
    rw [Fintype.card_fin] at hn
    have hrounds : n - d = n - (d + 1) + 1 := by omega
    rw [hrelax, hrounds, relax]
    exact if_pos (hprogressed.mpr ⟨x, hx⟩)

theorem expand_frozen {st : BfsState n} {v : Fin n} (hv : st.visited v = true) (u : Fin n) :
    (g.expand st u).visited v = true ∧ (g.expand st u).costs v = st.costs v := by
  cases hu : st.frontier u with
  | true =>
    have hits := g.expand_hits hu
    refine ⟨?_, ?_⟩
    · rw [hits.visited]
      by_cases hvu : v = u
      · simp [hvu]
      · simpa [Function.update_of_ne hvu] using hv
    · refine hits.costs_other v ?_
      rintro ⟨_, _, hfalse⟩
      simp [hv] at hfalse
  | false =>
    rw [g.expand_idle hu]
    exact ⟨hv, rfl⟩

theorem round_frozen {st : BfsState n} {v : Fin n} (hv : st.visited v = true) :
    (g.round st).visited v = true ∧ (g.round st).costs v = st.costs v := by
  have hfold : ∀ (l : List (Fin n)) (st : BfsState n), st.visited v = true →
      (l.foldl g.expand st).visited v = true ∧ (l.foldl g.expand st).costs v = st.costs v := by
    intro l
    induction l with
    | nil => exact fun st hv => ⟨hv, rfl⟩
    | cons u l ih =>
      intro st hv
      obtain ⟨hvisited, hcosts⟩ := g.expand_frozen hv u
      obtain ⟨h₁, h₂⟩ := ih _ hvisited
      exact ⟨h₁, h₂.trans hcosts⟩
  exact hfold (List.finRange n) _ hv

/-- A visited vertex keeps its cost. -/
theorem relax_frozen {v : Fin n} {rounds : Nat} {st : BfsState n} (hv : st.visited v = true) :
    (g.relax rounds st).costs v = st.costs v := by
  induction rounds generalizing st with
  | zero => rfl
  | succ rounds ih =>
    obtain ⟨hvisited, hcosts⟩ := g.round_frozen hv
    simp only [relax]
    split
    · rw [ih hvisited, hcosts]
    · exact hcosts

/-- An edge that is out of order raises the cost of its end for good. -/
theorem Level.round_raises {d : Nat} {st : BfsState n} (h : Level g s costs d st) {u v : Fin n}
    (huv : u < v) (hadj : g.Adj u v) (hu : Walks.Dist g.Adj s d u) (hv : Walks.Dist g.Adj s d v) :
    (g.round st).visited v = true ∧ (d : Int) + 1 ≤ (g.round st).costs v := by
  -- from the moment `u` is expanded the cost of `v` is too high
  let raised (p : Nat) (st : BfsState n) : Prop :=
    Scanned g s d p st ∧ ((u : Nat) < p → (d : Int) + 1 ≤ st.costs v)
  have hscan : raised n ((List.finRange n).foldl g.expand
      { st with nextFrontier := fun _ => false, progressed := false }) := by
    have hstart : raised 0 { st with nextFrontier := fun _ => false, progressed := false } :=
      ⟨h.scanned, fun hlt => absurd hlt (Nat.not_lt_zero _)⟩
    refine foldl_finRange hstart ?_
    rintro w st ⟨hst, hraised⟩
    refine ⟨hst.step, fun hlt => ?_⟩
    cases hw : st.frontier w with
    | true =>
      have hits := g.expand_hits hw
      by_cases hr : g.Relaxed st w v
      · rw [hits.costs v hr]
        exact Int.add_le_add_right (hst.least w ((hst.frontier w).mp hw).1) 1
      · rw [hits.costs_other v hr]
        rcases Nat.lt_succ_iff_lt_or_eq.mp hlt with hlt | he
        · exact hraised hlt
        · obtain rfl := Fin.ext he
          exact absurd ⟨hadj, ne_of_gt huv, hst.not_visited hv huv.le⟩ hr
    | false =>
      rw [g.expand_idle hw]
      refine hraised (lt_of_le_of_ne (Nat.lt_succ_iff.mp hlt) fun he => ?_)
      obtain rfl := Fin.ext he
      rw [(hst.frontier u).mpr ⟨hu, le_rfl⟩] at hw
      cases hw
  obtain ⟨hscan, hraised⟩ := hscan
  exact ⟨(hscan.visited v).mpr (Or.inr ⟨hv, v.isLt⟩), hraised u.isLt⟩

/-- The costs are right exactly if no edge joins a vertex to a later one at the
same distance from the source. -/
theorem bfs_correct_iff (hs : costs s = 0) :
    g.Correct s costs (g.bfs s costs) ↔
      ¬∃ u v d, g.Adj u v ∧ u < v ∧ Walks.Dist g.Adj s d u ∧ Walks.Dist g.Adj s d v := by
  classical
  constructor
  · rintro hcorrect ⟨u, v, d, hbad⟩
    have hex : ∃ d, ¬g.Ordered s d :=
      ⟨d, fun hord => hord u v hbad.1 hbad.2.2.1 hbad.2.2.2 hbad.2.1⟩
    -- the first distance at which an edge is out of order
    obtain ⟨d, hfirst, hbefore⟩ : ∃ d, ¬g.Ordered s d ∧ ∀ k < d, g.Ordered s k :=
      ⟨Nat.find hex, Nat.find_spec hex, fun k hk => not_not.mp (Nat.find_min hex hk)⟩
    unfold Ordered at hfirst
    push Not at hfirst
    obtain ⟨u, v, hadj, hu, hv, hlt⟩ := hfirst
    obtain ⟨st, hst, hrelax⟩ := relax_eq_of_ordered hs hbefore hu
    obtain ⟨hvisited, hraised⟩ := hst.round_raises hlt hadj hu hv
    have hn := hu.lt_card
    rw [Fintype.card_fin] at hn
    obtain ⟨rounds, hrounds⟩ := Nat.exists_eq_succ_of_ne_zero (show n - d ≠ 0 by omega)
    have hcost : g.bfs s costs v = (g.round st).costs v := by
      rw [bfs, hrelax, hrounds, relax]
      split
      · exact relax_frozen hvisited
      · rfl
    have := hcorrect.1 v _ hv
    omega
  · intro hnone
    refine (level_start hs).relax_correct ?_ (Nat.zero_add n)
    intro d u v hadj hu hv hlt
    exact hnone ⟨u, v, d, hadj, hlt, hu, hv⟩

end Result

end BfsGraph

def crossEdge : BfsGraph kNodeCount kEdgeCount where
  starts := ![0, 2, 3, 3, 3, 3]
  edgeCounts := ![2, 1, 0, 0, 0, 0]
  edges := ![1, 2, 2, 0, 0, 0, 0, 0]

def unreached : Fin kNodeCount → Int := fun v => if v = 0 then 0 else -1

/-- Vertex 2 is one step away from the source, and its cost is 2. -/
theorem crossEdge_not_correct : ¬crossEdge.Correct 0 unreached (crossEdge.bfs 0 unreached) := by
  intro hcorrect
  have hadj : crossEdge.Adj 0 2 := by decide +kernel
  have hdist : Walks.Dist crossEdge.Adj 0 1 2 := by
    refine ⟨.step .refl hadj, fun k hk => ?_⟩
    cases hk with
    | step h huv => omega
  have hcost : crossEdge.bfs 0 unreached 2 = 2 := by decide +kernel
  have := hcorrect.1 2 1 hdist
  omega

def backEdge : BfsGraph kNodeCount kEdgeCount where
  starts := ![0, 2, 2, 3, 3, 3]
  edgeCounts := ![2, 0, 1, 0, 0, 0]
  edges := ![1, 2, 1, 0, 0, 0, 0, 0]

theorem bfs_correct_iff_backEdge : backEdge.Correct 0 unreached (backEdge.bfs 0 unreached) := by
  refine (BfsGraph.bfs_correct_iff (by decide)).mpr ?_
  rintro ⟨u, v, d, hadj, hlt, hu, hv⟩
  have hedges : ∀ u v, backEdge.Adj u v → u < v → u = 0 := by decide +kernel
  obtain rfl := hedges u v hadj hlt
  obtain rfl := hu.unique Walks.dist_start
  obtain ⟨hwalk, _⟩ := hv
  cases hwalk
  exact absurd hlt (lt_irrefl _)

end ChipSystemSim
