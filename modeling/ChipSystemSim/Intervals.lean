import Mathlib.Order.ConditionallyCompleteLattice.Indexed
import Mathlib.Data.Finset.Union
import Mathlib.Data.Int.Interval
import Mathlib.Algebra.BigOperators.Group.List.Basic
import Mathlib.Data.Int.ConditionallyCompleteOrder

/-! Half-open intervals of integers: the points that a list of them covers, and
how a sweep over the sorted list counts them. -/

namespace ChipSystemSim

noncomputable def covered (l : List (Int × Int)) : Finset Int :=
  l.toFinset.biUnion fun i => Finset.Ico i.1 i.2

variable {l m : List (Int × Int)} {i : Int × Int} {t : Int}

theorem mem_covered : t ∈ covered l ↔ ∃ i ∈ l, i.1 ≤ t ∧ t < i.2 := by
  simp only [covered, Finset.mem_biUnion, List.mem_toFinset, Finset.mem_Ico]

@[simp] theorem covered_nil : covered [] = ∅ := rfl

theorem covered_cons (i : Int × Int) (l : List (Int × Int)) :
    covered (i :: l) = Finset.Ico i.1 i.2 ∪ covered l := by
  rw [covered, List.toFinset_cons, Finset.biUnion_insert]
  rfl

theorem covered_append (l m : List (Int × Int)) : covered (l ++ m) = covered l ∪ covered m := by
  rw [covered, List.toFinset_append, Finset.union_biUnion]
  rfl

/-- Only which intervals there are counts, not their order or how often they are there. -/
theorem covered_congr (h : ∀ i, i ∈ l ↔ i ∈ m) : covered l = covered m := by
  ext t
  simp only [mem_covered, h]

/-- Intervals that lie in others cover no more. -/
theorem covered_subset (h : ∀ i ∈ l, ∃ j ∈ m, j.1 ≤ i.1 ∧ i.2 ≤ j.2) : covered l ⊆ covered m := by
  intro t ht
  obtain ⟨i, hi, hstart, hfinish⟩ := mem_covered.mp ht
  obtain ⟨j, hj, hleft, hright⟩ := h i hi
  exact mem_covered.mpr ⟨j, hj, hleft.trans hstart, hfinish.trans_le hright⟩

theorem card_covered_mono (h : l ⊆ m) : ((covered l).card : Int) ≤ (covered m).card := by
  have hsubset : covered l ⊆ covered m := covered_subset fun i hi => ⟨i, h hi, le_refl _, le_refl _⟩
  exact Int.ofNat_le.mpr (Finset.card_le_card hsubset)

theorem card_covered_le_sum (h : ∀ i ∈ l, i.1 ≤ i.2) :
    ((covered l).card : Int) ≤ (l.map fun i => i.2 - i.1).sum := by
  induction l with
  | nil => exact le_refl _
  | cons i l ih =>
    have hi : ((Finset.Ico i.1 i.2).card : Int) = i.2 - i.1 :=
      Int.card_Ico_of_le _ _ (h i (by simp))
    have hl := ih fun j hj => h j (List.mem_cons_of_mem _ hj)
    have hunion := Finset.card_union_le (Finset.Ico i.1 i.2) (covered l)
    rw [covered_cons, List.map_cons, List.sum_cons]
    omega

section Sweep

variable {start finish start' finish' : Int}

theorem Ico_extend (hstart : start ≤ start') (hinside : start' ≤ finish) :
    Finset.Ico start finish ∪ Finset.Ico start' finish' = Finset.Ico start
      (max finish finish') := by
  ext t
  simp only [Finset.mem_union, Finset.mem_Ico]
  omega

/-- Behind a gap the current interval is done. -/
theorem card_gap (hle : start ≤ finish) (h : ∀ i ∈ l, finish ≤ i.1) :
    ((Finset.Ico start finish ∪ covered l).card : Int) = (finish - start) + (covered l).card := by
  have hdisjoint : Disjoint (Finset.Ico start finish) (covered l) := by
    rw [Finset.disjoint_left]
    intro t ht hcovered
    obtain ⟨i, hi, hi₁, -⟩ := mem_covered.mp hcovered
    have := h i hi
    rw [Finset.mem_Ico] at ht
    omega
  rw [Finset.card_union_of_disjoint hdisjoint, Nat.cast_add, Int.card_Ico_of_le _ _ hle]

end Sweep

/-- Intervals from the last to the first, each behind those after it in the list. -/
structure Spaced (l : List (Int × Int)) : Prop where
  ordered : l.Pairwise fun i j => j.2 ≤ i.1
  proper : ∀ i ∈ l, i.1 ≤ i.2

theorem Spaced.nil : Spaced [] := ⟨List.Pairwise.nil, fun _ h => by cases h⟩

theorem Spaced.cons (h : Spaced l) (hi : i.1 ≤ i.2) (hbehind : ∀ j ∈ l, j.2 ≤ i.1) :
    Spaced (i :: l) := by
  refine ⟨List.pairwise_cons.mpr ⟨hbehind, h.ordered⟩, fun j hj => ?_⟩
  rcases List.mem_cons.mp hj with rfl | hj
  · exact hi
  · exact h.proper j hj

theorem Spaced.tail (h : Spaced (i :: l)) : Spaced l :=
  ⟨(List.pairwise_cons.mp h.ordered).2, fun j hj => h.proper j (List.mem_cons_of_mem _ hj)⟩

theorem Spaced.sum_length (h : Spaced l) : (l.map fun i => i.2 - i.1).sum = (covered l).card := by
  induction l with
  | nil => rfl
  | cons i l ih =>
    have hbehind : Disjoint (Finset.Ico i.1 i.2) (covered l) := by
      rw [Finset.disjoint_left]
      intro t ht hcovered
      obtain ⟨j, hj, -, hj₂⟩ := mem_covered.mp hcovered
      have := (List.pairwise_cons.mp h.ordered).1 j hj
      rw [Finset.mem_Ico] at ht
      omega
    rw [List.map_cons, List.sum_cons, ih h.tail, covered_cons,
      Finset.card_union_of_disjoint hbehind, Nat.cast_add,
      Int.card_Ico_of_le _ _ (h.proper i (by simp))]

theorem sorted_starts (l : List (Int × Int)) :
    (l.mergeSort fun i j => i.1 < j.1 ∨ (i.1 = j.1 ∧ i.2 ≤ j.2)).Pairwise fun i j => i.1 ≤ j.1 := by
  have h : (l.mergeSort fun i j => decide (i.1 < j.1 ∨ (i.1 = j.1 ∧ i.2 ≤ j.2))).Pairwise fun i j =>
      decide (i.1 < j.1 ∨ (i.1 = j.1 ∧ i.2 ≤ j.2)) = true := by
    apply List.pairwise_mergeSort
    · intro a b c hab hbc
      simp only [decide_eq_true_eq] at hab hbc ⊢
      omega
    · intro a b
      simp only [Bool.or_eq_true, decide_eq_true_eq]
      omega
  refine h.imp fun hij => ?_
  rw [decide_eq_true_eq] at hij
  omega

end ChipSystemSim
