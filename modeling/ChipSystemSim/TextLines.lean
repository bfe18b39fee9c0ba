import Mathlib.Algebra.GroupWithZero.Nat
import Mathlib.Data.List.Basic
import Mathlib.Data.List.DropRight
import Mathlib.Tactic.Common

/-! The lines of a text, and what stripping white space from its end does to
them. -/

namespace TextLines

abbrev Text := List Char

/-- The lines of a text; a newline at its end does not start another one. -/
def lines (t : Text) : List Text :=
  if (t.splitOn '\n').getLast? = some [] then (t.splitOn '\n').dropLast else t.splitOn '\n'

theorem splitOn_injective {t u : Text} (h : t.splitOn '\n' = u.splitOn '\n') : t = u := by
  calc t = ['\n'].intercalate (t.splitOn '\n') := (List.intercalate_splitOn '\n').symm
    _ = u := by rw [h, List.intercalate_splitOn]

theorem separator_notMem {α : Type*} [BEq α] [LawfulBEq α] {x : α} {t l : List α}
    (h : l ∈ t.splitOn x) : x ∉ l := by
  induction t generalizing l with
  | nil =>
    rw [List.splitOn_nil, List.mem_singleton] at h
    simp [h]
  | cons c t ih =>
    rw [List.splitOn_cons_eq_if_modifyHead] at h
    split at h
    · rcases List.mem_cons.mp h with rfl | h
      · exact List.not_mem_nil
      · exact ih h
    · rename_i hc
      cases ht : t.splitOn x with
      | nil => exact absurd ht (List.splitOn_ne_nil _ _)
      | cons k ls =>
        rw [ht] at h ih
        rcases List.mem_cons.mp h with rfl | h
        · have hk := ih List.mem_cons_self
          simp only [beq_iff_eq] at hc
          simp [hk, Ne.symm hc]
        · exact ih (List.mem_cons_of_mem k h)

theorem newline_notMem {t l : Text} (h : l ∈ t.splitOn '\n') : '\n' ∉ l := separator_notMem h

theorem splitOn_map {f : Text → Text} (hf : ∀ l, '\n' ∉ l → '\n' ∉ f l) (t : Text) :
    (['\n'].intercalate ((t.splitOn '\n').map f)).splitOn '\n' = (t.splitOn '\n').map f := by
  refine List.splitOn_intercalate '\n' ?_ (by simp)
  intro l hl
  obtain ⟨k, hk, rfl⟩ := List.mem_map.mp hl
  exact hf k (newline_notMem hk)

theorem lines_append_newline (t u : Text) : lines (t ++ '\n' :: u) = t.splitOn '\n' ++ lines u := by
  have hu : u.splitOn '\n' ≠ [] := List.splitOn_ne_nil _ _
  unfold lines
  rw [List.splitOn_append_cons_self, List.getLast?_append_of_ne_nil _ hu,
    List.dropLast_append_of_ne_nil hu]
  split <;> rfl

theorem intercalate_concat {init : List Text} (h : init ≠ []) (l : Text) :
    ['\n'].intercalate (init ++ [l]) = ['\n'].intercalate init ++ '\n' :: l := by
  induction init with
  | nil => exact absurd rfl h
  | cons k init ih =>
    cases init with
    | nil => simp
    | cons k' init =>
      have := ih (List.cons_ne_nil _ _)
      simp only [List.cons_append, List.intercalate_cons_cons] at this ⊢
      rw [this]
      simp

theorem splitOn_getLast {t : Text} (h : (t.splitOn '\n').getLast? = some []) :
    t = [] ∨ t.getLast? = some '\n' := by
  obtain ⟨init, hinit⟩ := List.getLast?_eq_some_iff.mp h
  have ht : ['\n'].intercalate (t.splitOn '\n') = t := List.intercalate_splitOn '\n'
  rw [hinit] at ht
  cases init with
  | nil =>
    left
    simpa using ht.symm
  | cons k init =>
    right
    rw [← ht, intercalate_concat (List.cons_ne_nil _ _)]
    simp

theorem lines_eq_splitOn {t : Text} (h : t.getLast? ≠ some '\n') (hne : t ≠ []) :
    lines t = t.splitOn '\n' := by
  unfold lines
  split
  · rename_i hlast
    exact absurd (splitOn_getLast hlast) (not_or.mpr ⟨hne, h⟩)
  · rfl

theorem lines_eq_splitOn_iff {t u : Text} (h : u.getLast? ≠ some '\n') :
    lines t = u.splitOn '\n' ↔ t = u ++ ['\n'] ∨ (t = u ∧ t ≠ []) := by
  constructor
  · intro heq
    unfold lines at heq
    split at heq
    · rename_i hlast
      left
      obtain ⟨init, hinit⟩ := List.getLast?_eq_some_iff.mp hlast
      refine splitOn_injective ?_
      rw [List.splitOn_append_cons_self, ← heq, hinit]
      simp
    · rename_i hlast
      refine Or.inr ⟨splitOn_injective heq, ?_⟩
      rintro rfl
      exact hlast rfl
  · rintro (rfl | ⟨rfl, hne⟩)
    · rw [lines_append_newline]
      exact List.append_nil _
    · exact lines_eq_splitOn h hne

section Counting

variable {a : Char} (ha : a ≠ '\n')

include ha

theorem count_intercalate (ls : List Text) :
    (['\n'].intercalate ls).count a = (ls.map (List.count a)).sum := by
  induction ls with
  | nil => simp
  | cons l ls ih =>
    cases ls with
    | nil => simp
    | cons k ls =>
      rw [List.intercalate_cons_cons, List.count_append, List.count_append, ih]
      simp [ha.symm]

theorem count_splitOn (t : Text) : ((t.splitOn '\n').map (List.count a)).sum = t.count a := by
  rw [← count_intercalate ha, List.intercalate_splitOn]

theorem count_lines (t : Text) : ((lines t).map (List.count a)).sum = t.count a := by
  rw [← count_splitOn ha]
  unfold lines
  split
  · rename_i hlast
    obtain ⟨init, hinit⟩ := List.getLast?_eq_some_iff.mp hlast
    simp [hinit]
  · rfl

end Counting

theorem splitOn_concat (t : Text) {c : Char} (hc : c ≠ '\n') :
    ∃ ls l, t.splitOn '\n' = ls ++ [l] ∧ (t ++ [c]).splitOn '\n' = ls ++ [l ++ [c]] := by
  induction t with
  | nil => exact ⟨[], [], rfl, List.splitOn_eq_singleton (by simpa using hc.symm)⟩
  | cons x t ih =>
    obtain ⟨ls, l, ht, htc⟩ := ih
    rw [List.cons_append, List.splitOn_cons_eq_if_modifyHead,
      List.splitOn_cons_eq_if_modifyHead, ht, htc]
    split
    · exact ⟨[] :: ls, l, rfl, rfl⟩
    · cases ls with
      | nil => exact ⟨[], x :: l, rfl, rfl⟩
      | cons k ls => exact ⟨(x :: k) :: ls, l, rfl, rfl⟩

/-- Lines that white space at the end does not matter to are still there when
the white space is not. -/
theorem countP_splitOn_le {space : Char → Bool} {P : Text → Bool} (hnil : P [] = false)
    (hspace : ∀ l c, space c = true → P (l ++ [c]) = true → P l = true) (t : Text) {w : Text}
    (hw : ∀ c ∈ w, space c = true) :
    ((t ++ w).splitOn '\n').countP P ≤ (t.splitOn '\n').countP P := by
  induction w using List.reverseRecOn with
  | nil => simp
  | append_singleton w c ih =>
    have hle := ih fun d hd => hw d (List.mem_append_left _ hd)
    rw [← List.append_assoc]
    by_cases hc : c = '\n'
    · rw [hc, List.splitOn_append_cons_self]
      simpa [hnil] using hle
    · obtain ⟨ls, l, ht, htc⟩ := splitOn_concat (t ++ w) hc
      rw [ht] at hle
      rw [htc]
      have hlast : [l ++ [c]].countP P ≤ [l].countP P := by
        cases hP : P (l ++ [c]) with
        | false => simp [hP]
        | true => simp [hP, hspace l c (hw c (by simp)) hP]
      rw [List.countP_append] at hle ⊢
      omega

end TextLines
