import Mathlib.Data.Finset.Card
import Mathlib.Data.Finset.Max
import Mathlib.Logic.Function.Basic

/-! Waiting for a finite set of events: the events seen so far, and a finish
time that is negative until the last of them has happened. -/

namespace Collect

variable {ι : Type*} {all : Finset ι} {happened : ι → Option Nat}

def LastAt (all : Finset ι) (happened : ι → Option Nat) (t : Nat) : Prop :=
  (∀ x ∈ all, ∃ u ≤ t, happened x = some u) ∧ ∃ x ∈ all, happened x = some t

theorem LastAt.unique {t u : Nat} (ht : LastAt all happened t) (hu : LastAt all happened u) :
    t = u := by
  obtain ⟨hall, x, hx, hxt⟩ := ht
  obtain ⟨hall', y, hy, hyu⟩ := hu
  obtain ⟨v, hv, hyv⟩ := hall y hy
  obtain ⟨w, hw, hxw⟩ := hall' x hx
  rw [hyu] at hyv
  rw [hxt] at hxw
  cases hyv
  cases hxw
  exact le_antisymm hw hv

theorem exists_lastAt (hne : all.Nonempty) (h : ∀ x ∈ all, ∃ u, happened x = some u) :
    ∃ t, LastAt all happened t := by
  obtain ⟨x, hx, hmax⟩ := all.exists_max_image (fun y => (happened y).getD 0) hne
  obtain ⟨t, ht⟩ := h x hx
  refine ⟨t, ?_, x, hx, ht⟩
  intro y hy
  obtain ⟨u, hu⟩ := h y hy
  have hle := hmax y hy
  rw [hu, ht] at hle
  exact ⟨u, hle, hu⟩

theorem LastAt.lt {before after : ι → Option Nat} {t u : Nat} (ht : LastAt all before t)
    (hu : LastAt all after u) (h : ∀ x v, after x = some v → ∃ w, before x = some w ∧ w < v) :
    t < u := by
  obtain ⟨_, x, hx, hxt⟩ := ht
  obtain ⟨v, hv, hxv⟩ := hu.1 x hx
  obtain ⟨w, hw, hlt⟩ := h x v hxv
  rw [hxt] at hw
  cases hw
  omega

/-- The bookkeeping agrees with what has happened. -/
structure Collected (all : Finset ι) (happened : ι → Option Nat) (seen : Finset ι)
    (finish : Int) : Prop where
  awaited : ∀ {x t}, happened x = some t → x ∈ all
  mem_seen : ∀ x, x ∈ seen ↔ ∃ t, happened x = some t
  finish_iff : ∀ t : Nat, finish = t ↔ LastAt all happened t
  unset_or : finish = -1 ∨ 0 ≤ finish

theorem collected_init : Collected all (fun _ => none) ∅ (-1) where
  awaited := by simp
  mem_seen := by simp
  finish_iff := by
    intro t
    constructor
    · intro h
      omega
    · rintro ⟨_, x, _, hx⟩
      cases hx
  unset_or := Or.inl rfl

theorem Collected.pending {seen : Finset ι} {finish : Int} (h : Collected all happened seen finish)
    (hfinish : ¬0 ≤ finish) : finish = -1 ∧ ∀ t, ¬LastAt all happened t := by
  refine ⟨h.unset_or.resolve_right hfinish, ?_⟩
  intro t ht
  have := (h.finish_iff t).mpr ht
  omega

variable [DecidableEq ι]

def mark (happened : ι → Option Nat) (now : Nat) (x : ι) : ι → Option Nat :=
  if happened x = none then Function.update happened x (some now) else happened

theorem mark_eq_some {now t : Nat} {x y : ι} :
    mark happened now x y = some t ↔ happened y = some t ∨ y = x ∧ happened x = none ∧ t = now := by
  unfold mark
  split
  · rename_i hnone
    by_cases hy : y = x
    · subst hy
      simp [hnone, eq_comm]
    · simp [hy]
  · rename_i hsome
    simp [hsome]

theorem Collected.mark {seen : Finset ι} {finish : Int}
    (h : Collected all happened seen finish) {now : Nat} {x : ι} (hx : x ∈ all)
    (hnow : ∀ {y t}, happened y = some t → t ≤ now) (hfinish : ¬0 ≤ finish) :
    Collected all (mark happened now x) (insert x seen)
      (if (insert x seen).card = all.card then now else finish) := by
  obtain ⟨hunset, hlast⟩ := h.pending hfinish
  have hseen : ∀ y, y ∈ insert x seen ↔ ∃ t, Collect.mark happened now x y = some t := by
    intro y
    rw [Finset.mem_insert, h.mem_seen]
    constructor
    · rintro (rfl | ⟨t, ht⟩)
      · cases hy : happened y with
        | none => exact ⟨now, mark_eq_some.mpr (Or.inr ⟨rfl, hy, rfl⟩)⟩
        | some t => exact ⟨t, mark_eq_some.mpr (Or.inl hy)⟩
      · exact ⟨t, mark_eq_some.mpr (Or.inl ht)⟩
    · rintro ⟨t, ht⟩
      rcases mark_eq_some.mp ht with ht | ⟨hy, _, _⟩
      · exact Or.inr ⟨t, ht⟩
      · exact Or.inl hy
  have hawaited : ∀ {y t}, Collect.mark happened now x y = some t → y ∈ all := by
    intro y t ht
    rcases mark_eq_some.mp ht with ht | ⟨rfl, _, _⟩
    · exact h.awaited ht
    · exact hx
  have hsub : insert x seen ⊆ all := by
    intro y hy
    obtain ⟨t, ht⟩ := (hseen y).mp hy
    exact hawaited ht
  refine ⟨hawaited, hseen, ?_, ?_⟩
  · intro t
    split
    · rename_i hcard
      have hall : insert x seen = all := Finset.eq_of_subset_of_card_le hsub hcard.ge
      have hfresh : happened x = none := by
        cases hy : happened x with
        | none => rfl
        | some u =>
          have hold : ∀ y ∈ all, ∃ t, happened y = some t := by
            intro y hy'
            rw [← hall, Finset.mem_insert] at hy'
            rcases hy' with rfl | hy'
            · exact ⟨u, hy⟩
            · exact (h.mem_seen y).mp hy'
          obtain ⟨t, ht⟩ := exists_lastAt ⟨x, hx⟩ hold
          exact absurd ht (hlast t)
      have hdone : LastAt all (Collect.mark happened now x) now := by
        refine ⟨?_, x, hx, mark_eq_some.mpr (Or.inr ⟨rfl, hfresh, rfl⟩)⟩
        intro y hy
        rw [← hall] at hy
        obtain ⟨u, hu⟩ := (hseen y).mp hy
        refine ⟨u, ?_, hu⟩
        rcases mark_eq_some.mp hu with hu | ⟨_, _, rfl⟩
        · exact hnow hu
        · exact le_rfl
      constructor
      · intro heq
        obtain rfl : now = t := by exact_mod_cast heq
        exact hdone
      · intro ht
        exact_mod_cast hdone.unique ht
    · rename_i hcard
      constructor
      · intro heq
        omega
      · rintro ⟨hall, _⟩
        refine absurd (congrArg Finset.card (Finset.Subset.antisymm hsub ?_)) hcard
        intro y hy
        obtain ⟨u, _, hu⟩ := hall y hy
        exact (hseen y).mpr ⟨u, hu⟩
  · split
    · exact Or.inr (by omega)
    · exact Or.inl hunset

theorem Collected.mark_finished {seen : Finset ι} {finish : Int}
    (h : Collected all happened seen finish) {now : Nat} {x : ι} (hx : x ∈ all)
    (hfinish : 0 ≤ finish) : Collect.mark happened now x = happened := by
  obtain ⟨t, rfl⟩ := Int.eq_ofNat_of_zero_le hfinish
  obtain ⟨u, _, hu⟩ := ((h.finish_iff t).mp rfl).1 x hx
  rw [Collect.mark, if_neg (by rw [hu]; exact Option.some_ne_none u)]

end Collect
