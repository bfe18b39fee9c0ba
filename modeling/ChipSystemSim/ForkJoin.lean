import Mathlib.Data.List.Basic
import Mathlib.Tactic.Common

/-! Coroutines that emit events, wait for calls and run others side by side. Nobody waits for what
a failed pair or a call given up still has to do, but it goes on. -/

namespace ChipSystemSim

inductive Coroutine (L : Type) where
  | done
  | fail (background : Coroutine L)
  | act (event : L) (next : Coroutine L)
  | both (left right next : Coroutine L)
  | call (inner next : Coroutine L)
  | attempt (inner next : Coroutine L)

namespace Coroutine

variable {L : Type}

/-- Only a lossy environment loses the answer of a call, or does not reach the party of an
attempt. -/
inductive Step (lossy : Bool) : Coroutine L → List L → Coroutine L → Prop
  | act (event : L) (next : Coroutine L) : Step lossy (.act event next) [event] next
  | left {a a' b n : Coroutine L} {events : List L} (h : Step lossy a events a') :
    Step lossy (.both a b n) events (.both a' b n)
  | right {a b b' n : Coroutine L} {events : List L} (h : Step lossy b events b') :
    Step lossy (.both a b n) events (.both a b' n)
  | joined (n : Coroutine L) : Step lossy (.both .done .done n) [] n
  | leftFailed (x b n : Coroutine L) : Step lossy (.both (.fail x) b n) [] (.fail (.both x b .done))
  | rightFailed (a x n : Coroutine L) :
      Step lossy (.both a (.fail x) n) [] (.fail (.both a x .done))
  | serve {t t' n : Coroutine L} {events : List L} (h : Step lossy t events t') :
    Step lossy (.call t n) events (.call t' n)
  | answered (n : Coroutine L) : Step lossy (.call .done n) [] n
  | refused (x n : Coroutine L) : Step lossy (.call (.fail x) n) [] (.fail x)
  | lost (t n : Coroutine L) (h : lossy = true) : Step lossy (.call t n) [] (.fail t)
  | connect (t n : Coroutine L) : Step lossy (.attempt t n) [] (.call t n)
  | unreachable (t n : Coroutine L) (h : lossy = true) : Step lossy (.attempt t n) [] n
  | background {x x' : Coroutine L} {events : List L} (h : Step lossy x events x') :
    Step lossy (.fail x) events (.fail x')

inductive Run (lossy : Bool) : Coroutine L → List L → Coroutine L → Prop
  | refl (t : Coroutine L) : Run lossy t [] t
  | step {t u v : Coroutine L} {events trace : List L} (h : Step lossy t events u)
      (hrun : Run lossy u trace v) :
    Run lossy t (events ++ trace) v

/-- Every event that a coroutine may still emit, those of a pair one side after the other. -/
def events : Coroutine L → List L
  | .done => []
  | .fail x => x.events
  | .act event n => event :: n.events
  | .both a b n => a.events ++ b.events ++ n.events
  | .call t n => t.events ++ n.events
  | .attempt t n => t.events ++ n.events

/-- The events a coroutine has to emit before it is done: a lossy environment may skip attempts. -/
def owed (lossy : Bool) : Coroutine L → List L
  | .done => []
  | .fail x => x.owed lossy
  | .act event n => event :: n.owed lossy
  | .both a b n => a.owed lossy ++ b.owed lossy ++ n.owed lossy
  | .call t n => t.owed lossy ++ n.owed lossy
  | .attempt t n => (if lossy then [] else t.owed lossy) ++ n.owed lossy

/-- A failure that nothing can catch any more. -/
def Doomed : Coroutine L → Prop
  | .fail _ => True
  | .both a b _ => a.Doomed ∨ b.Doomed
  | .call t _ => t.Doomed
  | _ => False

/-- No failure stands in the way of `done`, apart from those of attempts. -/
def Passes : Coroutine L → Prop
  | .done => True
  | .fail _ => False
  | .act _ n => n.Passes
  | .both a b n => a.Passes ∧ b.Passes ∧ n.Passes
  | .call t n => t.Passes ∧ n.Passes
  | .attempt _ n => n.Passes

def Sound : Coroutine L → Prop
  | .done => True
  | .fail _ => False
  | .act _ n => n.Sound
  | .both a b n => a.Sound ∧ b.Sound ∧ n.Sound
  | .call t n => t.Sound ∧ n.Sound
  | .attempt t n => t.Sound ∧ n.Sound

/-- The events of a kind `p` are never on both sides of a pair. -/
def Sequential (p : L → Bool) : Coroutine L → Prop
  | .done => True
  | .fail x => x.Sequential p
  | .act _ n => n.Sequential p
  | .both a b n =>
    (a.events.filter p = [] ∨ b.events.filter p = []) ∧ a.Sequential p ∧ b.Sequential p ∧
    n.Sequential p
  | .call t n => t.Sequential p ∧ n.Sequential p
  | .attempt t n => t.Sequential p ∧ n.Sequential p

def followedBy : Coroutine L → Coroutine L → Coroutine L
  | .done, next => next
  | .fail x, _ => .fail x
  | .act event n, next => .act event (n.followedBy next)
  | .both a b n, next => .both a b (n.followedBy next)
  | .call t n, next => .call t (n.followedBy next)
  | .attempt t n, next => .attempt t (n.followedBy next)

/-- A pair weighs its sides twice, so that a failure may move out of it. -/
def size : Coroutine L → Nat
  | .done => 0
  | .fail x => x.size + 1
  | .act _ n => n.size + 1
  | .both a b n => 2 * (a.size + b.size) + n.size + 1
  | .call t n => t.size + n.size + 2
  | .attempt t n => t.size + n.size + 3

def gather : List (Coroutine L) → Coroutine L → Coroutine L
  | [], next => next
  | t :: rest, next => .both t (gather rest .done) next

variable {lossy : Bool} {t u : Coroutine L} {emitted trace : List L} {p : L → Bool}

section Termination

theorem Step.size_lt (h : Step lossy t emitted u) : u.size < t.size := by
  induction h with
  | lost t n _ => simp only [size]; omega
  | _ => simp only [size] at *; omega

/-- No environment lets a coroutine run forever. -/
theorem no_infinite_run (f : Nat → Coroutine L) :
    ¬∀ i, ∃ lossy events, Step lossy (f i) events (f (i + 1)) := by
  intro h
  have hbound : ∀ i, (f i).size + i ≤ (f 0).size := by
    intro i
    induction i with
    | zero => omega
    | succ i ih =>
      obtain ⟨_, _, hstep⟩ := h i
      have hlt := hstep.size_lt
      omega
  have := hbound ((f 0).size + 1)
  omega

theorem Step.sound (h : Step false t emitted u) (ht : t.Sound) : u.Sound := by
  induction h with
  | left _ ih => exact ⟨ih ht.1, ht.2⟩
  | right _ ih => exact ⟨ht.1, ih ht.2.1, ht.2.2⟩
  | joined _ => exact ht.2.2
  | serve _ ih => exact ⟨ih ht.1, ht.2⟩
  | answered _ => exact ht.2
  | lost _ _ h => cases h
  | unreachable _ _ h => cases h
  | act _ _ => exact ht
  | connect _ _ => exact ht
  | leftFailed _ _ _ => exact ht.1
  | rightFailed _ _ _ => exact ht.2.1
  | refused _ _ => exact ht.1
  | background _ _ => exact ht.elim

theorem Sound.step (ht : t.Sound) : t = .done ∨ ∃ emitted u, Step false t emitted u := by
  induction t with
  | done => exact Or.inl rfl
  | fail x _ => exact ht.elim
  | act event n _ => exact Or.inr ⟨_, _, .act event n⟩
  | both a b n iha ihb _ =>
    refine Or.inr ?_
    rcases iha ht.1 with rfl | ⟨_, _, ha⟩
    · rcases ihb ht.2.1 with rfl | ⟨_, _, hb⟩
      · exact ⟨_, _, .joined n⟩
      · exact ⟨_, _, .right hb⟩
    · exact ⟨_, _, .left ha⟩
  | call t n ih _ =>
    refine Or.inr ?_
    rcases ih ht.1 with rfl | ⟨_, _, h⟩
    · exact ⟨_, _, .answered n⟩
    · exact ⟨_, _, .serve h⟩
  | attempt t n _ _ => exact Or.inr ⟨_, _, .connect t n⟩

theorem Run.sound (h : Run false t trace u) (ht : t.Sound) : u.Sound := by
  induction h with
  | refl _ => exact ht
  | step hstep _ ih => exact ih (hstep.sound ht)

theorem Run.trans {v : Coroutine L} {rest : List L} (h : Run lossy t trace u)
    (h' : Run lossy u rest v) : Run lossy t (trace ++ rest) v := by
  induction h with
  | refl _ => exact h'
  | step hstep _ ih =>
    rw [List.append_assoc]
    exact .step hstep (ih h')

theorem Sound.completes (ht : t.Sound) : ∃ trace, Run false t trace .done := by
  induction hn : t.size using Nat.strongRecOn generalizing t with
  | ind n ih =>
    subst hn
    rcases ht.step with rfl | ⟨_, u, hstep⟩
    · exact ⟨[], .refl _⟩
    · obtain ⟨trace, hrun⟩ := ih u.size hstep.size_lt (hstep.sound ht) rfl
      exact ⟨_, .step hstep hrun⟩

end Termination

section Events

theorem Step.filter_sublist (h : Step lossy t emitted u) (hs : t.Sequential p) :
    (emitted.filter p ++ u.events.filter p).Sublist (t.events.filter p) ∧ u.Sequential p := by
  induction h with
  | act event n =>
    refine ⟨?_, hs⟩
    rw [← List.filter_append]
    exact List.Sublist.refl _
  | @left a a' b n emitted _ ih =>
    obtain ⟨hsub, hs'⟩ := ih hs.2.1
    simp only [events, List.filter_append, ← List.append_assoc]
    refine ⟨(hsub.append_right _).append_right _, ?_, hs', hs.2.2⟩
    rcases hs.1 with hfree | hfree
    · rw [hfree] at hsub
      exact Or.inl (List.append_eq_nil_iff.mp (List.sublist_nil.mp hsub)).2
    · exact Or.inr hfree
  | @right a b b' n emitted _ ih =>
    obtain ⟨hsub, hs'⟩ := ih hs.2.2.1
    simp only [events, List.filter_append]
    rcases hs.1 with hfree | hfree
    · refine ⟨?_, Or.inl hfree, hs.2.1, hs', hs.2.2.2⟩
      rw [hfree, List.nil_append, List.nil_append, ← List.append_assoc]
      exact hsub.append_right _
    · rw [hfree] at hsub ⊢
      obtain ⟨hemitted, hfree'⟩ := List.append_eq_nil_iff.mp (List.sublist_nil.mp hsub)
      rw [hemitted, hfree']
      exact ⟨List.Sublist.refl _, Or.inr hfree', hs.2.1, hs', hs.2.2.2⟩
  | joined n => exact ⟨List.Sublist.refl _, hs.2.2.2⟩
  | leftFailed x b n =>
    refine ⟨?_, hs.1, hs.2.1, hs.2.2.1, trivial⟩
    simp only [events, List.filter_append, List.filter_nil, List.append_nil, List.nil_append]
    exact List.sublist_append_left _ _
  | rightFailed a x n =>
    refine ⟨?_, hs.1, hs.2.1, hs.2.2.1, trivial⟩
    simp only [events, List.filter_append, List.filter_nil, List.append_nil, List.nil_append]
    exact List.sublist_append_left _ _
  | serve _ ih =>
    obtain ⟨hsub, hs'⟩ := ih hs.1
    simp only [events, List.filter_append, ← List.append_assoc]
    exact ⟨hsub.append_right _, hs', hs.2⟩
  | answered n => exact ⟨List.Sublist.refl _, hs.2⟩
  | refused x n =>
    refine ⟨?_, hs.1⟩
    simp only [events, List.filter_append]
    exact List.sublist_append_left _ _
  | lost t n _ =>
    refine ⟨?_, hs.1⟩
    simp only [events, List.filter_append]
    exact List.sublist_append_left _ _
  | connect t n => exact ⟨List.Sublist.refl _, hs⟩
  | unreachable t n _ =>
    refine ⟨?_, hs.2⟩
    simp only [events, List.filter_append]
    exact List.sublist_append_right _ _
  | background _ ih => exact ih hs

/-- Whatever is lost, the events of a kind come in their order. -/
theorem Run.filter_sublist (h : Run lossy t trace u) (hs : t.Sequential p) :
    (trace.filter p ++ u.events.filter p).Sublist (t.events.filter p) := by
  induction h with
  | refl _ => exact List.Sublist.refl _
  | step hstep _ ih =>
    obtain ⟨hsub, hs'⟩ := hstep.filter_sublist hs
    rw [List.filter_append, List.append_assoc]
    exact ((ih hs').append_left _).trans hsub

theorem Step.mem_events (h : Step lossy t emitted u) :
    emitted ⊆ t.events ∧ u.events ⊆ t.events := by
  induction h with
  | act event n => simp [events]
  | left _ ih =>
    simp only [events, List.subset_def, List.mem_append] at ih ⊢
    tauto
  | right _ ih =>
    simp only [events, List.subset_def, List.mem_append] at ih ⊢
    tauto
  | serve _ ih =>
    simp only [events, List.subset_def, List.mem_append] at ih ⊢
    tauto
  | background _ ih => exact ih
  | _ =>
    refine ⟨List.nil_subset _, fun e he => ?_⟩
    simp only [events, List.append_nil, List.nil_append, List.mem_append] at he ⊢
    tauto

theorem Run.mem_events (h : Run lossy t trace u) : trace ⊆ t.events := by
  induction h with
  | refl _ => exact List.nil_subset _
  | step hstep _ ih =>
    exact List.append_subset.mpr ⟨hstep.mem_events.1, fun _ he => hstep.mem_events.2 (ih he)⟩

end Events

section Completion

theorem owed_sublist_events (lossy : Bool) (t : Coroutine L) : (t.owed lossy).Sublist t.events := by
  induction t with
  | done => exact List.Sublist.refl _
  | fail x ih => exact ih
  | act event n ih => exact ih.cons_cons event
  | both a b n iha ihb ihn => exact (iha.append ihb).append ihn
  | call t n iht ihn => exact iht.append ihn
  | attempt t n iht ihn =>
    cases lossy with
    | false => exact iht.append ihn
    | true => exact ihn.trans (List.sublist_append_right _ _)

theorem owed_false (t : Coroutine L) : t.owed false = t.events := by
  induction t with
  | done => rfl
  | fail x ih => exact ih
  | act event n ih => simp only [owed, events, ih]
  | both a b n iha ihb ihn => simp only [owed, events, iha, ihb, ihn]
  | call t n iht ihn => simp only [owed, events, iht, ihn]
  | attempt t n iht ihn =>
    simp only [owed, events, iht, ihn]
    rfl

theorem Step.doomed (h : Step lossy t emitted u) (ht : t.Doomed) : u.Doomed := by
  induction h with
  | left _ ih => exact ht.imp ih id
  | right _ ih => exact ht.imp id ih
  | joined _ => exact ht.elim False.elim False.elim
  | serve _ ih => exact ih ht
  | answered _ => exact ht.elim
  | act _ _ => exact ht.elim
  | connect _ _ => exact ht.elim
  | unreachable _ _ _ => exact ht.elim
  | _ => trivial

theorem Run.not_doomed (h : Run lossy t trace .done) : ¬t.Doomed := by
  generalize hu : Coroutine.done = u at h
  induction h with
  | refl _ => rw [← hu]; exact id
  | step hstep _ ih => exact fun ht => ih hu (hstep.doomed ht)

theorem Step.owed_sublist (h : Step lossy t emitted u) (hs : t.Sequential p) (hu : ¬u.Doomed) :
    ((t.owed lossy).filter p).Sublist (emitted.filter p ++ (u.owed lossy).filter p) := by
  have free : ∀ {x : Coroutine L}, x.events.filter p = [] → (x.owed lossy).filter p = [] := by
    intro x hx
    apply List.sublist_nil.mp
    rw [← hx]
    exact (owed_sublist_events lossy x).filter p
  induction h with
  | act event n =>
    rw [← List.filter_append]
    exact List.Sublist.refl _
  | @left a a' b n emitted _ ih =>
    have hsub := ih hs.2.1 fun hd => hu (Or.inl hd)
    simp only [owed, List.filter_append, ← List.append_assoc]
    exact (hsub.append_right _).append_right _
  | @right a b b' n emitted hstep ih =>
    have hsub := ih hs.2.2.1 fun hd => hu (Or.inr hd)
    simp only [owed, List.filter_append]
    rcases hs.1 with hfree | hfree
    · rw [free hfree, List.nil_append, List.nil_append, ← List.append_assoc]
      exact hsub.append_right _
    · rw [free hfree, List.append_nil]
      have hsub' := (hstep.filter_sublist hs.2.2.1).1
      rw [hfree] at hsub'
      obtain ⟨hemitted, hfree'⟩ := List.append_eq_nil_iff.mp (List.sublist_nil.mp hsub')
      rw [hemitted, free hfree', List.append_nil, List.nil_append]
  | joined n => exact List.Sublist.refl _
  | serve _ ih =>
    have hsub := ih hs.1 hu
    simp only [owed, List.filter_append, ← List.append_assoc]
    exact hsub.append_right _
  | answered n => exact List.Sublist.refl _
  | connect t n =>
    simp only [owed, List.filter_append]
    apply List.Sublist.append_right
    cases lossy with
    | false => exact List.Sublist.refl _
    | true => exact List.nil_sublist _
  | unreachable t n h =>
    subst h
    exact List.Sublist.refl _
  | _ => exact absurd trivial hu

/-- A coroutine that is done left none of the events it owed out. -/
theorem Run.owed_sublist (h : Run lossy t trace .done) (hs : t.Sequential p) :
    ((t.owed lossy).filter p).Sublist (trace.filter p) := by
  generalize hu : Coroutine.done = u at h
  induction h with
  | refl _ => subst hu; exact List.Sublist.refl _
  | @step t u v emitted trace hstep hrun ih =>
    subst hu
    have hsub := hstep.owed_sublist hs hrun.not_doomed
    rw [List.filter_append]
    exact hsub.trans ((ih (hstep.filter_sublist hs).2 rfl).append_left _)

theorem Run.filter_eq (h : Run lossy t trace .done) (hs : t.Sequential p)
    (howed : t.owed lossy = t.events) : trace.filter p = t.events.filter p := by
  have hupper := h.filter_sublist hs
  rw [show (Coroutine.done : Coroutine L).events = [] from rfl, List.filter_nil,
    List.append_nil] at hupper
  have hlower := h.owed_sublist hs
  rw [howed] at hlower
  exact hupper.antisymm hlower

/-- Events of a kind that may come from both sides of pairs are at least counted. -/
theorem Step.countP_events (h : Step lossy t emitted u) :
    emitted.countP p + u.events.countP p ≤ t.events.countP p := by
  induction h with
  | act event n =>
    rw [← List.countP_append]
    exact Nat.le_refl _
  | _ => simp only [events, List.countP_append, List.countP_nil] at *; omega

theorem Step.countP_owed (h : Step lossy t emitted u) (hu : ¬u.Doomed) :
    (t.owed lossy).countP p ≤ emitted.countP p + (u.owed lossy).countP p := by
  induction h with
  | act event n =>
    rw [← List.countP_append]
    exact Nat.le_refl _
  | left _ ih =>
    have hle := ih fun hd => hu (Or.inl hd)
    simp only [owed, List.countP_append]
    omega
  | right _ ih =>
    have hle := ih fun hd => hu (Or.inr hd)
    simp only [owed, List.countP_append]
    omega
  | serve _ ih =>
    have hle := ih hu
    simp only [owed, List.countP_append]
    omega
  | joined n => simp [owed]
  | answered n => simp [owed]
  | connect t n =>
    cases lossy with
    | false => simp [owed]
    | true => simp [owed]
  | unreachable t n h => simp [owed, h]
  | _ => exact absurd trivial hu

theorem Run.countP_eq (h : Run lossy t trace .done) (howed : t.owed lossy = t.events) :
    trace.countP p = t.events.countP p := by
  generalize hu : Coroutine.done = u at h
  have hbounds : trace.countP p ≤ t.events.countP p ∧ (t.owed lossy).countP p ≤ trace.countP p := by
    clear howed
    induction h with
    | refl _ => subst hu; exact ⟨Nat.le_refl _, Nat.le_refl _⟩
    | step hstep hrun ih =>
      subst hu
      have hupper := hstep.countP_events (p := p)
      have hlower := hstep.countP_owed (p := p) hrun.not_doomed
      have := ih rfl
      rw [List.countP_append]
      omega
  rw [howed] at hbounds
  omega

theorem Step.passes (h : Step lossy t emitted u) (hu : u.Passes) : t.Passes := by
  induction h with
  | act _ _ => exact hu
  | left _ ih => exact ⟨ih hu.1, hu.2⟩
  | right _ ih => exact ⟨hu.1, ih hu.2.1, hu.2.2⟩
  | joined _ => exact ⟨trivial, trivial, hu⟩
  | serve _ ih => exact ⟨ih hu.1, hu.2⟩
  | answered _ => exact ⟨trivial, hu⟩
  | connect _ _ => exact hu.2
  | unreachable _ _ _ => exact hu
  | _ => exact hu.elim

theorem Run.passes (h : Run lossy t trace .done) : t.Passes := by
  generalize hu : Coroutine.done = u at h
  induction h with
  | refl _ => rw [← hu]; trivial
  | step hstep _ ih => exact hstep.passes (ih hu)

end Completion

section Sequence

theorem Step.followedBy {next : Coroutine L} (h : Step lossy (t.followedBy next) emitted u) :
    t = .done ∧ Step lossy next emitted u ∨
      ∃ t', Step lossy t emitted t' ∧ u = t'.followedBy next := by
  cases t with
  | done => exact Or.inl ⟨rfl, h⟩
  | fail x =>
    cases h with
    | background h => exact Or.inr ⟨_, .background h, rfl⟩
  | act event n =>
    cases h with
    | act _ _ => exact Or.inr ⟨_, .act event n, rfl⟩
  | both a b n =>
    cases h with
    | left h => exact Or.inr ⟨_, .left h, rfl⟩
    | right h => exact Or.inr ⟨_, .right h, rfl⟩
    | joined _ => exact Or.inr ⟨_, .joined n, rfl⟩
    | leftFailed x _ _ => exact Or.inr ⟨_, .leftFailed x b n, rfl⟩
    | rightFailed _ x _ => exact Or.inr ⟨_, .rightFailed a x n, rfl⟩
  | call t n =>
    cases h with
    | serve h => exact Or.inr ⟨_, .serve h, rfl⟩
    | answered _ => exact Or.inr ⟨_, .answered n, rfl⟩
    | refused x _ => exact Or.inr ⟨_, .refused x n, rfl⟩
    | lost _ _ hl => exact Or.inr ⟨_, .lost t n hl, rfl⟩
  | attempt t n =>
    cases h with
    | connect _ _ => exact Or.inr ⟨_, .connect t n, rfl⟩
    | unreachable _ _ hl => exact Or.inr ⟨_, .unreachable t n hl, rfl⟩

/-- What follows a coroutine begins when it is done, and only then. -/
theorem Run.followedBy {next : Coroutine L} (h : Run lossy (t.followedBy next) trace u) :
    (∃ t', Run lossy t trace t' ∧ u = t'.followedBy next) ∨
      ∃ before after, trace = before ++ after ∧ Run lossy t before .done ∧
      Run lossy next after u := by
  generalize hw : t.followedBy next = w at h
  induction h generalizing t with
  | refl _ => exact Or.inl ⟨t, .refl t, hw.symm⟩
  | @step w w' u emitted trace hstep hrun ih =>
    subst hw
    rcases hstep.followedBy with ⟨rfl, hnext⟩ | ⟨t', ht, rfl⟩
    · exact Or.inr ⟨[], _, rfl, .refl _, .step hnext hrun⟩
    · rcases ih rfl with ⟨t'', hrun', heq⟩ | ⟨before, after, rfl, hbefore, hafter⟩
      · exact Or.inl ⟨t'', .step ht hrun', heq⟩
      · exact Or.inr ⟨emitted ++ before, after, (List.append_assoc _ _ _).symm,
          .step ht hbefore, hafter⟩

theorem gather_followedBy (tasks : List (Coroutine L)) (next : Coroutine L) :
    gather tasks next = (gather tasks .done).followedBy next := by
  cases tasks with
  | nil => rfl
  | cons t rest => rfl

theorem gather_events (tasks : List (Coroutine L)) :
    (gather tasks .done).events = tasks.flatMap events := by
  induction tasks with
  | nil => rfl
  | cons t rest ih => simp only [gather, events, ih, List.append_nil, List.flatMap_cons]

theorem gather_owed (lossy : Bool) (tasks : List (Coroutine L)) :
    (gather tasks .done).owed lossy = tasks.flatMap (owed lossy) := by
  induction tasks with
  | nil => rfl
  | cons t rest ih => simp only [gather, owed, ih, List.append_nil, List.flatMap_cons]

theorem gather_sound (tasks : List (Coroutine L)) (h : ∀ t ∈ tasks, t.Sound) {next : Coroutine L}
    (hn : next.Sound) : (gather tasks next).Sound := by
  induction tasks generalizing next with
  | nil => exact hn
  | cons t rest ih =>
    exact ⟨h t List.mem_cons_self, ih (fun u hu => h u (List.mem_cons_of_mem _ hu)) trivial, hn⟩

theorem gather_passes {tasks : List (Coroutine L)} {next : Coroutine L}
    (h : (gather tasks next).Passes) : ∀ t ∈ tasks, t.Passes := by
  induction tasks generalizing next with
  | nil => exact fun _ ht => nomatch ht
  | cons t rest ih =>
    intro u hu
    rcases List.mem_cons.mp hu with rfl | hu
    · exact h.1
    · exact ih h.2.1 u hu

theorem gather_sequential {tasks : List (Coroutine L)}
    (hfree : tasks.Pairwise fun a b => a.events.filter p = [] ∨ b.events.filter p = [])
    (h : ∀ t ∈ tasks, t.Sequential p) : (gather tasks .done).Sequential p := by
  induction tasks with
  | nil => trivial
  | cons t rest ih =>
    obtain ⟨ht, hrest⟩ := List.pairwise_cons.mp hfree
    refine ⟨?_, h t List.mem_cons_self, ih hrest fun u hu =>
      h u (List.mem_cons_of_mem _ hu), trivial⟩
    by_cases hempty : t.events.filter p = []
    · exact Or.inl hempty
    · right
      rw [gather_events, List.filter_flatMap, List.flatMap_eq_nil_iff]
      exact fun u hu => (ht u hu).resolve_left hempty

end Sequence

/-- A coroutine without pairs and attempts whose events are all of one kind. -/
inductive Straight (ok : L → Prop) : Coroutine L → Prop
  | done : Straight ok .done
  | fail {x : Coroutine L} (h : Straight ok x) : Straight ok (.fail x)
  | act {event : L} {n : Coroutine L} (he : ok event) (h : Straight ok n) :
      Straight ok (.act event n)
  | call {t n : Coroutine L} (ht : Straight ok t) (hn : Straight ok n) : Straight ok (.call t n)

section Straight

variable {ok : L → Prop}

theorem Straight.sequential (h : Straight ok t) (p : L → Bool) : t.Sequential p := by
  induction h with
  | done => trivial
  | fail _ ih => exact ih
  | act _ _ ih => exact ih
  | call _ _ iht ihn => exact ⟨iht, ihn⟩

theorem Straight.owed_eq (h : Straight ok t) (lossy : Bool) : t.owed lossy = t.events := by
  induction h with
  | done => rfl
  | fail _ ih => exact ih
  | act _ _ ih => simp only [owed, events, ih]
  | call _ _ iht ihn => simp only [owed, events, iht, ihn]

theorem Straight.mem (h : Straight ok t) : ∀ e ∈ t.events, ok e := by
  induction h with
  | done => exact fun _ he => nomatch he
  | fail _ ih => exact ih
  | act hok _ ih =>
    intro e he
    rcases List.mem_cons.mp he with rfl | he
    · exact hok
    · exact ih e he
  | call _ _ iht ihn =>
    intro e he
    rcases List.mem_append.mp he with he | he
    · exact iht e he
    · exact ihn e he

end Straight

end Coroutine

end ChipSystemSim
