import Mathlib.Data.List.Basic
import Mathlib.Tactic.Common

/-! Programs that talk to an operating system, raise exceptions and clean up, with rules of
pre- and postconditions. A loop that is not over when its fuel is leaves the program running. -/

namespace ChipSystemSim

inductive Ending (ε α : Type) where
  | done (value : α)
  | raised (error : ε)
  | running

def Script (W ε α : Type) : Type := W → Ending ε α × W

namespace Script

variable {W ε α β : Type}

def andThen (m : Script W ε α) (f : α → Script W ε β) : Script W ε β := fun w =>
  match m w with
  | (.done a, w') => f a w'
  | (.raised e, w') => (.raised e, w')
  | (.running, w') => (.running, w')

instance : Monad (Script W ε) where
  pure a := fun w => (.done a, w)
  bind := andThen

def raise (e : ε) : Script W ε α := fun w => (.raised e, w)

/-- A call whose answer may depend on the whole world. -/
def call (answer : W → α) (change : α → W → W) : Script W ε α :=
  fun w => (.done (answer w), change (answer w) w)

def change (f : W → W) : Script W ε Unit := fun w => (.done (), f w)

def read (f : W → α) : Script W ε α := fun w => (.done (f w), w)

def repeatUntil (body : Script W ε (Option α)) : Nat → Script W ε α
  | 0 => fun w => (.running, w)
  | fuel + 1 => do
    match ← body with
    | some a => pure a
    | none => repeatUntil body fuel

def each (f : β → Script W ε Unit) : List β → Script W ε Unit
  | [] => pure ()
  | x :: rest => do
    f x
    each f rest

/-- `cleanUp` runs unless the program is still running; what it raises replaces the outcome. -/
def finally_ (m : Script W ε α) (cleanUp : Script W ε Unit) : Script W ε α := fun w =>
  match m w with
  | (.running, w') => (.running, w')
  | (o, w') =>
    match cleanUp w' with
    | (.done _, w'') => (o, w'')
    | (.raised e, w'') => (.raised e, w'')
    | (.running, w'') => (.running, w'')

/-- From `P` the program is done in `Q`, or it is elsewhere in `E`: with what it raised, or
still running. -/
def Ends (P : W → Prop) (m : Script W ε α) (Q : α → W → Prop) (E : Option ε → W → Prop) : Prop :=
  ∀ w, P w →
    match m w with
    | (.done a, w') => Q a w'
    | (.raised e, w') => E (some e) w'
    | (.running, w') => E none w'

variable {P P' : W → Prop} {Q : α → W → Prop} {R : β → W → Prop} {E E' : Option ε → W → Prop}
  {m : Script W ε α}

theorem Ends.mono {Q' : α → W → Prop} (h : Ends P m Q E) (hP : ∀ w, P' w → P w)
    (hQ : ∀ a w, Q a w → Q' a w) (hE : ∀ e w, E e w → E' e w) : Ends P' m Q' E' := by
  intro w hw
  have hm := h w (hP w hw)
  split at hm
  · exact hQ _ _ hm
  · exact hE _ _ hm
  · exact hE _ _ hm

theorem Ends.pure {a : α} (h : ∀ w, P w → Q a w) : Ends P (pure a : Script W ε α) Q E := h

theorem Ends.raise {e : ε} (h : ∀ w, P w → E (some e) w) :
    Ends P (Script.raise e : Script W ε α) Q E := h

theorem Ends.call {answer : W → α} {change : α → W → W}
    (h : ∀ w, P w → Q (answer w) (change (answer w) w)) :
    Ends P (Script.call answer change : Script W ε α) Q E := h

theorem Ends.change {f : W → W} {Q : Unit → W → Prop} (h : ∀ w, P w → Q () (f w)) :
    Ends P (Script.change f : Script W ε Unit) Q E := h

theorem Ends.read {f : W → α} (h : ∀ w, P w → Q (f w) w) :
    Ends P (Script.read f : Script W ε α) Q E := h

theorem Ends.bind {f : α → Script W ε β} (h : Ends P m Q E) (hf : ∀ a, Ends (Q a) (f a) R E) :
    Ends P (m >>= f) R E := by
  intro w hw
  have hm := h w hw
  have hbind : (m >>= f) w = andThen m f w := rfl
  rw [hbind]
  unfold andThen
  rcases hrun : m w with ⟨o, w'⟩
  rw [hrun] at hm
  cases o with
  | done a => exact hf a w' hm
  | raised e => exact hm
  | running => exact hm

theorem Ends.ite {c : Prop} [Decidable c] {m' : Script W ε α} (hpos : c → Ends P m Q E)
    (hneg : ¬c → Ends P m' Q E) : Ends P (if c then m else m') Q E := by
  by_cases h : c
  · rw [if_pos h]
    exact hpos h
  · rw [if_neg h]
    exact hneg h

/-- The invariant of a loop holds before each round; the fuel may be over before any of them. -/
theorem Ends.repeatUntil {body : Script W ε (Option α)} {I : W → Prop} (fuel : Nat)
    (h : Ends I body (fun a w => match a with | some a => Q a w | none => I w) E)
    (hE : ∀ w, I w → E none w) : Ends I (Script.repeatUntil body fuel) Q E := by
  induction fuel with
  | zero => exact hE
  | succ fuel ih =>
    apply Ends.bind h
    intro a
    cases a with
    | some a => exact fun _ hw => hw
    | none => exact ih

/-- A loop whose variant is below its fuel leaves by itself. -/
theorem Ends.repeatUntil_variant {body : Script W ε (Option α)} {I : Nat → W → Prop}
    (h : ∀ n, Ends (I n) body
      (fun a w => match a with | some a => Q a w | none => ∃ k < n, I k w) E)
    {n fuel : Nat} (hn : n < fuel) : Ends (I n) (Script.repeatUntil body fuel) Q E := by
  induction fuel generalizing n with
  | zero => exact absurd hn (Nat.not_lt_zero n)
  | succ fuel ih =>
    apply Ends.bind (h n)
    intro a
    cases a with
    | some a => exact fun _ hw => hw
    | none =>
      rintro w ⟨k, hk, hw⟩
      exact ih (Nat.lt_of_lt_of_le hk (Nat.lt_succ_iff.mp hn)) w hw

theorem Ends.each {f : β → Script W ε Unit} (I : List β → W → Prop) {l : List β}
    (h : ∀ x rest, (∃ before, l = before ++ x :: rest) →
      Ends (I (x :: rest)) (f x) (fun _ => I rest) E) :
    Ends (I l) (Script.each f l) (fun _ => I []) E := by
  induction l with
  | nil => exact fun _ hw => hw
  | cons x rest ih =>
    apply Ends.bind (h x rest ⟨[], rfl⟩)
    intro _
    apply ih
    rintro y after ⟨before, rfl⟩
    exact h y after ⟨x :: before, rfl⟩

theorem Ends.finally_ {cleanUp : Script W ε Unit} {E₁ E₂ : Option ε → W → Prop} {Q₁ : α → W → Prop}
    (h : Ends P m Q₁ E₁) (hdone : ∀ a, Ends (Q₁ a) cleanUp (fun _ => Q a) E₂)
    (hraised : ∀ e, Ends (E₁ (some e)) cleanUp (fun _ => E₂ (some e)) E₂)
    (hrunning : ∀ w, E₁ none w → E₂ none w) : Ends P (Script.finally_ m cleanUp) Q E₂ := by
  intro w hw
  have hm := h w hw
  unfold Script.finally_
  rcases hrun : m w with ⟨o, w'⟩
  rw [hrun] at hm
  cases o with
  | done a =>
    have hclean := hdone a w' hm
    revert hclean
    dsimp only
    rcases cleanUp w' with ⟨o, w''⟩
    cases o <;> exact id
  | raised e =>
    have hclean := hraised e w' hm
    revert hclean
    dsimp only
    rcases cleanUp w' with ⟨o, w''⟩
    cases o <;> exact id
  | running => exact hrunning w' hm

end Script

end ChipSystemSim
