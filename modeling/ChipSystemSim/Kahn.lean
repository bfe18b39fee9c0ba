import Mathlib.Logic.Function.Basic
import Mathlib.Logic.Relation
import Mathlib.Data.List.Basic

/-! Networks of sequential processes over FIFO channels, with non-blocking sends
and receives that wait for a value they accept. Each channel has one
producer and one consumer, so steps of different processes commute and one
complete run speaks for every schedule. -/

namespace Kahn

variable {P C V W O σ : Type*}

inductive Act (C V W O σ : Type*) where
  | done
  | send (c : C) (v : V) (next : σ)
  | recv (c : C) (want : W) (next : V → σ)
  | emit (o : O) (next : σ)

def Act.map {τ : Type*} (g : σ → τ) : Act C V W O σ → Act C V W O τ
  | .done => .done
  | .send c v next => .send c v (g next)
  | .recv c want next => .recv c want fun v => g (next v)
  | .emit o next => .emit o (g next)

theorem Act.map_eq_send {τ : Type*} {g : σ → τ} {a : Act C V W O σ} {c : C} {v : V} {k : τ}
    (h : a.map g = .send c v k) : ∃ k', a = .send c v k' ∧ k = g k' := by
  cases a with
  | send c' v' k' =>
    cases h
    exact ⟨k', rfl, rfl⟩
  | done | recv | emit => cases h

theorem Act.map_eq_recv {τ : Type*} {g : σ → τ} {a : Act C V W O σ} {c : C} {w : W} {k : V → τ}
    (h : a.map g = .recv c w k) : ∃ k', a = .recv c w k' ∧ k = fun v => g (k' v) := by
  cases a with
  | recv c' w' k' =>
    cases h
    exact ⟨k', rfl, rfl⟩
  | done | send | emit => cases h

structure Network (P C V W O σ : Type*) where
  act : P → σ → Act C V W O σ
  accepts : W → V → Bool
  producer : C → P
  consumer : C → P
  send_owner : ∀ {p st c v k}, act p st = .send c v k → p = producer c
  recv_owner : ∀ {p st c w k}, act p st = .recv c w k → p = consumer c

@[ext]
structure State (P C V O σ : Type*) where
  proc : P → σ
  chan : C → List V
  received : C → List V
  emitted : P → List O

variable [DecidableEq P] [DecidableEq C]

def Network.step (N : Network P C V W O σ) (s : State P C V O σ) (p : P) :
    Option (State P C V O σ) :=
  match N.act p (s.proc p) with
  | .done => none
  | .send c v k =>
    some { s with
      proc := Function.update s.proc p k
      chan := Function.update s.chan c (s.chan c ++ [v]) }
  | .recv c w k =>
    match s.chan c with
    | [] => none
    | v :: rest =>
      if N.accepts w v then
        some { s with
          proc := Function.update s.proc p (k v)
          chan := Function.update s.chan c rest
          received := Function.update s.received c (s.received c ++ [v]) }
      else none
  | .emit o k =>
    some { s with
      proc := Function.update s.proc p k
      emitted := Function.update s.emitted p (s.emitted p ++ [o]) }

inductive Fires (N : Network P C V W O σ) (s : State P C V O σ) (p : P) : State P C V O σ → Prop
  | send {c : C} {v : V} {k : σ} (h : N.act p (s.proc p) = .send c v k) :
      Fires N s p { s with
        proc := Function.update s.proc p k
        chan := Function.update s.chan c (s.chan c ++ [v]) }
  | recv {c : C} {w : W} {k : V → σ} {v : V} {rest : List V} (h : N.act p (s.proc p) = .recv c w k)
      (hq : s.chan c = v :: rest) (hw : N.accepts w v = true) :
      Fires N s p { s with
        proc := Function.update s.proc p (k v)
        chan := Function.update s.chan c rest
        received := Function.update s.received c (s.received c ++ [v]) }
  | emit {o : O} {k : σ} (h : N.act p (s.proc p) = .emit o k) :
      Fires N s p { s with
        proc := Function.update s.proc p k
        emitted := Function.update s.emitted p (s.emitted p ++ [o]) }

theorem step_eq_some_iff {N : Network P C V W O σ} {s t : State P C V O σ} {p : P} :
    N.step s p = some t ↔ Fires N s p t := by
  constructor
  · intro h
    unfold Network.step at h
    split at h
    · cases h
    · rename_i ha
      cases h
      exact .send ha
    · rename_i c w k ha
      split at h
      · cases h
      · rename_i v rest hq
        split at h
        · rename_i hw
          cases h
          exact .recv ha hq hw
        · cases h
    · rename_i ha
      cases h
      exact .emit ha
  · intro h
    cases h with
    | send ha => simp [Network.step, ha]
    | recv ha hq hw => simp [Network.step, ha, hq, hw]
    | emit ha => simp [Network.step, ha]

theorem Fires.proc_ne {N : Network P C V W O σ} {s t : State P C V O σ} {p q : P}
    (h : Fires N s p t) (hpq : q ≠ p) : t.proc q = s.proc q := by
  cases h <;> exact Function.update_of_ne hpq ..

theorem Fires.chan_of_consumer {N : Network P C V W O σ} {s t : State P C V O σ} {p q : P} {c : C}
    (h : Fires N s q t) (hc : p = N.consumer c) (hpq : q ≠ p) :
    ∃ added, t.chan c = s.chan c ++ added := by
  cases h with
  | @send d v k ha =>
    by_cases hd : c = d
    · subst hd
      exact ⟨[v], by simp⟩
    · exact ⟨[], by simp [Function.update_of_ne hd]⟩
  | @recv d _ k v rest ha hq =>
    have hd : c ≠ d := by
      rintro rfl
      exact hpq ((N.recv_owner ha).trans hc.symm)
    exact ⟨[], by simp [Function.update_of_ne hd]⟩
  | emit ha => exact ⟨[], by simp⟩

theorem send_diamond {N : Network P C V W O σ} {s s₂ : State P C V O σ} {p q : P} (hpq : p ≠ q)
    {c : C} {v : V} {k : σ} (ha : N.act p (s.proc p) = .send c v k) (hq : Fires N s q s₂) :
    ∃ s₃, Fires N { s with
        proc := Function.update s.proc p k
        chan := Function.update s.chan c (s.chan c ++ [v]) } q s₃ ∧ Fires N s₂ p s₃ := by
  have hproc := (Fires.send ha).proc_ne hpq.symm
  have h₂ := Fires.send ((congrArg _ (hq.proc_ne hpq)).trans ha)
  cases hq with
  | @send d w l hb =>
    have hcd : c ≠ d := by
      rintro rfl
      exact hpq ((N.send_owner ha).trans (N.send_owner hb).symm)
    have h₁ := Fires.send ((congrArg _ hproc).trans hb)
    simp only [Function.update_of_ne hcd.symm] at h₁
    simp only [Function.update_of_ne hcd] at h₂
    rw [Function.update_comm hpq, Function.update_comm hcd] at h₁
    exact ⟨_, h₁, h₂⟩
  | @recv d _ l w rest hb hd hw =>
    by_cases hcd : c = d
    · subst hcd
      have h₁ := Fires.recv ((congrArg _ hproc).trans hb)
        (show _ = w :: (rest ++ [v]) by simp [hd]) hw
      simp only [Function.update_self, Function.update_idem] at h₁ h₂
      rw [Function.update_comm hpq] at h₁
      exact ⟨_, h₁, h₂⟩
    · have h₁ := Fires.recv ((congrArg _ hproc).trans hb)
        (show _ = w :: rest by simp [Function.update_of_ne (Ne.symm hcd), hd]) hw
      simp only [Function.update_of_ne hcd] at h₂
      rw [Function.update_comm hpq, Function.update_comm hcd] at h₁
      exact ⟨_, h₁, h₂⟩
  | @emit o l hb =>
    have h₁ := Fires.emit ((congrArg _ hproc).trans hb)
    rw [Function.update_comm hpq] at h₁
    exact ⟨_, h₁, h₂⟩

theorem emit_diamond {N : Network P C V W O σ} {s s₂ : State P C V O σ} {p q : P} (hpq : p ≠ q)
    {o : O} {k : σ} (ha : N.act p (s.proc p) = .emit o k) (hq : Fires N s q s₂) :
    ∃ s₃, Fires N { s with
        proc := Function.update s.proc p k
        emitted := Function.update s.emitted p (s.emitted p ++ [o]) } q s₃ ∧ Fires N s₂ p s₃ := by
  have hproc := (Fires.emit ha).proc_ne hpq.symm
  have h₂ := Fires.emit ((congrArg _ (hq.proc_ne hpq)).trans ha)
  cases hq with
  | @send d w l hb =>
    have h₁ := Fires.send ((congrArg _ hproc).trans hb)
    rw [Function.update_comm hpq] at h₁
    exact ⟨_, h₁, h₂⟩
  | @recv d _ l w rest hb hd hw =>
    have h₁ := Fires.recv ((congrArg _ hproc).trans hb) hd hw
    rw [Function.update_comm hpq] at h₁
    exact ⟨_, h₁, h₂⟩
  | @emit o' l hb =>
    have h₁ := Fires.emit ((congrArg _ hproc).trans hb)
    simp only [Function.update_of_ne hpq.symm] at h₁
    simp only [Function.update_of_ne hpq] at h₂
    rw [Function.update_comm hpq, Function.update_comm hpq] at h₁
    exact ⟨_, h₁, h₂⟩

/-- Steps of different processes commute: a send only appends, so it does not
disturb a receive, and two sends or two receives are on different channels. -/
theorem diamond {N : Network P C V W O σ} {s s₁ s₂ : State P C V O σ} {p q : P} (hpq : p ≠ q)
    (hp : Fires N s p s₁) (hq : Fires N s q s₂) : ∃ s₃, Fires N s₁ q s₃ ∧ Fires N s₂ p s₃ := by
  cases hp with
  | send ha => exact send_diamond hpq ha hq
  | emit ha => exact emit_diamond hpq ha hq
  | @recv c _ k v rest ha hc hv =>
    cases hq with
    | send hb =>
      obtain ⟨s₃, h₁, h₂⟩ := send_diamond hpq.symm hb (.recv ha hc hv)
      exact ⟨s₃, h₂, h₁⟩
    | emit hb =>
      obtain ⟨s₃, h₁, h₂⟩ := emit_diamond hpq.symm hb (.recv ha hc hv)
      exact ⟨s₃, h₂, h₁⟩
    | @recv d _ l w rest' hb hd hw =>
      have hcd : c ≠ d := by
        rintro rfl
        exact hpq ((N.recv_owner ha).trans (N.recv_owner hb).symm)
      have hproc₁ := (Fires.recv ha hc hv).proc_ne hpq.symm
      have hproc₂ := (Fires.recv hb hd hw).proc_ne hpq
      have h₁ := Fires.recv ((congrArg _ hproc₁).trans hb)
        (show _ = w :: rest' by simp [Function.update_of_ne hcd.symm, hd]) hw
      have h₂ := Fires.recv ((congrArg _ hproc₂).trans ha)
        (show _ = v :: rest by simp [Function.update_of_ne hcd, hc]) hv
      simp only [Function.update_of_ne hcd.symm] at h₁
      simp only [Function.update_of_ne hcd] at h₂
      rw [Function.update_comm hpq, Function.update_comm hcd, Function.update_comm hcd] at h₁
      exact ⟨_, h₁, h₂⟩

def Step (N : Network P C V W O σ) (s t : State P C V O σ) : Prop := ∃ p, Fires N s p t

abbrev Steps (N : Network P C V W O σ) := Relation.ReflTransGen (Step N)

theorem fires_unique {N : Network P C V W O σ} {s t t' : State P C V O σ} {p : P}
    (h : Fires N s p t) (h' : Fires N s p t') : t = t' :=
  Option.some.inj ((step_eq_some_iff.mpr h).symm.trans (step_eq_some_iff.mpr h'))

theorem confluence {N : Network P C V W O σ} {s t u : State P C V O σ} (ht : Steps N s t)
    (hu : Steps N s u) : Relation.Join (Steps N) t u := by
  refine Relation.church_rosser ?_ ht hu
  rintro s t u ⟨p, hp⟩ ⟨q, hq⟩
  by_cases hpq : p = q
  · subst hpq
    obtain rfl := fires_unique hp hq
    exact ⟨t, .refl, .refl⟩
  · obtain ⟨d, h₁, h₂⟩ := diamond hpq hp hq
    exact ⟨d, .single ⟨q, h₁⟩, .single ⟨p, h₂⟩⟩

theorem received_mono {N : Network P C V W O σ} {s t : State P C V O σ} (h : Steps N s t) (c : C) :
    s.received c <+: t.received c := by
  induction h with
  | refl => exact List.prefix_rfl
  | @tail t u _ hs ih =>
    refine ih.trans ?_
    obtain ⟨p, hp⟩ := hs
    cases hp with
    | @recv d _ k v rest ha hq =>
      by_cases hcd : c = d
      · subst hcd
        simp
      · simp [Function.update_of_ne hcd]
    | _ => exact List.prefix_rfl

theorem emitted_mono {N : Network P C V W O σ} {s t : State P C V O σ} (h : Steps N s t) (p : P) :
    s.emitted p <+: t.emitted p := by
  induction h with
  | refl => exact List.prefix_rfl
  | @tail t u _ hs ih =>
    refine ih.trans ?_
    obtain ⟨q, hq⟩ := hs
    cases hq with
    | emit ha =>
      by_cases hpq : p = q
      · subst hpq
        simp
      · simp [Function.update_of_ne hpq]
    | _ => exact List.prefix_rfl

def Finished (N : Network P C V W O σ) (s : State P C V O σ) : Prop :=
  ∀ p, N.act p (s.proc p) = .done

theorem Finished.not_fires {N : Network P C V W O σ} {s t : State P C V O σ}
    (hf : Finished N s) {p : P} : ¬ Fires N s p t := by
  intro h
  cases h with
  | send ha => cases (hf p).symm.trans ha
  | recv ha hq => cases (hf p).symm.trans ha
  | emit ha => cases (hf p).symm.trans ha

theorem Finished.steps_eq {N : Network P C V W O σ} {s t : State P C V O σ} (hf : Finished N s)
    (h : Steps N s t) : t = s := by
  rcases h.cases_head with rfl | ⟨u, ⟨p, hp⟩, _⟩
  · rfl
  · exact absurd hp hf.not_fires

/-- A process that has ended stays as it is. -/
theorem proc_of_done {N : Network P C V W O σ} {s t : State P C V O σ} (h : Steps N s t) {p : P}
    (hp : N.act p (s.proc p) = .done) : t.proc p = s.proc p := by
  induction h with
  | refl => rfl
  | @tail t u _ hstep ih =>
    obtain ⟨q, hfires⟩ := hstep
    have hne : p ≠ q := by
      intro hpq
      subst hpq
      rw [← ih] at hp
      cases hfires with
      | send hact => cases hp.symm.trans hact
      | recv hact => cases hp.symm.trans hact
      | emit hact => cases hp.symm.trans hact
    rw [hfires.proc_ne hne, ih]

theorem received_comparable {N : Network P C V W O σ} {s t u : State P C V O σ} (ht : Steps N s t)
    (hu : Steps N s u) (c : C) : t.received c <+: u.received c ∨ u.received c <+: t.received c := by
  obtain ⟨d, htd, hud⟩ := confluence ht hu
  exact List.prefix_or_prefix_of_prefix (received_mono htd c) (received_mono hud c)

theorem finished_unique {N : Network P C V W O σ} {s t u : State P C V O σ} (ht : Steps N s t)
    (hu : Steps N s u) (hft : Finished N t) (hfu : Finished N u) : t = u := by
  obtain ⟨d, htd, hud⟩ := confluence ht hu
  exact (hft.steps_eq htd).symm.trans (hfu.steps_eq hud)

section Complete

variable {N : Network P C V W O σ} {s final : State P C V O σ}

theorem steps_final (hrun : Steps N s final) (hfin : Finished N final) {t : State P C V O σ}
    (ht : Steps N s t) : Steps N t final := by
  obtain ⟨d, htd, hfd⟩ := confluence ht hrun
  obtain rfl := hfin.steps_eq hfd
  exact htd

theorem not_stuck (hrun : Steps N s final) (hfin : Finished N final) {t : State P C V O σ}
    (ht : Steps N s t) (hnot : ¬Finished N t) : ∃ p u, N.step t p = some u := by
  rcases (steps_final hrun hfin ht).cases_head with rfl | ⟨u, ⟨p, hp⟩, _⟩
  · exact absurd hfin hnot
  · exact ⟨p, u, step_eq_some_iff.mpr hp⟩

/-- A process that waits at a channel and finishes later takes the value at the
head of the channel now, so it accepts that value. -/
theorem head_accepted {t u : State P C V O σ} (h : Steps N t u) {p : P} {c : C} {w : W} {k : V → σ}
    {v : V} {rest : List V} (ha : N.act p (t.proc p) = .recv c w k) (hq : t.chan c = v :: rest)
    (hdone : N.act p (u.proc p) = .done) : N.accepts w v = true := by
  induction h using Relation.ReflTransGen.head_induction_on generalizing rest with
  | refl => cases ha.symm.trans hdone
  | @head t x hs _ ih =>
    obtain ⟨q, hfire⟩ := hs
    by_cases hpq : q = p
    · subst hpq
      cases hfire with
      | send hb => cases ha.symm.trans hb
      | emit hb => cases ha.symm.trans hb
      | recv hb hd hw =>
        cases ha.symm.trans hb
        cases hq.symm.trans hd
        exact hw
    · obtain ⟨added, hadded⟩ := hfire.chan_of_consumer (N.recv_owner ha) hpq
      have hproc := hfire.proc_ne (Ne.symm hpq)
      exact ih (by rw [hproc]; exact ha)
        (show _ = v :: (rest ++ added) by rw [hadded, hq, List.cons_append])

def Network.accepting (N : Network P C V W O σ) (accepts : W → V → Bool) : Network P C V W O σ :=
  { N with accepts }

theorem steps_of_accepting {accepts : W → V → Bool}
    (hless : ∀ w v, accepts w v = true → N.accepts w v = true) {t : State P C V O σ}
    (ht : Steps (N.accepting accepts) s t) : Steps N s t := by
  refine Relation.ReflTransGen.mono ?_ s t ht
  rintro t u ⟨p, hp⟩
  refine ⟨p, ?_⟩
  cases hp with
  | send ha => exact .send ha
  | emit ha => exact .emit ha
  | recv ha hq hw => exact .recv ha hq (hless _ _ hw)

/-- If one run finishes with receives that accept less, every run with the
given receives is a run with those. -/
theorem steps_accepting {accepts : W → V → Bool} (hrun : Steps (N.accepting accepts) s final)
    (hfin : Finished N final) {t : State P C V O σ} (ht : Steps N s t) :
    Steps (N.accepting accepts) s t := by
  induction ht with
  | refl => exact .refl
  | @tail t u _ hs ih =>
    obtain ⟨p, hp⟩ := hs
    refine ih.tail ⟨p, ?_⟩
    cases hp with
    | send ha => exact .send ha
    | emit ha => exact .emit ha
    | recv ha hq _ => exact .recv ha hq (head_accepted (steps_final hrun hfin ih) ha hq (hfin p))

end Complete

section Bounded

variable {N : Network P C V W O σ} {s t u final : State P C V O σ}

inductive StepsIn (N : Network P C V W O σ) : Nat → State P C V O σ → State P C V O σ → Prop
  | zero (s : State P C V O σ) : StepsIn N 0 s s
  | succ {n : Nat} {s t u : State P C V O σ} : Step N s t → StepsIn N n t u → StepsIn N (n + 1) s u

theorem exists_stepsIn (h : Steps N s t) : ∃ n, StepsIn N n s t := by
  induction h using Relation.ReflTransGen.head_induction_on with
  | refl => exact ⟨0, .zero t⟩
  | head hs _ ih =>
    obtain ⟨n, hn⟩ := ih
    exact ⟨n + 1, .succ hs hn⟩

/-- Every step comes one nearer to the end. -/
theorem StepsIn.descend (hfin : Finished N final) {n : Nat} (h : StepsIn N n s final)
    (hs : Step N s u) : ∃ m, n = m + 1 ∧ StepsIn N m u final := by
  induction n generalizing s u with
  | zero =>
    cases h
    obtain ⟨p, hp⟩ := hs
    exact absurd hp hfin.not_fires
  | succ n ih =>
    cases h with
    | @succ _ _ x _ hx hrest =>
      obtain ⟨p, hp⟩ := hx
      obtain ⟨q, hq⟩ := hs
      refine ⟨n, rfl, ?_⟩
      by_cases hpq : p = q
      · subst hpq
        rwa [fires_unique hq hp]
      · obtain ⟨y, hxy, huy⟩ := diamond hpq hp hq
        obtain ⟨m, rfl, hy⟩ := ih hrest ⟨q, hxy⟩
        exact .succ ⟨p, huy⟩ hy

/-- If one run finishes, no run is longer. -/
theorem StepsIn.length_le (hfin : Finished N final) {n : Nat} (h : StepsIn N n s final) {m : Nat}
    (ht : StepsIn N m s t) : m ≤ n := by
  induction ht generalizing n with
  | zero => exact Nat.zero_le n
  | succ hs _ ih =>
    obtain ⟨n', rfl, hrest⟩ := h.descend hfin hs
    exact Nat.succ_le_succ (ih hrest)

end Bounded

def Settles (N : Network P C V W O σ) (f : P → σ) (e : P → List O) (f' : P → σ)
    (e' : P → List O) : Prop :=
  ∀ r, ∃ r', Steps N ⟨f, fun _ => [], r, e⟩ ⟨f', fun _ => [], r', e'⟩

section Settles

variable {N : Network P C V W O σ} {f f' f'' : P → σ} {e e' e'' : P → List O}

theorem Settles.refl : Settles N f e f e := fun r => ⟨r, .refl⟩

theorem Settles.trans (h : Settles N f e f' e') (h' : Settles N f' e' f'' e'') :
    Settles N f e f'' e'' := by
  intro r
  obtain ⟨r', hr⟩ := h r
  obtain ⟨r'', hr'⟩ := h' r'
  exact ⟨r'', hr.trans hr'⟩

theorem Settles.transfer {p q : P} {c : C} {v : V} {k : σ} {l : V → σ} (hpq : p ≠ q)
    (hp : N.act p (f p) = .send c v k) {w : W} (hq : N.act q (f q) = .recv c w l)
    (hw : N.accepts w v = true) :
    Settles N f e (Function.update (Function.update f p k) q (l v)) e := by
  intro r
  refine ⟨Function.update r c (r c ++ [v]), ?_⟩
  have hsend := Fires.send (s := ⟨f, fun _ => [], r, e⟩) hp
  have hproc := hsend.proc_ne hpq.symm
  have hrecv := Fires.recv ((congrArg _ hproc).trans hq) (show _ = v :: [] by simp) hw
  have hempty : Function.update (fun _ : C => ([] : List V)) c [] = fun _ => [] :=
    Function.update_eq_self c _
  simp only [Function.update_idem, hempty] at hrecv
  exact .tail (.single ⟨p, hsend⟩) ⟨q, hrecv⟩

theorem Settles.emit {p : P} {o : O} {k : σ} (hp : N.act p (f p) = .emit o k) :
    Settles N f e (Function.update f p k) (Function.update e p (e p ++ [o])) := by
  intro r
  exact ⟨r, .single ⟨p, Fires.emit (s := ⟨f, fun _ => [], r, e⟩) hp⟩⟩

end Settles

end Kahn
