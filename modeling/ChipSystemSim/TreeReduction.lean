import ChipSystemSim.MlpDp

/-! The reduction of the gradients along a binary tree of the ranks, with any
operation in the place of addition: the programs of the ranks, the loop of
the reference, and the expression that both compute. -/

namespace ChipSystemSim

theorem two_mul_pow (j : Nat) : 2 * 2 ^ j = 2 ^ (j + 1) := by rw [pow_succ, mul_comm]

theorem upper_mod {j b : Nat} (hb : 2 ^ (j + 1) ∣ b) : (b + 2 ^ j) % (2 * 2 ^ j) = 2 ^ j := by
  obtain ⟨q, rfl⟩ := hb
  have hpos := Nat.two_pow_pos j
  rw [two_mul_pow, Nat.mul_add_mod]
  exact Nat.mod_eq_of_lt (by rw [← two_mul_pow]; omega)

theorem upper_dvd {j b : Nat} (hb : 2 ^ (j + 1) ∣ b) : 2 ^ j ∣ b + 2 ^ j :=
  Nat.dvd_add (dvd_trans (pow_dvd_pow 2 (Nat.le_succ j)) hb) dvd_rfl

variable {F : Type} (add : F → F → F)

/-- The expression of the block of `2 ^ j` ranks from `b` on. -/
def treeSum (g : Nat → Vec F) : Nat → Nat → Vec F
  | 0, b => g b
  | j + 1, b => addIntoBy add (treeSum g j b) (treeSum g j (b + 2 ^ j))

/-- The body of the inner loop of `binary_tree_reduce`; `none` for an index out of range. -/
def reducePair (stride : Nat) (part : List (Vec F)) (parent : Nat) : Option (List (Vec F)) := do
  let left ← part[parent]?
  let right ← part[parent + stride]?
  return part.set parent (addIntoBy add left right)

/-- `range(0, ranks, 2 * stride)`. -/
def parents (ranks stride : Nat) : List Nat :=
  List.range' 0 ((ranks + 2 * stride - 1) / (2 * stride)) (2 * stride)

def treeLevels (ranks : Nat) : Nat → Nat → List (Vec F) → Option (List (Vec F))
  | 0, _, part => some part
  | fuel + 1, stride, part =>
    if stride < ranks then do
      let part ← (parents ranks stride).foldlM (reducePair add stride) part
      treeLevels ranks fuel (stride * 2) part
    else some part

def binaryTreeReduce (ranks : Nat) (rankGradients : List (Vec F)) : Option (Vec F) := do
  let part ← treeLevels add ranks ranks 1 rankGradients
  part[0]?

section Ranks

variable {add} {r ranks fuel stride : Nat} {gradient : Vec F} {next : Vec F → Prog F}

theorem reduceLoopBy_send (hs : stride < ranks) (hm : r % (2 * stride) = stride) :
    reduceLoopBy add r ranks (fuel + 1) stride gradient next =
      sendMessage (r - stride, 0) (r, 0) .reduction (.vec gradient) (next gradient) := by
  rw [reduceLoopBy, if_pos hs, if_pos hm]

theorem reduceLoopBy_recv (hpos : 0 < stride) (hs : r + stride < ranks)
    (hm : r % (2 * stride) = 0) :
    reduceLoopBy add r ranks (fuel + 1) stride gradient next =
      receiveVec (r, 0) (r + stride, 0) .reduction fun child =>
        reduceLoopBy add r ranks fuel (stride * 2) (addIntoBy add gradient child) next := by
  rw [reduceLoopBy, if_pos (by omega), if_neg (by omega), if_pos hm, if_pos hs]

theorem reduceLoopBy_done (hs : ranks ≤ stride) :
    reduceLoopBy add r ranks fuel stride gradient next = next gradient := by
  cases fuel with
  | zero => rfl
  | succ fuel => rw [reduceLoopBy, if_neg (by omega)]

/-- The programs after the block of `2 ^ j` ranks at `b` has reduced to its first
rank. The others have moved on and do not need their gradients any more. -/
def reducedBy (add : F → F → F) (ranks : Nat) (next : Nat → Vec F → Prog F) (after : Nat → Prog F)
    (g : Nat → Vec F) (fuel j b : Nat) (prog : Nat → Prog F) (r : Nat) : Prog F :=
  if r = b then reduceLoopBy add b ranks (fuel - j) (2 ^ j) (treeSum add g j b) (next b)
  else if b < r ∧ r < b + 2 ^ j then after r
  else prog r

/-- What a run of the ranks needs for a reduction: a message from one to another. -/
structure Exchange (ranks : Nat) (goes : (Nat → Prog F) → (Nat → Prog F) → Prop) : Prop where
  of_eq : ∀ {prog prog'}, (∀ r < ranks, prog r = prog' r) → goes prog prog'
  trans : ∀ {prog prog' prog''}, goes prog prog' → goes prog' prog'' → goes prog prog''
  message : ∀ (prog : Nat → Prog F) {r q : Nat} {m : Msg F} {k : Prog F} {l : Body F → Prog F},
    r < ranks → q < ranks →
    r ≠ q → prog r = .send ((r, 0), (q, 0)) m k →
      prog q = .recv ((r, 0), (q, 0)) ⟨m.tag, m.body.size⟩ l →
    goes prog (Function.update (Function.update prog r k) q (l m.body))

theorem Exchange.reduce {goes : (Nat → Prog F) → (Nat → Prog F) → Prop}
    (hgoes : Exchange ranks goes) {next : Nat → Vec F → Prog F} {after : Nat → Prog F}
    {g : Nat → Vec F} (hafter : ∀ r, r ≠ 0 → ∀ gradient, next r gradient = after r) (j : Nat)
    (hj : j ≤ fuel) (b : Nat) (prog : Nat → Prog F) (hb : 2 ^ j ∣ b) (hle : b + 2 ^ j ≤ ranks)
    (hprog : ∀ r, b ≤ r → r < b + 2 ^ j → prog r = reduceLoopBy add r ranks fuel 1 (g r) (next r)) :
    goes prog (reducedBy add ranks next after g fuel j b prog) := by
  induction j generalizing b prog with
  | zero =>
    refine hgoes.of_eq ?_
    intro r _
    unfold reducedBy
    by_cases h : r = b
    · subst h
      simpa [treeSum] using hprog r le_rfl (by simp)
    · have hnot : ¬(b < r ∧ r < b + 2 ^ 0) := by
        rw [pow_zero]
        omega
      rw [if_neg h, if_neg hnot]
  | succ j ih =>
    have hpos := Nat.two_pow_pos j
    have hpow := two_mul_pow j
    have hbj : 2 ^ j ∣ b := dvd_trans (pow_dvd_pow 2 (Nat.le_succ j)) hb
    have hbase : b % (2 * 2 ^ j) = 0 := by
      rw [hpow]
      exact Nat.mod_eq_zero_of_dvd hb
    obtain ⟨f, hf⟩ : ∃ f, fuel - j = f + 1 := ⟨fuel - j - 1, by omega⟩
    have hf' : fuel - (j + 1) = f := by omega
    -- both halves of the block first, then the message between their first ranks
    let lower := reducedBy add ranks next after g fuel j b prog
    let upper := reducedBy add ranks next after g fuel j (b + 2 ^ j) lower
    have hleft : goes prog lower :=
      ih (by omega) b prog hbj (by omega) fun r h₁ h₂ => hprog r h₁ (by omega)
    have hright : goes lower upper := by
      refine ih (by omega) (b + 2 ^ j) lower (upper_dvd hb) (by omega) fun r h₁ h₂ => ?_
      have hsame : lower r = prog r := by
        simp only [lower, reducedBy]
        rw [if_neg (by omega), if_neg (by omega)]
      rw [hsame]
      exact hprog r (by omega) (by omega)
    have hsend : upper (b + 2 ^ j) = sendMessage (b, 0) (b + 2 ^ j, 0) .reduction
        (.vec (treeSum add g j (b + 2 ^ j))) (after (b + 2 ^ j)) := by
      simp only [upper, reducedBy, if_true]
      rw [hf, reduceLoopBy_send (by omega) (upper_mod hb), Nat.add_sub_cancel, hafter _ (by omega)]
    have hrecv : upper b = receiveVec (b, 0) (b + 2 ^ j, 0) .reduction fun child =>
        reduceLoopBy add b ranks f (2 ^ (j + 1)) (addIntoBy add (treeSum add g j b) child)
          (next b) := by
      simp only [upper, lower, reducedBy]
      rw [if_neg (by omega), if_neg (by omega), if_pos trivial, hf,
        reduceLoopBy_recv hpos (by omega) hbase, pow_succ]
    refine hgoes.trans (hgoes.trans hleft hright) ?_
    have hmsg : goes upper _ := hgoes.message upper (by omega) (by omega) (by omega) hsend hrecv
    refine (congrArg (goes upper) (funext fun r => ?_)).mp hmsg
    by_cases h : r = b
    · subst h
      simp only [Function.update_self, reducedBy, if_true, hf', treeSum]
    · by_cases h' : r = b + 2 ^ j
      · subst h'
        rw [Function.update_of_ne h, Function.update_self, reducedBy, if_neg h, if_pos (by omega)]
      · rw [Function.update_of_ne h, Function.update_of_ne h']
        simp only [upper, lower, reducedBy, h, h', if_false]
        by_cases hin : b < r ∧ r < b + 2 ^ (j + 1)
        · rw [if_pos hin]
          by_cases hlow : r < b + 2 ^ j
          · rw [if_neg (by omega), if_pos ⟨hin.1, hlow⟩]
          · rw [if_pos (by omega)]
        · rw [if_neg hin, if_neg (by omega), if_neg (by omega)]

end Ranks

section Network

def rankAct (p : Place) : Prog F → Kahn.Act Link (Msg F) Want (Vec F) (Prog F)
  | .done => .done
  | .send c m next => if c.1 = p then .send c m next else .done
  | .recv c want next => if c.2 = p then .recv c want fun m => next m.body else .done
  | .emit model next => .emit model next

def rankNetwork : Kahn.Network Place Link (Msg F) Want (Vec F) (Prog F) where
  act := rankAct
  accepts := sizeMatches
  producer := Prod.fst
  consumer := Prod.snd
  send_owner := by
    intro p prog c v k h
    unfold rankAct at h
    split at h
    · cases h
    · split at h
      · rename_i hp
        cases h
        exact hp.symm
      · cases h
    · split at h <;> cases h
    · cases h
  recv_owner := by
    intro p prog c w k h
    unfold rankAct at h
    split at h
    · cases h
    · split at h <;> cases h
    · split at h
      · rename_i hp
        cases h
        exact hp.symm
      · cases h
    · cases h

def rankWorld (ranks : Nat) (prog : Nat → Prog F) (p : Place) : Prog F :=
  if p.1 < ranks ∧ p.2 = 0 then prog p.1 else .done

/-- `reduce_gradient_tree` on all the ranks; rank 0 shows the gradient it is left with. -/
def reductionStart (ranks : Nat) (gradients : Nat → Vec F) :
    Kahn.State Place Link (Msg F) (Vec F) (Prog F) where
  proc := rankWorld ranks fun rank =>
    reduceGradientTreeBy add rank ranks (gradients rank) fun gradient =>
      if rank = 0 then .emit gradient .done else .done
  chan := fun _ => []
  received := fun _ => []
  emitted := fun _ => []

variable {ranks : Nat} {prog prog' : Nat → Prog F} {seen : Place → List (Vec F)}

theorem rankWorld_congr (h : ∀ r < ranks, prog r = prog' r) :
    rankWorld ranks prog = rankWorld ranks prog' := by
  funext p
  rw [rankWorld, rankWorld]
  split
  · rename_i hp
    exact h p.1 hp.1
  · rfl

theorem rankWorld_rank {r : Nat} (hr : r < ranks) : rankWorld ranks prog (r, 0) = prog r := by
  rw [rankWorld, if_pos ⟨hr, rfl⟩]

theorem update_rankWorld {r : Nat} (hr : r < ranks) (x : Prog F) :
    Function.update (rankWorld ranks prog) (r, 0) x = rankWorld ranks
      (Function.update prog r x) := by
  funext p
  by_cases hp : p = (r, 0)
  · subst hp
    rw [Function.update_self, rankWorld_rank hr, Function.update_self]
  · rw [Function.update_of_ne hp, rankWorld, rankWorld]
    split
    · rename_i hin
      have hne : p.1 ≠ r := fun h => hp (Prod.ext h hin.2)
      rw [Function.update_of_ne hne]
    · rfl

theorem rankNetwork_exchange (ranks : Nat) (seen : Place → List (Vec F)) :
    Exchange ranks fun prog prog' =>
      Kahn.Settles rankNetwork (rankWorld ranks prog) seen (rankWorld ranks prog') seen where
  of_eq h := by
    rw [rankWorld_congr h]
    exact Kahn.Settles.refl
  trans h h' := h.trans h'
  message prog r q m k l hr hq hrq hs hl := by
    have hne : ((r, 0) : Place) ≠ (q, 0) := by simpa using hrq
    have hsend : rankNetwork.act (r, 0) (rankWorld ranks prog (r, 0)) = .send
        ((r, 0), (q, 0)) m k := by
      rw [rankWorld_rank hr, hs]
      simp [rankNetwork, rankAct]
    have hrecv : rankNetwork.act (q, 0) (rankWorld ranks prog (q, 0)) =
        .recv ((r, 0), (q, 0)) ⟨m.tag, m.body.size⟩ fun m => l m.body := by
      rw [rankWorld_rank hq, hl]
      simp [rankNetwork, rankAct]
    have h : Kahn.Settles rankNetwork _ seen _ seen :=
      Kahn.Settles.transfer hne hsend hrecv (beq_self_eq_true m.body.size)
    rwa [update_rankWorld hr, update_rankWorld hq] at h

/-- One run of the ranks to the end. -/
theorem reduction_complete (k : Nat) (gradients : Nat → Vec F) :
    ∃ final, Kahn.Steps rankNetwork (reductionStart add (2 ^ k) gradients) final ∧
      Kahn.Finished rankNetwork final ∧ final.emitted (0, 0) = [treeSum add gradients k 0] := by
  have hpos := Nat.two_pow_pos k
  let shown : Nat → Vec F → Prog F := fun rank gradient => if rank = 0 then .emit gradient .done
    else .done
  let programs : Nat → Prog F := fun rank =>
    reduceLoopBy add rank (2 ^ k) (2 ^ k) 1 (gradients rank) (shown rank)
  let silent : Place → List (Vec F) := fun _ => []
  have hreduce : Kahn.Settles rankNetwork (rankWorld (2 ^ k) programs) silent
      (rankWorld (2 ^ k) (reducedBy add (2 ^ k) shown (fun _ => .done) gradients
        (2 ^ k) k 0 programs)) silent :=
    (rankNetwork_exchange (2 ^ k) silent).reduce (fun rank hrank gradient => if_neg hrank) k
      (Nat.lt_two_pow_self).le 0 programs (Nat.dvd_zero _) (by omega) fun rank _ _ => rfl
  have hreduced : rankWorld (2 ^ k)
      (reducedBy add (2 ^ k) shown (fun _ => .done) gradients (2 ^ k) k 0 programs) =
      rankWorld (2 ^ k) (Function.update (fun _ => .done) 0
        (.emit (treeSum add gradients k 0) .done)) := by
    refine rankWorld_congr fun r hr => ?_
    rw [reducedBy]
    by_cases h : r = 0
    · subst h
      rw [if_pos rfl, reduceLoopBy_done le_rfl, Function.update_self]
      rfl
    · rw [if_neg h, if_pos ⟨by omega, by omega⟩, Function.update_of_ne h]
  rw [hreduced] at hreduce
  have hshow := Kahn.Settles.emit (N := rankNetwork (F := F)) (e := silent) (p := ((0, 0) : Place))
    (f := rankWorld (2 ^ k) (Function.update (fun _ => .done) 0
      (.emit (treeSum add gradients k 0) .done)))
    (o := treeSum add gradients k 0) (k := .done)
      (by rw [rankWorld_rank hpos, Function.update_self]; rfl)
  obtain ⟨received, hrun⟩ := (hreduce.trans hshow) fun _ => []
  refine ⟨_, hrun, fun p => ?_, ?_⟩
  · rw [update_rankWorld hpos, Function.update_idem, Function.update_eq_self]
    show rankAct p (rankWorld (2 ^ k) (fun _ => .done) p) = .done
    rw [rankWorld, ite_self]
    rfl
  · show Function.update silent (0, 0) (silent (0, 0) ++ [treeSum add gradients k 0]) (0, 0) = _
    rw [Function.update_self]
    rfl

end Network

section Reference

variable {ranks stride : Nat} {part : List (Vec F)} {g : Nat → Vec F}

def Holding (ranks : Nat) (part : List (Vec F)) (g : Nat → Vec F) : Prop :=
  ∀ r < ranks, part[r]? = some (g r)

theorem reducePair_holding (h : Holding ranks part g) {parent : Nat}
    (hchild : parent + stride < ranks) :
    ∃ part', reducePair add stride part parent = some part' ∧
      Holding ranks part'
        (Function.update g parent (addIntoBy add (g parent) (g (parent + stride)))) := by
  have hleft := h parent (by omega)
  refine ⟨part.set parent (addIntoBy add (g parent) (g (parent + stride))), ?_, fun r hr => ?_⟩
  · rw [reducePair, hleft, h _ hchild]
    rfl
  · have hlength : parent < part.length := (List.getElem?_eq_some_iff.mp hleft).1
    by_cases hrp : r = parent
    · subst hrp
      rw [List.getElem?_set_self hlength, Function.update_self]
    · rw [List.getElem?_set_ne (Ne.symm hrp), Function.update_of_ne hrp, h r hr]

/-- The inner loop adds every child to its parent; no child is a parent. -/
theorem foldlM_reducePair (l : List Nat) (hnodup : l.Nodup) {part : List (Vec F)} {g : Nat → Vec F}
    (h : Holding ranks part g) (hchild : ∀ p ∈ l, p + stride < ranks)
    (hapart : ∀ p ∈ l, ∀ q ∈ l, p + stride ≠ q) :
    ∃ part', l.foldlM (reducePair add stride) part = some part' ∧
      Holding ranks part' fun r => if r ∈ l then addIntoBy add (g r) (g (r + stride)) else g r := by
  induction l generalizing part g with
  | nil => exact ⟨part, rfl, by simpa using h⟩
  | cons p l ih =>
    rw [List.nodup_cons] at hnodup
    obtain ⟨part', hpair, hpart'⟩ := reducePair_holding add h (hchild p (by simp))
    obtain ⟨part'', hrest, hpart''⟩ :=
      ih hnodup.2 hpart' (fun q hq => hchild q (List.mem_cons_of_mem _ hq))
      fun q hq q' hq' => hapart q (List.mem_cons_of_mem _ hq) q' (List.mem_cons_of_mem _ hq')
    refine ⟨part'', ?_, fun r hr => ?_⟩
    · rw [List.foldlM_cons, hpair]
      exact hrest
    · rw [hpart'' r hr]
      dsimp only
      by_cases hrp : r = p
      · subst hrp
        rw [if_neg hnodup.1, if_pos (by simp), Function.update_self]
      · by_cases hrl : r ∈ l
        · have hmem : r ∈ p :: l := List.mem_cons_of_mem _ hrl
          have hother : r + stride ≠ p := hapart r hmem p (by simp)
          rw [if_pos hrl, if_pos hmem, Function.update_of_ne hrp, Function.update_of_ne hother]
        · have hnot : r ∉ p :: l := by simp [hrp, hrl]
          rw [if_neg hrl, if_neg hnot, Function.update_of_ne hrp]

theorem mem_parents {r : Nat} (hpos : 0 < stride) :
    r ∈ parents ranks stride ↔ 2 * stride ∣ r ∧ r < ranks := by
  have hcount : ∀ i, i < (ranks + 2 * stride - 1) / (2 * stride) ↔ 2 * stride * i < ranks := by
    intro i
    rw [Nat.lt_iff_add_one_le, Nat.le_div_iff_mul_le (by omega), Nat.add_mul, Nat.mul_comm i]
    omega
  rw [parents, List.mem_range']
  constructor
  · rintro ⟨i, hi, rfl⟩
    rw [Nat.zero_add]
    exact ⟨Nat.dvd_mul_right _ _, (hcount i).mp hi⟩
  · rintro ⟨⟨i, rfl⟩, hlt⟩
    exact ⟨i, (hcount i).mpr hlt, (Nat.zero_add _).symm⟩

theorem parents_nodup (hpos : 0 < stride) : (parents ranks stride).Nodup :=
  List.nodup_range' (2 * stride) (by omega)

/-- Level `j` leaves the sums of the blocks of `2 ^ (j + 1)` ranks at their first ranks. -/
theorem treeLevels_holding {k : Nat} {g : Nat → Vec F} (fuel : Nat) {j : Nat} (hj : j ≤ k)
    (hfuel : k - j ≤ fuel) {part : List (Vec F)} {f : Nat → Vec F} (h : Holding (2 ^ k) part f)
    (hf : ∀ b, 2 ^ j ∣ b → b < 2 ^ k → f b = treeSum add g j b) :
    ∃ part', treeLevels add (2 ^ k) fuel (2 ^ j) part = some part' ∧
    part'[0]? = some (treeSum add g k 0) := by
  induction fuel generalizing j part f with
  | zero =>
    obtain rfl : j = k := by omega
    refine ⟨part, rfl, ?_⟩
    rw [h 0 (Nat.two_pow_pos j), hf 0 (Nat.dvd_zero _) (Nat.two_pow_pos j)]
  | succ fuel ih =>
    rw [treeLevels]
    by_cases hlt : 2 ^ j < 2 ^ k
    · have hjk : j < k := (Nat.pow_lt_pow_iff_right (by decide)).mp hlt
      have hpos := Nat.two_pow_pos j
      have hpow := two_mul_pow j
      have hwhole : 2 ^ (j + 1) ∣ 2 ^ k := pow_dvd_pow 2 hjk
      -- a block of the next level lies in the list as a whole
      have hinside : ∀ b, 2 ^ (j + 1) ∣ b → b < 2 ^ k → b + 2 ^ (j + 1) ≤ 2 ^ k := by
        rintro b ⟨q, rfl⟩ hb
        obtain ⟨w, hw⟩ := hwhole
        rw [hw] at hb ⊢
        have hq : q < w := Nat.lt_of_mul_lt_mul_left hb
        calc 2 ^ (j + 1) * q + 2 ^ (j + 1)
          _ = 2 ^ (j + 1) * (q + 1) := by rw [Nat.mul_add, Nat.mul_one]
          _ ≤ 2 ^ (j + 1) * w := Nat.mul_le_mul_left _ hq
      have hmem : ∀ b, b ∈ parents (2 ^ k) (2 ^ j) ↔ 2 ^ (j + 1) ∣ b ∧ b < 2 ^ k := by
        intro b
        rw [mem_parents hpos, hpow]
      have hchild : ∀ p ∈ parents (2 ^ k) (2 ^ j), p + 2 ^ j < 2 ^ k := by
        intro p hp
        have := hinside p ((hmem p).mp hp).1 ((hmem p).mp hp).2
        omega
      have hapart : ∀ p ∈ parents (2 ^ k) (2 ^ j), ∀ q ∈ parents (2 ^ k) (2 ^ j),
          p + 2 ^ j ≠ q := by
        rintro p hp q hq rfl
        have hmod := upper_mod ((hmem p).mp hp).1
        rw [hpow, Nat.mod_eq_zero_of_dvd ((hmem _).mp hq).1] at hmod
        omega
      obtain ⟨part', hlevel, hpart'⟩ := foldlM_reducePair add _ (parents_nodup hpos) h hchild hapart
      have hnext : ∀ b, 2 ^ (j + 1) ∣ b → b < 2 ^ k →
          (if b ∈ parents (2 ^ k) (2 ^ j) then addIntoBy add (f b) (f (b + 2 ^ j)) else f b) =
            treeSum add g (j + 1) b := by
        intro b hb hlt
        have hlower : 2 ^ j ∣ b := dvd_trans (pow_dvd_pow 2 (Nat.le_succ j)) hb
        have hroom := hinside b hb hlt
        rw [if_pos ((hmem b).mpr ⟨hb, hlt⟩), hf b hlower hlt, hf _ (upper_dvd hb) (by omega)]
        rfl
      rw [if_pos hlt, hlevel, ← pow_succ]
      exact ih hjk (by omega) hpart' hnext
    · obtain rfl : j = k := by
        have := (Nat.pow_le_pow_iff_right (by decide : 1 < 2)).mp (not_lt.mp hlt)
        omega
      refine ⟨part, if_neg hlt, ?_⟩
      rw [h 0 (Nat.two_pow_pos j), hf 0 (Nat.dvd_zero _) (Nat.two_pow_pos j)]

theorem binaryTreeReduce_eq (k : Nat) (gradients : Nat → Vec F) :
    binaryTreeReduce add (2 ^ k) ((List.range (2 ^ k)).map gradients) =
      some (treeSum add gradients k 0) := by
  have hstart : Holding (2 ^ k) ((List.range (2 ^ k)).map gradients) gradients := by
    intro r hr
    rw [List.getElem?_map, List.getElem?_range hr]
    rfl
  obtain ⟨part, hlevels, hroot⟩ := treeLevels_holding add (2 ^ k) (Nat.zero_le k)
    (by rw [Nat.sub_zero]; exact (Nat.lt_two_pow_self).le) hstart fun b _ _ => rfl
  rw [pow_zero] at hlevels
  rw [binaryTreeReduce, hlevels]
  exact hroot

end Reference

/-- The ranks and the reference compute the same expression: no run of the ranks goes on for
ever or gets stuck, and where one ends rank 0 holds what the loop of the reference returns. -/
theorem tree_reduction_matches_reference (k : Nat) (add : F → F → F) (gradients : Nat → Vec F) :
    ∃ total, binaryTreeReduce add (2 ^ k) ((List.range (2 ^ k)).map gradients) = some total ∧
      (∃ bound, ∀ n t, Kahn.StepsIn rankNetwork n (reductionStart add (2 ^ k) gradients) t →
        n ≤ bound) ∧
      ∀ t, Kahn.Steps rankNetwork (reductionStart add (2 ^ k) gradients) t →
        (¬ Kahn.Finished rankNetwork t → ∃ p u, rankNetwork.step t p = some u) ∧
        (Kahn.Finished rankNetwork t → t.emitted (0, 0) = [total]) := by
  obtain ⟨final, hrun, hfin, hemitted⟩ := reduction_complete add k gradients
  refine ⟨_, binaryTreeReduce_eq add k gradients, ?_, fun t ht =>
    ⟨Kahn.not_stuck hrun hfin ht, fun hdone => ?_⟩⟩
  · obtain ⟨n, hn⟩ := Kahn.exists_stepsIn hrun
    exact ⟨n, fun m t ht => hn.length_le hfin ht⟩
  · rw [Kahn.finished_unique ht hrun hdone hfin]
    exact hemitted

end ChipSystemSim
