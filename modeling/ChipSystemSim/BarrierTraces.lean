import ChipSystemSim.MlpDp
import ChipSystemSim.Router

/-! The messages of a data-parallel run, process by process: which of them are
as small as the tokens of the measurement barriers. -/

namespace ChipSystemSim

/-- A message operation of a process. The tag is not on the wire. -/
structure MessageOp where
  op : Op
  tag : Tag
  place : Place
  far : Place
  bytes : Nat
  deriving DecidableEq

def Tag.isBarrier : Tag → Bool
  | ready | release | finished => true
  | _ => false

/-- A write of a barrier, or one that has the size of such a write. -/
def MessageOp.isToken (o : MessageOp) : Bool := o.op = .W ∧ (o.bytes = 4 ∨ o.tag.isBarrier)

def tokenWrite (tag : Tag) (place far : Place) : MessageOp := ⟨.W, tag, place, far, 4⟩

variable {F : Type} [Field F]

/-- What a process does from a state on to its end, whatever it receives. -/
inductive Performs (T : Training F) (p : Place) : Proc F → List MessageOp → Prop
  | done {st : Proc F} : T.act p st = .done → Performs T p st []
  | send {st k : Proc F} {c : Link} {m : Msg F} {ops : List MessageOp} : T.act p st = .send c m k →
      Performs T p k ops → Performs T p st (⟨.W, m.tag, p, c.2, m.body.size⟩ :: ops)
  | recv {st : Proc F} {k : Msg F → Proc F} {c : Link} {w : Want} {m : Msg F}
      {ops : List MessageOp} :
      T.act p st = .recv c w k → sizeMatches w m = true →
      Performs T p (k m) ops → Performs T p st (⟨.R, w.tag, p, c.1, w.bytes⟩ :: ops)
  | emit {st k : Proc F} {o : Vec F} {ops : List MessageOp} : T.act p st = .emit o k →
      Performs T p k ops → Performs T p st ops

section Inversion

variable {T : Training F} {p : Place} {ops : List MessageOp}

theorem Performs.of_done {st : Proc F} (h : Performs T p st ops) (hact : T.act p st = .done) :
    ops = [] := by
  cases h with
  | done _ => rfl
  | send ha => cases hact.symm.trans ha
  | recv ha => cases hact.symm.trans ha
  | emit ha => cases hact.symm.trans ha

theorem Performs.of_send {st k : Proc F} {c : Link} {m : Msg F} (h : Performs T p st ops)
    (hact : T.act p st = .send c m k) :
    ∃ rest, ops = ⟨.W, m.tag, p, c.2, m.body.size⟩ :: rest ∧ Performs T p k rest := by
  cases h with
  | done ha => cases hact.symm.trans ha
  | send ha hrest =>
    cases hact.symm.trans ha
    exact ⟨_, rfl, hrest⟩
  | recv ha => cases hact.symm.trans ha
  | emit ha => cases hact.symm.trans ha

theorem Performs.of_recv {st : Proc F} {k : Msg F → Proc F} {c : Link} {w : Want}
    (h : Performs T p st ops) (hact : T.act p st = .recv c w k) :
    ∃ m rest, sizeMatches w m = true ∧ ops = ⟨.R, w.tag, p, c.1, w.bytes⟩ :: rest ∧
    Performs T p (k m) rest := by
  cases h with
  | done ha => cases hact.symm.trans ha
  | send ha => cases hact.symm.trans ha
  | recv ha hm hrest =>
    cases hact.symm.trans ha
    exact ⟨_, _, hm, rfl, hrest⟩
  | emit ha => cases hact.symm.trans ha

theorem Performs.of_emit {st k : Proc F} {o : Vec F} (h : Performs T p st ops)
    (hact : T.act p st = .emit o k) : Performs T p k ops := by
  cases h with
  | done ha => cases hact.symm.trans ha
  | send ha => cases hact.symm.trans ha
  | recv ha => cases hact.symm.trans ha
  | emit ha hrest =>
    cases hact.symm.trans ha
    exact hrest

end Inversion

section Quiet

theorem act_sendMessage (T : Training F) (dst src : Place) (tag : Tag) (body : Body F)
    (k : Prog F) :
    T.act src (.cpu (sendMessage dst src tag body k)) = .send (src, dst) ⟨tag, body⟩ (.cpu k) :=
      if_pos rfl

theorem act_receiveMessage (T : Training F) (dst src : Place) (tag : Tag) (bytes : Nat)
    (k : Body F → Prog F) :
    T.act dst (.cpu (receiveMessage dst src tag bytes k)) =
      .recv (src, dst) ⟨tag, bytes⟩ fun m => .cpu (k m.body) := if_pos rfl

/-- A program gets without a token to one of the given programs. -/
def Quietly (T : Training F) (p : Place) (prog : Prog F) (next : Prog F → Prop) : Prop :=
  ∀ ops, Performs T p (.cpu prog) ops → ∃ front rest prog', next prog' ∧ ops = front ++ rest ∧
    front.filter MessageOp.isToken = [] ∧ Performs T p (.cpu prog') rest

variable {T : Training F} {p : Place} {prog : Prog F} {next : Prog F → Prop}

theorem Quietly.stop (h : next prog) :
    Quietly T p prog next := fun ops hops => ⟨[], ops, prog, h, rfl, rfl, hops⟩

/-- An operation that is no token, before a quiet part. -/
theorem quietly_cons {o : MessageOp} {rest : List MessageOp} {prog : Prog F}
    (ho : o.isToken = false) (h : Quietly T p prog next) (hrest : Performs T p (.cpu prog) rest) :
    ∃ front rest' prog', next prog' ∧ o :: rest = front ++ rest' ∧
    front.filter MessageOp.isToken = [] ∧
      Performs T p (.cpu prog') rest' := by
  obtain ⟨front, rest', prog', hnext, rfl, hfront, hrest'⟩ := h rest hrest
  refine ⟨o :: front, rest', prog', hnext, rfl, ?_, hrest'⟩
  rw [List.filter_cons_of_neg (by simpa using ho), hfront]

theorem Quietly.send {src dst : Place} {tag : Tag} {body : Body F} (hp : src = p)
    (htag : tag.isBarrier = false) (hsize : body.size ≠ 4) (h : Quietly T p prog next) :
    Quietly T p (sendMessage dst src tag body prog) next := by
  subst hp
  intro ops hops
  obtain ⟨rest, rfl, hrest⟩ := hops.of_send (act_sendMessage T dst src tag body prog)
  refine quietly_cons ?_ h hrest
  simp [MessageOp.isToken, hsize, htag]

theorem Quietly.recv {src dst : Place} {tag : Tag} {bytes : Nat} {k : Body F → Prog F}
    (hp : dst = p) (h : ∀ body : Body F, body.size = bytes → Quietly T p (k body) next) :
    Quietly T p (receiveMessage dst src tag bytes k) next := by
  subst hp
  intro ops hops
  obtain ⟨m, rest, hm, rfl, hrest⟩ := hops.of_recv (act_receiveMessage T dst src tag bytes k)
  exact quietly_cons rfl (h m.body (beq_iff_eq.mp hm)) hrest

theorem Quietly.recvVec {src dst : Place} {tag : Tag} {k : Vec F → Prog F} (hp : dst = p)
    (h : ∀ v, Quietly T p (k v) next) : Quietly T p (receiveVec dst src tag k) next := by
  refine .recv hp fun body hbody => ?_
  cases body with
  | token value =>
    rw [Body.size] at hbody
    exact absurd hbody (by decide)
  | header iteration samples =>
    rw [Body.size] at hbody
    exact absurd hbody (by decide)
  | vec v => exact h v

theorem Quietly.emit {model : Vec F} (h : Quietly T p prog next) :
    Quietly T p (.emit model prog) next :=
  fun ops hops => h ops (hops.of_emit rfl)

omit [Field F] in
theorem vec_size_ne (v : Vec F) : (Body.vec v).size ≠ 4 := by
  rw [Body.size]
  decide

omit [Field F] in
theorem header_size_ne (iteration samples : Int) :
    (Body.header iteration samples : Body F).size ≠ 4 := by
  rw [Body.size]
  decide

theorem Quietly.reduceLoopBy {add : F → F → F} {r ranks : Nat} (hp : (r, 0) = p) (fuel stride : Nat)
    (gradient : Vec F) {k : Vec F → Prog F} (h : ∀ gradient, Quietly T p (k gradient) next) :
    Quietly T p (reduceLoopBy add r ranks fuel stride gradient k) next := by
  induction fuel generalizing stride gradient with
  | zero => exact h gradient
  | succ fuel ih =>
    rw [ChipSystemSim.reduceLoopBy]
    split
    · split
      · exact .send hp rfl (vec_size_ne gradient) (h gradient)
      · split
        · split
          · exact .recvVec hp fun child => ih _ _
          · exact ih _ _
        · exact ih _ _
    · exact h gradient

theorem Quietly.broadcastLoop {r ranks : Nat} (hp : (r, 0) = p) (fuel stride : Nat) (model : Vec F)
    {k : Vec F → Prog F} (h : ∀ model, Quietly T p (k model) next) :
    Quietly T p (broadcastLoop r ranks fuel stride model k) next := by
  induction fuel generalizing stride model with
  | zero => exact h model
  | succ fuel ih =>
    rw [ChipSystemSim.broadcastLoop]
    split
    · split
      · split
        · exact .send hp rfl (vec_size_ne model) (ih _ _)
        · exact ih _ _
      · split
        · exact .recvVec hp fun model => ih _ _
        · exact ih _ _
    · exact h model

theorem Quietly.trainingLoop {r : Nat} (hp : (r, 0) = p) (remaining iteration : Nat) (model : Vec F)
    {k : Prog F} (h : Quietly T p k next) :
    Quietly T p (T.trainingLoop r remaining iteration model k) next := by
  induction remaining generalizing iteration model with
  | zero => exact h
  | succ remaining ih =>
    rw [Training.trainingLoop]
    refine .send hp rfl (header_size_ne _ _) <| .send hp rfl (vec_size_ne model) <|
      .send hp rfl (header_size_ne _ _) <| .send hp rfl (vec_size_ne model) <|
        .recvVec hp fun gradient => .recvVec hp fun gradient' => ?_
    refine .reduceLoopBy hp _ _ _ fun gradient => .broadcastLoop hp _ _ _ fun model => ?_
    exact .emit (ih _ _)

theorem Quietly.receiveTokens {tag : Tag} {k : Prog F} (hp : (0, 0) = p) (peers : List Nat)
    (h : Quietly T p k next) : Quietly T p (receiveTokens tag peers k) next := by
  induction peers with
  | nil => exact h
  | cons peer peers ih => exact .recv hp fun body _ => ih

theorem Quietly.stopGpuWorkers {r : Nat} {k : Prog F} (hp : (r, 0) = p) (h : Quietly T p k next) :
    Quietly T p (stopGpuWorkers r k) next :=
  .send hp rfl (header_size_ne _ _) (.send hp rfl (header_size_ne _ _) h)

end Quiet

section Tokens

variable {T : Training F} {ops : List MessageOp}

theorem Performs.split {p : Place} {prog prog' : Prog F} (h : Performs T p (.cpu prog) ops)
    (hquiet : Quietly T p prog (· = prog')) :
    ∃ front rest, ops = front ++ rest ∧ front.filter MessageOp.isToken = [] ∧
    Performs T p (.cpu prog') rest := by
  obtain ⟨front, rest, _, rfl, hsplit, hfront, hrest⟩ := hquiet ops h
  exact ⟨front, rest, hsplit, hfront, hrest⟩

/-- A quiet program that ends has no tokens. -/
theorem Performs.no_tokens {p : Place} {prog : Prog F} (h : Performs T p (.cpu prog) ops)
    (hquiet : Quietly T p prog (· = .done)) : ops.filter MessageOp.isToken = [] := by
  obtain ⟨front, rest, rfl, hfront, hrest⟩ := h.split hquiet
  rw [hrest.of_done rfl, List.append_nil, hfront]

theorem performs_sendTokens {k : Prog F} {peers : List Nat} {ops : List MessageOp}
    (h : Performs T (0, 0) (.cpu (sendTokens peers k)) ops) :
    ∃ rest, ops = peers.map (fun peer => tokenWrite .release (0, 0) (peer, 0)) ++ rest ∧
      Performs T (0, 0) (.cpu k) rest := by
  induction peers generalizing ops with
  | nil => exact ⟨ops, rfl, h⟩
  | cons peer peers ih =>
    obtain ⟨rest, rfl, hrest⟩ :=
      h.of_send (act_sendMessage T (peer, 0) (0, 0) .release (.token 1) _)
    obtain ⟨rest', rfl, hrest'⟩ := ih hrest
    exact ⟨rest', rfl, hrest'⟩

/-- A rank whose checks pass. -/
theorem cpuMain_eq {r : Nat} (hpower : isPowerOfTwo T.ranks = true)
    (hdivides : T.samples % (T.ranks * kGpusPerRank) = 0) (hr : r < T.ranks) :
    T.cpuMain r = startMeasurementBarrier r T.ranks (T.trainingLoop r T.iterations 0 initialise
      (finishMeasurementBarrier r T.ranks (stopGpuWorkers r .done))) := by
  rw [Training.cpuMain, if_neg]
  simp [hpower, hdivides, hr]

variable (hpower : isPowerOfTwo T.ranks = true)
  (hdivides : T.samples % (T.ranks * kGpusPerRank) = 0)
include hpower hdivides

/-- The tokens of the first rank are its releases. -/
theorem tokens_first (hpos : 0 < T.ranks) (h : Performs T (0, 0) (.cpu (T.cpuMain 0)) ops) :
    ops.filter MessageOp.isToken =
      (List.range' 1 (T.ranks - 1)).map fun peer => tokenWrite .release (0, 0) (peer, 0) := by
  rw [cpuMain_eq hpower hdivides hpos, startMeasurementBarrier, finishMeasurementBarrier,
    if_pos rfl, if_pos rfl] at h
  obtain ⟨front, rest, rfl, hfront, hrest⟩ := h.split (.receiveTokens rfl _ (.stop rfl))
  obtain ⟨rest', rfl, hrest'⟩ := performs_sendTokens hrest
  have hlate := hrest'.no_tokens
    (.trainingLoop rfl _ _ _ <| .receiveTokens rfl _ <| .stopGpuWorkers rfl <| .stop rfl)
  rw [List.filter_append, List.filter_append, hfront, hlate, List.nil_append, List.append_nil,
    List.filter_eq_self]
  intro o ho
  obtain ⟨peer, -, rfl⟩ := List.mem_map.mp ho
  rfl

/-- The tokens of another rank, first when it is ready and then when it has finished. -/
theorem tokens_other {r : Nat} (hr : r ≠ 0) (hlt : r < T.ranks)
    (h : Performs T (r, 0) (.cpu (T.cpuMain r)) ops) :
    ops.filter MessageOp.isToken =
      [tokenWrite .ready (r, 0) (0, 0), tokenWrite .finished (r, 0) (0, 0)] := by
  rw [cpuMain_eq hpower hdivides hlt, startMeasurementBarrier, finishMeasurementBarrier, if_neg hr,
    if_neg hr] at h
  obtain ⟨rest, rfl, hrest⟩ := h.of_send (act_sendMessage T (0, 0) (r, 0) .ready (.token 1) _)
  obtain ⟨front, rest', rfl, hfront, hrest'⟩ :=
    hrest.split (.recv rfl fun _ _ => .trainingLoop rfl _ _ _ <| .stop rfl)
  obtain ⟨rest'', rfl, hrest''⟩ :=
    hrest'.of_send (act_sendMessage T (0, 0) (r, 0) .finished (.token 1) _)
  have hlate := hrest''.no_tokens (.stopGpuWorkers rfl <| .stop rfl)
  rw [List.filter_cons_of_pos rfl, List.filter_append, hfront, List.filter_cons_of_pos rfl, hlate]
  rfl

omit hpower hdivides

/-- What a GPU worker can do next. -/
theorem gpu_act_cases (T : Training F) (p : Place) (state : Gpu F) :
    T.act p (.gpu state) = .done ∨
      (∃ c gradient state', T.act p (.gpu state) = .send c ⟨.gradient, .vec gradient⟩
        (.gpu state')) ∨
      ∃ c w, ∃ k : Msg F → Gpu F, T.act p (.gpu state) = .recv c w fun m => .gpu (k m) := by
  cases state with
  | sendGradient gradient => exact .inr (.inl ⟨_, gradient, _, if_pos rfl⟩)
  | awaitHeader => exact .inr (.inr ⟨_, _, _, if_pos rfl⟩)
  | awaitModel samples => exact .inr (.inr ⟨_, _, _, if_pos rfl⟩)
  | exited code => exact .inl rfl

/-- A GPU worker writes gradients only. -/
theorem tokens_gpu {p : Place} {st : Proc F} (h : Performs T p st ops)
    (hst : ∃ state, st = .gpu state) : ops.filter MessageOp.isToken = [] := by
  induction h with
  | done _ => rfl
  | send hact _ ih =>
    obtain ⟨state, rfl⟩ := hst
    rcases gpu_act_cases T p state with h | ⟨c, gradient, state', h⟩ | ⟨c, w, k, h⟩
    · cases h.symm.trans hact
    · cases h.symm.trans hact
      rw [List.filter_cons_of_neg (by simp [MessageOp.isToken, Tag.isBarrier, vec_size_ne]),
        ih ⟨state', rfl⟩]
    · cases h.symm.trans hact
  | @recv _ _ _ _ m _ hact _ _ ih =>
    obtain ⟨state, rfl⟩ := hst
    rcases gpu_act_cases T p state with h | ⟨c, gradient, state', h⟩ | ⟨c, w, k, h⟩
    · cases h.symm.trans hact
    · cases h.symm.trans hact
    · cases h.symm.trans hact
      rw [List.filter_cons_of_neg (by simp [MessageOp.isToken]), ih ⟨k m, rfl⟩]
  | emit hact _ ih =>
    obtain ⟨state, rfl⟩ := hst
    rcases gpu_act_cases T p state with h | ⟨c, gradient, state', h⟩ | ⟨c, w, k, h⟩
    · cases h.symm.trans hact
    · cases h.symm.trans hact
    · cases h.symm.trans hact

end Tokens

end ChipSystemSim
