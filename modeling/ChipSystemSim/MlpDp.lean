import ChipSystemSim.Kahn
import Mathlib.Algebra.Field.Basic
import Mathlib.Data.Nat.Bitwise

/-! The data-parallel MLP benchmark: one program per CPU rank, two GPU workers
per rank, and PipeComm messages between coordinates. Arithmetic is exact, over
any field. -/

namespace ChipSystemSim

def kGpusPerRank : Nat := 2

def kMaximumSamples : Nat := 2 ^ 20

def kParameters : Nat := 16 * 128 + 128 + 128 * 3 + 3

abbrev Vec (F : Type) := Fin kParameters → F

inductive Body (F : Type) where
  | token (value : Int)
  | header (iteration samples : Int)
  | vec (v : Vec F)

def Body.size {F : Type} : Body F → Nat
  | token _ => 4
  | header _ _ => 16
  | vec _ => kParameters * 8

/-- Which message of the protocol is meant. Tags are not on the wire. -/
inductive Tag where
  | ready | release | header | model | gradient | reduction | update | finished
  deriving DecidableEq

structure Msg (F : Type) where
  tag : Tag
  body : Body F

/-- What a receive asks for: only the number of bytes reaches the pipe. -/
structure Want where
  tag : Tag
  bytes : Nat

def sizeMatches {F : Type} (want : Want) (m : Msg F) : Bool := m.body.size == want.bytes

def tagMatches {F : Type} (want : Want) (m : Msg F) : Bool :=
  m.body.size == want.bytes && m.tag == want.tag

/-- The coordinate of a process: `(rank, 0)` for a CPU, `(rank, 1)` and
`(rank, 2)` for its GPU workers. -/
abbrev Place := Nat × Nat

abbrev Link := Place × Place

inductive Prog (F : Type) where
  | done
  | send (c : Link) (m : Msg F) (next : Prog F)
  | recv (c : Link) (want : Want) (next : Body F → Prog F)
  | emit (model : Vec F) (next : Prog F)

inductive Gpu (F : Type) where
  | awaitHeader
  | awaitModel (samples : Int)
  | sendGradient (gradient : Vec F)
  | exited (code : Nat)

inductive Proc (F : Type) where
  | cpu (prog : Prog F)
  | gpu (state : Gpu F)

/-- The environment of a run, and the gradient of one sample. -/
structure Training (F : Type) where
  ranks : Nat
  samples : Nat
  iterations : Nat
  sampleGradient : Vec F → Nat → Vec F

section

variable {F : Type}

def sendMessage (dst src : Place) (tag : Tag) (body : Body F) (next : Prog F) : Prog F :=
  .send (src, dst) ⟨tag, body⟩ next

def receiveMessage (dst src : Place) (tag : Tag) (bytes : Nat) (next : Body F → Prog F) : Prog F :=
  .recv (src, dst) ⟨tag, bytes⟩ next

def receiveVec (dst src : Place) (tag : Tag) (next : Vec F → Prog F) : Prog F :=
  receiveMessage dst src tag (kParameters * 8) fun body =>
    match body with
    | .vec v => next v
    | _ => .done

def sendToGpu (rank gpuY : Nat) (iteration : Int) (samplesPerGpu : Nat) (model : Vec F)
    (next : Prog F) : Prog F :=
  sendMessage (rank, gpuY) (rank, 0) .header (.header iteration samplesPerGpu)
    (sendMessage (rank, gpuY) (rank, 0) .model (.vec model) next)

def receiveGradient (rank gpuY : Nat) (next : Vec F → Prog F) : Prog F :=
  receiveVec (rank, 0) (rank, gpuY) .gradient next

def isPowerOfTwo (value : Nat) : Bool := 0 < value && (value &&& (value - 1)) == 0

def receiveTokens (tag : Tag) (peers : List Nat) (next : Prog F) : Prog F :=
  match peers with
  | [] => next
  | peer :: rest => receiveMessage (0, 0) (peer, 0) tag 4 fun _ => receiveTokens tag rest next

def sendTokens (peers : List Nat) (next : Prog F) : Prog F :=
  match peers with
  | [] => next
  | peer :: rest => sendMessage (peer, 0) (0, 0) .release (.token 1) (sendTokens rest next)

def startMeasurementBarrier (rank ranks : Nat) (next : Prog F) : Prog F :=
  if rank = 0 then
    receiveTokens .ready (List.range' 1 (ranks - 1)) (sendTokens (List.range' 1 (ranks - 1)) next)
  else
    sendMessage (0, 0) (rank, 0) .ready (.token 1)
      (receiveMessage (rank, 0) (0, 0) .release 4 fun _ => next)

def finishMeasurementBarrier (rank ranks : Nat) (next : Prog F) : Prog F :=
  if rank = 0 then receiveTokens .finished (List.range' 1 (ranks - 1)) next
  else sendMessage (0, 0) (rank, 0) .finished (.token 1) next

def stopGpuWorkers (rank : Nat) (next : Prog F) : Prog F :=
  sendMessage (rank, 1) (rank, 0) .header (.header (-1) 0)
    (sendMessage (rank, 2) (rank, 0) .header (.header (-1) 0) next)

def broadcastLoop (rank ranks : Nat) : Nat → Nat → Vec F → (Vec F → Prog F) → Prog F
  | 0, _, model, next => next model
  | fuel + 1, stride, model, next =>
    if 1 ≤ stride then
      if rank % (2 * stride) = 0 then
        if rank + stride < ranks then
          sendMessage (rank + stride, 0) (rank, 0) .update (.vec model)
            (broadcastLoop rank ranks fuel (stride / 2) model next)
        else broadcastLoop rank ranks fuel (stride / 2) model next
      else if rank % (2 * stride) = stride then
        receiveVec (rank, 0) (rank - stride, 0) .update fun model =>
          broadcastLoop rank ranks fuel (stride / 2) model next
      else broadcastLoop rank ranks fuel (stride / 2) model next
    else next model

theorem broadcastLoop_send {r ranks fuel stride : Nat} {model : Vec F} {next : Vec F → Prog F}
    (hpos : 1 ≤ stride) (hs : r + stride < ranks) (hm : r % (2 * stride) = 0) :
    broadcastLoop r ranks (fuel + 1) stride model next =
      sendMessage (r + stride, 0) (r, 0) .update (.vec model)
        (broadcastLoop r ranks fuel (stride / 2) model next) := by
  rw [broadcastLoop, if_pos hpos, if_pos hm, if_pos hs]

theorem broadcastLoop_recv {r ranks fuel stride : Nat} {model : Vec F} {next : Vec F → Prog F}
    (hpos : 1 ≤ stride) (hm : r % (2 * stride) = stride) :
    broadcastLoop r ranks (fuel + 1) stride model next =
      receiveVec (r, 0) (r - stride, 0) .update fun model =>
        broadcastLoop r ranks fuel (stride / 2) model next := by
  rw [broadcastLoop, if_pos hpos, if_neg (by omega), if_pos hm]

theorem broadcastLoop_skip {r ranks fuel stride : Nat} {model : Vec F} {next : Vec F → Prog F}
    (hpos : 1 ≤ stride) (h0 : r % (2 * stride) ≠ 0) (hm : r % (2 * stride) ≠ stride) :
    broadcastLoop r ranks (fuel + 1) stride model next =
      broadcastLoop r ranks fuel (stride / 2) model next := by
  rw [broadcastLoop, if_pos hpos, if_neg h0, if_neg hm]

theorem broadcastLoop_zero {r ranks fuel : Nat} {model : Vec F} {next : Vec F → Prog F} :
    broadcastLoop r ranks fuel 0 model next = next model := by
  cases fuel with
  | zero => rfl
  | succ fuel => rw [broadcastLoop, if_neg (by omega)]

def broadcastModelTree (rank ranks : Nat) (model : Vec F) (next : Vec F → Prog F) : Prog F :=
  broadcastLoop rank ranks ranks (ranks / 2) model next

/-- `add_into` with any operation in the place of addition. -/
def addIntoBy (add : F → F → F) (destination source : Vec F) : Vec F := fun index =>
  add (destination index) (source index)

/-- The loop of `reduce_gradient_tree` on one rank. -/
def reduceLoopBy (add : F → F → F) (rank ranks : Nat) : Nat → Nat → Vec F →
    (Vec F → Prog F) → Prog F
  | 0, _, gradient, next => next gradient
  | fuel + 1, stride, gradient, next =>
    if stride < ranks then
      if rank % (2 * stride) = stride then
        sendMessage (rank - stride, 0) (rank, 0) .reduction (.vec gradient) (next gradient)
      else if rank % (2 * stride) = 0 then
        if rank + stride < ranks then
          receiveVec (rank, 0) (rank + stride, 0) .reduction fun child =>
            reduceLoopBy add rank ranks fuel (stride * 2) (addIntoBy add gradient child) next
        else reduceLoopBy add rank ranks fuel (stride * 2) gradient next
      else reduceLoopBy add rank ranks fuel (stride * 2) gradient next
    else next gradient

def reduceGradientTreeBy (add : F → F → F) (rank ranks : Nat) (gradient : Vec F)
    (next : Vec F → Prog F) : Prog F :=
  reduceLoopBy add rank ranks ranks 1 gradient next

variable [Field F]

def kLearningRate : F := 1 / 20

def initialise : Vec F := fun index => 1 / 100 * (((index.val % 7 : Nat) : F) - 3)

def addInto (destination source : Vec F) : Vec F := addIntoBy (· + ·) destination source

def reduceGradientTree (rank ranks : Nat) (gradient : Vec F) (next : Vec F → Prog F) : Prog F :=
  reduceGradientTreeBy (· + ·) rank ranks gradient next

def applyGradient (samples : Nat) (model gradient : Vec F) : Vec F := fun index =>
  model index - kLearningRate * gradient index / (samples : F)

def synchroniseModel (rank ranks samples : Nat) (gradient model : Vec F) (next : Vec F → Prog F) :
    Prog F :=
  reduceGradientTree rank ranks gradient fun gradient =>
    broadcastModelTree rank ranks (if rank = 0 then applyGradient samples model gradient else model)
      next

namespace Training

variable (T : Training F)

def samplesPerGpu : Nat := T.samples / (T.ranks * kGpusPerRank)

def sampleIndex (rank gpuIndex localSample : Nat) : Nat :=
  rank + T.ranks * (gpuIndex + 2 * localSample)

def calculateGradient (model : Vec F) (rank gpuIndex samples : Nat) : Vec F :=
  (List.range samples).foldl
    (fun gradient localSample =>
      addInto gradient (T.sampleGradient model (T.sampleIndex rank gpuIndex localSample)))
    fun _ => 0

/-- The training loop of `main`. The model is observed after each iteration. -/
def trainingLoop (rank : Nat) : Nat → Nat → Vec F → Prog F → Prog F
  | 0, _, _, next => next
  | remaining + 1, iteration, model, next =>
    sendToGpu rank 1 iteration T.samplesPerGpu model <|
    sendToGpu rank 2 iteration T.samplesPerGpu model <|
    receiveGradient rank 1 fun gradient =>
    receiveGradient rank 2 fun gradient' =>
    synchroniseModel rank T.ranks T.samples (addInto gradient gradient') model fun model =>
    .emit model (trainingLoop rank remaining (iteration + 1) model next)

def cpuMain (rank : Nat) : Prog F :=
  if isPowerOfTwo T.ranks = false ∨ T.samples % (T.ranks * kGpusPerRank) ≠ 0 ∨ T.ranks ≤ rank then
    .done
  else
    startMeasurementBarrier rank T.ranks <|
    T.trainingLoop rank T.iterations 0 initialise <|
    finishMeasurementBarrier rank T.ranks <|
    stopGpuWorkers rank .done

def gpuOnHeader : Body F → Gpu F
  | .header iteration samples =>
    if iteration < 0 then .exited 0
    else if samples ≤ 0 ∨ (kMaximumSamples : Int) < samples then .exited 3
    else .awaitModel samples
  | _ => .exited 3

def gpuOnModel (rank gpuY : Nat) (samples : Int) : Body F → Gpu F
  | .vec model => .sendGradient (T.calculateGradient model rank (gpuY - 1) samples.toNat)
  | _ => .exited 3

def gpuAct (rank gpuY : Nat) : Gpu F → Kahn.Act Link (Msg F) Want (Vec F) (Gpu F)
  | .awaitHeader => .recv ((rank, 0), (rank, gpuY)) ⟨.header, 16⟩ fun m => gpuOnHeader m.body
  | .awaitModel samples =>
    .recv ((rank, 0), (rank, gpuY)) ⟨.model, kParameters * 8⟩ fun m =>
      T.gpuOnModel rank gpuY samples m.body
  | .sendGradient gradient =>
    .send ((rank, gpuY), (rank, 0)) ⟨.gradient, .vec gradient⟩ .awaitHeader
  | .exited _ => .done

def act (p : Place) : Proc F → Kahn.Act Link (Msg F) Want (Vec F) (Proc F)
  | .cpu .done => .done
  | .cpu (.send c m next) => if c.1 = p then .send c m (.cpu next) else .done
  | .cpu (.recv c want next) => if c.2 = p then .recv c want fun m => .cpu (next m.body) else .done
  | .cpu (.emit model next) => .emit model (.cpu next)
  | .gpu state =>
    match T.gpuAct p.1 p.2 state with
    | .done => .done
    | .send c m next => if c.1 = p then .send c m (.gpu next) else .done
    | .recv c want next => if c.2 = p then .recv c want fun m => .gpu (next m) else .done
    | .emit model next => .emit model (.gpu next)

theorem act_send_owner {p : Place} {st : Proc F} {c : Link} {m : Msg F} {k : Proc F}
    (h : T.act p st = .send c m k) : p = c.1 := by
  unfold act at h
  split at h
  · cases h
  · split at h
    · rename_i hp
      cases h
      exact hp.symm
    · cases h
  · split at h <;> cases h
  · cases h
  · split at h
    · cases h
    · split at h
      · rename_i hp
        cases h
        exact hp.symm
      · cases h
    · split at h <;> cases h
    · cases h

theorem act_recv_owner {p : Place} {st : Proc F} {c : Link} {w : Want} {k : Msg F → Proc F}
    (h : T.act p st = .recv c w k) : p = c.2 := by
  unfold act at h
  split at h
  · cases h
  · split at h <;> cases h
  · split at h
    · rename_i hp
      cases h
      exact hp.symm
    · cases h
  · cases h
  · split at h
    · cases h
    · split at h <;> cases h
    · split at h
      · rename_i hp
        cases h
        exact hp.symm
      · cases h
    · cases h

def network : Kahn.Network Place Link (Msg F) Want (Vec F) (Proc F) where
  act := T.act
  accepts := sizeMatches
  producer := Prod.fst
  consumer := Prod.snd
  send_owner := T.act_send_owner
  recv_owner := T.act_recv_owner

/-- The same programs on pipes that deliver only the message that is meant. -/
def tagged : Kahn.Network Place Link (Msg F) Want (Vec F) (Proc F) := T.network.accepting tagMatches

def world (prog : Nat → Prog F) (gpu : Nat → Nat → Gpu F) (p : Place) : Proc F :=
  if p.1 < T.ranks then
    if p.2 = 0 then .cpu (prog p.1)
    else if p.2 ≤ kGpusPerRank then .gpu (gpu p.1 p.2)
    else .cpu .done
  else .cpu .done

def start : Kahn.State Place Link (Msg F) (Vec F) (Proc F) where
  proc := T.world T.cpuMain fun _ _ => .awaitHeader
  chan := fun _ => []
  received := fun _ => []
  emitted := fun _ => []

end Training

end

end ChipSystemSim
