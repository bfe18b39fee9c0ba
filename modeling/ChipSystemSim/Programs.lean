import ChipSystemSim.Deliverable
import ChipSystemSim.Kahn

/-! Sequential processes over the PipeComm transport. A placement says on which
slot each process runs; the processes themselves do not know it. -/

namespace ChipSystemSim

abbrev Ends := Coord × Coord

def pipeOf (c : Ends) : Text := pipeName c.1 c.2

theorem pipeOf_injective {c c' : Ends} (h : pipeOf c = pipeOf c') : c = c' := by
  obtain ⟨h₁, h₂⟩ := pipeName_injective h
  exact Prod.ext h₁ h₂

/-- Sequential deterministic processes that only write and read pipes. Each pipe
has one producer, at its source, and one consumer, at its destination. -/
structure Program (P σ O : Type) where
  coord : P → Coord
  act : P → σ → Kahn.Act Ends Bytes Nat O σ
  start : P → σ
  producer : Ends → P
  consumer : Ends → P
  path : P → Ends → Text
  path_name : ∀ p c, lastComponent (path p c) = pipeOf c
  send_ends : ∀ {p st c v k}, act p st = .send c v k →
    p = producer c ∧ coord p = c.1 ∧ coord (consumer c) = c.2
  recv_ends : ∀ {p st c n k}, act p st = .recv c n k →
    p = consumer c ∧ coord p = c.2 ∧ coord (producer c) = c.1

/-- A routing table with the slot of every process, and the gateways that the
supervisors started. -/
structure Deployment {P σ O : Type} (prog : Program P σ O) where
  routing : Routing
  linked : Slot → Slot → Bool
  slot : P → Slot
  placed : ∀ p, routing.coordinateToWorkerSlot.lookup (coordKey (prog.coord p)) = some (slot p)

def Deployment.config {P σ O : Type} {prog : Program P σ O} (place : Deployment prog) : Config :=
  ⟨place.routing, place.linked⟩

/-- The processes with the transport. Request `n` of process `p` is the
connection `(p, n)`; a process waits for the answer to its last request. -/
structure System (P σ O : Type) where
  net : State (P × Nat)
  proc : P → σ
  count : P → Nat
  waiting : P → Bool
  observed : Ends → List Bytes
  emitted : P → List O

inductive SystemAction (P : Type) where
  | issue (p : P)
  | transport (a : Action (P × Nat))
  | resume (p : P)
  | emit (p : P)

/-- All steps but new requests: routers and gateways move on, a gateway stops, or
a client dies and its connection closes. -/
def Action.internal {ι : Type} : Action ι → Bool
  | .connect _ _ _ => false
  | _ => true

def State.connected {ι : Type} [DecidableEq ι] (s : State ι) (i : ι) (slot : Slot)
    (request : Request) : State ι :=
  { s with conn := Function.update s.conn i (some ⟨slot, request, .connected, false⟩) }

namespace Program

variable {P σ O : Type} (prog : Program P σ O)

def network : Kahn.Network P Ends Bytes Nat O σ where
  act := prog.act
  accepts := fun n v => v.length == n
  producer := prog.producer
  consumer := prog.consumer
  send_owner := fun h => (prog.send_ends h).1
  recv_owner := fun h => (prog.recv_ends h).1

def origin : Kahn.State P Ends Bytes O σ where
  proc := prog.start
  chan := fun _ => []
  received := fun _ => []
  emitted := fun _ => []

def request (p : P) : Kahn.Act Ends Bytes Nat O σ → Option Request
  | .send c v _ => some (.write (prog.path p c) v)
  | .recv c n _ => some (.read (prog.path p c) n)
  | _ => none

def init : System P σ O where
  net := State.init
  proc := prog.start
  count := fun _ => 0
  waiting := fun _ => false
  observed := fun _ => []
  emitted := fun _ => []

variable [DecidableEq P]

/-- The process goes on with the answer to its request. An error ends it: the
client call fails. -/
def resume (S : System P σ O) (p : P) : Reply → Option (System P σ O)
  | .ok =>
    match prog.act p (S.proc p) with
    | .send _ _ k =>
      some { S with
        proc := Function.update S.proc p k
        count := Function.update S.count p (S.count p + 1)
        waiting := Function.update S.waiting p false }
    | _ => none
  | .okData data =>
    match prog.act p (S.proc p) with
    | .recv c _ k =>
      some { S with
        proc := Function.update S.proc p (k data)
        count := Function.update S.count p (S.count p + 1)
        waiting := Function.update S.waiting p false
        observed := Function.update S.observed c (S.observed c ++ [data]) }
    | _ => none
  | .err _ => none

def step (place : Deployment prog) (S : System P σ O) :
    SystemAction P → Option (System P σ O × Option (Event (P × Nat)))
  | .issue p =>
    if S.waiting p then none
    else
      match prog.request p (prog.act p (S.proc p)) with
      | none => none
      | some request =>
        (ChipSystemSim.step place.config S.net (.connect (p, S.count p) (place.slot p) request)).map
          fun r =>
          ({ S with net := r.1, waiting := Function.update S.waiting p true }, r.2)
  | .transport a =>
    if a.internal then
      (ChipSystemSim.step place.config S.net a).map fun r => ({ S with net := r.1 }, r.2)
    else none
  | .resume p =>
    if S.waiting p then
      match S.net.conn (p, S.count p) with
      | some ⟨_, _, .replied reply, false⟩ => (prog.resume S p reply).map fun S => (S, none)
      | _ => none
    else none
  | .emit p =>
    if S.waiting p then none
    else
      match prog.act p (S.proc p) with
      | .emit o k =>
        some ({ S with
          proc := Function.update S.proc p k
          emitted := Function.update S.emitted p (S.emitted p ++ [o]) }, none)
      | _ => none

inductive Reach (place : Deployment prog) : System P σ O → List (Event (P × Nat)) → Prop
  | init : Reach place prog.init []
  | step {S S' : System P σ O} {log : List (Event (P × Nat))} {a : SystemAction P}
      {e : Option (Event (P × Nat))} :
      Reach place S log → prog.step place S a = some (S', e) → Reach place S' (log ++ e.toList)

def Done (S : System P σ O) : Prop := ∀ p, S.waiting p = false ∧ prog.act p (S.proc p) = .done

def exec (place : Deployment prog) : List (SystemAction P) → System P σ O → List (Event (P × Nat)) →
    Option (System P σ O × List (Event (P × Nat)))
  | [], S, log => some (S, log)
  | a :: rest, S, log =>
    match prog.step place S a with
    | none => none
    | some (S', e) => exec place rest S' (log ++ e.toList)

theorem Reach.exec {prog : Program P σ O} {place : Deployment prog}
    {actions : List (SystemAction P)} {S S' : System P σ O} {log log' : List (Event (P × Nat))}
    (h : prog.Reach place S log) (he : prog.exec place actions S log = some (S', log')) :
    prog.Reach place S' log' := by
  induction actions generalizing S log with
  | nil =>
    cases he
    exact h
  | cons a rest ih =>
    simp only [Program.exec] at he
    split at he
    · cases he
    · rename_i S₁ e hs
      exact ih (.step h hs) he

inductive Moves (place : Deployment prog) (S : System P σ O) :
    System P σ O → Option (Event (P × Nat)) → Prop
  | issue {p : P} {request : Request} (hw : S.waiting p = false)
      (hr : prog.request p (prog.act p (S.proc p)) = some request)
      (hc : S.net.conn (p, S.count p) = none) :
      Moves place S { S with
        net := S.net.connected (p, S.count p) (place.slot p) request
        waiting := Function.update S.waiting p true } none
  | transport {a : Action (P × Nat)} {net : State (P × Nat)} {e : Option (Event (P × Nat))}
      (ha : a.internal = true) (hs : ChipSystemSim.step place.config S.net a = some (net, e)) :
      Moves place S { S with net } e
  | written {p : P} {c : Ends} {v : Bytes} {k : σ} {conn : Conn} (hw : S.waiting p = true)
      (ha : prog.act p (S.proc p) = .send c v k) (hc : S.net.conn (p, S.count p) = some conn)
      (hph : conn.phase = .replied .ok) :
      Moves place S { S with
        proc := Function.update S.proc p k
        count := Function.update S.count p (S.count p + 1)
        waiting := Function.update S.waiting p false } none
  | read {p : P} {c : Ends} {n : Nat} {k : Bytes → σ} {conn : Conn} {data : Bytes}
      (hw : S.waiting p = true) (ha : prog.act p (S.proc p) = .recv c n k)
      (hc : S.net.conn (p, S.count p) = some conn) (hph : conn.phase = .replied (.okData data)) :
      Moves place S { S with
        proc := Function.update S.proc p (k data)
        count := Function.update S.count p (S.count p + 1)
        waiting := Function.update S.waiting p false
        observed := Function.update S.observed c (S.observed c ++ [data]) } none
  | emit {p : P} {o : O} {k : σ} (hw : S.waiting p = false)
      (ha : prog.act p (S.proc p) = .emit o k) :
      Moves place S { S with
        proc := Function.update S.proc p k
        emitted := Function.update S.emitted p (S.emitted p ++ [o]) } none

theorem step_moves {prog : Program P σ O} {place : Deployment prog} {S S' : System P σ O}
    {a : SystemAction P} {e : Option (Event (P × Nat))} (h : prog.step place S a = some (S', e)) :
    prog.Moves place S S' e := by
  cases a with
  | issue p =>
    simp only [step] at h
    split at h
    · cases h
    · rename_i hw
      split at h
      · cases h
      · rename_i request hr
        simp only [ChipSystemSim.step] at h
        split at h
        · rename_i hc
          cases h
          exact .issue (by simpa using hw) hr (Option.isNone_iff_eq_none.mp hc)
        · cases h
  | transport a =>
    simp only [step] at h
    split at h
    · rename_i ha
      obtain ⟨⟨net, e'⟩, hs, he⟩ := Option.map_eq_some_iff.mp h
      cases he
      exact .transport ha hs
    · cases h
  | resume p =>
    simp only [step] at h
    split at h
    · rename_i hw
      split at h
      · rename_i slot request reply hc
        obtain ⟨S₁, hs, he⟩ := Option.map_eq_some_iff.mp h
        cases he
        cases reply with
        | ok =>
          simp only [resume] at hs
          split at hs
          · rename_i ha
            cases hs
            exact .written hw ha hc rfl
          · cases hs
        | okData data =>
          simp only [resume] at hs
          split at hs
          · rename_i ha
            cases hs
            exact .read hw ha hc rfl
          · cases hs
        | err error => cases hs
      · cases h
    · cases h
  | emit p =>
    simp only [step] at h
    split at h
    · cases h
    · rename_i hw
      split at h
      · rename_i ha
        cases h
        exact .emit (by simpa using hw) ha
      · cases h

end Program

end ChipSystemSim
