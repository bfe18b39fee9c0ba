import ChipSystemSim.Programs

/-! Every run of a program over the transport follows a run of the same
processes over plain queues. A request counts as done there as soon as its
payload enters or leaves the queue of its pipe; the process learns it later. -/

namespace ChipSystemSim

def Phase.entered : Phase → Bool
  | .gatewayWrite _ _ => true
  | .gatewayReplied reply => reply = .ok ∨ reply = .err .transport
  | .replied reply => reply = .ok ∨ reply = .err .transport
  | _ => false

theorem PhaseMove.entered {ι : Type} {cfg : Config} {s : State ι} {finished : Prop} {slot : Slot}
    {request : Request} {phase phase' : Phase} {v : Option (Bool × Bytes)}
    (h : PhaseMove cfg s finished slot request phase phase' v) :
    phase'.entered = match v with
      | some (true, _) => true
      | _ => phase.entered := by
  cases h with
  | own h =>
    cases h with
    | sleepGateway hph hstop hb => rcases hph with ⟨rfl, _⟩ | ⟨⟨n, rfl⟩, _⟩ <;> rfl
    | gatewayClosed hph hstop => rcases hph with rfl | ⟨n, rfl⟩ <;> rfl
    | _ => rfl
  | localRead hph => rcases hph with ⟨rfl, _⟩ | ⟨rfl, _⟩ <;> rfl
  | gatewayWrite hr => split <;> rfl
  | gatewayRead hph => rcases hph with ⟨rfl, _⟩ | ⟨⟨n, rfl⟩, _⟩ <;> rfl
  | _ => rfl

theorem entered_of_not_settled {phase : Phase} (h : phase.settled = false) :
    phase.entered = false := by
  cases phase with
  | gatewayWrite peer done => cases h
  | gatewayReplied reply => cases h
  | replied reply => cases h
  | _ => rfl

section Outcome

variable {ι : Type}

def State.entered (s : State ι) (i : ι) : Bool := (s.conn i).any fun c => c.phase.entered

def State.taken (s : State ι) (i : ι) : Option Bytes := (s.conn i).bind fun c => c.phase.data

theorem entered_of_none {s : State ι} {i : ι} (h : s.conn i = none) : s.entered i = false := by
  simp [State.entered, h]

theorem taken_of_none {s : State ι} {i : ι} (h : s.conn i = none) : s.taken i = none := by
  simp [State.taken, h]

theorem outcome_unsettled {s : State ι} {i : ι} {c : Conn} (h : s.conn i = some c)
    (hset : c.phase.settled = false) : s.entered i = false ∧ s.taken i = none := by
  simp [State.entered, State.taken, h, entered_of_not_settled hset, data_of_not_settled hset]

variable [DecidableEq ι]

theorem entered_connected {s : State ι} {i : ι} (h : s.conn i = none) (slot : Slot)
    (request : Request) (j : ι) : (s.connected i slot request).entered j = s.entered j := by
  by_cases hj : j = i
  · subst hj
    simp [State.entered, State.connected, h, Phase.entered]
  · simp [State.entered, State.connected, Function.update_of_ne hj]

theorem taken_connected {s : State ι} {i : ι} (h : s.conn i = none) (slot : Slot)
    (request : Request) (j : ι) : (s.connected i slot request).taken j = s.taken j := by
  by_cases hj : j = i
  · subst hj
    simp [State.taken, State.connected, h, Phase.data]
  · simp [State.taken, State.connected, Function.update_of_ne hj]

theorem outcome_other {cfg : Config} {s s' : State ι} {a : Action ι} {e : Option (Event ι)} {i : ι}
    (h : Effect cfg s a s' e) (he : ∀ v ∈ e, v.owner ≠ i) :
    s'.entered i = s.entered i ∧ s'.taken i = s.taken i := by
  rcases h.connMove i with ⟨hn', hn, _⟩ | ⟨_, _, _, hn, hc', _⟩ | ⟨c, c', v, hc, hc', _, _, hm, ho⟩
  · simp [State.entered, State.taken, hn', hn]
  · simp [State.entered, State.taken, hn, hc', Phase.entered, Phase.data]
  · have hv : v = none := by
      rcases ownEvent_cases ho with ⟨hv, _⟩ | ⟨payload, _, rfl⟩ | ⟨data, _, rfl⟩
      · exact hv
      · exact absurd rfl (he _ rfl)
      · exact absurd rfl (he _ rfl)
    subst hv
    have hentered := hm.entered
    have hdata := hm.data
    simp only [received] at hdata
    simp [State.entered, State.taken, hc, hc', hentered, hdata]

theorem event_conn {cfg : Config} {s s' : State ι} {a : Action ι} {v : Event ι}
    (h : Effect cfg s a s' (some v)) :
    ∃ c, s.conn v.owner = some c ∧ c.phase.settled = false ∧ c.request.name = v.name := by
  rcases h.connMove v.owner with ⟨_, _, he⟩ | ⟨_, _, _, _, _, he⟩ | ⟨c, c', w, hc, _, _, _, hm, ho⟩
  · exact absurd rfl (he _ rfl)
  · cases he
  · rcases ownEvent_cases ho with ⟨_, he⟩ | ⟨payload, rfl, he⟩ | ⟨data, rfl, he⟩
    · exact absurd rfl (he _ rfl)
    · refine ⟨c, hc, hm.settled.1 (by simp), ?_⟩
      rw [Option.some.inj he]
      rfl
    · refine ⟨c, hc, hm.settled.1 (by simp), ?_⟩
      rw [Option.some.inj he]
      rfl

theorem entered_enqueue {cfg : Config} {s s' : State ι} {a : Action ι} {i : ι} {x : Text}
    {payload : Bytes} (h : Effect cfg s a s' (some (.enqueue i x payload))) :
    s'.entered i = true ∧ ∃ c path, s.conn i = some c ∧ c.request = .write path payload := by
  rcases h.connMove i with ⟨_, _, he⟩ | ⟨_, _, _, _, _, he⟩ | ⟨c, c', v, hc, hc', _, _, hm, ho⟩
  · exact absurd rfl (he _ rfl)
  · cases he
  · rcases ownEvent_cases ho with ⟨_, he⟩ | ⟨payload', rfl, he⟩ | ⟨data, _, he⟩
    · exact absurd rfl (he _ rfl)
    · cases he
      obtain ⟨path, hr⟩ := hm.enqueue
      have hentered : c'.phase.entered = true := hm.entered
      exact ⟨by simp [State.entered, hc', hentered], c, path, hc, hr⟩
    · cases he

theorem taken_dequeue {cfg : Config} {s s' : State ι} {a : Action ι} {i : ι} {x : Text}
    {data : Bytes} (h : Effect cfg s a s' (some (.dequeue i x data))) : s'.taken i = some data := by
  rcases h.connMove i with ⟨_, _, he⟩ | ⟨_, _, _, _, _, he⟩ | ⟨c, c', v, hc, hc', _, _, hm, ho⟩
  · exact absurd rfl (he _ rfl)
  · cases he
  · rcases ownEvent_cases ho with ⟨_, he⟩ | ⟨payload, _, he⟩ | ⟨data', rfl, he⟩
    · exact absurd rfl (he _ rfl)
    · cases he
    · cases he
      have hdata : c'.phase.data = some data := hm.data
      simp [State.taken, hc', hdata]

end Outcome

namespace Program

variable {P σ O : Type} {prog : Program P σ O}

theorem lookup_coord (place : Deployment prog) {p : P} {c : Coord} (h : prog.coord p = c) :
    place.routing.coordinateToWorkerSlot.lookup (coordKey c) = some (place.slot p) := by
  rw [← h]
  exact place.placed p

theorem farSlot_pipeOf (routing : Routing) (op : Op) (c : Ends) :
    routing.farSlot op (pipeOf c) = routing.coordinateToWorkerSlot.lookup
      (coordKey (op.far c.1 c.2)) := by
  cases op <;> simp only [Routing.farSlot, pipeOf, matchPipeName_pipeName, Op.far, coordKey]

theorem ends_of_coords (place : Deployment prog) {p q : P} {c : Ends} (hp : prog.coord p = c.1)
    (hq : prog.coord q = c.2) :
    PipeEnds place.routing (pipeOf c) (place.slot p) (place.slot q) := by
  constructor
  · rw [Routing.sourceSlot, farSlot_pipeOf]
    exact lookup_coord place hp
  · rw [Routing.destinationSlot, farSlot_pipeOf]
    exact lookup_coord place hq

theorem request_placed (place : Deployment prog) {p : P} {st : σ} {request : Request}
    (h : prog.request p (prog.act p st) = some request) :
    WellPlaced place.routing (place.slot p) request := by
  cases ha : prog.act p st with
  | done =>
    rw [ha] at h
    cases h
  | emit o k =>
    rw [ha] at h
    cases h
  | send c v k =>
    rw [ha] at h
    cases h
    obtain ⟨_, hp, hq⟩ := prog.send_ends ha
    show place.routing.sourceSlot (lastComponent (prog.path p c)) = some (place.slot p)
    rw [prog.path_name]
    exact (ends_of_coords place hp hq).1
  | recv c n k =>
    rw [ha] at h
    cases h
    obtain ⟨_, hq, hp⟩ := prog.recv_ends ha
    show place.routing.destinationSlot (lastComponent (prog.path p c)) = some (place.slot p)
    rw [prog.path_name]
    exact (ends_of_coords place hp hq).2

theorem request_write {p : P} {act : Kahn.Act Ends Bytes Nat O σ} {path : Text} {payload : Bytes}
    (h : prog.request p act = some (.write path payload)) :
    ∃ c k, act = .send c payload k ∧ path = prog.path p c := by
  cases act with
  | send c v k =>
    cases h
    exact ⟨c, k, rfl, rfl⟩
  | _ => cases h

theorem request_read {p : P} {act : Kahn.Act Ends Bytes Nat O σ} {path : Text} {bytes : Nat}
    (h : prog.request p act = some (.read path bytes)) :
    ∃ c k, act = .recv c bytes k ∧ path = prog.path p c := by
  cases act with
  | recv c n k =>
    cases h
    exact ⟨c, k, rfl, rfl⟩
  | _ => cases h

theorem owner_ne {v : Event (P × Nat)} {p q : P} {n m : Nat} (ho : v.owner = (p, n)) (hq : q ≠ p) :
    ∀ w ∈ some v, w.owner ≠ (q, m) := by
  rintro w hw ho'
  cases Option.mem_some_iff.mp hw
  exact hq (Prod.mk.inj (ho.symm.trans ho')).1.symm

theorem name_ne {v : Event (P × Nat)} {c d : Ends} (hn : v.name = pipeOf c) (hd : d ≠ c) :
    ∀ w ∈ some v, w.name ≠ pipeOf d := by
  rintro w hw hn'
  cases Option.mem_some_iff.mp hw
  exact hd (pipeOf_injective (hn'.symm.trans hn))

/-- Only the last request of a process can still act on the queues. -/
structure Tracked (prog : Program P σ O) (S : System P σ O) : Prop where
  fresh : ∀ p n, S.count p < n → S.net.conn (p, n) = none
  idle : ∀ p, S.waiting p = false → S.net.conn (p, S.count p) = none
  asked : ∀ p c, S.net.conn (p, S.count p) = some c →
    prog.request p (prog.act p (S.proc p)) = some c.request
  past : ∀ p n c, n < S.count p → S.net.conn (p, n) = some c → c.phase.settled = true

theorem tracked_init : Tracked prog prog.init := by
  constructor <;> simp [Program.init, State.init]

def advance (entered : Bool) (taken : Option Bytes) (st : σ) : Kahn.Act Ends Bytes Nat O σ → σ
  | .send _ _ k => if entered then k else st
  | .recv _ _ k =>
    match taken with
    | some data => k data
    | none => st
  | _ => st

/-- What a read of `c` has taken and its process has not seen. -/
def unseen (taken : Option Bytes) (c : Ends) : Kahn.Act Ends Bytes Nat O σ → Option Bytes
  | .recv d _ _ => if d = c then taken else none
  | _ => none

theorem advance_idle (st : σ) (act : Kahn.Act Ends Bytes Nat O σ) :
    advance false none st act = st := by
  cases act <;> rfl

theorem unseen_none (c : Ends) (act : Kahn.Act Ends Bytes Nat O σ) : unseen none c act = none := by
  cases act with
  | recv d n k => exact ite_self none
  | _ => rfl

/-- The network of plain queues that a system stands for. -/
def view (prog : Program P σ O) (place : Deployment prog) (S : System P σ O) :
    Kahn.State P Ends Bytes O σ where
  proc := fun p => advance (S.net.entered (p, S.count p)) (S.net.taken (p, S.count p)) (S.proc p)
    (prog.act p (S.proc p))
  chan := fun c =>
    if prog.coord (prog.producer c) = c.1 ∧ prog.coord (prog.consumer c) = c.2 then
      (S.net.pipe (place.slot (prog.producer c)) (place.slot (prog.consumer c)) (pipeOf c)).contents
    else []
  received := fun c => S.observed c ++
    (unseen (S.net.taken (prog.consumer c, S.count (prog.consumer c))) c
    (prog.act (prog.consumer c) (S.proc (prog.consumer c)))).toList
  emitted := S.emitted

theorem view_init (place : Deployment prog) : prog.view place prog.init = prog.origin := by
  have hconn : ∀ i, (State.init : State (P × Nat)).conn i = none := fun _ => rfl
  refine Kahn.State.ext ?_ ?_ ?_ rfl
  · funext p
    simp only [view, init, entered_of_none (hconn _), taken_of_none (hconn _), advance_idle, origin]
  · funext c
    simp only [view, init, origin]
    split
    · unfold State.pipe
      split <;> simp [Pipe.contents, State.init, remotePipe]
    · rfl
  · funext c
    simp only [view, init, taken_of_none (hconn _), unseen_none, origin]
    rfl

variable [DecidableEq P]

theorem Reach.run {place : Deployment prog} {S : System P σ O} {log : List (Event (P × Nat))}
    {allowed : Action (P × Nat) → Prop} (h : prog.Reach place S log)
    (hissue : ∀ p st n request, prog.request p (prog.act p st) = some request →
      allowed (.connect (p, n) (place.slot p) request))
    (hinternal : ∀ a : Action (P × Nat), a.internal = true → allowed a) :
    Run place.config (fun _ a => allowed a) S.net log := by
  induction h with
  | init => exact .init
  | @step S S' log a e _ hs ih =>
    cases step_moves hs with
    | @issue p request hw hr hc =>
      refine .step ih (hissue p _ (S.count p) request hr) ?_
      simp [ChipSystemSim.step, hc, State.connected]
    | transport ha hs => exact .step ih (hinternal _ ha) hs
    | _ =>
      rw [Option.toList_none, List.append_nil]
      exact ih

theorem Reach.placed {place : Deployment prog} {S : System P σ O} {log : List (Event (P × Nat))}
    (h : prog.Reach place S log) : Run place.config (Placed place.config) S.net log := by
  refine h.run (fun p st n request hr => request_placed place hr) ?_
  intro a ha
  cases a with
  | connect i slot request => cases ha
  | _ => trivial

theorem Tracked.answered {S : System P σ O} (h : Tracked prog S) {p : P} {c : Conn} {st : σ}
    {observed : Ends → List Bytes} (hc : S.net.conn (p, S.count p) = some c)
    (hset : c.phase.settled = true) :
    Tracked prog { S with
      proc := Function.update S.proc p st
      count := Function.update S.count p (S.count p + 1)
      waiting := Function.update S.waiting p false
      observed := observed } := by
  refine ⟨?_, ?_, ?_, ?_⟩
  · intro q n hn
    by_cases hq : q = p
    · subst hq
      simp only [Function.update_self] at hn
      exact h.fresh q n (by omega)
    · simp only [Function.update_of_ne hq] at hn
      exact h.fresh q n hn
  · intro q hw
    by_cases hq : q = p
    · subst hq
      simp only [Function.update_self]
      exact h.fresh q _ (by omega)
    · simp only [Function.update_of_ne hq] at hw ⊢
      exact h.idle q hw
  · intro q d hd
    by_cases hq : q = p
    · subst hq
      simp only [Function.update_self] at hd
      rw [h.fresh q _ (by omega)] at hd
      cases hd
    · simp only [Function.update_of_ne hq] at hd ⊢
      exact h.asked q d hd
  · intro q n d hn hd
    by_cases hq : q = p
    · subst hq
      simp only [Function.update_self] at hn
      rcases Nat.lt_succ_iff_lt_or_eq.mp hn with hn | rfl
      · exact h.past q n d hn hd
      · cases hd.symm.trans hc
        exact hset
    · simp only [Function.update_of_ne hq] at hn
      exact h.past q n d hn hd

theorem Tracked.transport {place : Deployment prog} {S : System P σ O} (h : Tracked prog S)
    {a : Action (P × Nat)} {net : State (P × Nat)} {e : Option (Event (P × Nat))}
    (ha : a.internal = true) (heff : Effect place.config S.net a net e) :
    Tracked prog { S with net } := by
  have hnone : ∀ j, S.net.conn j = none → net.conn j = none := by
    intro j hj
    rcases heff.connMove j with ⟨hn, _⟩ | ⟨_, _, rfl, _⟩ | ⟨c, _, _, hc, _⟩
    · exact hn
    · cases ha
    · cases hj.symm.trans hc
  have hsome : ∀ j c', net.conn j = some c' → ∃ c, S.net.conn j = some c ∧ c'.request = c.request ∧
      (c.phase.settled = true → c'.phase.settled = true) := by
    intro j c' hc'
    rcases heff.connMove j with ⟨hn, _⟩ | ⟨_, _, rfl, _⟩ | ⟨c, c₁, v, hc, hc₁, _, hr, hm, _⟩
    · cases hn.symm.trans hc'
    · cases ha
    · cases hc₁.symm.trans hc'
      exact ⟨c, hc, hr, fun hs => hm.settled.2 (Or.inl hs)⟩
  refine ⟨fun p n hn => hnone _ (h.fresh p n hn), fun p hw => hnone _ (h.idle p hw), ?_, ?_⟩
  · intro p c' hc'
    obtain ⟨c, hc, hr, _⟩ := hsome _ c' hc'
    rw [hr]
    exact h.asked p c hc
  · intro p n c' hn hc'
    obtain ⟨c, hc, _, hset⟩ := hsome _ c' hc'
    exact hset (h.past p n c hn hc)

theorem Tracked.moves {place : Deployment prog} {S S' : System P σ O} {e : Option (Event (P × Nat))}
    (h : Tracked prog S) (hm : prog.Moves place S S' e) : Tracked prog S' := by
  cases hm with
  | @issue p request hw hr hc =>
    have hold : ∀ {j}, j ≠ (p, S.count p) →
        (S.net.connected (p, S.count p) (place.slot p) request).conn j = S.net.conn j :=
      fun hj => Function.update_of_ne hj ..
    refine ⟨?_, ?_, ?_, ?_⟩
    · intro q n hn
      have hn' : S.count q < n := hn
      rw [hold fun he => by cases he; omega]
      exact h.fresh q n hn'
    · intro q hw'
      by_cases hq : q = p
      · subst hq
        simp at hw'
      · simp only [Function.update_of_ne hq] at hw'
        rw [hold fun he => hq (Prod.mk.inj he).1]
        exact h.idle q hw'
    · intro q c hc'
      by_cases hq : q = p
      · subst hq
        simp only [State.connected, Function.update_self, Option.some.injEq] at hc'
        rw [← hc']
        exact hr
      · rw [hold fun he => hq (Prod.mk.inj he).1] at hc'
        exact h.asked q c hc'
    · intro q n c hn hc'
      have hn' : n < S.count q := hn
      rw [hold fun he => by cases he; omega] at hc'
      exact h.past q n c hn' hc'
  | transport ha hs => exact h.transport ha (step_effect hs)
  | written hw ha hc hph => exact h.answered hc (by rw [hph]; rfl)
  | read hw ha hc hph => exact h.answered hc (by rw [hph]; rfl)
  | @emit p o k hw ha =>
    refine ⟨h.fresh, h.idle, ?_, h.past⟩
    intro q c hc
    by_cases hq : q = p
    · subst hq
      cases (h.idle q hw).symm.trans hc
    · simp only [Function.update_of_ne hq]
      exact h.asked q c hc

theorem tracked_reach {place : Deployment prog} {S : System P σ O} {log : List (Event (P × Nat))}
    (h : prog.Reach place S log) : Tracked prog S := by
  induction h with
  | init => exact tracked_init
  | step _ hs ih => exact ih.moves (step_moves hs)

theorem Tracked.event {place : Deployment prog} {S : System P σ O} (h : Tracked prog S)
    {a : Action (P × Nat)} {net : State (P × Nat)} {v : Event (P × Nat)}
    (heff : Effect place.config S.net a net (some v)) :
    ∃ p c, v.owner = (p, S.count p) ∧ S.net.conn (p, S.count p) = some c ∧
      c.phase.settled = false ∧ c.request.name = v.name ∧
      prog.request p (prog.act p (S.proc p)) = some c.request := by
  obtain ⟨c, hc, hset, hname⟩ := event_conn heff
  generalize v.owner = i at hc
  obtain ⟨p, n⟩ := i
  have hn : n = S.count p := by
    rcases Nat.lt_trichotomy n (S.count p) with hn | hn | hn
    · rw [h.past p n c hn hc] at hset
      cases hset
    · exact hn
    · cases (h.fresh p n hn).symm.trans hc
  subst hn
  exact ⟨p, c, rfl, hc, hset, hname, h.asked p c hc⟩

theorem view_issue (place : Deployment prog) {S : System P σ O} {p : P} {request : Request}
    (hc : S.net.conn (p, S.count p) = none) :
    prog.view place { S with
      net := S.net.connected (p, S.count p) (place.slot p) request
      waiting := Function.update S.waiting p true } = prog.view place S := by
  refine Kahn.State.ext ?_ rfl ?_ rfl
  · funext q
    simp only [view, entered_connected hc, taken_connected hc]
  · funext c
    simp only [view, taken_connected hc]

theorem view_answered (place : Deployment prog) {S : System P σ O} (h : Tracked prog S)
    {p : P} {st : σ} {observed : Ends → List Bytes} (hst : (prog.view place S).proc p = st)
    (hobserved : ∀ c, p ≠ prog.consumer c → observed c = S.observed c)
    (hown : ∀ c, p = prog.consumer c → observed c = (prog.view place S).received c) :
    prog.view place { S with
      proc := Function.update S.proc p st
      count := Function.update S.count p (S.count p + 1)
      waiting := Function.update S.waiting p false
      observed := observed } = prog.view place S := by
  have hnone := h.fresh p (S.count p + 1) (by omega)
  refine Kahn.State.ext ?_ rfl ?_ rfl
  · funext q
    by_cases hq : q = p
    · subst hq
      rw [hst]
      simp only [view, Function.update_self, entered_of_none hnone, taken_of_none hnone,
        advance_idle]
    · simp only [view, Function.update_of_ne hq]
  · funext c
    by_cases hc : p = prog.consumer c
    · subst hc
      rw [← hown c rfl]
      simp only [view, Function.update_self, taken_of_none hnone, unseen_none, Option.toList_none,
        List.append_nil]
    · simp only [view, Function.update_of_ne (Ne.symm hc), hobserved c hc]

theorem view_emit (place : Deployment prog) {S : System P σ O} {p : P} {o : O} {k : σ}
    (hc : S.net.conn (p, S.count p) = none) :
    prog.view place { S with
      proc := Function.update S.proc p k
      emitted := Function.update S.emitted p (S.emitted p ++ [o]) } =
    { prog.view place S with
      proc := Function.update (prog.view place S).proc p k
      emitted := Function.update S.emitted p (S.emitted p ++ [o]) } := by
  refine Kahn.State.ext ?_ rfl ?_ rfl
  · funext q
    by_cases hq : q = p
    · subst hq
      simp only [view, Function.update_self, entered_of_none hc, taken_of_none hc, advance_idle]
    · simp only [view, Function.update_of_ne hq]
  · funext c
    by_cases hq : prog.consumer c = p
    · subst hq
      simp only [view, Function.update_self, taken_of_none hc, unseen_none]
    · simp only [view, Function.update_of_ne hq]

section Transport

variable {place : Deployment prog} {S : System P σ O} {a : Action (P × Nat)} {net : State (P × Nat)}
  {e : Option (Event (P × Nat))}

theorem view_proc_other (heff : Effect place.config S.net a net e) {q : P}
    (he : ∀ v ∈ e, v.owner ≠ (q, S.count q)) :
    (prog.view place { S with net }).proc q = (prog.view place S).proc q := by
  obtain ⟨hentered, htaken⟩ := outcome_other heff he
  simp only [view, hentered, htaken]

theorem view_received_other (heff : Effect place.config S.net a net e) {c : Ends}
    (he : ∀ v ∈ e, v.owner ≠ (prog.consumer c, S.count (prog.consumer c))) :
    (prog.view place { S with net }).received c = (prog.view place S).received c := by
  obtain ⟨_, htaken⟩ := outcome_other heff he
  simp only [view, htaken]

theorem view_chan_other (hinv : Invariant place.config S.net)
    (heff : Effect place.config S.net a net e) {c : Ends} (he : ∀ v ∈ e, v.name ≠ pipeOf c) :
    (prog.view place { S with net }).chan c = (prog.view place S).chan c := by
  simp only [view]
  split
  · rename_i hj
    rcases contents_step hinv heff (ends_of_coords place hj.1 hj.2) with
      ⟨_, h⟩ | ⟨i, payload, rfl, _⟩ | ⟨i, data, rfl, _⟩
    · exact h
    · exact absurd rfl (he _ rfl)
    · exact absurd rfl (he _ rfl)
  · rfl

theorem view_quiet (hinv : Invariant place.config S.net)
    (heff : Effect place.config S.net a net none) :
    prog.view place { S with net } = prog.view place S := by
  refine Kahn.State.ext ?_ ?_ ?_ rfl
  · exact funext fun q => view_proc_other heff (by simp)
  · exact funext fun c => view_chan_other hinv heff (by simp)
  · exact funext fun c => view_received_other heff (by simp)

theorem view_enqueue (ht : Tracked prog S) (hinv : Invariant place.config S.net)
    {i : P × Nat} {x : Text} {payload : Bytes}
    (heff : Effect place.config S.net a net (some (.enqueue i x payload))) :
    ∃ p, Kahn.Fires prog.network (prog.view place S) p (prog.view place { S with net }) := by
  obtain ⟨p, conn, rfl, hc, hset, hx, hr⟩ := ht.event heff
  obtain ⟨hentered, conn', path, hc', hw⟩ := entered_enqueue heff
  cases hc.symm.trans hc'
  rw [hw] at hr hx
  obtain ⟨c, k, ha, rfl⟩ := request_write hr
  obtain rfl : pipeOf c = x := (prog.path_name p c).symm.trans hx
  obtain ⟨rfl, hp, hq⟩ := prog.send_ends ha
  have hproc : (prog.view place S).proc (prog.producer c) = S.proc (prog.producer c) := by
    obtain ⟨hentered, htaken⟩ := outcome_unsettled hc hset
    simp only [view, hentered, htaken, advance_idle]
  have hchan : (prog.view place { S with net }).chan c = (prog.view place S).chan c ++
      [payload] := by
    simp only [view, if_pos (And.intro hp hq)]
    rcases contents_step hinv heff (ends_of_coords place hp hq) with
      ⟨he, _⟩ | ⟨i, v, he, h⟩ | ⟨i, v, he, _⟩
    · exact absurd rfl (he _ rfl)
    · cases he
      exact h
    · cases he
  have hview : prog.view place { S with net } = { prog.view place S with
      proc := Function.update (prog.view place S).proc (prog.producer c) k
      chan := Function.update (prog.view place S).chan c
        ((prog.view place S).chan c ++ [payload]) } := by
    refine Kahn.State.ext (Function.eq_update_iff.mpr ⟨?_, ?_⟩)
      (Function.eq_update_iff.mpr ⟨hchan, ?_⟩) (funext fun d => ?_) rfl
    · simp only [view, hentered, ha, advance, if_true]
    · exact fun q hq => view_proc_other heff (owner_ne rfl hq)
    · exact fun d hd => view_chan_other hinv heff (name_ne rfl hd)
    · by_cases hd : prog.consumer d = prog.producer c
      · simp only [view, hd, ha, unseen]
      · exact view_received_other heff (owner_ne rfl hd)
  rw [hview]
  exact ⟨_, .send (by rw [hproc]; exact ha)⟩

theorem view_dequeue (ht : Tracked prog S) (hinv : Invariant place.config S.net)
    {i : P × Nat} {x : Text} {data : Bytes}
    (heff : Effect place.config S.net a net (some (.dequeue i x data))) :
    ∃ p, Kahn.Fires prog.network (prog.view place S) p (prog.view place { S with net }) := by
  obtain ⟨p, conn, rfl, hc, hset, hx, hr⟩ := ht.event heff
  obtain ⟨conn', path, hc', hw, _⟩ := dequeue_request hinv heff
  cases hc.symm.trans hc'
  rw [hw] at hr hx
  obtain ⟨c, k, ha, rfl⟩ := request_read hr
  obtain rfl : pipeOf c = x := (prog.path_name p c).symm.trans hx
  obtain ⟨rfl, hq, hp⟩ := prog.recv_ends ha
  have htaken := taken_dequeue heff
  obtain ⟨hentered, hnone⟩ := outcome_unsettled hc hset
  have hproc : (prog.view place S).proc (prog.consumer c) = S.proc (prog.consumer c) := by
    simp only [view, hentered, hnone, advance_idle]
  have hchan : (prog.view place S).chan c = data :: (prog.view place { S with net }).chan c := by
    simp only [view, if_pos (And.intro hp hq)]
    rcases contents_step hinv heff (ends_of_coords place hp hq) with
      ⟨he, _⟩ | ⟨i, v, he, _⟩ | ⟨i, v, he, h⟩
    · exact absurd rfl (he _ rfl)
    · cases he
    · cases he
      exact h
  have hview : prog.view place { S with net } = { prog.view place S with
      proc := Function.update (prog.view place S).proc (prog.consumer c) (k data)
      chan := Function.update (prog.view place S).chan c ((prog.view place { S with net }).chan c)
      received := Function.update (prog.view place S).received c
        ((prog.view place S).received c ++ [data]) } := by
    refine Kahn.State.ext (Function.eq_update_iff.mpr ⟨?_, ?_⟩)
      (Function.eq_update_iff.mpr ⟨rfl, ?_⟩)
      (Function.eq_update_iff.mpr ⟨?_, ?_⟩) rfl
    · simp only [view, htaken, ha, advance]
    · exact fun q hq => view_proc_other heff (owner_ne rfl hq)
    · exact fun d hd => view_chan_other hinv heff (name_ne rfl hd)
    · simp [view, htaken, hnone, ha, unseen]
    · intro d hd
      by_cases hdc : prog.consumer d = prog.consumer c
      · simp [view, hdc, ha, unseen, Ne.symm hd]
      · exact view_received_other heff (owner_ne rfl hdc)
  rw [hview]
  exact ⟨_, .recv (by rw [hproc]; exact ha) hchan (by simp [network])⟩

end Transport

/-- A step of the system is a step of its network of queues, or none. -/
theorem view_moves {place : Deployment prog} {S S' : System P σ O} {e : Option (Event (P × Nat))}
    (ht : Tracked prog S) (hinv : Invariant place.config S.net) (h : prog.Moves place S S' e) :
    prog.view place S' = prog.view place S ∨
      ∃ p, Kahn.Fires prog.network (prog.view place S) p (prog.view place S') := by
  cases h with
  | issue hw hr hc => exact Or.inl (view_issue place hc)
  | transport ha hs =>
    have heff := step_effect hs
    cases e with
    | none => exact Or.inl (view_quiet hinv heff)
    | some v =>
      cases v with
      | enqueue i x payload => exact Or.inr (view_enqueue ht hinv heff)
      | dequeue i x data => exact Or.inr (view_dequeue ht hinv heff)
  | @written p c v k conn hw ha hc hph =>
    have hentered : S.net.entered (p, S.count p) = true := by
      simp [State.entered, hc, hph, Phase.entered]
    refine Or.inl (view_answered place ht ?_ (fun _ _ => rfl) ?_)
    · simp only [view, ha, advance, hentered, if_true]
    · rintro d rfl
      simp only [view, ha, unseen, Option.toList_none, List.append_nil]
  | @read p c n k conn data hw ha hc hph =>
    have htaken : S.net.taken (p, S.count p) = some data := by
      simp [State.taken, hc, hph, Phase.data]
    obtain ⟨rfl, _⟩ := prog.recv_ends ha
    refine Or.inl (view_answered place ht ?_ ?_ ?_)
    · simp only [view, ha, advance, htaken]
    · intro d hd
      exact Function.update_of_ne (fun he => hd (by rw [he])) ..
    · intro d hd
      by_cases hdc : d = c
      · subst hdc
        simp [view, ha, unseen, htaken]
      · simp [view, ← hd, ha, unseen, Ne.symm hdc, Function.update_of_ne hdc]
  | @emit p o k hw ha =>
    have hc := ht.idle p hw
    have hproc : (prog.view place S).proc p = S.proc p := by
      simp only [view, entered_of_none hc, taken_of_none hc, advance_idle]
    rw [view_emit place hc]
    exact Or.inr ⟨p, .emit (by rw [hproc]; exact ha)⟩

theorem steps_view {place : Deployment prog} {S : System P σ O} {log : List (Event (P × Nat))}
    (h : prog.Reach place S log) : Kahn.Steps prog.network prog.origin (prog.view place S) := by
  induction h with
  | init => exact view_init place ▸ .refl
  | step hreach hs ih =>
    rcases view_moves (tracked_reach hreach) (invariant_run hreach.placed) (step_moves hs) with
      hv | ⟨p, hp⟩
    · rw [hv]
      exact ih
    · exact ih.tail ⟨p, hp⟩

end Program

end ChipSystemSim
