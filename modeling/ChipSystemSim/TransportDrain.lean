import ChipSystemSim.TransportFifo

/-! What the transport can always still do: the two loops of a link, over rings of any
size, bring every payload to its reader's gateway and complete every write. -/

namespace ChipSystemSim

variable {ι : Type}

/-- The link whose loop takes the step. -/
def Action.link : Action ι → Option (Slot × Slot)
  | pick slot peer | allocFail slot peer | send slot peer | finish slot peer | receive slot peer
  | notify slot peer => some (slot, peer)
  | _ => none

/-- `SimbricksBaseIfOutAlloc` finds an entry exactly where the ring is not full. -/
def Action.Fits (capacity : Nat) (s : State ι) : Action ι → Prop
  | send slot peer => (s.gateway slot peer).ring.length < capacity
  | allocFail slot peer => capacity ≤ (s.gateway slot peer).ring.length
  | _ => True

variable [DecidableEq ι]

/-- A step of one of the two loops between `a` and `b`, whose rings have `capacity` entries. -/
def LoopStep (cfg : Config) (capacity : Nat) (a b : Slot) (s t : State ι) : Prop :=
  ∃ act, (act.link = some (a, b) ∨ act.link = some (b, a)) ∧ act.Fits capacity s ∧
    step cfg s act = some (t, none)

abbrev LoopRun (cfg : Config) (capacity : Nat) (a b : Slot) : State ι → State ι → Prop :=
  Relation.ReflTransGen (LoopStep cfg capacity a b)

section Steps

variable {cfg : Config} {capacity : Nat} {a b : Slot} {s t u : State ι} {log : List (Event ι)}

theorem LoopStep.symm (h : LoopStep cfg capacity a b s t) : LoopStep cfg capacity b a s t := by
  obtain ⟨act, hlink, hrest⟩ := h
  exact ⟨act, hlink.symm, hrest⟩

theorem LoopRun.symm (h : LoopRun cfg capacity a b s t) : LoopRun cfg capacity b a s t := by
  induction h with
  | refl => exact .refl
  | tail _ hstep ih => exact ih.tail hstep.symm

theorem LoopStep.run (hrun : Run cfg (Placed cfg) s log) (h : LoopStep cfg capacity a b s t) :
    Run cfg (Placed cfg) t log := by
  obtain ⟨act, hlink, _, hstep⟩ := h
  have hplaced : Placed cfg s act := by
    cases act <;> first | trivial | simp [Action.link] at hlink
  simpa using hrun.step hplaced hstep

/-- A loop changes the phase of a client in two ways only. -/
theorem LoopStep.conn (h : LoopStep cfg capacity a b s t) (i : ι) :
    t.conn i = s.conn i ∨ t.conn i = (s.conn i).map Conn.complete ∨
      ∃ x y, t.conn i = (s.conn i).map (Conn.notifyGateway x y) := by
  obtain ⟨act, hlink, _, hstep⟩ := h
  cases step_effect hstep with
  | connect => simp [Action.link] at hlink
  | phase ha => cases act <;> simp [Action.link, Action.client] at hlink ha
  | close => simp [Action.link] at hlink
  | pick => exact Or.inl rfl
  | allocFail => exact Or.inl rfl
  | send => exact Or.inl rfl
  | @finish slot peer p hl =>
    by_cases hi : i = p.owner
    · subst hi
      exact Or.inr (Or.inl (Function.update_self ..))
    · exact Or.inl (Function.update_of_ne hi ..)
  | receive => exact Or.inl rfl
  | drop => exact Or.inl rfl
  | notify => exact Or.inr (Or.inr ⟨_, _, rfl⟩)
  | terminate => simp [Action.link] at hlink

theorem LoopStep.stopping (h : LoopStep cfg capacity a b s t) (x y : Slot) :
    (t.gateway x y).stopping = (s.gateway x y).stopping := by
  have hset : ∀ {s₀ : State ι} {slot peer : Slot} {g : Gateway ι},
      (s₀.gateway x y).stopping = (s.gateway x y).stopping →
        g.stopping = (s.gateway slot peer).stopping →
      ((s₀.setGateway slot peer g).gateway x y).stopping = (s.gateway x y).stopping := fun h₀ hg =>
    State.setGateway_elim (P := fun x y g => g.stopping = (s.gateway x y).stopping) h₀ hg
  obtain ⟨act, hlink, _, hstep⟩ := h
  cases step_effect hstep with
  | connect => simp [Action.link] at hlink
  | phase ha => cases act <;> simp [Action.link, Action.client] at hlink ha
  | close => simp [Action.link] at hlink
  | pick => exact hset rfl rfl
  | allocFail => exact hset rfl rfl
  | send => exact hset rfl rfl
  | finish => exact hset rfl rfl
  | receive => exact hset (hset rfl rfl) rfl
  | drop => exact hset rfl rfl
  | notify => exact hset rfl rfl
  | terminate => simp [Action.link] at hlink

omit [DecidableEq ι] in
theorem PipeMove.silent_contents {x : Text} {done : ι → Prop} {p p' : Pipe ι}
    (h : PipeMove x done p none p') : p'.contents = p.contents := by
  cases h with
  | stay => rfl
  | send hpending hsending => simp [Pipe.contents, hpending, hsending]
  | finish hpending hsending => simp [Pipe.contents, hpending, hsending]

theorem LoopStep.contents (hinv : Invariant cfg s) (h : LoopStep cfg capacity a b s t) {x : Text}
    {c d : Slot} (hx : PipeEnds cfg.routing x c d) :
    (t.pipe c d x).contents = (s.pipe c d x).contents := by
  obtain ⟨act, _, _, hstep⟩ := h
  exact (pipeMove_step hinv (step_effect hstep) hx).silent_contents

/-- A client that waits at its gateway for a write. -/
def State.WritesTo (s : State ι) (i : ι) (a b : Slot) : Prop :=
  ∃ c done, s.conn i = some c ∧ c.slot = a ∧ c.phase = .gatewayWrite b done

/-- A client that waits at its gateway for a read of a pipe. -/
def State.ReadsFrom (s : State ι) (i : ι) (a b : Slot) (request : Request)
    (notified : Bool) : Prop :=
  ∃ c, s.conn i = some c ∧ c.slot = b ∧ c.request = request ∧ c.phase = .gatewayRead a notified

theorem LoopStep.writesTo (h : LoopStep cfg capacity a b s t) {i : ι} {x y : Slot}
    (hi : s.WritesTo i x y) : t.WritesTo i x y := by
  obtain ⟨c, done, hc, hslot, hphase⟩ := hi
  rcases h.conn i with hsame | hcomplete | ⟨slot, peer, hnotify⟩
  · exact ⟨c, done, hsame.trans hc, hslot, hphase⟩
  · refine ⟨c.complete, true, by rw [hcomplete, hc, Option.map_some], ?_, ?_⟩
    · simpa [Conn.complete, hphase] using hslot
    · simp [Conn.complete, hphase]
  · refine ⟨c, done, by rw [hnotify, hc, Option.map_some, Conn.notifyGateway, hphase],
      hslot, hphase⟩

theorem LoopStep.readsFrom (h : LoopStep cfg capacity a b s t) {i : ι} {x y : Slot}
    {request : Request} {notified : Bool} (hi : s.ReadsFrom i x y request notified) :
    ∃ notified', t.ReadsFrom i x y request notified' ∧ (notified = true → notified' = true) := by
  obtain ⟨c, hc, hslot, hrequest, hphase⟩ := hi
  rcases h.conn i with hsame | hcomplete | ⟨slot, peer, hnotify⟩
  · exact ⟨notified, ⟨c, hsame.trans hc, hslot, hrequest, hphase⟩, id⟩
  · exact ⟨notified, ⟨c, by rw [hcomplete, hc, Option.map_some, Conn.complete, hphase], hslot,
      hrequest, hphase⟩, id⟩
  · rw [hc, Option.map_some, Conn.notifyGateway, hphase] at hnotify
    dsimp only at hnotify
    split at hnotify
    · exact ⟨true, ⟨_, hnotify, hslot, hrequest, rfl⟩, fun _ => rfl⟩
    · exact ⟨notified, ⟨c, hnotify, hslot, hrequest, hphase⟩, id⟩

/-- The loops make no client a reader. -/
theorem LoopStep.readsFrom_before (h : LoopStep cfg capacity a b s t) {i : ι} {x y : Slot}
    {request : Request} {notified : Bool} (hi : t.ReadsFrom i x y request notified) :
    ∃ notified', s.ReadsFrom i x y request notified' ∧ (notified' = true → notified = true) := by
  obtain ⟨c', hc', hslot, hrequest, hphase⟩ := hi
  cases hc : s.conn i with
  | none => rcases h.conn i with hmove | hmove | ⟨slot, peer, hmove⟩ <;> simp [hmove, hc] at hc'
  | some c =>
    rcases h.conn i with hmove | hmove | ⟨slot, peer, hmove⟩
    · rw [hmove, hc, Option.some.injEq] at hc'
      subst hc'
      exact ⟨notified, ⟨c, hc, hslot, hrequest, hphase⟩, id⟩
    · obtain ⟨hslot', hrequest', _⟩ := Conn.complete_spec cfg s trivial c
      rw [hmove, hc, Option.map_some, Option.some.injEq] at hc'
      subst hc'
      rw [hslot'] at hslot
      rw [hrequest'] at hrequest
      unfold Conn.complete at hphase
      split at hphase
      · cases hphase
      · exact ⟨notified, ⟨c, hc, hslot, hrequest, hphase⟩, id⟩
    · obtain ⟨hslot', hrequest', _⟩ := Conn.notifyGateway_spec cfg s True slot peer c
      rw [hmove, hc, Option.map_some, Option.some.injEq] at hc'
      subst hc'
      rw [hslot'] at hslot
      rw [hrequest'] at hrequest
      unfold Conn.notifyGateway at hphase
      split at hphase
      · rename_i p n hread
        split at hphase
        · cases hphase
          exact ⟨n, ⟨c, hc, hslot, hrequest, hread⟩, fun _ => rfl⟩
        · exact ⟨notified, ⟨c, hc, hslot, hrequest, hphase⟩, id⟩
      · exact ⟨notified, ⟨c, hc, hslot, hrequest, hphase⟩, id⟩

/-- Each read of a queue that has changed is notified, or will be in the next step of its
gateway. -/
def State.Rouses (s : State ι) (a b : Slot) (before : Text → List Bytes) : Prop :=
  (s.gateway b a).loop = .notifying ∨ ∀ i request notified, s.ReadsFrom i a b request notified →
    (s.gateway b a).incoming request.name = before request.name ∨ notified = true

theorem LoopStep.rouses (hab : a ≠ b) {before : Text → List Bytes} (hs : s.Rouses a b before)
    (h : LoopStep cfg capacity a b s t) : t.Rouses a b before := by
  -- a step that leaves the queues and the notification of the reading gateway alone
  have hkept : (t.gateway b a).incoming = (s.gateway b a).incoming →
      ((s.gateway b a).loop = .notifying → (t.gateway b a).loop = .notifying) →
        t.Rouses a b before := by
    intro hincoming hloop
    refine hs.imp hloop fun hs i request notified hi => ?_
    obtain ⟨notified', hi', hmono⟩ := h.readsFrom_before hi
    rw [hincoming]
    exact (hs i request notified' hi').imp_right hmono
  have hset : ∀ {slot peer : Slot} {g : Gateway ι}, t.gateway = (s.setGateway slot peer g).gateway →
      g.incoming = (s.gateway slot peer).incoming →
      ((s.gateway slot peer).loop = .notifying → g.loop = .notifying) → t.Rouses a b before := by
    intro slot peer g ht hincoming hloop
    obtain ⟨hincoming, hloop⟩ : ((s.setGateway slot peer g).gateway b a).incoming =
        (s.gateway b a).incoming ∧
        ((s.gateway b a).loop = .notifying → ((s.setGateway slot peer g).gateway b a).loop =
          .notifying) :=
      State.setGateway_elim (P := fun x y g => g.incoming = (s.gateway x y).incoming ∧
        ((s.gateway x y).loop = .notifying → g.loop = .notifying)) ⟨rfl, id⟩ ⟨hincoming, hloop⟩
    rw [← ht] at hincoming hloop
    exact hkept hincoming hloop
  have hfar : ∀ (s₀ : State ι) (g : Gateway ι), (s₀.setGateway a b g).gateway b a =
      s₀.gateway b a :=
    fun s₀ g => State.setGateway_gateway_of_ne s₀ g fun hba => hab hba.2
  obtain ⟨act, hlink, _, hstep⟩ := h
  cases step_effect hstep with
  | connect => simp [Action.link] at hlink
  | phase ha => cases act <;> simp [Action.link, Action.client] at hlink ha
  | close => simp [Action.link] at hlink
  | pick hl => exact hset rfl rfl fun hn => by cases hl.symm.trans hn
  | allocFail hl => exact hset rfl rfl fun hn => by cases hl.symm.trans hn
  | send hl => exact hset rfl rfl fun hn => by cases hl.symm.trans hn
  | finish hl => exact hset rfl rfl fun hn => by cases hl.symm.trans hn
  | @receive slot peer name payload rest =>
    simp only [Action.link, Option.some.injEq, Prod.mk.injEq] at hlink
    rcases hlink with ⟨rfl, rfl⟩ | ⟨rfl, rfl⟩
    · refine hkept ?_ ?_
      · rw [hfar, State.setGateway_gateway_self]
      · rw [hfar, State.setGateway_gateway_self]
        exact id
    · exact Or.inl (by rw [State.setGateway_gateway_self])
  | drop => exact hset rfl rfl id
  | @notify slot peer =>
    simp only [Action.link, Option.some.injEq, Prod.mk.injEq] at hlink
    rcases hlink with ⟨rfl, rfl⟩ | ⟨rfl, rfl⟩
    · refine hkept ?_ ?_
      · rw [State.notifyGateway_gateway, hfar]
      · rw [State.notifyGateway_gateway, hfar]
        exact id
    · refine Or.inr fun i request notified hi => Or.inr ?_
      obtain ⟨c', hc', hslot, _, hphase⟩ := hi
      obtain ⟨c, hc, rfl⟩ := Option.map_eq_some_iff.mp hc'
      have hslot' := (Conn.notifyGateway_spec cfg s True slot peer c).1
      rw [hslot'] at hslot
      unfold Conn.notifyGateway at hphase
      split at hphase
      · rename_i p n hread
        split at hphase
        · cases hphase
          rfl
        · rename_i hnot
          cases hread.symm.trans hphase
          exact absurd ⟨hslot, rfl⟩ hnot
      · rename_i hnot
        exact absurd hphase (hnot _ _)
  | terminate => simp [Action.link] at hlink

/-- A write leaves the queue of its gateway only when the loop has finished it. -/
theorem outgoing_kept {act : Action ι} {e : Option (Event ι)} (hok : ∀ x y, (s.gateway x y).Ok)
    (h : Effect cfg s act t e) {x y : Slot} {p : Pending ι} (hp : p ∈ (s.gateway x y).outgoing) :
    p ∈ (t.gateway x y).outgoing ∨ act = .finish x y ∧ (s.gateway x y).loop = .sent p := by
  have hset : ∀ {s₀ : State ι} {slot peer : Slot} {g : Gateway ι},
      p ∈ (s₀.gateway x y).outgoing → (p ∈ (s.gateway slot peer).outgoing → p ∈ g.outgoing) →
      p ∈ ((s₀.setGateway slot peer g).gateway x y).outgoing := fun h₀ hg =>
    State.setGateway_elim (P := fun x y g => p ∈ (s.gateway x y).outgoing → p ∈ g.outgoing)
      (fun _ => h₀) hg hp
  cases h with
  | connect => exact Or.inl hp
  | phase => exact Or.inl hp
  | close => exact Or.inl hp
  | localWrite => exact Or.inl hp
  | localRead => exact Or.inl hp
  | gatewayWrite => exact Or.inl (hset hp fun hq => List.mem_append_left _ hq)
  | gatewayRead => exact Or.inl (hset hp id)
  | pick => exact Or.inl (hset hp id)
  | allocFail => exact Or.inl (hset hp id)
  | send => exact Or.inl (hset hp id)
  | @finish slot peer q hl =>
    by_cases hxy : x = slot ∧ y = peer
    · obtain ⟨rfl, rfl⟩ := hxy
      obtain ⟨rest, hrest⟩ := List.head?_eq_some_iff.mp ((hok x y).front q (Or.inr hl))
      rw [hrest] at hp
      rcases List.mem_cons.mp hp with rfl | hp
      · exact Or.inr ⟨rfl, hl⟩
      · refine Or.inl ?_
        change p ∈ ((s.setGateway x y _).gateway x y).outgoing
        rw [State.setGateway_gateway_self, hrest]
        simpa using hp
    · refine Or.inl ?_
      change p ∈ ((s.setGateway slot peer _).gateway x y).outgoing
      rw [State.setGateway_gateway_of_ne _ _ hxy]
      exact hp
  | receive => exact Or.inl (hset (hset hp id) id)
  | drop => exact Or.inl (hset hp id)
  | notify => exact Or.inl (hset hp id)
  | terminate => exact Or.inl (hset hp id)

def WritesQueued (s : State ι) : Prop :=
  ∀ i c peer, s.conn i = some c → c.phase = .gatewayWrite peer false →
    ∃ p ∈ (s.gateway c.slot peer).outgoing, p.owner = i

theorem writesQueued_step {act : Action ι} {e : Option (Event ι)} (hok : ∀ x y, (s.gateway x y).Ok)
    (hs : WritesQueued s) (h : Effect cfg s act t e) : WritesQueued t := by
  intro i c' peer hc' hphase
  rcases h.connMove i with ⟨hnone, _⟩ | ⟨slot, request, _, _, hnew, _⟩ |
    ⟨c, c₁, v, hc, hc₁, hslot, _, hmove, hown⟩
  · cases hc'.symm.trans hnone
  · cases hc'.symm.trans hnew
    cases hphase
  · cases hc'.symm.trans hc₁
    rw [hslot]
    have hbefore : c.phase = .gatewayWrite peer false →
        ∃ p ∈ (t.gateway c.slot peer).outgoing, p.owner = i := by
      intro hph
      obtain ⟨p, hp, howner⟩ := hs i c peer hc hph
      rcases outgoing_kept hok h hp with hkept | ⟨rfl, hloop⟩
      · exact ⟨p, hkept, howner⟩
      · cases h with
        | phase ha => simp [Action.client] at ha
        | localRead ha => simp at ha
        | gatewayRead ha => simp at ha
        | finish hl =>
          cases hl.symm.trans hloop
          have hcompleted : (finishWrite s c.slot peer p).conn i = some c.complete := by
            simp [finishWrite, howner, hc]
          cases hc'.symm.trans hcompleted
          simp [Conn.complete, hph] at hphase
    generalize hph : c.phase = phase, hafter : c'.phase = after at hmove
    rw [hphase] at hafter
    cases hmove with
    | stay => exact hbefore (hph.trans hafter.symm)
    | notifyLocal => cases hafter
    | notifyGateway => cases hafter
    | complete => cases hafter
    | own hstep => cases hstep <;> cases hafter
    | localWrite => cases hafter
    | localRead => cases hafter
    | gatewayRead => cases hafter
    | @gatewayWrite peer' path payload hr =>
      have hpeer : peer' = peer := by
        split at hafter
        · cases hafter
        · cases hafter
          rfl
      subst hpeer
      have he : e = some (.enqueue i c.request.name payload) := hown
      cases h with
      | @localWrite i₀ c₀ path₀ payload₀ hc₀ hconnected =>
        have hi : i₀ = i := (Event.enqueue.inj (Option.some.inj he)).1
        subst hi
        cases hc.symm.trans hc₀
        cases hph.symm.trans hconnected
      | @gatewayWrite i₀ c₀ peer₀ path₀ payload₀ hc₀ hforwarded =>
        have hi : i₀ = i := (Event.enqueue.inj (Option.some.inj he)).1
        subst hi
        cases hc.symm.trans hc₀
        cases hph.symm.trans hforwarded
        rw [State.setPhase_gateway, State.setGateway_gateway_self]
        exact ⟨_, List.mem_append_right _ (List.mem_singleton_self _), rfl⟩
      | _ => cases he

theorem writes_queued (h : Run cfg (Placed cfg) s log) : WritesQueued s := by
  induction h with
  | init =>
    intro i c peer hc
    cases hc
  | step hrun _ hstep ih =>
    exact writesQueued_step (invariant_run hrun).gateways ih (step_effect hstep)

end Steps

/-- The two gateways of a link. -/
def State.Ends (s : State ι) (a b : Slot) (g k : Gateway ι) : Prop :=
  s.gateway a b = g ∧ s.gateway b a = k

section Ends

variable {cfg : Config} {capacity : Nat} {a b : Slot} {s : State ι} {g k : Gateway ι}

omit [DecidableEq ι] in
theorem State.Ends.symm (h : s.Ends a b g k) : s.Ends b a k g := ⟨h.2, h.1⟩

omit [DecidableEq ι] in
theorem ends_set (hab : a ≠ b) (h : s.Ends a b g k) (g' : Gateway ι) :
    (s.setGateway a b g').Ends a b g' k := by
  refine ⟨State.setGateway_gateway_self .., ?_⟩
  rw [State.setGateway_gateway_of_ne s g' fun hba => hab hba.2]
  exact h.2

section Acting

variable (hab : a ≠ b) (h : s.Ends a b g k)
include hab h

theorem pick_ends {p : Pending ι} {rest : List (Pending ι)} (hl : g.loop = .idle)
    (hstop : g.stopping = false) (ho : g.outgoing = p :: rest) :
    ∃ t, LoopStep cfg capacity a b s t ∧ t.Ends a b { g with loop := .picked p } k := by
  obtain ⟨rfl, hk⟩ := h
  refine ⟨_, ⟨.pick a b, Or.inl rfl, trivial, ?_⟩, ends_set hab ⟨rfl, hk⟩ _⟩
  simp only [step, hl, hstop, ho]

theorem send_ends {p : Pending ι} (hl : g.loop = .picked p) (hroom : g.ring.length < capacity) :
    ∃ t, LoopStep cfg capacity a b s t ∧
      t.Ends a b { g with ring := g.ring ++ [(p.name, p.payload)], loop := .sent p } k := by
  obtain ⟨rfl, hk⟩ := h
  refine ⟨_, ⟨.send a b, Or.inl rfl, hroom, ?_⟩, ends_set hab ⟨rfl, hk⟩ _⟩
  simp only [step, hl]

theorem allocFail_ends {p : Pending ι} (hl : g.loop = .picked p)
    (hfull : capacity ≤ g.ring.length) :
    ∃ t, LoopStep cfg capacity a b s t ∧ t.Ends a b { g with loop := .idle } k := by
  obtain ⟨rfl, hk⟩ := h
  refine ⟨_, ⟨.allocFail a b, Or.inl rfl, hfull, ?_⟩, ends_set hab ⟨rfl, hk⟩ _⟩
  simp only [step, hl]

theorem finish_ends {p : Pending ι} (hl : g.loop = .sent p) :
    ∃ t, LoopStep cfg capacity a b s t ∧ t.Ends a b
      { g with
        outgoing := if g.outgoing.head? = some p then g.outgoing.tail else g.outgoing
        loop := .idle } k := by
  obtain ⟨rfl, hk⟩ := h
  refine ⟨finishWrite s a b p, ⟨.finish a b, Or.inl rfl, trivial, ?_⟩, ends_set hab ⟨rfl, hk⟩ _⟩
  simp only [step, hl]

theorem notify_ends (hl : g.loop = .notifying) :
    ∃ t, LoopStep cfg capacity a b s t ∧ t.Ends a b { g with loop := .idle } k := by
  obtain ⟨rfl, hk⟩ := h
  refine ⟨(s.setGateway a b { s.gateway a b with loop := .idle }).notifyGateway a b,
    ⟨.notify a b, Or.inl rfl, trivial, ?_⟩, ends_set hab ⟨rfl, hk⟩ _⟩
  simp only [step, hl]

theorem receive_ends {name : Text} {payload : Bytes} {rest : List (Text × Bytes)}
    (hl : k.loop = .idle) (hstop : k.stopping = false) (hring : g.ring = (name, payload) :: rest)
    (hframe : FrameOk name payload) :
    ∃ t, LoopStep cfg capacity a b s t ∧ t.Ends a b { g with ring := rest }
      { k with
        incoming := Function.update k.incoming name (k.incoming name ++ [payload])
        loop := .notifying } := by
  have htaken := ends_set hab h { g with ring := rest }
  obtain ⟨rfl, rfl⟩ := h
  refine ⟨_, ⟨.receive b a, Or.inr rfl, trivial, ?_⟩, (ends_set hab.symm htaken.symm _).symm⟩
  simp only [step, if_neg hab.symm, hl, hstop, hring, if_pos hframe]

/-- A loop gets to its start, whatever it was in the middle of. -/
theorem settle_end (cfg : Config) (capacity : Nat) :
    ∃ t g', LoopRun cfg capacity a b s t ∧ t.Ends a b g' k ∧ g'.loop = .idle ∧
    g'.stopping = g.stopping := by
  cases hl : g.loop with
  | idle => exact ⟨s, g, .refl, h, hl, rfl⟩
  | notifying =>
    obtain ⟨t, hstep, ht⟩ := notify_ends hab h hl
    exact ⟨t, _, .single hstep, ht, rfl, rfl⟩
  | sent p =>
    obtain ⟨t, hstep, ht⟩ := finish_ends hab h hl
    exact ⟨t, _, .single hstep, ht, rfl, rfl⟩
  | picked p =>
    by_cases hroom : g.ring.length < capacity
    · obtain ⟨t, hsend, ht⟩ := send_ends hab h hl hroom
      obtain ⟨u, hfinish, hu⟩ := finish_ends hab ht rfl
      exact ⟨u, _, .head hsend (.single hfinish), hu, rfl, rfl⟩
    · obtain ⟨t, hstep, ht⟩ := allocFail_ends hab h hl (Nat.le_of_not_lt hroom)
      exact ⟨t, _, .single hstep, ht, rfl, rfl⟩

end Acting

theorem drain_ring (hab : a ≠ b) (h : s.Ends a b g k) (hl : k.loop = .idle)
    (hstop : k.stopping = false) (hframes : ∀ f ∈ g.ring, FrameOk f.1 f.2) :
    ∃ t k', LoopRun cfg capacity a b s t ∧ t.Ends a b { g with ring := [] } k' ∧ k'.loop = .idle ∧
      k'.stopping = false := by
  generalize hring : g.ring = ring
  induction ring generalizing s g k with
  | nil =>
    refine ⟨s, k, .refl, ?_, hl, hstop⟩
    rw [← hring]
    exact h
  | cons f rest ih =>
    obtain ⟨name, payload⟩ := f
    have hframe : FrameOk name payload := hframes (name, payload) (by simp [hring])
    obtain ⟨t, hreceive, ht⟩ := receive_ends hab h hl hstop hring hframe
    obtain ⟨u, hnotify, hu⟩ := notify_ends hab.symm ht.symm rfl
    obtain ⟨v, k', hrun, hv, hl', hstop'⟩ := ih hu.symm rfl hstop
      (fun f hf => hframes f (hring ▸ List.mem_cons_of_mem _ hf)) rfl
    exact ⟨v, k', .head hreceive (.head hnotify.symm hrun), hv, hl', hstop'⟩

theorem drain_outgoing (hab : a ≠ b) (hcapacity : 0 < capacity) (h : s.Ends a b g k)
    (hg : g.loop = .idle) (hrunning : g.stopping = false) (hring : g.ring = [])
    (hk : k.loop = .idle) (hstop : k.stopping = false)
    (hframes : ∀ p ∈ g.outgoing, FrameOk p.name p.payload) :
    ∃ t k', LoopRun cfg capacity a b s t ∧ t.Ends a b { g with outgoing := [] } k' ∧
    k'.loop = .idle := by
  generalize houtgoing : g.outgoing = outgoing
  induction outgoing generalizing s g k with
  | nil =>
    refine ⟨s, k, .refl, ?_, hk⟩
    rw [← houtgoing]
    exact h
  | cons p rest ih =>
    obtain ⟨t, hpick, ht⟩ := pick_ends hab h hg hrunning houtgoing
    obtain ⟨u, hsend, hu⟩ := send_ends hab ht rfl (by simpa [hring] using hcapacity)
    obtain ⟨v, hfinish, hv⟩ := finish_ends hab hu rfl
    have hframe : ∀ f ∈ g.ring ++ [(p.name, p.payload)], FrameOk f.1 f.2 := by
      intro f hf
      rw [hring, List.nil_append, List.mem_singleton] at hf
      rw [hf]
      exact hframes p (houtgoing ▸ List.mem_cons_self)
    obtain ⟨w, k', hdrain, hw, hk', hstop'⟩ := drain_ring hab hv hk hstop hframe
    have htail : (if g.outgoing.head? = some p then g.outgoing.tail else g.outgoing) = rest := by
      simp [houtgoing]
    obtain ⟨x, k'', hrest, hx, hidle⟩ := ih hw rfl hrunning rfl hk' hstop'
      (fun q hq => hframes q (houtgoing ▸ List.mem_cons_of_mem p (htail ▸ hq))) htail
    refine ⟨x, k'', .head hpick (.head hsend (.head hfinish (hdrain.trans hrest))), ?_, hidle⟩
    rw [← hg, ← hring] at hx
    exact hx

end Ends

section Draining

variable {cfg : Config} {capacity : Nat} {a b : Slot} {s t : State ι} {log : List (Event ι)}

theorem LoopRun.run (hrun : Run cfg (Placed cfg) s log) (h : LoopRun cfg capacity a b s t) :
    Run cfg (Placed cfg) t log := by
  induction h with
  | refl => exact hrun
  | tail _ hstep ih => exact hstep.run ih

theorem LoopRun.contents (hrun : Run cfg (Placed cfg) s log) (h : LoopRun cfg capacity a b s t)
    {x : Text} {c d : Slot} (hx : PipeEnds cfg.routing x c d) :
    (t.pipe c d x).contents = (s.pipe c d x).contents := by
  induction h with
  | refl => rfl
  | tail hbefore hstep ih =>
    exact (hstep.contents (invariant_run (LoopRun.run hrun hbefore)) hx).trans ih

theorem LoopRun.writesTo (h : LoopRun cfg capacity a b s t) {i : ι} {x y : Slot}
    (hi : s.WritesTo i x y) : t.WritesTo i x y := by
  induction h with
  | refl => exact hi
  | tail _ hstep ih => exact hstep.writesTo ih

theorem LoopRun.readsFrom (h : LoopRun cfg capacity a b s t) {i : ι} {x y : Slot}
    {request : Request} {notified : Bool} (hi : s.ReadsFrom i x y request notified) :
    ∃ notified', t.ReadsFrom i x y request notified' ∧ (notified = true → notified' = true) := by
  induction h with
  | refl => exact ⟨notified, hi, id⟩
  | tail _ hstep ih =>
    obtain ⟨before, hbefore, hmono⟩ := ih
    obtain ⟨after, hafter, hmono'⟩ := hstep.readsFrom hbefore
    exact ⟨after, hafter, hmono' ∘ hmono⟩

theorem LoopRun.stopping (h : LoopRun cfg capacity a b s t) (x y : Slot) :
    (t.gateway x y).stopping = (s.gateway x y).stopping := by
  induction h with
  | refl => rfl
  | tail _ hstep ih => exact (hstep.stopping x y).trans ih

theorem LoopRun.rouses (hab : a ≠ b) {before : Text → List Bytes} (hs : s.Rouses a b before)
    (h : LoopRun cfg capacity a b s t) : t.Rouses a b before := by
  induction h with
  | refl => exact hs
  | tail _ hstep ih => exact hstep.rouses hab ih

/-- A read that was notified, is about to be, or waits on an empty queue: it does not sleep
beside a payload that came before it was notified. -/
def State.Alert (s : State ι) (a b : Slot) (request : Request) (notified : Bool) : Prop :=
  notified = true ∨ (s.gateway b a).loop = .notifying ∨ (s.gateway b a).incoming request.name = []

/-- An alert read is notified by the time its queue is not empty and the loop is idle. -/
theorem LoopRun.notified (hab : a ≠ b) (h : LoopRun cfg capacity a b s t) {i : ι}
    {request : Request} {notified : Bool} (hi : s.ReadsFrom i a b request notified)
    (halert : s.Alert a b request notified) (hidle : (t.gateway b a).loop = .idle)
    (hne : (t.gateway b a).incoming request.name ≠ []) : t.ReadsFrom i a b request true := by
  obtain ⟨notified', hi', hmono⟩ := LoopRun.readsFrom h hi
  have hroused : ∀ before : Text → List Bytes, s.Rouses a b before → before request.name = [] →
      t.ReadsFrom i a b request true := by
    intro before hs hbefore
    rcases LoopRun.rouses hab hs h with hnotifying | hroused
    · cases hidle.symm.trans hnotifying
    · rcases hroused i request notified' hi' with hsame | rfl
      · exact absurd (hsame.trans hbefore) hne
      · exact hi'
  rcases halert with rfl | hnotifying | hempty
  · exact hmono rfl ▸ hi'
  · exact hroused (fun _ => []) (Or.inl hnotifying) rfl
  · exact hroused (s.gateway b a).incoming (Or.inr fun _ _ _ _ => Or.inl rfl) hempty

/-- Nothing of the direction is on its way any more. -/
structure State.Drained (s : State ι) (a b : Slot) : Prop where
  outgoing : (s.gateway a b).outgoing = []
  ring : (s.gateway a b).ring = []
  loop : (s.gateway a b).loop = .idle
  far : (s.gateway b a).loop = .idle

theorem drain_link (hrun : Run cfg (Placed cfg) s log) (hab : a ≠ b) (hcapacity : 0 < capacity)
    (hfrom : (s.gateway a b).stopping = false) (hto : (s.gateway b a).stopping = false) :
    ∃ t, LoopRun cfg capacity a b s t ∧ t.Drained a b := by
  obtain ⟨t, g, hsettle, ht, hg, hrunning⟩ := settle_end (s := s) hab ⟨rfl, rfl⟩ cfg capacity
  obtain ⟨u, k, hsettle', hu, hk, hstop⟩ := settle_end hab.symm ht.symm cfg capacity
  have hbefore := hsettle.trans (LoopRun.symm hsettle')
  have hinv := invariant_run (LoopRun.run hrun hbefore)
  have hframes : ∀ f ∈ g.ring, FrameOk f.1 f.2 :=
    fun f hf => (hinv.gateways a b).frames f (hu.2 ▸ hf)
  have hpendings : ∀ p ∈ g.outgoing, FrameOk p.name p.payload :=
    fun p hp => (hinv.pendings a b p (hu.2 ▸ hp)).1
  obtain ⟨v, k', hring, hv, hk', hstop'⟩ := drain_ring hab hu.symm hk (hstop.trans hto) hframes
  obtain ⟨w, k'', houtgoing, hw, hidle⟩ :=
    drain_outgoing hab hcapacity hv hg (hrunning.trans hfrom) rfl hk' hstop' hpendings
  refine ⟨w, hbefore.trans (hring.trans houtgoing), ?_, ?_, ?_, ?_⟩
  · rw [hw.1]
  · rw [hw.1]
  · rw [hw.1]
    exact hg
  · rw [hw.2]
    exact hidle

omit [DecidableEq ι] in
theorem drained_contents (hab : a ≠ b) (h : s.Drained a b) (x : Text) :
    (s.pipe a b x).contents = (s.gateway b a).incoming x := by
  rw [pipe_remote _ hab, remotePipe, h.outgoing, h.ring, h.loop]
  simp [Pipe.contents, Loop.sending]

theorem relay_replied (cfg : Config) {i : ι} {c : Conn} {reply : Reply} (hc : s.conn i = some c)
    (hphase : c.phase = .gatewayReplied reply) :
    ∃ t c', step cfg s (.relay i) = some (t, none) ∧ t.conn i = some c' ∧
    c'.phase = .replied reply := by
  refine ⟨s.setPhase i c (.replied reply), _, ?_, State.setPhase_conn_self s i c
    (.replied reply), rfl⟩
  simp only [step, hc, hphase, Option.bind_eq_bind, Option.bind_some]

theorem drained_write (hrun : Run cfg (Placed cfg) s log) (h : s.Drained a b) {i : ι}
    (hi : s.WritesTo i a b) :
    ∃ u v c, step cfg s (.wakeWrite i) = some (u, none) ∧ step cfg u (.relay i) = some (v, none) ∧
      v.conn i = some c ∧ c.phase = .replied .ok := by
  obtain ⟨c, done, hc, hslot, hphase⟩ := hi
  have hdone : done = true := by
    cases done with
    | true => rfl
    | false =>
      obtain ⟨p, hp, _⟩ := writes_queued hrun i c b hc hphase
      rw [hslot, h.outgoing] at hp
      cases hp
  subst hdone
  have hwake : step cfg s (.wakeWrite i) = some (s.setPhase i c (.gatewayReplied .ok), none) := by
    simp only [step, hc, hphase, Option.bind_eq_bind, Option.bind_some]
  obtain ⟨v, c', hrelay, hc', hreplied⟩ :=
    relay_replied cfg (State.setPhase_conn_self s i c (.gatewayReplied .ok)) rfl
  exact ⟨_, v, c', hwake, hrelay, hc', hreplied⟩

theorem drained_read (hab : a ≠ b) (h : s.Drained a b)
    (hto : (s.gateway b a).stopping = false) {i : ι} {request : Request} {notified : Bool}
    (hi : s.ReadsFrom i a b request notified) {data : Bytes} {rest : List Bytes}
    (hcontents : (s.pipe a b request.name).contents = data :: rest)
    (hsize : data.length = request.byteCount) :
    ∃ u v c, step cfg s (.wakeRead i) = some (u, some (.dequeue i request.name data)) ∧
      step cfg u (.relay i) = some (v, none) ∧ v.conn i = some c ∧
      c.phase = .replied (.okData data) := by
  obtain ⟨c, hc, rfl, rfl, hphase⟩ := hi
  rw [drained_contents hab h] at hcontents
  have hwake : step cfg s (.wakeRead i) =
      some
        ((s.setGateway c.slot a
          { s.gateway c.slot a with
            incoming := Function.update (s.gateway c.slot a).incoming c.request.name
              rest }).setPhase i c (.gatewayReplied (.okData data)),
        some (.dequeue i c.request.name data)) := by
    simp only [step, hc, hphase, Option.bind_eq_bind, Option.bind_some, tryGatewayRead, hto,
      Bool.false_eq_true, if_false, hcontents, if_pos hsize]
  obtain ⟨v, c', hrelay, hc', hreplied⟩ :=
    relay_replied cfg (State.setPhase_conn_self _ i c (.gatewayReplied (.okData data))) rfl
  exact ⟨_, v, c', hwake, hrelay, hc', hreplied⟩

/-- From every state that a run reaches with both ends of a link at work, the two loops
alone bring all payloads of one direction to the reading gateway, in order. Then each
write that waits there is acknowledged, and an alert read that wants the first payload
has been notified of it and gets it. -/
theorem transport_drains (hrun : Run cfg (Placed cfg) s log) (hab : a ≠ b)
    (hcapacity : 0 < capacity) (hfrom : (s.gateway a b).stopping = false)
    (hto : (s.gateway b a).stopping = false) :
    ∃ t, LoopRun cfg capacity a b s t ∧ (t.gateway a b).outgoing = [] ∧ (t.gateway a b).ring = [] ∧
      (∀ x, PipeEnds cfg.routing x a b → (t.gateway b a).incoming x = (s.pipe a b x).contents) ∧
      (∀ i, s.WritesTo i a b → ∃ u v c, step cfg t (.wakeWrite i) = some (u, none) ∧
        step cfg u (.relay i) = some (v, none) ∧ v.conn i = some c ∧ c.phase = .replied .ok) ∧
      ∀ i request notified data rest, s.ReadsFrom i a b request notified →
        s.Alert a b request notified → (s.pipe a b request.name).contents = data :: rest →
        data.length = request.byteCount →
        t.ReadsFrom i a b request true ∧
        ∃ u v c, step cfg t (.wakeRead i) = some (u, some (.dequeue i request.name data)) ∧
          step cfg u (.relay i) = some (v, none) ∧ v.conn i = some c ∧
          c.phase = .replied (.okData data) := by
  obtain ⟨t, hloop, hdrained⟩ := drain_link hrun hab hcapacity hfrom hto
  have hrun' := LoopRun.run hrun hloop
  refine ⟨t, hloop, hdrained.outgoing, hdrained.ring, ?_, ?_, ?_⟩
  · intro x hx
    rw [← drained_contents hab hdrained, LoopRun.contents hrun hloop hx]
  · exact fun i hi => drained_write hrun' hdrained (LoopRun.writesTo hloop hi)
  · intro i request notified data rest hi halert hcontents hsize
    have hends : PipeEnds cfg.routing request.name a b := by
      obtain ⟨c, hc, rfl, rfl, hphase⟩ := hi
      have hok := (invariant_run hrun).phases i c hc
      rw [hphase] at hok
      exact ⟨hok.2.2, read_placed (invariant_run hrun) hc hok.1⟩
    rw [← LoopRun.contents hrun hloop hends] at hcontents
    have hne : (t.gateway b a).incoming request.name ≠ [] := by
      rw [← drained_contents hab hdrained, hcontents]
      exact List.cons_ne_nil data rest
    have hnotified := LoopRun.notified hab hloop hi halert hdrained.far hne
    exact ⟨hnotified,
      drained_read hab hdrained ((LoopRun.stopping hloop b a).trans hto) hnotified hcontents hsize⟩

end Draining

/-- A read sleeps at its gateway, and two writes of its pipe wait at theirs. -/
def undelivered : List (Action Nat) :=
  [.connect 0 0 (.write (pipeName (0, 0) (1, 0)) [1, 2, 3, 4]),
    .connect 1 1 (.read (pipeName (0, 0) (1, 0)) 4),
    .connect 2 0 (.write (pipeName (0, 0) (1, 0)) [5]), .handle 1, .accept 1, .handle 0,
    .accept 0, .pick 0 1, .handle 2, .accept 2]

theorem transport_drains_undelivered :
    ∃ s t log, exec twoSlots undelivered State.init [] = some (s, log) ∧
    LoopRun twoSlots 1 0 1 s t ∧ (t.gateway 1 0).incoming (pipeName (0, 0) (1, 0)) =
      [[1, 2, 3, 4], [5]] ∧
    t.ReadsFrom 1 0 1 (.read (pipeName (0, 0) (1, 0)) 4) true := by
  have hexec : (exec twoSlots undelivered State.init []).map (fun r =>
      decide (r.1.conn 1 = some ⟨1, .read (pipeName (0, 0) (1, 0)) 4, .gatewayRead 0 false, false⟩ ∧
        (r.1.gateway 0 1).stopping = false ∧ (r.1.gateway 1 0).stopping = false ∧
        (r.1.pipe 0 1 (pipeName (0, 0) (1, 0))).contents = [[1, 2, 3, 4], [5]] ∧
        (r.1.gateway 1 0).incoming (pipeName (0, 0) (1, 0)) = [])) = some true := by
    decide +kernel
  have hplaced : ∀ a ∈ undelivered, a.Placed twoSlots := by decide +kernel
  obtain ⟨⟨s, log⟩, he, heq⟩ := Option.map_eq_some_iff.mp hexec
  obtain ⟨hread, hfrom, hto, hcontents, hempty⟩ := of_decide_eq_true heq
  have hrun : Run twoSlots (Placed twoSlots) s log := Run.init.exec (fun a ha _ => hplaced a ha) he
  obtain ⟨t, hloop, _, _, hincoming, _, hreads⟩ :=
    transport_drains hrun (by decide) Nat.one_pos hfrom hto
  have hends : PipeEnds twoSlots.routing (pipeName (0, 0) (1, 0)) 0 1 :=
    ⟨by decide +kernel, by decide +kernel⟩
  have hi : s.ReadsFrom 1 0 1 (.read (pipeName (0, 0) (1, 0)) 4) false := ⟨_, hread, rfl, rfl, rfl⟩
  have hname : (Request.read (pipeName (0, 0) (1, 0)) 4).name = pipeName (0, 0) (1, 0) := by
    decide +kernel
  have halert : s.Alert 0 1 (.read (pipeName (0, 0) (1, 0)) 4) false :=
    Or.inr (Or.inr (by rw [hname]; exact hempty))
  obtain ⟨hnotified, _⟩ := hreads 1 _ _ _ _ hi halert (by rw [hname]; exact hcontents) rfl
  exact ⟨s, t, log, he, hloop, (hincoming _ hends).trans hcontents, hnotified⟩

end ChipSystemSim
