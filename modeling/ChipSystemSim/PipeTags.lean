import ChipSystemSim.TransportFifo

/-! Which write a read returns. The queues of the transport hold bytes only, so
each step also moves the names of the writes that these bytes came from. -/

namespace ChipSystemSim

/-- Auxiliary queues beside those of a state, by the route of a pipe: from the
slot of the writer to the slot of the reader. -/
structure Tags (ι : Type) where
  pushed : Slot → Slot → Text → List ι
  ring : Slot → Slot → List (Text × ι)
  delivered : Slot → Slot → Text → List ι
  returned : Slot → Slot → Text → List (ι × ι)

def Tags.init {ι : Type} : Tags ι :=
  ⟨fun _ _ _ => [], fun _ _ => [], fun _ _ _ => [], fun _ _ _ => []⟩

def setRoute {α : Type} (f : Slot → Slot → Text → α) (a b : Slot) (x : Text) (v : α) : Slot →
    Slot → Text → α :=
  fun a' b' x' => if a' = a ∧ b' = b ∧ x' = x then v else f a' b' x'

@[simp] theorem setRoute_self {α : Type} (f : Slot → Slot → Text → α) (a b : Slot)
    (x : Text) (v : α) :
    setRoute f a b x v a b x = v := if_pos ⟨rfl, rfl, rfl⟩

theorem setRoute_of_ne {α : Type} (f : Slot → Slot → Text → α) {a b a' b' : Slot}
    {x x' : Text} (v : α) (h : ¬(a' = a ∧ b' = b ∧ x' = x)) :
    setRoute f a b x v a' b' x' = f a' b' x' := if_neg h

def setRing {α : Type} (f : Slot → Slot → α) (a b : Slot) (v : α) : Slot → Slot → α :=
  fun a' b' => if a' = a ∧ b' = b then v else f a' b'

@[simp] theorem setRing_self {α : Type} (f : Slot → Slot → α) (a b : Slot) (v : α) :
    setRing f a b v a b = v :=
  if_pos ⟨rfl, rfl⟩

theorem setRing_of_ne {α : Type} (f : Slot → Slot → α) {a b a' b' : Slot} (v : α)
    (h : ¬(a' = a ∧ b' = b)) :
    setRing f a b v a' b' = f a' b' := if_neg h

theorem setRoute_forall₂ {α β : Type} {R : Text → α → β → Prop} {f : Slot → Slot → Text → List α}
    {g : Slot → Slot → Text → List β} (h : ∀ a b x, List.Forall₂ (R x) (f a b x) (g a b x))
    {a₀ b₀ : Slot} {x₀ : Text} {v : List α} {w : List β} (hv : List.Forall₂ (R x₀) v w) (a b : Slot)
    (x : Text) :
    List.Forall₂ (R x) (setRoute f a₀ b₀ x₀ v a b x) (setRoute g a₀ b₀ x₀ w a b x) := by
  by_cases hroute : a = a₀ ∧ b = b₀ ∧ x = x₀
  · obtain ⟨rfl, rfl, rfl⟩ := hroute
    simpa using hv
  · simpa only [setRoute_of_ne _ _ hroute] using h a b x

theorem mem_setRoute_concat {α : Type} {f : Slot → Slot → Text → List α} {a b a₀ b₀ : Slot}
    {x x₀ : Text} {u v : α} (h : u ∈ setRoute f a₀ b₀ x₀ (f a₀ b₀ x₀ ++ [v]) a b x) :
    u ∈ f a b x ∨ (a = a₀ ∧ b = b₀ ∧ x = x₀ ∧ u = v) := by
  by_cases hroute : a = a₀ ∧ b = b₀ ∧ x = x₀
  · obtain ⟨rfl, rfl, rfl⟩ := hroute
    simpa using h
  · rw [setRoute_of_ne _ _ hroute] at h
    exact Or.inl h

theorem mem_setRoute_of_mem {α : Type} {f : Slot → Slot → Text → List α} {a b a₀ b₀ : Slot}
    {x x₀ : Text} {u v : α} (h : u ∈ f a b x) :
    u ∈ setRoute f a₀ b₀ x₀ (f a₀ b₀ x₀ ++ [v]) a b x := by
  by_cases hroute : a = a₀ ∧ b = b₀ ∧ x = x₀
  · obtain ⟨rfl, rfl, rfl⟩ := hroute
    simp [h]
  · rwa [setRoute_of_ne _ _ hroute]

/-- The slot at the other end, as far as the request has come. -/
def Conn.far (c : Conn) : Slot :=
  match c.phase with
  | .forwarded peer => peer
  | .gatewayRead peer _ => peer
  | _ => c.slot

variable {ι : Type}

def Tags.push (t : Tags ι) (a b : Slot) (x : Text) (i : ι) : Tags ι :=
  { t with pushed := setRoute t.pushed a b x (t.pushed a b x ++ [i]) }

def Tags.deliver (t : Tags ι) (a b : Slot) (x : Text) (i : ι) : Tags ι :=
  { t with delivered := setRoute t.delivered a b x (t.delivered a b x ++ [i]) }

def Tags.pop (t : Tags ι) (a b : Slot) (x : Text) (i : ι) : Tags ι :=
  match t.delivered a b x with
  | [] => t
  | w :: rest =>
    { t with
      delivered := setRoute t.delivered a b x rest
      returned := setRoute t.returned a b x (t.returned a b x ++ [(i, w)]) }

def Tags.send (t : Tags ι) (a b : Slot) (x : Text) (i : ι) : Tags ι :=
  { t with ring := setRing t.ring a b (t.ring a b ++ [(x, i)]) }

def Tags.receive (t : Tags ι) (a b : Slot) (taken : Bool) : Tags ι :=
  match t.ring a b with
  | [] => t
  | (x, w) :: rest =>
    let t := { t with ring := setRing t.ring a b rest }
    if taken then t.deliver a b x w else t

/-- What a step does to the names: a write to a router's own queue is delivered
at once, one to a gateway is held by `outgoing_`, which has its name already. -/
def Tags.step (s : State ι) (t : Tags ι) (a : Action ι) (e : Option (Event ι)) : Tags ι :=
  match e with
  | some (.enqueue i x _) =>
    match s.conn i with
    | none => t
    | some c =>
      if c.far = c.slot then (t.push c.slot c.slot x i).deliver c.slot c.slot x i
      else t.push c.slot c.far x i
  | some (.dequeue i x _) =>
    match s.conn i with
    | none => t
    | some c => t.pop c.far c.slot x i
  | none =>
    match a with
    | .send slot peer =>
      match (s.gateway slot peer).loop with
      | .picked p => t.send slot peer p.name p.owner
      | _ => t
    | .receive slot peer =>
      match (s.gateway peer slot).ring with
      | (name, payload) :: _ => t.receive peer slot (FrameOk name payload)
      | [] => t
    | _ => t

section Effects

variable {t : Tags ι} {s : State ι} {a : Action ι} {i : ι} {c : Conn} {x : Text} {data : Bytes}
  {peer : Slot}

theorem step_localWrite (h : s.conn i = some c) (hph : c.phase = .connected) :
    t.step s a (some (.enqueue i x data)) = (t.push c.slot c.slot x i).deliver c.slot
      c.slot x i := by
  simp [Tags.step, h, Conn.far, hph]

theorem step_gatewayWrite (h : s.conn i = some c) (hph : c.phase = .forwarded peer)
    (hne : peer ≠ c.slot) : t.step s a (some (.enqueue i x data)) = t.push c.slot peer x i := by
  simp [Tags.step, h, Conn.far, hph, hne]

theorem step_read (h : s.conn i = some c) :
    t.step s a (some (.dequeue i x data)) = t.pop c.far c.slot x i := by
  simp [Tags.step, h]

theorem pop_cons {b : Slot} {w : ι} {rest : List ι} (h : t.delivered peer b x = w :: rest) :
    t.pop peer b x i =
      { t with
        delivered := setRoute t.delivered peer b x rest
        returned := setRoute t.returned peer b x (t.returned peer b x ++ [(i, w)]) } := by
  simp [Tags.pop, h]

theorem pop_ring (t : Tags ι) (a b : Slot) (x : Text) (i : ι) : (t.pop a b x i).ring = t.ring := by
  unfold Tags.pop
  split <;> rfl

theorem receive_cons {a b : Slot} {w : ι} {rest : List (Text × ι)}
    (h : t.ring a b = (x, w) :: rest) :
    t.receive a b true =
      { t with
        ring := setRing t.ring a b rest
        delivered := setRoute t.delivered a b x (t.delivered a b x ++ [w]) } := by
  simp [Tags.receive, h, Tags.deliver]

theorem step_client (h : a.client = some i) : t.step s a none = t := by
  cases a <;> first | rfl | cases h

end Effects

/-- The queue at the reader's end of a route. -/
def State.arrived (s : State ι) (a b : Slot) (x : Text) : List Bytes :=
  if a = b then s.localPipes a x else (s.gateway b a).incoming x

/-- The writes that a gateway has not sent. The front of `outgoing_` stays there
until the loop has finished it. -/
def Gateway.unsent (g : Gateway ι) : List (Pending ι) :=
  match g.loop with
  | .sent _ => g.outgoing.tail
  | _ => g.outgoing

def Gateway.waiting (g : Gateway ι) (x : Text) : List ι :=
  (g.unsent.filter (·.name = x)).map Pending.owner

def State.waiting (s : State ι) (a b : Slot) (x : Text) : List ι := (s.gateway a b).waiting x

theorem arrived_local (s : State ι) (a : Slot) (x : Text) :
    s.arrived a a x = s.localPipes a x := if_pos rfl

theorem arrived_remote (s : State ι) {a b : Slot} (h : a ≠ b) (x : Text) :
    s.arrived a b x = (s.gateway b a).incoming x := if_neg h

/-- What a step does to the queues and to the names beside them. -/
inductive TagMove (cfg : Config) (s s' : State ι) (t : Tags ι) : Option (Event ι) → Tags ι → Prop
  | quiet (harrived : s'.arrived = s.arrived)
      (hring : ∀ a b, (s'.gateway a b).ring = (s.gateway a b).ring)
      (hwaiting : s'.waiting = s.waiting) : TagMove cfg s s' t none t
  | localWrite {i : ι} {c : Conn} {path : Text} {payload : Bytes} (h : s.conn i = some c)
      (hr : c.request = .write path payload)
      (hfar : cfg.routing.farSlot .W c.request.name = some c.slot)
      (harrived : s'.arrived = setRoute s.arrived c.slot c.slot c.request.name
        (s.arrived c.slot c.slot c.request.name ++ [payload]))
      (hring : ∀ a b, (s'.gateway a b).ring = (s.gateway a b).ring)
      (hwaiting : s'.waiting = s.waiting) :
      TagMove cfg s s' t (some (.enqueue i c.request.name payload))
        ((t.push c.slot c.slot c.request.name i).deliver c.slot c.slot c.request.name i)
  | gatewayWrite {i : ι} {c : Conn} {b : Slot} {path : Text} {payload : Bytes}
      (h : s.conn i = some c)
      (hne : c.slot ≠ b) (hr : c.request = .write path payload)
      (hfar : cfg.routing.farSlot .W c.request.name = some b)
      (harrived : s'.arrived = s.arrived)
      (hring : ∀ a b, (s'.gateway a b).ring = (s.gateway a b).ring)
      (hwaiting : s'.waiting = setRoute s.waiting c.slot b c.request.name
        (s.waiting c.slot b c.request.name ++ [i])) :
      TagMove cfg s s' t (some (.enqueue i c.request.name payload))
        (t.push c.slot b c.request.name i)
  | read {i : ι} {c : Conn} {a : Slot} {data : Bytes} {rest : List Bytes} (h : s.conn i = some c)
      (hop : c.request.op = .R) (hfar : cfg.routing.farSlot .R c.request.name = some a)
      (hq : s.arrived a c.slot c.request.name = data :: rest)
      (harrived : s'.arrived = setRoute s.arrived a c.slot c.request.name rest)
      (hring : ∀ a b, (s'.gateway a b).ring = (s.gateway a b).ring)
      (hwaiting : s'.waiting = s.waiting) :
      TagMove cfg s s' t (some (.dequeue i c.request.name data)) (t.pop a c.slot c.request.name i)
  | send {a b : Slot} {p : Pending ι} {rest : List ι} (hp : p ∈ (s.gateway a b).outgoing)
      (hfront : s.waiting a b p.name = p.owner :: rest) (harrived : s'.arrived = s.arrived)
      (hring : (s'.gateway a b).ring = (s.gateway a b).ring ++ [(p.name, p.payload)])
      (hrings : ∀ a' b', ¬(a' = a ∧ b' = b) → (s'.gateway a' b').ring = (s.gateway a' b').ring)
      (hwaiting : s'.waiting = setRoute s.waiting a b p.name rest) :
      TagMove cfg s s' t none (t.send a b p.name p.owner)
  | receive {a b : Slot} {x : Text} {payload : Bytes} {rest : List (Text × Bytes)} (hne : a ≠ b)
      (hq : (s.gateway a b).ring = (x, payload) :: rest)
      (harrived : s'.arrived = setRoute s.arrived a b x (s.arrived a b x ++ [payload]))
      (hring : (s'.gateway a b).ring = rest)
      (hrings : ∀ a' b', ¬(a' = a ∧ b' = b) → (s'.gateway a' b').ring = (s.gateway a' b').ring)
      (hwaiting : s'.waiting = s.waiting) :
      TagMove cfg s s' t none (t.receive a b true)

section Queues

variable {s : State ι} {slot peer : Slot} {g : Gateway ι}

theorem arrived_congr {s' : State ι} (hlocal : s'.localPipes = s.localPipes)
    (h : ∀ a b, (s'.gateway a b).incoming = (s.gateway a b).incoming) : s'.arrived = s.arrived := by
  funext a b x
  simp only [State.arrived, hlocal, h]

theorem gateway_congr {α : Type} (f : Gateway ι → α) (h : f g = f (s.gateway slot peer))
    (a b : Slot) : f ((s.setGateway slot peer g).gateway a b) = f (s.gateway a b) :=
  State.setGateway_elim (P := fun a b g => f g = f (s.gateway a b)) rfl h

theorem arrived_setLocal (s : State ι) (a : Slot) (x : Text) (queue : List Bytes) :
    (s.setLocal a x queue).arrived = setRoute s.arrived a a x queue := by
  funext a' b' x'
  by_cases hab : a' = b'
  · subst hab
    simp only [arrived_local, State.setLocal_localPipes, setRoute]
    by_cases h : a' = a ∧ x' = x
    · rw [if_pos h, if_pos ⟨h.1, h.1, h.2⟩]
    · rw [if_neg h, if_neg fun h' => h ⟨h'.1, h'.2.2⟩]
  · rw [setRoute_of_ne _ _ fun h => hab (h.1.trans h.2.1.symm)]
    simp only [arrived_remote _ hab, State.setLocal_gateway]

theorem arrived_setGateway (hne : slot ≠ peer) (x : Text) (queue : List Bytes)
    (hg : g.incoming = Function.update (s.gateway slot peer).incoming x queue) :
    (s.setGateway slot peer g).arrived = setRoute s.arrived peer slot x queue := by
  funext a b y
  by_cases hab : a = b
  · subst hab
    rw [setRoute_of_ne _ _ fun h => hne (h.2.1.symm.trans h.1)]
    simp only [arrived_local, State.setGateway_localPipes]
  · by_cases hroute : b = slot ∧ a = peer
    · obtain ⟨rfl, rfl⟩ := hroute
      rw [arrived_remote _ hab, State.setGateway_gateway_self, hg]
      by_cases hy : y = x
      · subst hy
        simp
      · rw [setRoute_of_ne _ _ fun h => hy h.2.2, Function.update_of_ne hy, arrived_remote _ hab]
    · rw [setRoute_of_ne _ _ fun h => hroute ⟨h.2.1, h.1⟩, arrived_remote _ hab,
        arrived_remote _ hab, State.setGateway_gateway_of_ne s g hroute]

theorem waiting_setGateway (x : Text) (names : List ι) (hx : g.waiting x = names)
    (hother : ∀ y, y ≠ x → g.waiting y = (s.gateway slot peer).waiting y) :
    (s.setGateway slot peer g).waiting = setRoute s.waiting slot peer x names := by
  funext a b y
  by_cases hroute : a = slot ∧ b = peer
  · obtain ⟨rfl, rfl⟩ := hroute
    rw [State.waiting, State.setGateway_gateway_self]
    by_cases hy : y = x
    · subst hy
      rw [hx, setRoute_self]
    · rw [hother y hy, setRoute_of_ne _ _ fun h => hy h.2.2, State.waiting]
  · rw [setRoute_of_ne _ _ fun h => hroute ⟨h.1, h.2.1⟩, State.waiting,
      State.setGateway_gateway_of_ne s g hroute, State.waiting]

theorem waiting_congr (hunsent : g.unsent = (s.gateway slot peer).unsent) :
    (s.setGateway slot peer g).waiting = s.waiting := by
  funext a b x
  rw [State.waiting, Gateway.waiting, gateway_congr Gateway.unsent hunsent]
  rfl

end Queues

/-- A step that leaves every gateway's frames and unsent writes as they are. -/
theorem TagMove.of_gateway {cfg : Config} {s s' : State ι} {t : Tags ι} {slot peer : Slot}
    {g : Gateway ι} (hlocal : s'.localPipes = s.localPipes)
    (hgateway : s'.gateway = (s.setGateway slot peer g).gateway)
    (hincoming : g.incoming = (s.gateway slot peer).incoming)
    (hring : g.ring = (s.gateway slot peer).ring)
    (hunsent : g.unsent = (s.gateway slot peer).unsent) : TagMove cfg s s' t none t := by
  refine .quiet (arrived_congr hlocal ?_) ?_ ?_
  · rw [hgateway]
    exact gateway_congr Gateway.incoming hincoming
  · rw [hgateway]
    exact gateway_congr Gateway.ring hring
  · have hwaiting := waiting_congr hunsent
    simp only [funext_iff, State.waiting] at hwaiting ⊢
    rw [hgateway]
    exact hwaiting

theorem unsent_append {g : Gateway ι} (hok : g.Ok) (p : Pending ι) :
    Gateway.unsent { g with outgoing := g.outgoing ++ [p] } = g.unsent ++ [p] := by
  unfold Gateway.unsent
  cases hl : g.loop with
  | sent q =>
    obtain ⟨rest, hrest⟩ := List.head?_eq_some_iff.mp (hok.front q (Or.inr hl))
    simp [hrest]
  | _ => simp

/-- The write `i` put this payload on the pipe `x`. -/
def Carries (s : State ι) (x : Text) (i : ι) (payload : Bytes) : Prop :=
  ∃ c path, s.conn i = some c ∧ c.request = .write path payload ∧ c.request.name = x

def OnSlot (s : State ι) (i : ι) (slot : Slot) : Prop := ∃ c, s.conn i = some c ∧ c.slot = slot

/-- The writes of a route that no read has returned, in order. -/
def transit (s : State ι) (t : Tags ι) (a b : Slot) (x : Text) : List ι :=
  if a = b then t.delivered a b x
  else t.delivered a b x ++ (((t.ring a b).filter (·.1 = x)).map Prod.snd ++ s.waiting a b x)

/-- The names follow the queues, every route is FIFO in them, and they agree
with the log. -/
structure Tagged (cfg : Config) (s : State ι) (t : Tags ι) (log : List (Event ι)) : Prop where
  arrived : ∀ a b x, List.Forall₂ (Carries s x) (t.delivered a b x) (s.arrived a b x)
  ring : ∀ a b, List.Forall₂ (fun u f => u.1 = f.1 ∧ Carries s u.1 u.2 f.2) (t.ring a b)
    (s.gateway a b).ring
  fifo : ∀ a b x, t.pushed a b x = (t.returned a b x).map Prod.snd ++ transit s t a b x
  pushed : ∀ a b x, ∀ i ∈ t.pushed a b x,
    (∃ payload, .enqueue i x payload ∈ log) ∧ OnSlot s i a ∧ cfg.routing.farSlot .W x = some b
  returned : ∀ a b x, ∀ m ∈ t.returned a b x,
    (∃ data, .dequeue m.1 x data ∈ log ∧ Carries s x m.2 data) ∧ OnSlot s m.1 b ∧
    cfg.routing.farSlot .R x = some a
  enqueues : ∀ i x payload, .enqueue i x payload ∈ log → ∃ a b, i ∈ t.pushed a b x
  dequeues : ∀ i x data, .dequeue i x data ∈ log → ∃ a b w, (i, w) ∈ t.returned a b x
  writesOnce : ∀ a b x, (t.pushed a b x).Nodup
  readsOnce : ∀ a b x, ((t.returned a b x).map Prod.fst).Nodup

theorem tagged_init (cfg : Config) : Tagged cfg (State.init : State ι) Tags.init [] := by
  refine ⟨?_, ?_, ?_, ?_, ?_, ?_, ?_, ?_, ?_⟩
  · intro a b x
    simp [Tags.init, State.arrived, State.init]
  · intro a b
    simp [Tags.init, State.init]
  · intro a b x
    simp [transit, Tags.init, State.init, State.waiting, Gateway.waiting, Gateway.unsent]
  all_goals simp [Tags.init]

section Moves

variable {cfg : Config} {s s' : State ι} {t t' : Tags ι} {e : Option (Event ι)}
  {log : List (Event ι)}

theorem fifo_step (ht : Tagged cfg s t log) (hm : TagMove cfg s s' t e t') (a b : Slot) (x : Text) :
    t'.pushed a b x = (t'.returned a b x).map Prod.snd ++ transit s' t' a b x := by
  have hold := ht.fifo a b x
  cases hm with
  | quiet harrived hring hwaiting =>
    rw [hold, transit, transit, hwaiting]
  | @localWrite i c path payload hc hr hfar harrived hring hwaiting =>
    by_cases hroute : a = c.slot ∧ b = c.slot ∧ x = c.request.name
    · obtain ⟨rfl, rfl, rfl⟩ := hroute
      simp only [transit, if_pos] at hold ⊢
      simp [Tags.push, Tags.deliver, hold]
    · simp only [transit, Tags.push, Tags.deliver, setRoute_of_ne _ _ hroute, hwaiting] at hold ⊢
      exact hold
  | @gatewayWrite i c b₀ path payload hc hne hr hfar harrived hring hwaiting =>
    by_cases hroute : a = c.slot ∧ b = b₀ ∧ x = c.request.name
    · obtain ⟨rfl, rfl, rfl⟩ := hroute
      simp only [transit, if_neg hne, hwaiting, Tags.push, setRoute_self] at hold ⊢
      simp [hold]
    · simp only [transit, Tags.push, setRoute_of_ne _ _ hroute, hwaiting] at hold ⊢
      exact hold
  | @read i c a₀ data rest hc hop hfar hq harrived hring hwaiting =>
    have hfront := ht.arrived a₀ c.slot c.request.name
    rw [hq] at hfront
    obtain ⟨w, names, -, -, hnames⟩ := List.forall₂_cons_right_iff.mp hfront
    rw [pop_cons hnames]
    by_cases hroute : a = a₀ ∧ b = c.slot ∧ x = c.request.name
    · obtain ⟨rfl, rfl, rfl⟩ := hroute
      simp only [transit, hwaiting, hnames, setRoute_self] at hold ⊢
      rw [hold]
      split <;> simp
    · simp only [transit, setRoute_of_ne _ _ hroute, hwaiting] at hold ⊢
      exact hold
  | @send a₀ b₀ p rest hp hfront harrived hring hrings hwaiting =>
    by_cases hab : a = a₀ ∧ b = b₀
    · obtain ⟨rfl, rfl⟩ := hab
      simp only [transit, Tags.send, hwaiting, setRing_self] at hold ⊢
      rw [hold]
      by_cases hx : x = p.name
      · subst hx
        simp [hfront]
      · rw [setRoute_of_ne _ _ fun h => hx h.2.2]
        simp [Ne.symm hx]
    · simp only [transit, Tags.send, hwaiting, setRing_of_ne _ _ hab,
        setRoute_of_ne _ _ fun h => hab ⟨h.1, h.2.1⟩] at hold ⊢
      exact hold
  | @receive a₀ b₀ y payload rest hne hq harrived hring hrings hwaiting =>
    have hfront := ht.ring a₀ b₀
    rw [hq] at hfront
    obtain ⟨⟨z, w⟩, names, -, -, hnames⟩ := List.forall₂_cons_right_iff.mp hfront
    rw [receive_cons hnames]
    by_cases hab : a = a₀ ∧ b = b₀
    · obtain ⟨rfl, rfl⟩ := hab
      simp only [transit, if_neg hne, hwaiting, hnames, setRing_self] at hold ⊢
      rw [hold]
      by_cases hx : x = z
      · subst hx
        simp
      · rw [setRoute_of_ne _ _ fun h => hx h.2.2]
        simp [Ne.symm hx]
    · simp only [transit, hwaiting, setRing_of_ne _ _ hab,
        setRoute_of_ne _ _ fun h => hab ⟨h.1, h.2.1⟩] at hold ⊢
      exact hold

theorem TagMove.pushed (hm : TagMove cfg s s' t e t') :
    (t'.pushed = t.pushed ∧ ∀ i x payload, e ≠ some (.enqueue i x payload)) ∨
    ∃ i a b x payload, e = some (.enqueue i x payload) ∧ OnSlot s i a ∧
    cfg.routing.farSlot .W x = some b ∧
      t'.pushed = setRoute t.pushed a b x (t.pushed a b x ++ [i]) := by
  cases hm with
  | quiet harrived hring hwaiting => exact Or.inl ⟨rfl, by simp⟩
  | localWrite hc hr hfar harrived hring hwaiting =>
    exact Or.inr ⟨_, _, _, _, _, rfl, ⟨_, hc, rfl⟩, hfar, rfl⟩
  | gatewayWrite hc hne hr hfar harrived hring hwaiting =>
    exact Or.inr ⟨_, _, _, _, _, rfl, ⟨_, hc, rfl⟩, hfar, rfl⟩
  | read hc hop hfar hq harrived hring hwaiting =>
    refine Or.inl ⟨?_, by simp⟩
    unfold Tags.pop
    split <;> rfl
  | send hp hfront harrived hring hrings hwaiting => exact Or.inl ⟨rfl, by simp⟩
  | receive hne hq harrived hring hrings hwaiting =>
    refine Or.inl ⟨?_, by simp⟩
    unfold Tags.receive
    split <;> rfl

theorem TagMove.returned (ht : Tagged cfg s t log) (hm : TagMove cfg s s' t e t') :
    (t'.returned = t.returned ∧ ∀ i x data, e ≠ some (.dequeue i x data)) ∨
    ∃ i w a b x data, e = some (.dequeue i x data) ∧ OnSlot s i b ∧
    cfg.routing.farSlot .R x = some a ∧
      Carries s x w data ∧ t'.returned = setRoute t.returned a b x
        (t.returned a b x ++ [(i, w)]) := by
  cases hm with
  | quiet harrived hring hwaiting => exact Or.inl ⟨rfl, by simp⟩
  | localWrite hc hr hfar harrived hring hwaiting => exact Or.inl ⟨rfl, by simp⟩
  | gatewayWrite hc hne hr hfar harrived hring hwaiting => exact Or.inl ⟨rfl, by simp⟩
  | @read i c a data rest hc hop hfar hq harrived hring hwaiting =>
    have hfront := ht.arrived a c.slot c.request.name
    rw [hq] at hfront
    obtain ⟨w, names, hcarries, -, hnames⟩ := List.forall₂_cons_right_iff.mp hfront
    rw [pop_cons hnames]
    exact Or.inr ⟨i, w, a, c.slot, _, data, rfl, ⟨c, hc, rfl⟩, hfar, hcarries, rfl⟩
  | send hp hfront harrived hring hrings hwaiting => exact Or.inl ⟨rfl, by simp⟩
  | receive hne hq harrived hring hrings hwaiting =>
    refine Or.inl ⟨?_, by simp⟩
    unfold Tags.receive
    split <;> rfl

end Moves

variable [DecidableEq ι]

theorem finish_unsent {g : Gateway ι} (hok : g.Ok) {p : Pending ι} (hl : g.loop = .sent p) :
    Gateway.unsent { g with
      outgoing := if g.outgoing.head? = some p then g.outgoing.tail else g.outgoing
      loop := .idle } = g.unsent := by
  rw [if_pos (hok.front p (Or.inr hl))]
  simp [Gateway.unsent, hl]

theorem tagMove {cfg : Config} {s s' : State ι} {a : Action ι} {e : Option (Event ι)}
    (hsound : Sound cfg s) (h : Effect cfg s a s' e) (t : Tags ι) :
    TagMove cfg s s' t e (t.step s a e) := by
  cases h with
  | connect h => exact .quiet rfl (fun _ _ => rfl) rfl
  | phase ha h hs =>
    rw [step_client ha]
    exact .quiet rfl (fun _ _ => rfl) rfl
  | close h => exact .quiet rfl (fun _ _ => rfl) rfl
  | @localWrite i c path payload h hph hr hp hlimit =>
    rw [step_localWrite h hph]
    refine .localWrite h hr (peerFor_init_iff.mp hp) ?_ (fun _ _ => rfl) rfl
    rw [arrived_local, ← arrived_setLocal]
    rfl
  | @localRead _ i c data rest ha h hph hq =>
    have hfar : c.far = c.slot := by
      rcases hph with ⟨hph, _⟩ | ⟨hph, _⟩ <;> simp [Conn.far, hph]
    have hrequest : c.request.op = .R ∧ cfg.routing.farSlot .R c.request.name = some c.slot := by
      rcases hph with ⟨_, ⟨path, hr⟩, hp⟩ | ⟨hph, _⟩
      · exact ⟨by rw [hr]; rfl, peerFor_init_iff.mp hp⟩
      · have hok := hsound.phases i c h
        rw [hph] at hok
        exact hok
    rw [step_read h, hfar]
    refine .read h hrequest.1 hrequest.2 (by rw [arrived_local]; exact hq) ?_ (fun _ _ => rfl) rfl
    rw [← arrived_setLocal]
    rfl
  | @gatewayWrite i c peer path payload h hph hr hf =>
    have hok := hsound.phases i c h
    rw [hph] at hok
    have hop : c.request.op = .W := by rw [hr]; rfl
    rw [step_gatewayWrite h hph hok.1]
    refine .gatewayWrite h hok.1.symm hr (hop ▸ hok.2) (arrived_congr rfl ?_) ?_ ?_
    · exact gateway_congr Gateway.incoming rfl
    · exact gateway_congr Gateway.ring rfl
    · have happend := unsent_append (hsound.gateways c.slot peer) ⟨i, c.request.name, payload⟩
      refine waiting_setGateway c.request.name _ ?_ ?_
      · simp [State.waiting, Gateway.waiting, happend]
      · intro y hy
        simp [Gateway.waiting, happend, Ne.symm hy]
  | @gatewayRead _ i c peer data rest ha h hph hstop hq =>
    have hok := hsound.phases i c h
    have hrequest : c.far = peer ∧ peer ≠ c.slot ∧ c.request.op = .R ∧
        cfg.routing.farSlot .R c.request.name = some peer := by
      rcases hph with ⟨hph, path, hr⟩ | ⟨⟨n, hph⟩, _⟩
      · have hop : c.request.op = .R := by rw [hr]; rfl
        rw [hph] at hok
        exact ⟨by simp [Conn.far, hph], hok.1, hop, hop ▸ hok.2⟩
      · rw [hph] at hok
        exact ⟨by simp [Conn.far, hph], hok.2.1, hok.1, hok.2.2⟩
    obtain ⟨hfar, hne, hop, hroute⟩ := hrequest
    rw [step_read h, hfar]
    refine .read h hop hroute (by rw [arrived_remote _ hne]; exact hq) ?_ ?_ ?_
    · exact arrived_setGateway hne.symm c.request.name rest rfl
    · exact gateway_congr Gateway.ring rfl
    · exact waiting_congr rfl
  | @pick slot peer p rest hl hstop ho =>
    exact .of_gateway rfl rfl rfl rfl (by simp [Gateway.unsent, hl])
  | @allocFail slot peer p hl => exact .of_gateway rfl rfl rfl rfl (by simp [Gateway.unsent, hl])
  | @send slot peer p hl =>
    obtain ⟨rest, hrest⟩ := List.head?_eq_some_iff.mp
      ((hsound.gateways slot peer).front p (Or.inl hl))
    have hstep : t.step s (.send slot peer) none = t.send slot peer p.name p.owner := by
      simp [Tags.step, hl]
    rw [hstep]
    have hunsent : (s.gateway slot peer).unsent = p :: rest := by simp [Gateway.unsent, hl, hrest]
    have hfront : s.waiting slot peer p.name =
        p.owner :: (rest.filter (·.name = p.name)).map Pending.owner := by
      simp [State.waiting, Gateway.waiting, hunsent]
    refine .send (by simp [hrest]) hfront
      (arrived_congr rfl (gateway_congr Gateway.incoming rfl)) ?_ ?_ ?_
    · rw [State.setGateway_gateway_self]
    · intro a b hab
      rw [State.setGateway_gateway_of_ne _ _ hab]
    · refine waiting_setGateway p.name _ ?_ ?_
      · simp [Gateway.waiting, Gateway.unsent, hrest]
      · intro y hy
        rw [Gateway.waiting, Gateway.waiting, hunsent]
        simp [Gateway.unsent, hrest, Ne.symm hy]
  | @finish slot peer p hl =>
    exact .of_gateway rfl rfl rfl rfl (finish_unsent (hsound.gateways slot peer) hl)
  | @receive slot peer name payload rest hne hl hstop hq hf =>
    have hstep : t.step s (.receive slot peer) none = t.receive peer slot true := by
      simp [Tags.step, hq, hf]
    rw [hstep]
    have hother :
        (s.setGateway peer slot { s.gateway peer slot with ring := rest }).gateway slot peer =
          s.gateway slot peer := State.setGateway_gateway_of_ne _ _ fun h => hne h.1
    refine .receive hne.symm hq ?_ ?_ ?_ ?_
    · have hsame :
          (s.setGateway peer slot { s.gateway peer slot with ring := rest }).arrived =
            s.arrived :=
        arrived_congr rfl (gateway_congr Gateway.incoming rfl)
      rw [arrived_remote _ hne.symm, ← hsame]
      refine arrived_setGateway hne name _ ?_
      rw [hother]
    · rw [State.setGateway_gateway_of_ne _ _ fun h => hne h.2, State.setGateway_gateway_self]
    · intro a b hab
      rw [gateway_congr Gateway.ring (by rw [hother]), State.setGateway_gateway_of_ne _ _ hab]
    · rw [waiting_congr (by rw [hother]; simp [Gateway.unsent, hl])]
      exact waiting_congr rfl
  | @drop slot peer name payload rest hq hf =>
    exact absurd ((hsound.gateways peer slot).frames (name, payload) (by simp [hq])) hf
  | @notify slot peer hl => exact .of_gateway rfl rfl rfl rfl (by simp [Gateway.unsent, hl])
  | terminate hl => exact .of_gateway rfl rfl rfl rfl (by simp [Gateway.unsent, hl])

theorem Carries.step {cfg : Config} {s s' : State ι} {a : Action ι} {e : Option (Event ι)}
    {x : Text} {i : ι} {payload : Bytes} (hc : Carries s x i payload) (h : Effect cfg s a s' e) :
    Carries s' x i payload := by
  obtain ⟨c, path, hc, hr, hname⟩ := hc
  rcases h.connMove i with ⟨_, hn, _⟩ | ⟨_, _, _, hn, _⟩ | ⟨c₁, c', v, hc₁, hc', _, hreq, _⟩
  · cases hc.symm.trans hn
  · cases hc.symm.trans hn
  · cases hc.symm.trans hc₁
    exact ⟨c', path, hc', hreq.trans hr, by rw [hreq, hname]⟩

theorem OnSlot.step {cfg : Config} {s s' : State ι} {a : Action ι} {e : Option (Event ι)} {i : ι}
    {slot : Slot} (hc : OnSlot s i slot) (h : Effect cfg s a s' e) : OnSlot s' i slot := by
  obtain ⟨c, hc, hslot⟩ := hc
  rcases h.connMove i with ⟨_, hn, _⟩ | ⟨_, _, _, hn, _⟩ | ⟨c₁, c', v, hc₁, hc', hs, _⟩
  · cases hc.symm.trans hn
  · cases hc.symm.trans hn
  · cases hc.symm.trans hc₁
    exact ⟨c', hc', hs.trans hslot⟩

section Steps

variable {cfg : Config} {s s' : State ι} {t t' : Tags ι} {act : Action ι} {e : Option (Event ι)}
  {log : List (Event ι)}

theorem arrived_step (ht : Tagged cfg s t log) (h : Effect cfg s act s' e)
    (hm : TagMove cfg s s' t e t') (a b : Slot) (x : Text) :
    List.Forall₂ (Carries s' x) (t'.delivered a b x) (s'.arrived a b x) := by
  have hold : ∀ a b x, List.Forall₂ (Carries s' x) (t.delivered a b x) (s.arrived a b x) :=
    fun a b x => (ht.arrived a b x).imp fun _ _ hc => hc.step h
  cases hm with
  | quiet harrived hring hwaiting =>
    rw [harrived]
    exact hold a b x
  | @localWrite i c path payload hc hr hfar harrived hring hwaiting =>
    rw [harrived]
    have hnew : Carries s' c.request.name i payload := Carries.step ⟨c, path, hc, hr, rfl⟩ h
    refine setRoute_forall₂ hold ?_ a b x
    exact List.rel_append (hold c.slot c.slot c.request.name) (.cons hnew .nil)
  | gatewayWrite hc hne hr hfar harrived hring hwaiting =>
    rw [harrived]
    exact hold a b x
  | @read i c peer data rest hc hop hfar hq harrived hring hwaiting =>
    have hfront := hold peer c.slot c.request.name
    rw [hq] at hfront
    obtain ⟨w, names, -, hrest, hnames⟩ := List.forall₂_cons_right_iff.mp hfront
    rw [pop_cons hnames, harrived]
    exact setRoute_forall₂ hold hrest a b x
  | send hp hfront harrived hring hrings hwaiting =>
    rw [harrived]
    exact hold a b x
  | @receive a₀ b₀ y payload rest hne hq harrived hring hrings hwaiting =>
    have hfront := ht.ring a₀ b₀
    rw [hq] at hfront
    obtain ⟨⟨z, w⟩, names, ⟨hz, hcarries⟩, hrest, hnames⟩ := List.forall₂_cons_right_iff.mp hfront
    cases hz
    rw [receive_cons hnames, harrived]
    exact setRoute_forall₂ hold (List.rel_append (hold a₀ b₀ _) (.cons (hcarries.step h) .nil)) a b
      x

theorem ring_step (hsound : Sound cfg s) (ht : Tagged cfg s t log) (h : Effect cfg s act s' e)
    (hm : TagMove cfg s s' t e t') (a b : Slot) :
    List.Forall₂ (fun u f => u.1 = f.1 ∧ Carries s' u.1 u.2 f.2) (t'.ring a b)
      (s'.gateway a b).ring := by
  have hold : ∀ a b, List.Forall₂ (fun u f => u.1 = f.1 ∧ Carries s' u.1 u.2 f.2) (t.ring a b)
      (s.gateway a b).ring := fun a b => (ht.ring a b).imp fun _ _ hc => ⟨hc.1, hc.2.step h⟩
  cases hm with
  | quiet harrived hring hwaiting =>
    rw [hring]
    exact hold a b
  | localWrite hc hr hfar harrived hring hwaiting =>
    rw [hring]
    exact hold a b
  | gatewayWrite hc hne hr hfar harrived hring hwaiting =>
    rw [hring]
    exact hold a b
  | @read i c peer data rest hc hop hfar hq harrived hring hwaiting =>
    rw [hring, pop_ring]
    exact hold a b
  | @send a₀ b₀ p rest hp hfront harrived hring hrings hwaiting =>
    by_cases hab : a = a₀ ∧ b = b₀
    · obtain ⟨rfl, rfl⟩ := hab
      obtain ⟨_, c, path, hc, _, hr, hname, _⟩ := hsound.pendings a b p hp
      simp only [hring, Tags.send, setRing_self]
      exact List.rel_append (hold a b) (.cons ⟨rfl, Carries.step ⟨c, path, hc, hr, hname⟩ h⟩ .nil)
    · simp only [hrings a b hab, Tags.send, setRing_of_ne _ _ hab]
      exact hold a b
  | @receive a₀ b₀ y payload rest hne hq harrived hring hrings hwaiting =>
    have hfront := hold a₀ b₀
    rw [hq] at hfront
    obtain ⟨⟨z, w⟩, names, -, hrest, hnames⟩ := List.forall₂_cons_right_iff.mp hfront
    rw [receive_cons hnames]
    by_cases hab : a = a₀ ∧ b = b₀
    · obtain ⟨rfl, rfl⟩ := hab
      rw [hring]
      simpa using hrest
    · rw [hrings a b hab]
      simpa only [setRing_of_ne _ _ hab] using hold a b

theorem tagged_step (hsound : Sound cfg s) (hlog : LogOk s log) (ht : Tagged cfg s t log)
    (h : Effect cfg s act s' e) : Tagged cfg s' (t.step s act e) (log ++ e.toList) := by
  have hmove := tagMove hsound h t
  have hpushed := hmove.pushed
  have hreturned := hmove.returned ht
  refine ⟨arrived_step ht h hmove, ring_step hsound ht h hmove, fifo_step ht hmove, ?_, ?_,
    ?_, ?_, ?_, ?_⟩
  · intro a b x i hi
    rcases hpushed with ⟨hsame, -⟩ | ⟨j, a₀, b₀, x₀, payload, rfl, hslot, hfar, hnew⟩
    · rw [hsame] at hi
      obtain ⟨⟨payload, hp⟩, hon, hfar⟩ := ht.pushed a b x i hi
      exact ⟨⟨payload, List.mem_append_left _ hp⟩, hon.step h, hfar⟩
    · rw [hnew] at hi
      rcases mem_setRoute_concat hi with hi | ⟨rfl, rfl, rfl, rfl⟩
      · obtain ⟨⟨payload, hp⟩, hon, hfar⟩ := ht.pushed a b x i hi
        exact ⟨⟨payload, List.mem_append_left _ hp⟩, hon.step h, hfar⟩
      · exact ⟨⟨payload, by simp⟩, hslot.step h, hfar⟩
  · intro a b x m hi
    rcases hreturned with ⟨hsame, -⟩ | ⟨j, w, a₀, b₀, x₀, data, rfl, hslot, hfar, hcarries, hnew⟩
    · rw [hsame] at hi
      obtain ⟨⟨data, hd, hc⟩, hon, hfar⟩ := ht.returned a b x m hi
      exact ⟨⟨data, List.mem_append_left _ hd, hc.step h⟩, hon.step h, hfar⟩
    · rw [hnew] at hi
      rcases mem_setRoute_concat hi with hi | ⟨rfl, rfl, rfl, rfl⟩
      · obtain ⟨⟨data, hd, hc⟩, hon, hfar⟩ := ht.returned a b x m hi
        exact ⟨⟨data, List.mem_append_left _ hd, hc.step h⟩, hon.step h, hfar⟩
      · exact ⟨⟨data, by simp, hcarries.step h⟩, hslot.step h, hfar⟩
  · intro i x payload hv
    rcases hpushed with ⟨hsame, hnone⟩ | ⟨j, a₀, b₀, x₀, payload₀, rfl, -, -, hnew⟩
    · rw [hsame]
      rcases List.mem_append.mp hv with hv | hv
      · exact ht.enqueues i x payload hv
      · exact absurd (Option.mem_toList.mp hv) (hnone i x payload)
    · rw [hnew]
      rcases List.mem_append.mp hv with hv | hv
      · obtain ⟨a, b, hi⟩ := ht.enqueues i x payload hv
        exact ⟨a, b, mem_setRoute_of_mem hi⟩
      · cases List.mem_singleton.mp hv
        exact ⟨a₀, b₀, by simp⟩
  · intro i x data hv
    rcases hreturned with ⟨hsame, hnone⟩ | ⟨j, w, a₀, b₀, x₀, data₀, rfl, -, -, -, hnew⟩
    · rw [hsame]
      rcases List.mem_append.mp hv with hv | hv
      · exact ht.dequeues i x data hv
      · exact absurd (Option.mem_toList.mp hv) (hnone i x data)
    · rw [hnew]
      rcases List.mem_append.mp hv with hv | hv
      · obtain ⟨a, b, w, hi⟩ := ht.dequeues i x data hv
        exact ⟨a, b, w, mem_setRoute_of_mem hi⟩
      · cases List.mem_singleton.mp hv
        exact ⟨a₀, b₀, w, by simp⟩
  · intro a b x
    rcases hpushed with ⟨hsame, -⟩ | ⟨j, a₀, b₀, x₀, payload, rfl, -, -, hnew⟩
    · rw [hsame]
      exact ht.writesOnce a b x
    · rw [hnew]
      by_cases hroute : a = a₀ ∧ b = b₀ ∧ x = x₀
      · obtain ⟨rfl, rfl, rfl⟩ := hroute
        rw [setRoute_self, ← List.concat_eq_append]
        refine (ht.writesOnce a b x).concat fun hj => ?_
        obtain ⟨⟨_, hp⟩, -⟩ := ht.pushed a b x j hj
        exact owner_fresh hlog h (List.mem_map.mpr ⟨_, hp, rfl⟩)
      · rw [setRoute_of_ne _ _ hroute]
        exact ht.writesOnce a b x
  · intro a b x
    rcases hreturned with ⟨hsame, -⟩ | ⟨j, w, a₀, b₀, x₀, data, rfl, -, -, -, hnew⟩
    · rw [hsame]
      exact ht.readsOnce a b x
    · rw [hnew]
      by_cases hroute : a = a₀ ∧ b = b₀ ∧ x = x₀
      · obtain ⟨rfl, rfl, rfl⟩ := hroute
        rw [setRoute_self, List.map_append, List.map_singleton, ← List.concat_eq_append]
        refine (ht.readsOnce a b x).concat fun hj => ?_
        obtain ⟨m, hm, rfl⟩ := List.mem_map.mp hj
        obtain ⟨⟨_, hd, -⟩, -⟩ := ht.returned a b x m hm
        exact owner_fresh hlog h (List.mem_map.mpr ⟨_, hd, rfl⟩)
      · rw [setRoute_of_ne _ _ hroute]
        exact ht.readsOnce a b x

end Steps

end ChipSystemSim
