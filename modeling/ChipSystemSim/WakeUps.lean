import ChipSystemSim.TransportMoves

/-! Sleeping readers. A write wakes every reader of its queue, a read that pops
the head wakes nobody, so a reader can be left asleep on the payload behind it.
Nor does a gateway that the peer terminates wake its readers. -/

namespace ChipSystemSim

variable {ι : Type}

/-- Once no notified read of a router is still to be rescheduled, no read of it
sleeps on a payload of the size it asked for. -/
def LocalAwake (s : State ι) : Prop :=
  ∀ slot, (∀ j c, s.conn j = some c → c.slot = slot → c.phase ≠ .localWait true) →
    ∀ i c, s.conn i = some c → c.slot = slot → c.phase = .localWait false →
      Blocked (s.localPipes slot c.request.name) c.request.byteCount

/-- The wait predicate of a read in `HandleClient`. -/
def Gateway.ReadReady (g : Gateway ι) (name : Text) (bytes : Nat) : Prop :=
  g.stopping = true ∨ ∃ data rest, g.incoming name = data :: rest ∧ data.length = bytes

theorem Gateway.not_readReady {g : Gateway ι} {name : Text} {bytes : Nat}
    (hstop : g.stopping = false) (hb : Blocked (g.incoming name) bytes) :
    ¬g.ReadReady name bytes := by
  rintro (h | ⟨data, rest, hq, hl⟩)
  · cases hstop.symm.trans h
  · exact hb data rest hq hl

theorem Gateway.not_readReady_of_eq {g g' : Gateway ι} {name : Text} {bytes : Nat}
    (hin : g'.incoming = g.incoming) (hstop : g'.stopping = g.stopping)
    (h : ¬g.ReadReady name bytes) : ¬g'.ReadReady name bytes := by
  simpa only [Gateway.ReadReady, hin, hstop] using h

/-- The gateway of a waiting read changed nothing that its predicate looks at. -/
def SameRead (g g' : Gateway ι) : Prop :=
  g'.loop ≠ .notifying → g'.incoming = g.incoming ∧ g'.stopping = g.stopping ∧ g.loop ≠ .notifying

theorem SameRead.refl (g : Gateway ι) : SameRead g g := fun h => ⟨rfl, rfl, h⟩

/-- The same for the reads of a gateway, once its loop has called `notify_all`. -/
def GatewayAwake (s : State ι) : Prop :=
  ∀ slot peer, (s.gateway slot peer).loop ≠ .notifying →
    (∀ j c, s.conn j = some c → c.slot = slot → c.phase ≠ .gatewayRead peer true) →
    ∀ i c, s.conn i = some c → c.slot = slot → c.phase = .gatewayRead peer false →
      ¬(s.gateway slot peer).ReadReady c.request.name c.request.byteCount

def LooksLocal (cfg : Config) (s : State ι) (a : Action ι) (i : ι) (c : Conn) : Prop :=
  s.conn i = some c ∧ (a = .handle i ∨ a = .wakeLocal i) ∧
    ((c.phase = .connected ∧ c.request.op = .R ∧
        (Router.init c.slot cfg.routing).peerFor .R c.request.name = .ok c.slot) ∨
      c.phase = .localWait true)

def LooksGateway (s : State ι) (a : Action ι) (i : ι) (c : Conn) (peer : Slot) : Prop :=
  s.conn i = some c ∧ (a = .accept i ∨ a = .wakeRead i) ∧
    ((c.phase = .forwarded peer ∧ c.request.op = .R) ∨ ∃ n, c.phase = .gatewayRead peer n)

/-- No read takes the head of a queue from which another read of the same pipe,
asleep and not notified, wants exactly the next payload, and no gateway is
terminated while a read sleeps in it that is not notified. -/
structure NoOvertaking (cfg : Config) (s : State ι) (a : Action ι) : Prop where
  atRouter : ∀ i c data next rest, LooksLocal cfg s a i c →
    s.localPipes c.slot c.request.name = data :: next :: rest → data.length = c.request.byteCount →
      ∀ j c', j ≠ i → s.conn j = some c' → c'.slot = c.slot → c'.request.name = c.request.name →
        c'.phase = .localWait false → next.length ≠ c'.request.byteCount
  atGateway : ∀ i c peer data next rest, LooksGateway s a i c peer →
    (s.gateway c.slot peer).loop ≠ .notifying →
    (s.gateway c.slot peer).incoming c.request.name = data :: next :: rest →
    data.length = c.request.byteCount →
      ∀ j c', j ≠ i → s.conn j = some c' → c'.slot = c.slot → c'.request.name = c.request.name →
        c'.phase = .gatewayRead peer false → next.length ≠ c'.request.byteCount
  atTerminate : ∀ slot peer, a = .terminate slot peer →
    ∀ j c, s.conn j = some c → c.slot = slot → c.phase ≠ .gatewayRead peer false

/-- The invariant: a read that sleeps without a notification has nothing to take. -/
structure SleepersBlocked (s : State ι) : Prop where
  atRouter : ∀ i c, s.conn i = some c → c.phase = .localWait false →
    Blocked (s.localPipes c.slot c.request.name) c.request.byteCount
  atGateway : ∀ i c peer, s.conn i = some c → c.phase = .gatewayRead peer false →
    (s.gateway c.slot peer).loop ≠ .notifying →
      ¬(s.gateway c.slot peer).ReadReady c.request.name c.request.byteCount

theorem SleepersBlocked.localAwake {s : State ι} (h : SleepersBlocked s) : LocalAwake s := by
  rintro slot _ i c hc rfl hph
  exact h.atRouter i c hc hph

theorem SleepersBlocked.gatewayAwake {s : State ι} (h : SleepersBlocked s) : GatewayAwake s := by
  rintro slot peer hl _ i c hc rfl hph
  exact h.atGateway i c peer hc hph hl

theorem sleepersBlocked_init : SleepersBlocked (State.init : State ι) :=
  ⟨by simp [State.init], by simp [State.init]⟩

theorem PhaseMove.localSleep {cfg : Config} {s : State ι} {finished : Prop} {slot : Slot}
    {request : Request} {phase phase' : Phase} {v : Option (Bool × Bytes)}
    (h : PhaseMove cfg s finished slot request phase phase' v) (hph : phase' = .localWait false) :
    phase = .localWait false ∨ Blocked (s.localPipes slot request.name) request.byteCount := by
  cases h with
  | stay => exact Or.inl hph
  | own h =>
    cases h with
    | sleepFirst hr hp hb => exact Or.inr (by simpa [hr, Request.byteCount] using hb)
    | sleepAgain hb => exact Or.inr hb
    | _ => cases hph
  | gatewayWrite hr =>
    split at hph <;> cases hph
  | _ => cases hph

theorem PhaseMove.gatewaySleep {cfg : Config} {s : State ι} {finished : Prop} {slot peer : Slot}
    {request : Request} {phase phase' : Phase} {v : Option (Bool × Bytes)}
    (h : PhaseMove cfg s finished slot request phase phase' v)
    (hph : phase' = .gatewayRead peer false) :
    phase = .gatewayRead peer false ∨
      ¬(s.gateway slot peer).ReadReady request.name request.byteCount := by
  cases h with
  | stay => exact Or.inl hph
  | own h =>
    cases h with
    | sleepGateway hph' hstop hb =>
      cases hph
      refine Or.inr (Gateway.not_readReady hstop ?_)
      rcases hph' with ⟨rfl, path, hr⟩ | ⟨_, rfl⟩
      · simpa [hr, Request.byteCount] using hb
      · exact hb
    | _ => cases hph
  | gatewayWrite hr =>
    split at hph <;> cases hph
  | _ => cases hph

variable [DecidableEq ι]

theorem localSleepers_step {cfg : Config} {s s' : State ι} {a : Action ι} {e : Option (Event ι)}
    (hinv : SleepersBlocked s) (ha : NoOvertaking cfg s a) (h : Effect cfg s a s' e) {j : ι}
    {c' : Conn} (hc' : s'.conn j = some c') (hph : c'.phase = .localWait false) :
    Blocked (s'.localPipes c'.slot c'.request.name) c'.request.byteCount := by
  have hframe : s'.localPipes = s.localPipes →
      Blocked (s'.localPipes c'.slot c'.request.name) c'.request.byteCount := by
    intro hl
    rcases h.connMove j with ⟨hn, _⟩ | ⟨_, _, _, _, hc, _⟩ | ⟨c, c₁, v, hc, hc₁, hs, hr, hm, _⟩
    · cases hc'.symm.trans hn
    · cases hc'.symm.trans hc
      cases hph
    · cases hc'.symm.trans hc₁
      rw [hl, hs, hr]
      rcases hm.localSleep hph with hold | hb
      · exact hinv.atRouter j c hc hold
      · exact hb
  cases h with
  | @localWrite i c path payload h hph' hr hp hlimit =>
    have hji : j ≠ i := by
      rintro rfl
      cases hc'.symm.trans (State.setPhase_conn_self ..)
      cases hph
    rw [State.setPhase_conn_of_ne _ _ _ hji] at hc'
    obtain ⟨c₁, hc₁, rfl⟩ := Option.map_eq_some_iff.mp hc'
    -- a reader of this router that is still asleep was not there to be notified
    have hslot : c₁.notifyLocal c.slot = c₁ ∧ c₁.slot ≠ c.slot := by
      unfold Conn.notifyLocal at hph ⊢
      split at hph
      · split at hph
        · cases hph
        · rename_i hne
          exact ⟨if_neg hne, hne⟩
      · rename_i hne
        exact absurd hph (hne false)
    rw [hslot.1] at hph ⊢
    simp only [State.setPhase_localPipes, State.notifyLocal_localPipes, State.setLocal_localPipes]
    rw [if_neg fun h => hslot.2 h.1]
    exact hinv.atRouter j c₁ hc₁ hph
  | @localRead _ i c data rest ha' h hph' hq =>
    have hji : j ≠ i := by
      rintro rfl
      cases hc'.symm.trans (State.setPhase_conn_self ..)
      cases hph
    rw [State.setPhase_conn_of_ne _ _ _ hji] at hc'
    simp only [State.setPhase_localPipes, State.setLocal_localPipes]
    by_cases hsame : c'.slot = c.slot ∧ c'.request.name = c.request.name
    · rw [if_pos hsame]
      have hlooks : LooksLocal cfg s a i c := by
        refine ⟨h, ha', ?_⟩
        rcases hph' with ⟨hcon, ⟨path, hr⟩, hp⟩ | ⟨hwait, _⟩
        · exact Or.inl ⟨hcon, by rw [hr]; rfl, hp⟩
        · exact Or.inr hwait
      have hlen : data.length = c.request.byteCount := by
        rcases hph' with ⟨_, ⟨path, hr⟩, _⟩ | ⟨_, hl⟩
        · rw [hr]; rfl
        · exact hl
      rintro next rest' rfl
      exact ha.atRouter i c data next rest' hlooks hq hlen j c' hji hc' hsame.1 hsame.2 hph
    · rw [if_neg hsame]
      exact hinv.atRouter j c' hc' hph
  | _ => exact hframe rfl

theorem gatewaySleepers_step {cfg : Config} {s s' : State ι} {a : Action ι} {e : Option (Event ι)}
    (hinv : SleepersBlocked s) (ha : NoOvertaking cfg s a) (h : Effect cfg s a s' e) {j : ι}
    {c' : Conn} {q : Slot} (hc' : s'.conn j = some c') (hph : c'.phase = .gatewayRead q false)
    (hloop : (s'.gateway c'.slot q).loop ≠ .notifying) :
    ¬(s'.gateway c'.slot q).ReadReady c'.request.name c'.request.byteCount := by
  have hframe : SameRead (s.gateway c'.slot q) (s'.gateway c'.slot q) →
      ¬(s'.gateway c'.slot q).ReadReady c'.request.name c'.request.byteCount := by
    intro hkeep
    obtain ⟨hin, hstop, hl⟩ := hkeep hloop
    refine Gateway.not_readReady_of_eq hin hstop ?_
    rcases h.connMove j with ⟨hn, _⟩ | ⟨_, _, _, _, hc, _⟩ | ⟨c, c₁, v, hc, hc₁, hs, hr, hm, _⟩
    · cases hc'.symm.trans hn
    · cases hc'.symm.trans hc
      cases hph
    · cases hc'.symm.trans hc₁
      rw [hs] at hl ⊢
      rw [hr]
      rcases hm.gatewaySleep hph with hold | hb
      · exact hinv.atGateway j c q hc hold hl
      · exact hb
  have hset : ∀ {s₀ : State ι} {slot peer : Slot} {g : Gateway ι},
      SameRead (s.gateway c'.slot q) (s₀.gateway c'.slot q) → SameRead (s.gateway slot peer) g →
      SameRead (s.gateway c'.slot q) ((s₀.setGateway slot peer g).gateway c'.slot q) :=
    fun h₀ hg => State.setGateway_elim (P := fun x y g => SameRead (s.gateway x y) g) h₀ hg
  have hidle : ∀ {slot peer : Slot} {g : Gateway ι}, (s.gateway slot peer).loop ≠ .notifying →
      g.incoming = (s.gateway slot peer).incoming → g.stopping = (s.gateway slot peer).stopping →
      SameRead (s.gateway slot peer) g :=
    fun hl hin hstop _ => ⟨hin, hstop, hl⟩
  cases h with
  | gatewayWrite h hph' hr hf => exact hframe (hset (.refl _) fun h => ⟨rfl, rfl, h⟩)
  | @gatewayRead _ i c peer data rest ha' h hph' hstop hq =>
    have hji : j ≠ i := by
      rintro rfl
      cases hc'.symm.trans (State.setPhase_conn_self ..)
      cases hph
    rw [State.setPhase_conn_of_ne _ _ _ hji] at hc'
    have hc₀ : s.conn j = some c' := hc'
    rw [State.setPhase_gateway] at hloop ⊢
    by_cases hgate : c'.slot = c.slot ∧ q = peer
    · obtain ⟨hslot, rfl⟩ := hgate
      rw [hslot, State.setGateway_gateway_self] at hloop ⊢
      dsimp only at hloop ⊢
      refine Gateway.not_readReady hstop ?_
      dsimp only
      by_cases hname : c'.request.name = c.request.name
      · rw [hname, Function.update_self]
        have hlooks : LooksGateway s a i c q := by
          refine ⟨h, ha', ?_⟩
          rcases hph' with ⟨hfwd, path, hr⟩ | ⟨hread, _⟩
          · exact Or.inl ⟨hfwd, by rw [hr]; rfl⟩
          · exact Or.inr hread
        have hlen : data.length = c.request.byteCount := by
          rcases hph' with ⟨_, path, hr⟩ | ⟨_, hl⟩
          · rw [hr]; rfl
          · exact hl
        rintro next rest' rfl
        exact ha.atGateway i c q data next rest' hlooks hloop hq hlen j c' hji hc₀ hslot hname hph
      · rw [Function.update_of_ne hname]
        intro next rest' hq' hl'
        have hold := hinv.atGateway j c' q hc₀ hph (by rw [hslot]; exact hloop)
        exact hold (Or.inr ⟨next, rest', by rw [hslot, hq'], hl'⟩)
    · rw [State.setGateway_gateway_of_ne _ _ hgate] at hloop ⊢
      exact hinv.atGateway j c' q hc₀ hph hloop
  | pick hl hstop ho => exact hframe (hset (.refl _) (hidle (by simp [hl]) rfl rfl))
  | allocFail hl => exact hframe (hset (.refl _) (hidle (by simp [hl]) rfl rfl))
  | send hl => exact hframe (hset (.refl _) (hidle (by simp [hl]) rfl rfl))
  | finish hl => exact hframe (hset (.refl _) (hidle (by simp [hl]) rfl rfl))
  | receive hne hl hstop hq hf =>
    exact hframe (hset (hset (.refl _) fun h => ⟨rfl, rfl, h⟩) fun h => absurd rfl h)
  | drop hq hf => exact hframe (hset (.refl _) fun h => ⟨rfl, rfl, h⟩)
  | @notify slot peer hl =>
    obtain ⟨c₁, hc₁, rfl⟩ := Option.map_eq_some_iff.mp hc'
    have hother : c₁.notifyGateway slot peer = c₁ ∧ ¬(c₁.slot = slot ∧ q = peer) := by
      unfold Conn.notifyGateway at hph ⊢
      split at hph
      · rename_i p n hp
        split at hph
        · cases hph
        · rename_i hne
          cases hp.symm.trans hph
          exact ⟨if_neg hne, hne⟩
      · rename_i hne
        exact absurd hph (hne q false)
    rw [hother.1] at hph hloop ⊢
    rw [State.notifyGateway_gateway, State.setGateway_gateway_of_ne _ _ hother.2] at hloop ⊢
    exact hinv.atGateway j c₁ q hc₁ hph hloop
  | @terminate slot peer hl =>
    -- the flag is raised without a notification, so nobody may be asleep
    have hother : ¬(c'.slot = slot ∧ q = peer) := by
      rintro ⟨hslot, rfl⟩
      exact ha.atTerminate slot q rfl j c' hc' hslot hph
    rw [State.setGateway_gateway_of_ne _ _ hother] at hloop ⊢
    exact hinv.atGateway j c' q hc' hph hloop
  | _ => exact hframe (.refl _)

/-- If no read overtakes a sleeping one and no gateway is terminated under one,
no wake-up is lost. -/
theorem no_lost_wakeup {cfg : Config} {s : State ι} {log : List (Event ι)}
    (h : Run cfg (NoOvertaking cfg) s log) : LocalAwake s ∧ GatewayAwake s := by
  have hblocked : SleepersBlocked s := by
    induction h with
    | init => exact sleepersBlocked_init
    | step _ ha hs ih =>
      exact ⟨fun i c hc hph => localSleepers_step ih ha (step_effect hs) hc hph,
        fun i c peer hc hph hl => gatewaySleepers_step ih ha (step_effect hs) hc hph hl⟩
  exact ⟨hblocked.localAwake, hblocked.gatewayAwake⟩

def execChecked (cfg : Config) (check : State ι → Action ι → Bool) : List (Action ι) → State ι →
    List (Event ι) → Option (State ι × List (Event ι))
  | [], s, log => some (s, log)
  | a :: rest, s, log =>
    if check s a then
      match step cfg s a with
      | none => none
      | some (s', e) => execChecked cfg check rest s' (log ++ e.toList)
    else none

theorem Run.execChecked {cfg : Config} {allowed : State ι → Action ι → Prop}
    {check : State ι → Action ι → Bool} (hcheck : ∀ s a, check s a = true → allowed s a)
    {actions : List (Action ι)} {s s' : State ι} {log log' : List (Event ι)}
    (hr : Run cfg allowed s log)
    (he : ChipSystemSim.execChecked cfg check actions s log = some (s', log')) :
    Run cfg allowed s' log' := by
  induction actions generalizing s log with
  | nil =>
    cases he
    exact hr
  | cons a rest ih =>
    simp only [ChipSystemSim.execChecked] at he
    split at he
    · rename_i hc
      split at he
      · cases he
      · rename_i s₁ e hs
        exact ih (.step hr (hcheck s a hc) hs) he
    · cases he

/-- Whether the payload behind the head of a queue has this size. -/
def fitsNext (queue : List Bytes) (bytes : Nat) : Bool :=
  match queue with
  | _ :: next :: _ => next.length == bytes
  | _ => false

def Action.keepsRing : Action ι → Bool
  | .terminate _ _ => false
  | _ => true

/-- Nobody who sleeps without a notification wants the payload behind the head. -/
def nobodyNext {n : Nat} (s : State (Fin n)) (a : Action (Fin n)) : Bool :=
  a.keepsRing && (List.finRange n).all fun i =>
    match s.conn i with
    | none => true
    | some c =>
      match c.phase with
      | .localWait false => !fitsNext (s.localPipes c.slot c.request.name) c.request.byteCount
      | .gatewayRead peer false =>
        !fitsNext ((s.gateway c.slot peer).incoming c.request.name) c.request.byteCount
      | _ => true

theorem noOvertaking_of_nobodyNext {cfg : Config} {n : Nat} (s : State (Fin n))
    (a : Action (Fin n)) (h : nobodyNext s a = true) : NoOvertaking cfg s a := by
  simp only [nobodyNext, Bool.and_eq_true, List.all_eq_true] at h
  obtain ⟨hring, hall⟩ := h
  refine ⟨?_, ?_, ?_⟩
  · intro i c data next rest _ hq _ j c' _ hc' hslot hname hph
    have hj := hall j (List.mem_finRange j)
    simp only [hc', hph, hslot, hname, hq, fitsNext] at hj
    simpa using hj
  · intro i c peer data next rest _ _ hq _ j c' _ hc' hslot hname hph
    have hj := hall j (List.mem_finRange j)
    simp only [hc', hph, hslot, hname, hq, fitsNext] at hj
    simpa using hj
  · rintro slot peer rfl
    cases hring

/-- The read of eight bytes sleeps through two payloads of four, which two
other reads take, and wakes for its own. The last read still sleeps. -/
def patientAtRouter : List (Action (Fin 8)) :=
  [.connect 0 0 (.read crossPipe 8), .handle 0, .connect 1 0 (.write crossPipe ones), .handle 1,
    .wakeLocal 0, .connect 2 0 (.write crossPipe threes), .handle 2, .wakeLocal 0,
    .connect 3 0 (.read crossPipe 4), .handle 3, .connect 4 0 (.read crossPipe 4), .handle 4,
    .connect 5 0 (.write crossPipe twos), .handle 5, .wakeLocal 0,
    .connect 6 0 (.write crossPipe ones), .handle 6, .connect 7 0 (.read crossPipe 8), .handle 7]

def patientAtGateway : List (Action (Fin 8)) :=
  [.connect 0 1 (.read crossPipe 8), .handle 0, .accept 0,
    .connect 1 0 (.write crossPipe ones), .handle 1, .accept 1,
    .pick 0 1, .send 0 1, .finish 0 1, .receive 1 0, .notify 1 0, .wakeRead 0,
    .connect 2 0 (.write crossPipe threes), .handle 2, .accept 2,
    .pick 0 1, .send 0 1, .finish 0 1, .receive 1 0, .notify 1 0, .wakeRead 0,
    .connect 3 1 (.read crossPipe 4), .handle 3, .accept 3,
    .connect 4 1 (.read crossPipe 4), .handle 4, .accept 4,
    .connect 5 0 (.write crossPipe twos), .handle 5, .accept 5,
    .pick 0 1, .send 0 1, .finish 0 1, .receive 1 0, .notify 1 0, .wakeRead 0,
    .connect 6 0 (.write crossPipe ones), .handle 6, .accept 6,
    .pick 0 1, .send 0 1, .finish 0 1, .receive 1 0, .notify 1 0,
    .connect 7 1 (.read crossPipe 8), .handle 7, .accept 7]

def patientLog : List (Event (Fin 8)) :=
  [.enqueue 1 crossPipe ones, .enqueue 2 crossPipe threes, .dequeue 3 crossPipe ones,
    .dequeue 4 crossPipe threes, .enqueue 5 crossPipe twos, .dequeue 0 crossPipe twos,
    .enqueue 6 crossPipe ones]

theorem no_lost_wakeup_sleeping_read :
    (∃ s : State (Fin 8), Run oneSlot (NoOvertaking oneSlot) s patientLog ∧
      s.conn 7 = some ⟨0, .read crossPipe 8, .localWait false, false⟩ ∧
      s.localPipes 0 crossPipe = [ones] ∧ LocalAwake s ∧ GatewayAwake s) ∧
    ∃ s : State (Fin 8), Run twoSlots (NoOvertaking twoSlots) s patientLog ∧
      s.conn 7 = some ⟨1, .read crossPipe 8, .gatewayRead 0 false, false⟩ ∧
      (s.gateway 1 0).incoming crossPipe = [ones] ∧ LocalAwake s ∧ GatewayAwake s := by
  constructor
  · have hexec : (execChecked oneSlot nobodyNext patientAtRouter State.init []).map
        (fun r => decide (r.2 = patientLog ∧
          r.1.conn 7 = some ⟨0, .read crossPipe 8, .localWait false, false⟩ ∧
          r.1.localPipes 0 crossPipe = [ones])) = some true := by decide +kernel
    obtain ⟨⟨s, log⟩, he, hp⟩ := Option.map_eq_some_iff.mp hexec
    obtain ⟨rfl, hc, hq⟩ := of_decide_eq_true hp
    have hrun : Run oneSlot (NoOvertaking oneSlot) s patientLog :=
      Run.init.execChecked noOvertaking_of_nobodyNext he
    exact ⟨s, hrun, hc, hq, no_lost_wakeup hrun⟩
  · have hexec : (execChecked twoSlots nobodyNext patientAtGateway State.init []).map
        (fun r => decide (r.2 = patientLog ∧
          r.1.conn 7 = some ⟨1, .read crossPipe 8, .gatewayRead 0 false, false⟩ ∧
          (r.1.gateway 1 0).incoming crossPipe = [ones])) = some true := by decide +kernel
    obtain ⟨⟨s, log⟩, he, hp⟩ := Option.map_eq_some_iff.mp hexec
    obtain ⟨rfl, hc, hq⟩ := of_decide_eq_true hp
    have hrun : Run twoSlots (NoOvertaking twoSlots) s patientLog :=
      Run.init.execChecked noOvertaking_of_nobodyNext he
    exact ⟨s, hrun, hc, hq, no_lost_wakeup hrun⟩

/-- The read of eight bytes wakes for the payload in front of its own, sleeps
again, and the read of four bytes takes that payload without a notification. -/
def overtakeAtRouter : List (Action (Fin 4)) :=
  [.connect 0 0 (.read crossPipe 8), .handle 0, .connect 1 0 (.write crossPipe ones), .handle 1,
    .connect 2 0 (.write crossPipe twos), .handle 2, .wakeLocal 0,
    .connect 3 0 (.read crossPipe 4), .handle 3]

def overtakeAtGateway : List (Action (Fin 4)) :=
  [.connect 0 1 (.read crossPipe 8), .handle 0, .accept 0,
    .connect 1 0 (.write crossPipe ones), .handle 1, .accept 1,
    .connect 2 0 (.write crossPipe twos), .handle 2, .accept 2,
    .pick 0 1, .send 0 1, .finish 0 1, .pick 0 1, .send 0 1, .finish 0 1,
    .receive 1 0, .notify 1 0, .receive 1 0, .notify 1 0, .wakeRead 0,
    .connect 3 1 (.read crossPipe 4), .handle 3, .accept 3]

/-- The peer ends the ring while a read waits for its first payload. -/
def terminateAsleep : List (Action (Fin 1)) :=
  [.connect 0 1 (.read crossPipe 8), .handle 0, .accept 0, .terminate 1 0]

theorem wakeup_lost :
    (∃ s : State (Fin 4), ∃ log, Run oneSlot (fun _ _ => True) s log ∧ ¬LocalAwake s) ∧
    (∃ s : State (Fin 4), ∃ log, Run twoSlots (fun _ _ => True) s log ∧
      (s.gateway 1 0).stopping = false ∧ ¬GatewayAwake s) ∧
    ∃ s : State (Fin 1), Run twoSlots (fun _ _ => True) s [] ∧
      (s.gateway 1 0).stopping = true ∧ ¬GatewayAwake s := by
  refine ⟨?_, ?_, ?_⟩
  · obtain ⟨s, log, hrun, hp⟩ := exec_reaches oneSlot overtakeAtRouter
      (fun s => decide (s.conn 0 = some ⟨0, .read crossPipe 8, .localWait false, false⟩ ∧
        s.localPipes 0 crossPipe = [twos] ∧
        ∀ j, ∀ c ∈ s.conn j, c.phase ≠ .localWait true)) (by decide +kernel)
    obtain ⟨hc, hq, hj⟩ := of_decide_eq_true hp
    refine ⟨s, log, hrun, fun hawake => ?_⟩
    exact hawake 0 (fun j c hc _ => hj j c hc) 0 _ hc rfl rfl _ [] hq rfl
  · obtain ⟨s, log, hrun, hp⟩ := exec_reaches twoSlots overtakeAtGateway
      (fun s => decide (s.conn 0 = some ⟨1, .read crossPipe 8, .gatewayRead 0 false, false⟩ ∧
        (s.gateway 1 0).incoming crossPipe = [twos] ∧ (s.gateway 1 0).loop = .idle ∧
        (s.gateway 1 0).stopping = false ∧
        ∀ j, ∀ c ∈ s.conn j, c.phase ≠ .gatewayRead 0 true)) (by decide +kernel)
    obtain ⟨hc, hq, hl, hstop, hj⟩ := of_decide_eq_true hp
    refine ⟨s, log, hrun, hstop, fun hawake => ?_⟩
    exact hawake 1 0 (by simp [hl]) (fun j c hc _ => hj j c hc) 0 _ hc rfl rfl
      (Or.inr ⟨_, [], hq, rfl⟩)
  · have hexec : (exec twoSlots terminateAsleep State.init []).map (fun r => decide (r.2 = [] ∧
        r.1.conn 0 = some ⟨1, .read crossPipe 8, .gatewayRead 0 false, false⟩ ∧
        (r.1.gateway 1 0).loop = .idle ∧ (r.1.gateway 1 0).stopping = true)) = some true := by
      decide +kernel
    obtain ⟨⟨s, log⟩, he, hp⟩ := Option.map_eq_some_iff.mp hexec
    obtain ⟨rfl, hc, hl, hstop⟩ := of_decide_eq_true hp
    have hrun : Run twoSlots (fun _ _ => True) s [] := Run.init.exec (fun _ _ _ => trivial) he
    refine ⟨s, hrun, hstop, fun hawake => ?_⟩
    refine hawake 1 0 (fun h => by cases hl.symm.trans h) ?_ 0 _ hc rfl rfl (Or.inl hstop)
    intro j c hcj _
    cases hc.symm.trans ((congrArg s.conn (Subsingleton.elim 0 j)).trans hcj)
    exact fun h => by cases h

end ChipSystemSim
