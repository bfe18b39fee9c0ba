import ChipSystemSim.PipeTags
import ChipSystemSim.TransportMetrics

/-! Timed runs of the transport: the routers stamp their operations with one
clock that does not go back and print a `pipe-metric` record for each. -/

namespace ChipSystemSim

def operationText : Op → Text
  | .W => writeOperation
  | .R => readOperation

def transportScope (router : Router) (peer : Slot) : Text :=
  if peer = router.slot then sameLogicalWorker
  else if (router.physicalSlots.lookup router.slot).getD 0 =
    (router.physicalSlots.lookup peer).getD 0 then
    crossLegosimSamePhysicalHost
  else crossPhysicalHost

def physicalSlot (routing : Routing) (slot : Slot) : Int :=
  (routing.workerPhysicalSlots.lookup slot).getD 0

theorem transportScope_eq (routing : Routing) (slot peer : Slot) :
    transportScope (Router.init slot routing) peer =
      if peer = slot then sameLogicalWorker
      else if physicalSlot routing slot = physicalSlot routing peer then
        crossLegosimSamePhysicalHost
      else crossPhysicalHost := rfl

/-- Both ends of a transfer give it the same scope. -/
theorem transportScope_symm (routing : Routing) (slot peer : Slot) :
    transportScope (Router.init slot routing) peer = transportScope
      (Router.init peer routing) slot := by
  rw [transportScope_eq, transportScope_eq]
  by_cases h : peer = slot
  · rw [if_pos h, if_pos h.symm]
  · rw [if_neg h, if_neg (Ne.symm h)]
    by_cases hphysical : physicalSlot routing slot = physicalSlot routing peer
    · rw [if_pos hphysical, if_pos hphysical.symm]
    · rw [if_neg hphysical, if_neg (Ne.symm hphysical)]

/-- The fields of a `pipe-metric` record that the collector reads. -/
def metricRecord (cfg : Config) (c : Conn) (peer : Slot) (started finished : Int) :
    MetricRecord where
  operation := some (operationText c.request.op)
  pipeName := some c.request.name
  bytes := some c.request.byteCount
  sourceSlot := some c.slot
  peerSlot := some peer
  transportScope := some (transportScope (Router.init c.slot cfg.routing) peer)
  startedUnixNs := some started
  finishedUnixNs := some finished

/-- An exception of the router leaves no record; what a gateway answers does. -/
def Reply.recorded : Reply → Bool
  | .err (.router _) => false
  | _ => true

/-- A run as the outside sees it. `issued` are the requests to a pipe in the
order of their connections. -/
structure Observed (ι : Type) where
  net : State ι
  tags : Tags ι
  issued : Op → Text → List ι
  clock : Int
  started : ι → Int
  records : List (ι × MetricRecord)

variable {ι : Type}

def Observed.init (clock : Int) : Observed ι :=
  ⟨State.init, Tags.init, fun _ _ => [], clock, fun _ => clock, []⟩

def emitted (cfg : Config) (s : State ι) (a : Action ι) (started : ι → Int) (finished : Int) :
    List (ι × MetricRecord) :=
  match a.client with
  | none => []
  | some i =>
    match s.conn i with
    | none => []
    | some c =>
      match c.phase, (Router.init c.slot cfg.routing).peerFor c.request.op c.request.name with
      | .replied reply, .ok peer =>
        if reply.recorded then [(i, metricRecord cfg c peer (started i) finished)] else []
      | _, _ => []

def Phase.isReplied : Phase → Bool
  | .replied _ => true
  | _ => false

/-- One client at a time: a request to a pipe follows the reply to the last one of
its kind, and a client stays for its reply. -/
def Sequential (s : State ι) : Action ι → Prop
  | .connect _ _ request => ∀ j c, s.conn j = some c → c.request.op = request.op →
      c.request.name = request.name → c.phase.isReplied = true
  | .close i => ∀ c, s.conn i = some c → c.phase.isReplied = true
  | _ => True

def Complete (s : State ι) : Prop :=
  ∀ i c, s.conn i = some c → c.phase = .replied .ok ∨ ∃ data, c.phase = .replied (.okData data)

variable [DecidableEq ι]

def startedAfter (started : ι → Int) (a : Action ι) (t : Int) : ι → Int :=
  match a with
  | .handle i => Function.update started i t
  | _ => started

def issuedAfter (issued : Op → Text → List ι) : Action ι → Op → Text → List ι
  | .connect i _ request =>
    fun op x => if op = request.op ∧ x = request.name then issued op x ++ [i] else issued op x
  | _ => issued

/-- A step that reads the clock at its start and at its end. A reply and its record
are one stretch of the coroutine: a reply has at most 65000 bytes of data, which
is below the high-water mark of the stream, so `drain` does not suspend it. -/
def Observed.next (o : Observed ι) (cfg : Config) (a : Action ι) (s' : State ι)
    (e : Option (Event ι)) (t₁ t₂ : Int) : Observed ι where
  net := s'
  tags := o.tags.step o.net a e
  issued := issuedAfter o.issued a
  clock := t₂
  started := startedAfter o.started a t₁
  records := o.records ++ emitted cfg s' a (startedAfter o.started a t₁) t₂

inductive TimedRun (cfg : Config) : Observed ι → List (Event ι) → Prop
  | init (clock : Int) : TimedRun cfg (Observed.init clock) []
  | step {o : Observed ι} {log : List (Event ι)} {a : Action ι} {s' : State ι}
      {e : Option (Event ι)} {t₁ t₂ : Int} :
      TimedRun cfg o log → Sequential o.net a → step cfg o.net a = some (s', e) →
        o.clock ≤ t₁ → t₁ ≤ t₂ →
      TimedRun cfg (o.next cfg a s' e t₁ t₂) (log ++ e.toList)

theorem TimedRun.run {cfg : Config} {o : Observed ι} {log : List (Event ι)}
    (h : TimedRun cfg o log) : Run cfg Sequential o.net log := by
  induction h with
  | init clock => exact .init
  | step _ ha hs _ _ ih => exact .step ih ha hs

theorem TimedRun.sound {cfg : Config} {o : Observed ι} {log : List (Event ι)}
    (h : TimedRun cfg o log) : Sound cfg o.net := by
  induction h with
  | init clock => exact sound_init cfg
  | step _ _ hs _ _ ih => exact sound_step ih (step_effect hs)

theorem TimedRun.tagged {cfg : Config} {o : Observed ι} {log : List (Event ι)}
    (h : TimedRun cfg o log) : Tagged cfg o.net o.tags log := by
  induction h with
  | init clock => exact tagged_init cfg
  | step hrun _ hs _ _ ih => exact tagged_step hrun.sound (logOk_run hrun.run) ih (step_effect hs)

section Clients

variable {cfg : Config} {s s' : State ι} {a : Action ι} {e : Option (Event ι)}

theorem isReplied_iff {phase : Phase} :
    phase.isReplied = true ↔ ∃ reply, phase = .replied reply := by
  cases phase <;> simp [Phase.isReplied]

omit [DecidableEq ι] in
theorem PhaseStep.active {slot : Slot} {request : Request} {phase phase' : Phase}
    (h : PhaseStep cfg s slot request phase phase') : phase.isReplied = false := by
  cases h with
  | sleepGateway hph hstop hb => rcases hph with ⟨rfl, _⟩ | ⟨⟨n, rfl⟩, _⟩ <;> rfl
  | gatewayClosed hph hstop => rcases hph with rfl | ⟨n, rfl⟩ <;> rfl
  | _ => rfl

/-- A step on behalf of a client finds it without a reply. -/
theorem Effect.client_active (h : Effect cfg s a s' e) {i : ι} (ha : a.client = some i) :
    ∃ c, s.conn i = some c ∧ c.phase.isReplied = false := by
  cases h with
  | phase hclient h hs =>
    cases hclient.symm.trans ha
    exact ⟨_, h, hs.active⟩
  | localWrite h hph hr hp hlimit =>
    cases ha
    exact ⟨_, h, by rw [hph]; rfl⟩
  | @localRead _ j c data rest hact h hph hq =>
    have hsame : a.client = some j := by rcases hact with rfl | rfl <;> rfl
    cases hsame.symm.trans ha
    refine ⟨_, h, ?_⟩
    rcases hph with ⟨hph, _⟩ | ⟨hph, _⟩ <;> rw [hph] <;> rfl
  | gatewayWrite h hph hr hf =>
    cases ha
    exact ⟨_, h, by rw [hph]; rfl⟩
  | @gatewayRead _ j c peer data rest hact h hph hstop hq =>
    have hsame : a.client = some j := by rcases hact with rfl | rfl <;> rfl
    cases hsame.symm.trans ha
    refine ⟨_, h, ?_⟩
    rcases hph with ⟨hph, _⟩ | ⟨⟨n, hph⟩, _⟩ <;> rw [hph] <;> rfl
  | _ => cases ha

theorem Effect.request (h : Effect cfg s a s' e) {i : ι} {c c' : Conn} (hc : s.conn i = some c)
    (hc' : s'.conn i = some c') : c'.request = c.request := by
  rcases h.connMove i with ⟨_, hn, _⟩ | ⟨_, _, _, hn, _⟩ | ⟨c₁, c₂, v, hc₁, hc₂, _, hr, _⟩
  · cases hc.symm.trans hn
  · cases hc.symm.trans hn
  · cases hc.symm.trans hc₁
    cases hc'.symm.trans hc₂
    exact hr

/-- Two phases that neither begin nor end a request. -/
def Phase.Alike (phase phase' : Phase) : Prop :=
  (phase' = .connected ↔ phase = .connected) ∧ ∀ reply, phase' = .replied reply ↔
    phase = .replied reply

theorem Phase.Alike.rfl {phase : Phase} : phase.Alike phase := ⟨Iff.rfl, fun _ => Iff.rfl⟩

theorem Phase.Alike.isReplied {phase phase' : Phase} (h : phase.Alike phase') :
    phase'.isReplied = phase.isReplied := by
  rw [Bool.eq_iff_iff, isReplied_iff, isReplied_iff]
  simp only [h.2]

def Conn.Alike (c c' : Conn) : Prop := c'.slot = c.slot ∧ c'.request = c.request ∧
    c.phase.Alike c'.phase

theorem Conn.Alike.rfl {c : Conn} : c.Alike c := ⟨Eq.refl _, Eq.refl _, Phase.Alike.rfl⟩

theorem Conn.notifyLocal_alike (slot : Slot) (c : Conn) : c.Alike (c.notifyLocal slot) := by
  unfold Conn.notifyLocal
  split
  · rename_i n hph
    split
    · exact ⟨Eq.refl _, Eq.refl _, by simp [Phase.Alike, hph]⟩
    · exact Conn.Alike.rfl
  · exact Conn.Alike.rfl

theorem Conn.notifyGateway_alike (slot peer : Slot) (c : Conn) :
    c.Alike (c.notifyGateway slot peer) := by
  unfold Conn.notifyGateway
  split
  · rename_i p n hph
    split
    · exact ⟨Eq.refl _, Eq.refl _, by simp [Phase.Alike, hph]⟩
    · exact Conn.Alike.rfl
  · exact Conn.Alike.rfl

theorem Conn.complete_alike (c : Conn) : c.Alike c.complete := by
  unfold Conn.complete
  split
  · rename_i p n hph
    exact ⟨Eq.refl _, Eq.refl _, by simp [Phase.Alike, hph]⟩
  · exact Conn.Alike.rfl

/-- A connection that a step is not on behalf of. -/
def OtherMove (s s' : State ι) (a : Action ι) (j : ι) : Prop :=
  (s.conn j = none ∧ s'.conn j = none) ∨
  (∃ slot request, a = .connect j slot request ∧ s.conn j = none ∧
    s'.conn j = some ⟨slot, request, .connected, false⟩) ∨
  ∃ c c', s.conn j = some c ∧ s'.conn j = some c' ∧ c.Alike c'

omit [DecidableEq ι] in
theorem otherMove_of_map {j : ι} {f : Conn → Conn} (h : s'.conn j = (s.conn j).map f)
    (hf : ∀ c : Conn, c.Alike (f c)) : OtherMove s s' a j := by
  cases hc : s.conn j with
  | none => exact Or.inl ⟨hc, by rw [h, hc]; rfl⟩
  | some c => exact Or.inr (Or.inr ⟨c, f c, hc, by rw [h, hc]; rfl, hf c⟩)

omit [DecidableEq ι] in
theorem otherMove_of_eq {j : ι} (h : s'.conn j = s.conn j) : OtherMove s s' a j :=
  otherMove_of_map (f := id) (by rw [h, Option.map_id, id]) fun _ => Conn.Alike.rfl

theorem Effect.others (h : Effect cfg s a s' e) {j : ι} (hj : a.client ≠ some j) :
    OtherMove s s' a j := by
  cases h with
  | @connect i slot request h =>
    by_cases hij : j = i
    · subst hij
      exact Or.inr (Or.inl ⟨slot, request, rfl, h, Function.update_self ..⟩)
    · exact otherMove_of_eq (Function.update_of_ne hij ..)
  | @phase _ i c phase ha h hs =>
    have hij : j ≠ i := fun hij => hj (hij ▸ ha)
    exact otherMove_of_eq (State.setPhase_conn_of_ne _ c phase hij)
  | @close i c h =>
    by_cases hij : j = i
    · subst hij
      exact Or.inr (Or.inr ⟨c, _, h, Function.update_self .., ⟨rfl, rfl, Phase.Alike.rfl⟩⟩)
    · exact otherMove_of_eq (Function.update_of_ne hij ..)
  | @localWrite i c path payload h hph hr hp hlimit =>
    have hij : j ≠ i := fun hij => hj (hij ▸ rfl)
    exact otherMove_of_map (State.setPhase_conn_of_ne _ c _ hij) (Conn.notifyLocal_alike c.slot)
  | @localRead _ i c data rest ha h hph hq =>
    have hij : j ≠ i := fun hij => hj (by rcases ha with rfl | rfl <;> rw [hij] <;> rfl)
    exact otherMove_of_eq (State.setPhase_conn_of_ne _ c _ hij)
  | @gatewayWrite i c peer path payload h hph hr hf =>
    have hij : j ≠ i := fun hij => hj (hij ▸ rfl)
    exact otherMove_of_eq (State.setPhase_conn_of_ne _ c _ hij)
  | @gatewayRead _ i c peer data rest ha h hph hstop hq =>
    have hij : j ≠ i := fun hij => hj (by rcases ha with rfl | rfl <;> rw [hij] <;> rfl)
    exact otherMove_of_eq (State.setPhase_conn_of_ne _ c _ hij)
  | @finish slot peer p hl =>
    by_cases hij : j = p.owner
    · subst hij
      exact otherMove_of_map (Function.update_self ..) Conn.complete_alike
    · exact otherMove_of_eq (Function.update_of_ne hij ..)
  | @notify slot peer hl => exact otherMove_of_map rfl (Conn.notifyGateway_alike slot peer)
  | _ => exact otherMove_of_eq rfl

/-- The router reads the clock for a request when it handles it, and only then. -/
theorem client_connected (hs : step cfg s a = some (s', e)) {i : ι}
    (ha : a.client = some i) {c : Conn} (hc : s.conn i = some c) :
    c.phase = .connected ↔ a = .handle i := by
  cases a with
  | handle j =>
    cases ha
    cases hph : c.phase <;> simp [step, hc, hph] at hs ⊢
  | wakeLocal j =>
    cases ha
    cases hph : c.phase <;> simp [step, hc, hph] at hs ⊢
  | accept j =>
    cases ha
    cases hph : c.phase <;> simp [step, hc, hph] at hs ⊢
  | wakeRead j =>
    cases ha
    cases hph : c.phase <;> simp [step, hc, hph] at hs ⊢
  | wakeWrite j =>
    cases ha
    cases hph : c.phase <;> simp [step, hc, hph] at hs ⊢
  | relay j =>
    cases ha
    cases hph : c.phase <;> simp [step, hc, hph] at hs ⊢
  | _ => cases ha

theorem startedAfter_eq (hs : step cfg s a = some (s', e)) {j : ι} {c : Conn}
    (hc : s.conn j = some c) (hph : c.phase ≠ .connected) (started : ι → Int) (t : Int) :
    startedAfter started a t j = started j := by
  cases a with
  | handle i =>
    by_cases hij : j = i
    · subst hij
      exact absurd ((client_connected hs rfl hc).mpr rfl) hph
    · exact Function.update_of_ne hij ..
  | _ => rfl

end Clients

/-- The requests to a pipe in their order. Only the last one can be without a reply. -/
structure Issued (o : Observed ι) : Prop where
  nodup : ∀ op x, (o.issued op x).Nodup
  mem : ∀ op x i, i ∈ o.issued op x ↔ ∃ c, o.net.conn i = some c ∧ c.request.op = op ∧
    c.request.name = x
  last : ∀ i c, o.net.conn i = some c → c.phase.isReplied = false →
    ∃ front, o.issued c.request.op c.request.name = front ++ [i]

omit [DecidableEq ι] in
theorem issued_init (clock : Int) : Issued (Observed.init clock : Observed ι) := by
  refine ⟨?_, ?_, ?_⟩ <;> simp [Observed.init, State.init]

section Steps

variable {cfg : Config} {o : Observed ι} {a : Action ι} {s' : State ι} {e : Option (Event ι)}
  {t₁ t₂ : Int}

/-- Unless a step is a connection, it keeps the requests as they are. -/
theorem conn_iff (h : Effect cfg o.net a s' e) (ha : ∀ i slot request, a ≠ .connect i slot request)
    (i : ι) (op : Op) (x : Text) :
    (∃ c, s'.conn i = some c ∧ c.request.op = op ∧ c.request.name = x) ↔
      ∃ c, o.net.conn i = some c ∧ c.request.op = op ∧ c.request.name = x := by
  rcases h.connMove i with ⟨hn', hn, _⟩ | ⟨slot, request, hact, _⟩ | ⟨c, c', v, hc, hc', _, hr, _⟩
  · simp [hn', hn]
  · exact absurd hact (ha i slot request)
  · simp only [hc, hc', Option.some.injEq, exists_eq_left', hr]

theorem issued_connect (ho : Issued o) {i : ι} {slot : Slot} {request : Request}
    (hseq : Sequential o.net (.connect i slot request)) (hfree : o.net.conn i = none) :
    Issued (o.next cfg (.connect i slot request)
      { o.net with conn := Function.update o.net.conn i (some ⟨slot, request, .connected, false⟩) }
        none t₁ t₂) := by
  have hfresh : ∀ op x, i ∉ o.issued op x := by
    intro op x hi
    obtain ⟨c, hc, -⟩ := (ho.mem op x i).mp hi
    cases hfree.symm.trans hc
  refine ⟨?_, ?_, ?_⟩
  · intro op x
    simp only [Observed.next, issuedAfter]
    split
    · rw [← List.concat_eq_append]
      exact (ho.nodup op x).concat (hfresh op x)
    · exact ho.nodup op x
  · intro op x j
    simp only [Observed.next, issuedAfter]
    by_cases hj : j = i
    · subst hj
      simp only [Function.update_self, Option.some.injEq, exists_eq_left']
      split
      · rename_i hsame
        simp [hsame.1, hsame.2]
      · rename_i hother
        simp only [hfresh, false_iff]
        exact fun h => hother ⟨h.1.symm, h.2.symm⟩
    · rw [Function.update_of_ne hj, ← ho.mem]
      split
      · simp [hj]
      · rfl
  · intro j c hc hph
    simp only [Observed.next, issuedAfter] at hc ⊢
    by_cases hj : j = i
    · subst hj
      rw [Function.update_self] at hc
      cases hc
      exact ⟨_, if_pos ⟨rfl, rfl⟩⟩
    · rw [Function.update_of_ne hj] at hc
      rw [if_neg]
      · exact ho.last j c hc hph
      · rintro ⟨hop, hname⟩
        rw [hseq j c hc hop hname] at hph
        cases hph

theorem issued_step (ho : Issued o) (hseq : Sequential o.net a) (h : Effect cfg o.net a s' e) :
    Issued (o.next cfg a s' e t₁ t₂) := by
  by_cases ha : ∃ i slot request, a = .connect i slot request
  · obtain ⟨i, slot, request, rfl⟩ := ha
    cases h with
    | phase ha h hs => cases ha
    | localRead ha h hph hq => rcases ha with ha | ha <;> cases ha
    | gatewayRead ha h hph hstop hq => rcases ha with ha | ha <;> cases ha
    | connect hfree => exact issued_connect ho hseq hfree
  · have hno : ∀ i slot request, a ≠ .connect i slot request :=
      fun i slot request h => ha ⟨i, slot, request, h⟩
    have hissued : (o.next cfg a s' e t₁ t₂).issued = o.issued := by
      cases a with
      | connect i slot request => exact absurd rfl (hno i slot request)
      | _ => rfl
    refine ⟨?_, ?_, ?_⟩
    · rw [hissued]
      exact ho.nodup
    · intro op x i
      rw [hissued, ho.mem]
      exact (conn_iff h hno i op x).symm
    · intro i c' hc' hph
      rw [hissued]
      by_cases hclient : a.client = some i
      · obtain ⟨c, hc, hactive⟩ := h.client_active hclient
        rw [h.request hc hc']
        exact ho.last i c hc hactive
      · rcases h.others hclient with ⟨_, hn⟩ | ⟨slot, request, hact, _⟩ |
          ⟨c, c₁, hc, hc₁, -, hr, halike⟩
        · cases hc'.symm.trans hn
        · exact absurd hact (hno i slot request)
        · cases hc'.symm.trans hc₁
          rw [hr]
          exact ho.last i c hc (halike.isReplied ▸ hph)

omit [DecidableEq ι] in
theorem emitted_cases (cfg : Config) (s : State ι) (a : Action ι) (started : ι → Int) (t : Int) :
    emitted cfg s a started t = [] ∨ ∃ i c peer, a.client = some i ∧ s.conn i = some c ∧
    c.phase.isReplied = true ∧
      cfg.routing.farSlot c.request.op c.request.name = some peer ∧
      emitted cfg s a started t = [(i, metricRecord cfg c peer (started i) t)] := by
  unfold emitted
  split
  · exact Or.inl rfl
  · rename_i i ha
    split
    · exact Or.inl rfl
    · rename_i c hc
      split
      · rename_i reply peer hph hpeer
        split
        · exact Or.inr ⟨i, c, peer, ha, hc, by rw [hph]; rfl, peerFor_init_iff.mp hpeer, rfl⟩
        · exact Or.inl rfl
      · exact Or.inl rfl

def finishedAt (m : MetricRecord) : Int := m.finishedUnixNs.getD (-1)

def startedAt (m : MetricRecord) : Int := m.startedUnixNs.getD (-1)

def OnPipe (op : Op) (x : Text) (m : MetricRecord) : Prop :=
  m.operation = some (operationText op) ∧ m.pipeName = some x

/-- The records are those of the replied requests, each with the times of its own
request, and on one pipe each begins after the one before it has ended. -/
structure Stamped (cfg : Config) (o : Observed ι) : Prop where
  handled : ∀ i c, o.net.conn i = some c → c.phase ≠ .connected → o.started i ≤ o.clock
  records : ∀ r ∈ o.records, ∃ c peer finished, o.net.conn r.1 = some c ∧ c.phase.isReplied = true ∧
    cfg.routing.farSlot c.request.op c.request.name = some peer ∧
    r.2 = metricRecord cfg c peer (o.started r.1) finished ∧ o.started r.1 ≤ finished ∧
    finished ≤ o.clock
  active : ∀ i c, o.net.conn i = some c → c.phase ≠ .connected → c.phase.isReplied = false →
    ∀ r ∈ o.records, OnPipe c.request.op c.request.name r.2 → finishedAt r.2 ≤ o.started i
  once : (o.records.map Prod.fst).Nodup
  ordered : o.records.Pairwise fun r q => ∀ op x, OnPipe op x r.2 → OnPipe op x q.2 →
    finishedAt r.2 ≤ startedAt q.2

omit [DecidableEq ι] in
theorem stamped_init (cfg : Config) (clock : Int) :
    Stamped cfg (Observed.init clock : Observed ι) := by
  refine ⟨?_, ?_, ?_, ?_, ?_⟩ <;> simp [Observed.init, State.init]

theorem connected_ne_replied {phase : Phase} (h : phase.isReplied = true) : phase ≠ .connected := by
  rintro rfl
  cases h

/-- A replied request keeps its reply, and its stamp. -/
theorem replied_step (hs : step cfg o.net a = some (s', e)) {i : ι} {c : Conn}
    (hc : o.net.conn i = some c) (hph : c.phase.isReplied = true) (t : Int) :
    ∃ c', s'.conn i = some c' ∧ c.Alike c' ∧ startedAfter o.started a t i = o.started i := by
  have h := step_effect hs
  have hclient : a.client ≠ some i := by
    intro ha
    obtain ⟨c₁, hc₁, hactive⟩ := h.client_active ha
    cases hc.symm.trans hc₁
    rw [hph] at hactive
    cases hactive
  rcases h.others hclient with ⟨hn, _⟩ | ⟨_, _, _, hn, _⟩ | ⟨c₁, c', hc₁, hc', halike⟩
  · cases hc.symm.trans hn
  · cases hc.symm.trans hn
  · cases hc.symm.trans hc₁
    exact ⟨c', hc', halike, startedAfter_eq hs hc (connected_ne_replied hph) ..⟩

/-- A request that is past its handling was so before, or is handled in this step. -/
theorem handled_cases (hs : step cfg o.net a = some (s', e)) {i : ι} {c' : Conn}
    (hc' : s'.conn i = some c') (hph : c'.phase ≠ .connected) (t : Int) :
    (a = .handle i ∧ startedAfter o.started a t i = t) ∨
    ∃ c, o.net.conn i = some c ∧ c.phase ≠ .connected ∧ c'.request = c.request ∧
      startedAfter o.started a t i = o.started i := by
  have h := step_effect hs
  have hold : ∀ c, o.net.conn i = some c → c.phase ≠ .connected →
      startedAfter o.started a t i = o.started i :=
    fun c hc hconn => startedAfter_eq hs hc hconn ..
  by_cases hclient : a.client = some i
  · obtain ⟨c, hc, -⟩ := h.client_active hclient
    by_cases hconn : c.phase = .connected
    · have ha := (client_connected hs hclient hc).mp hconn
      subst ha
      exact Or.inl ⟨rfl, Function.update_self ..⟩
    · exact Or.inr ⟨c, hc, hconn, h.request hc hc', hold c hc hconn⟩
  · rcases h.others hclient with ⟨_, hn⟩ | ⟨slot, request, _, _, hnew⟩ |
      ⟨c, c₁, hc, hc₁, -, hr, halike⟩
    · cases hc'.symm.trans hn
    · cases hc'.symm.trans hnew
      exact absurd rfl hph
    · cases hc'.symm.trans hc₁
      have hconn : c.phase ≠ .connected := fun h => hph (halike.1.mpr h)
      exact Or.inr ⟨c, hc, hconn, hr, hold c hc hconn⟩

theorem started_le (ho : Stamped cfg o) (hs : step cfg o.net a = some (s', e)) (ht₁ : o.clock ≤ t₁)
    (ht₂ : t₁ ≤ t₂) {i : ι} {c' : Conn} (hc' : s'.conn i = some c') (hph : c'.phase ≠ .connected) :
    startedAfter o.started a t₁ i ≤ t₂ := by
  rcases handled_cases hs hc' hph t₁ with ⟨-, hstarted⟩ | ⟨c, hc, hconn, -, hstarted⟩
  · omega
  · have := ho.handled i c hc hconn
    omega

omit [DecidableEq ι] in
theorem eq_of_active (ho : Issued o) {i j : ι} {c d : Conn} (hc : o.net.conn i = some c)
    (hd : o.net.conn j = some d) (hop : c.request.op = d.request.op)
    (hname : c.request.name = d.request.name) (hi : c.phase.isReplied = false)
    (hj : d.phase.isReplied = false) : i = j := by
  obtain ⟨front, hfront⟩ := ho.last i c hc hi
  obtain ⟨front', hfront'⟩ := ho.last j d hd hj
  rw [hop, hname, hfront'] at hfront
  exact (List.append_inj' hfront rfl).2 |> List.singleton_injective |>.symm

omit [DecidableEq ι] in
theorem onPipe_metricRecord {c : Conn} {peer : Slot} {started finished : Int} {op : Op} {x : Text} :
    OnPipe op x (metricRecord cfg c peer started finished) ↔ c.request.op = op ∧
    c.request.name = x := by
  have htext : operationText c.request.op = operationText op ↔ c.request.op = op := by
    cases c.request.op <;> cases op <;> decide
  simp only [OnPipe, metricRecord, Option.some.injEq, htext]

omit [DecidableEq ι] in
theorem finishedAt_le (ho : Stamped cfg o) {r : ι × MetricRecord} (hr : r ∈ o.records) :
    finishedAt r.2 ≤ o.clock := by
  obtain ⟨c, peer, finished, -, -, -, hm, -, hle⟩ := ho.records r hr
  rw [hm]
  exact hle

/-- A request that is recorded in this step began after the records of its pipe. -/
theorem client_after (ho : Stamped cfg o) (hs : step cfg o.net a = some (s', e))
    (ht₁ : o.clock ≤ t₁) {i : ι} {c' : Conn} (hclient : a.client = some i)
    (hc' : s'.conn i = some c') (hph : c'.phase ≠ .connected) {r : ι × MetricRecord}
    (hr : r ∈ o.records) (hpipe : OnPipe c'.request.op c'.request.name r.2) :
    finishedAt r.2 ≤ startedAfter o.started a t₁ i := by
  rcases handled_cases hs hc' hph t₁ with ⟨-, hstarted⟩ | ⟨c, hc, hconn, hrequest, hstarted⟩
  · rw [hstarted]
    exact (finishedAt_le ho hr).trans ht₁
  · obtain ⟨c₁, hc₁, hactive⟩ := (step_effect hs).client_active hclient
    cases hc.symm.trans hc₁
    rw [hstarted]
    exact ho.active i c hc hconn hactive r hr (hrequest ▸ hpipe)

theorem active_before (hs : step cfg o.net a = some (s', e)) {i : ι} {c c' : Conn}
    (hc : o.net.conn i = some c) (hc' : s'.conn i = some c')
    (hactive : c'.phase.isReplied = false) : c.phase.isReplied = false := by
  by_contra hph
  obtain ⟨c₁, hc₁, ⟨-, -, halike⟩, -⟩ := replied_step hs hc (by simpa using hph) 0
  cases hc'.symm.trans hc₁
  rw [halike.isReplied] at hactive
  exact hph hactive

/-- A request waits while another one is recorded: they are not of one kind. -/
theorem active_not_recorded (hissued : Issued o) (hs : step cfg o.net a = some (s', e)) {i k : ι}
    {c c' d' : Conn} (hc : o.net.conn i = some c) (hc' : s'.conn i = some c')
    (hrequest : c'.request = c.request) (hactive : c'.phase.isReplied = false)
    (hclient : a.client = some k) (hd' : s'.conn k = some d') (hph : d'.phase.isReplied = true)
    (hop : d'.request.op = c'.request.op) (hname : d'.request.name = c'.request.name) : False := by
  have h := step_effect hs
  obtain ⟨d, hd, hdactive⟩ := h.client_active hclient
  have hdrequest := h.request hd hd'
  have hik : i = k := by
    refine eq_of_active hissued hc hd ?_ ?_ (active_before hs hc hc' hactive) hdactive
    · rw [← hrequest, ← hdrequest, hop]
    · rw [← hrequest, ← hdrequest, hname]
  subst hik
  cases hc'.symm.trans hd'
  rw [hph] at hactive
  cases hactive

theorem stamped_step (hissued : Issued o) (ho : Stamped cfg o)
    (hs : step cfg o.net a = some (s', e)) (ht₁ : o.clock ≤ t₁) (ht₂ : t₁ ≤ t₂) :
    Stamped cfg (o.next cfg a s' e t₁ t₂) := by
  have h := step_effect hs
  have hclock : o.clock ≤ t₂ := ht₁.trans ht₂
  have hemitted := emitted_cases cfg s' a (startedAfter o.started a t₁) t₂
  refine ⟨?_, ?_, ?_, ?_, ?_⟩
  · intro i c' hc' hph
    exact started_le ho hs ht₁ ht₂ hc' hph
  · intro r hr
    rcases List.mem_append.mp hr with hr | hr
    · obtain ⟨c, peer, finished, hc, hph, hpeer, hm, hle, hfinished⟩ := ho.records r hr
      obtain ⟨c', hc', ⟨hslot, hrequest, halike⟩, hstarted⟩ := replied_step hs hc hph t₁
      refine ⟨c', peer, finished, hc', halike.isReplied.trans hph, hrequest ▸ hpeer, ?_, ?_,
        hfinished.trans hclock⟩
      · simp only [hm, Observed.next, hstarted, metricRecord, hslot, hrequest]
      · simpa only [Observed.next, hstarted] using hle
    · rcases hemitted with hnil | ⟨i, c, peer, hclient, hc, hph, hpeer, hone⟩
      · rw [hnil] at hr
        cases hr
      · rw [hone] at hr
        cases List.mem_singleton.mp hr
        exact ⟨c, peer, t₂, hc, hph, hpeer, rfl,
          started_le ho hs ht₁ ht₂ hc (connected_ne_replied hph), le_rfl⟩
  · intro i c' hc' hconn hactive r hr hpipe
    rcases handled_cases hs hc' hconn t₁ with ⟨ha, hstarted⟩ | ⟨c, hc, hconn', hrequest, hstarted⟩
    · rcases List.mem_append.mp hr with hr | hr
      · simp only [Observed.next, hstarted]
        exact (finishedAt_le ho hr).trans ht₁
      · subst ha
        rcases hemitted with hnil | ⟨k, d, peer, hclient, hd, hph, -, -⟩
        · rw [hnil] at hr
          cases hr
        · cases hclient
          cases hc'.symm.trans hd
          rw [hph] at hactive
          cases hactive
    · rcases List.mem_append.mp hr with hr | hr
      · simp only [Observed.next, hstarted]
        exact ho.active i c hc hconn' (active_before hs hc hc' hactive) r hr (hrequest ▸ hpipe)
      · rcases hemitted with hnil | ⟨k, d, peer, hclient, hd, hph, -, hone⟩
        · rw [hnil] at hr
          cases hr
        · rw [hone] at hr
          cases List.mem_singleton.mp hr
          obtain ⟨hop, hname⟩ := onPipe_metricRecord.mp hpipe
          exact (active_not_recorded hissued hs hc hc' hrequest hactive hclient hd hph
            hop hname).elim
  · rcases hemitted with hnil | ⟨i, c, peer, hclient, -, -, -, hone⟩
    · simpa only [Observed.next, hnil, List.append_nil] using ho.once
    · simp only [Observed.next, hone, List.map_append, List.map_singleton]
      rw [← List.concat_eq_append]
      refine ho.once.concat fun hmem => ?_
      obtain ⟨r, hr, rfl⟩ := List.mem_map.mp hmem
      obtain ⟨d, -, -, hd, hph, -⟩ := ho.records r hr
      obtain ⟨d₁, hd₁, hactive⟩ := h.client_active hclient
      cases hd.symm.trans hd₁
      rw [hph] at hactive
      cases hactive
  · refine List.pairwise_append.mpr ⟨ho.ordered, ?_, ?_⟩
    · rcases hemitted with hnil | ⟨i, c, peer, -, -, -, -, hone⟩
      · rw [hnil]
        exact .nil
      · rw [hone]
        exact List.pairwise_singleton ..
    · intro r hr q hq op x hrpipe hqpipe
      rcases hemitted with hnil | ⟨i, c, peer, hclient, hc, hph, -, hone⟩
      · rw [hnil] at hq
        cases hq
      · rw [hone] at hq
        cases List.mem_singleton.mp hq
        obtain ⟨rfl, rfl⟩ := onPipe_metricRecord.mp hqpipe
        exact client_after ho hs ht₁ hclient hc (connected_ne_replied hph) hr hrpipe

end Steps

theorem TimedRun.issued {cfg : Config} {o : Observed ι} {log : List (Event ι)}
    (h : TimedRun cfg o log) : Issued o := by
  induction h with
  | init clock => exact issued_init clock
  | step _ ha hs _ _ ih => exact issued_step ih ha (step_effect hs)

theorem TimedRun.stamped {cfg : Config} {o : Observed ι} {log : List (Event ι)}
    (h : TimedRun cfg o log) : Stamped cfg o := by
  induction h with
  | init clock => exact stamped_init cfg clock
  | step hrun _ hs ht₁ ht₂ ih => exact stamped_step hrun.issued ih hs ht₁ ht₂

end ChipSystemSim
