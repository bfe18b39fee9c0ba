import ChipSystemSim.PhaseTwo

/-! The times that the callbacks record: what holds of one trace, and that every
event keeps it. -/

namespace ChipSystemSim

open Collect

variable {cfg : PhaseTwoConfig} {record : BenchRecord} {now : Nat} {st : TraceState}
  {net : Ns3Trace}

def DirectionState.route (d : DirectionState) : Nat × Nat × Nat :=
  (d.source, d.destination, d.fragments)

def TraceState.fixed (st : TraceState) : BenchRecord × Bool × (Bool → Nat × Nat × Nat) :=
  (st.bench, st.special, fun acknowledgement => (st.direction acknowledgement).route)

@[simp] theorem TraceState.setDirection_bench (b : Bool) (d : DirectionState) :
    (st.setDirection b d).bench = st.bench := by
  cases b <;> rfl

@[simp] theorem TraceState.setDirection_special (b : Bool) (d : DirectionState) :
    (st.setDirection b d).special = st.special := by
  cases b <;> rfl

@[simp] theorem TraceState.setDirection_scheduled (b : Bool) (d : DirectionState) :
    (st.setDirection b d).acknowledgementScheduled = st.acknowledgementScheduled := by
  cases b <;> rfl

@[simp] theorem TraceState.direction_setDirection (b : Bool) (d : DirectionState) :
    (st.setDirection b d).direction = Function.update st.direction b d := by
  funext c
  cases b <;> cases c <;> rfl

theorem TraceState.fixed_setDirection {b : Bool} {d : DirectionState}
    (h : d.route = (st.direction b).route) : (st.setDirection b d).fixed = st.fixed := by
  simp only [TraceState.fixed, setDirection_bench, setDirection_special, direction_setDirection]
  congr 2
  funext c
  by_cases hc : c = b
  · subst hc
    rw [Function.update_self, h]
  · rw [Function.update_of_ne hc]

structure RemoteOk (now : Nat) (d : DirectionState) (sentAt : List Nat) (packets : List (Nat × Nat))
    (left reached : Nat → Option Nat) : Prop where
  packet_lt : ∀ {f}, f ∈ packets.map Prod.fst → f < d.fragments ∧ sentAt ≠ []
  left_after : ∀ {f t}, left f = some t → t ≤ now ∧ sentAt ≠ [] ∧ ∀ u ∈ sentAt, u < t
  reached_after : ∀ {f t}, reached f = some t → t ≤ now ∧ ∃ v, left f = some v ∧ v < t
  transmit : Collected (Finset.range d.fragments) left d.transmitted d.transmitFinishNs
  arrive : Collected (Finset.range d.fragments) reached d.received d.arrivalNs

structure LocalOk (cfg : PhaseTwoConfig) (d : DirectionState) (sentAt : List Nat)
    (packets : List (Nat × Nat)) (left : Nat → Option Nat) : Prop where
  no_packet : packets = []
  no_left : ∀ f, left f = none
  times : (sentAt = [] ∧ d.transmitFinishNs = -1 ∧ d.arrivalNs = -1) ∨
    ∃ u : Nat, sentAt = [u] ∧ u + cfg.cycleNs < 2 ^ 63 ∧ d.transmitFinishNs = u + cfg.cycleNs ∧
      d.arrivalNs = u + cfg.cycleNs

structure DirectionOk (cfg : PhaseTwoConfig) (now : Nat) (d : DirectionState) (sentAt : List Nat)
    (packets : List (Nat × Nat)) (left reached : Nat → Option Nat) : Prop where
  remote : d.source ≠ d.destination → RemoteOk now d sentAt packets left reached
  within : d.source = d.destination → LocalOk cfg d sentAt packets left

structure TraceCore (cfg : PhaseTwoConfig) (record : BenchRecord) (now : Nat) (st : TraceState)
    (net : Ns3Trace) : Prop where
  fixed : st.fixed = (cfg.traceState record).fixed
  direction : ∀ b, DirectionOk cfg now (st.direction b) (net.sentAt b) (net.packets b) (net.left b)
    (net.reached b)
  forwardCall : net.scheduled false ++ net.sentAt false = [cfg.startNs record]

/-- The acknowledgement is called once the forward direction has arrived, at the
start time that `WriteDelayInfo` computes again. -/
structure TraceOk (cfg : PhaseTwoConfig) (record : BenchRecord) (now : Nat) (st : TraceState)
    (net : Ns3Trace) : Prop extends TraceCore cfg record now st net where
  scheduled_iff : st.acknowledgementScheduled = true ↔ st.special = true ∧ 0 ≤ st.forward.arrivalNs
  acknowledgementCall : net.scheduled true ++ net.sentAt true =
    if st.acknowledgementScheduled then [(acknowledgementStartNs cfg st).toNat] else []

theorem TraceCore.bench_eq (h : TraceCore cfg record now st net) : st.bench = record :=
  congrArg Prod.fst h.fixed

theorem TraceCore.special_eq (h : TraceCore cfg record now st net) :
    st.special = isSpecial record.descriptor :=
  congrArg (fun x => x.2.1) h.fixed

section Start

theorem remoteOk_start {d : DirectionState} (h₁ : d.transmitted = ∅) (h₂ : d.received = ∅)
    (h₃ : d.transmitFinishNs = -1) (h₄ : d.arrivalNs = -1) :
    RemoteOk now d [] [] (fun _ => none) fun _ => none where
  packet_lt := by simp
  left_after := by simp
  reached_after := by simp
  transmit := by
    rw [h₁, h₃]
    exact collected_init
  arrive := by
    rw [h₂, h₄]
    exact collected_init

theorem directionOk_start {d : DirectionState} (h₁ : d.transmitted = ∅) (h₂ : d.received = ∅)
    (h₃ : d.transmitFinishNs = -1) (h₄ : d.arrivalNs = -1) :
    DirectionOk cfg now d [] [] (fun _ => none) fun _ => none where
  remote := fun _ => remoteOk_start h₁ h₂ h₃ h₄
  within := fun _ => ⟨rfl, fun _ => rfl, Or.inl ⟨rfl, h₃, h₄⟩⟩

theorem traceOk_start (hscheduled : net.scheduled = fun b => if b then [] else [cfg.startNs record])
    (hsent : net.sentAt = fun _ => []) (hpackets : net.packets = fun _ => [])
    (hleft : net.left = fun _ _ => none) (hreached : net.reached = fun _ _ => none) :
    TraceOk cfg record now (cfg.traceState record) net where
  fixed := rfl
  direction := by
    intro b
    rw [hsent, hpackets, hleft, hreached]
    refine directionOk_start ?_ ?_ ?_ ?_
    all_goals
      cases b
      · rfl
      · simp only [TraceState.direction, PhaseTwoConfig.traceState, if_true]
        split <;> rfl
  forwardCall := by
    rw [hscheduled, hsent]
    rfl
  scheduled_iff := by simp [PhaseTwoConfig.traceState]
  acknowledgementCall := by
    rw [hscheduled, hsent]
    rfl

end Start

section Time

theorem RemoteOk.later {d : DirectionState} {sentAt : List Nat} {packets : List (Nat × Nat)}
    {left reached : Nat → Option Nat} (h : RemoteOk now d sentAt packets left reached) {later : Nat}
    (hle : now ≤ later) : RemoteOk later d sentAt packets left reached where
  packet_lt := h.packet_lt
  left_after := fun hf => ⟨(h.left_after hf).1.trans hle, (h.left_after hf).2⟩
  reached_after := fun hf => ⟨(h.reached_after hf).1.trans hle, (h.reached_after hf).2⟩
  transmit := h.transmit
  arrive := h.arrive

theorem TraceOk.later (h : TraceOk cfg record now st net) {later : Nat} (hle : now ≤ later) :
    TraceOk cfg record later st net where
  fixed := h.fixed
  direction := fun b => ⟨fun hd => ((h.direction b).remote hd).later hle, (h.direction b).within⟩
  forwardCall := h.forwardCall
  scheduled_iff := h.scheduled_iff
  acknowledgementCall := h.acknowledgementCall

end Time

section Callbacks

variable {b : Bool} {d : DirectionState} {net' : Ns3Trace}

theorem TraceCore.change (h : TraceCore cfg record now st net)
    (hroute : d.route = (st.direction b).route)
    (hd : DirectionOk cfg now d (net'.sentAt b) (net'.packets b) (net'.left b) (net'.reached b))
    (hother : ∀ c, c ≠ b → net'.sentAt c = net.sentAt c ∧ net'.packets c = net.packets c ∧
      net'.left c = net.left c ∧ net'.reached c = net.reached c)
    (hcall : net'.scheduled false ++ net'.sentAt false = net.scheduled false ++ net.sentAt false) :
    TraceCore cfg record now (st.setDirection b d) net' where
  fixed := (st.fixed_setDirection hroute).trans h.fixed
  direction := by
    intro c
    rw [TraceState.direction_setDirection]
    by_cases hc : c = b
    · subst hc
      rwa [Function.update_self]
    · obtain ⟨h₁, h₂, h₃, h₄⟩ := hother c hc
      rw [Function.update_of_ne hc, h₁, h₂, h₃, h₄]
      exact h.direction c
  forwardCall := hcall.trans h.forwardCall

theorem TraceOk.change (h : TraceOk cfg record now st net)
    (hcore : TraceCore cfg record now (st.setDirection b d) net')
    (harrival : b = false → d.arrivalNs = st.forward.arrivalNs)
    (hcall : net'.scheduled true ++ net'.sentAt true = net.scheduled true ++ net.sentAt true) :
    TraceOk cfg record now (st.setDirection b d) net' := by
  have hsame : (st.setDirection b d).forward.arrivalNs = st.forward.arrivalNs := by
    cases b
    · exact harrival rfl
    · rfl
  refine ⟨hcore, ?_, ?_⟩
  · rw [hsame, TraceState.setDirection_scheduled, TraceState.setDirection_special]
    exact h.scheduled_iff
  · rw [hcall, h.acknowledgementCall]
    simp only [acknowledgementStartNs, hsame, TraceState.setDirection_scheduled,
      TraceState.setDirection_bench]

theorem TraceCore.scheduled (h : TraceCore cfg record now st net) {due : List Nat} :
    TraceCore cfg record now { st with acknowledgementScheduled := true }
      { net with scheduled := Function.update net.scheduled true due } :=
  ⟨h.fixed, h.direction, h.forwardCall⟩

theorem TraceCore.arrived (h : TraceCore cfg record now st net)
    (hflag : st.acknowledgementScheduled = false)
    (hcall : net.scheduled true ++ net.sentAt true = []) (harrival : now ≤ st.forward.arrivalNs) :
    TraceOk cfg record now (acknowledgeArrival cfg now false st net).1
      (acknowledgeArrival cfg now false st net).2 := by
  obtain ⟨hscheduled, hsent⟩ := List.append_eq_nil_iff.mp hcall
  have hset : 0 ≤ st.forward.arrivalNs := by omega
  by_cases hspecial : st.special = true
  · simp only [acknowledgeArrival, hspecial, Bool.not_false, Bool.and_self, if_true]
    have hdue : now + (max 0 (max st.forward.arrivalNs (cfg.destinationNs st.bench) - now)).toNat =
        (acknowledgementStartNs cfg st).toNat := by
      unfold acknowledgementStartNs
      omega
    simp only [scheduleAcknowledgement, hflag, Bool.false_eq_true, if_false]
    refine ⟨h.scheduled, ?_, ?_⟩
    · simp [hspecial, hset]
    · rw [hscheduled, hdue]
      simp only [Function.update_self, hsent]
      rfl
  · simp only [acknowledgeArrival, hspecial, Bool.and_false, Bool.false_eq_true, if_false]
    refine ⟨h, ?_, ?_⟩
    · simp [hflag, hspecial]
    · simp [hcall, hflag]

theorem DirectionOk.remote_of_packet {sentAt : List Nat} {packets : List (Nat × Nat)}
    {left reached : Nat → Option Nat} (h : DirectionOk cfg now d sentAt packets left reached)
    {f : Nat} (hf : f ∈ packets.map Prod.fst) : d.source ≠ d.destination := by
  intro hd
  rw [(h.within hd).no_packet] at hf
  cases hf

theorem DirectionOk.remote_of_left {sentAt : List Nat} {packets : List (Nat × Nat)}
    {left reached : Nat → Option Nat} (h : DirectionOk cfg now d sentAt packets left reached)
    {f v : Nat} (hf : left f = some v) : d.source ≠ d.destination := by
  intro hd
  rw [(h.within hd).no_left] at hf
  cases hf

theorem RemoteOk.mark_left {sentAt : List Nat} {packets : List (Nat × Nat)}
    {left reached : Nat → Option Nat} {d' : DirectionState}
    (h : RemoteOk now d sentAt packets left reached) {f : Nat} (hf : f ∈ packets.map Prod.fst)
    (hsent : ∀ u ∈ sentAt, u < now) (hfragments : d'.fragments = d.fragments)
    (hreceived : d'.received = d.received) (harrival : d'.arrivalNs = d.arrivalNs)
    (htransmit : Collected (Finset.range d.fragments) (mark left now f) d'.transmitted
      d'.transmitFinishNs) :
    RemoteOk now d' sentAt packets (mark left now f) reached where
  packet_lt := by
    rw [hfragments]
    exact h.packet_lt
  left_after := by
    intro g t hg
    rcases mark_eq_some.mp hg with hg | ⟨_, _, rfl⟩
    · exact h.left_after hg
    · exact ⟨le_rfl, (h.packet_lt hf).2, hsent⟩
  reached_after := by
    intro g t hg
    obtain ⟨hle, v, hv, hlt⟩ := h.reached_after hg
    exact ⟨hle, v, mark_eq_some.mpr (Or.inl hv), hlt⟩
  transmit := by rwa [hfragments]
  arrive := by
    rw [hfragments, hreceived, harrival]
    exact h.arrive

theorem RemoteOk.mark_reached {sentAt : List Nat} {packets : List (Nat × Nat)}
    {left reached : Nat → Option Nat} {d' : DirectionState}
    (h : RemoteOk now d sentAt packets left reached) {f v : Nat} (hf : left f = some v)
    (hv : v < now) (hfragments : d'.fragments = d.fragments)
    (htransmitted : d'.transmitted = d.transmitted)
    (hfinish : d'.transmitFinishNs = d.transmitFinishNs)
    (harrive : Collected (Finset.range d.fragments) (mark reached now f) d'.received d'.arrivalNs) :
    RemoteOk now d' sentAt packets left (mark reached now f) where
  packet_lt := by
    rw [hfragments]
    exact h.packet_lt
  left_after := h.left_after
  reached_after := by
    intro g t hg
    rcases mark_eq_some.mp hg with hg | ⟨rfl, _, rfl⟩
    · exact h.reached_after hg
    · exact ⟨le_rfl, v, hf, hv⟩
  transmit := by
    rw [hfragments, htransmitted, hfinish]
    exact h.transmit
  arrive := by rwa [hfragments]

theorem TraceOk.onTransmitEnd (h : TraceOk cfg record now st net) {node f : Nat}
    (hf : f ∈ (net.packets b).map Prod.fst)
    (hsent : node = (st.direction b).source → ∀ u ∈ net.sentAt b, u < now) :
    TraceOk cfg record now (ChipSystemSim.onTransmitEnd now node b f st)
      { net with left := Function.update net.left b (if node = (st.direction b).source
        then mark (net.left b) now f else net.left b) } := by
  have hremote := (h.direction b).remote_of_packet hf
  have hok := (h.direction b).remote hremote
  have hmem : f ∈ Finset.range (st.direction b).fragments :=
    Finset.mem_range.mpr (hok.packet_lt hf).1
  by_cases hnode : node = (st.direction b).source
  · by_cases hfinish : 0 ≤ (st.direction b).transmitFinishNs
    · simp only [ChipSystemSim.onTransmitEnd, hnode, hfinish, ne_eq, not_true, or_true, if_true]
      rwa [hok.transmit.mark_finished hmem hfinish, Function.update_eq_self]
    · simp only [ChipSystemSim.onTransmitEnd, hnode, hfinish, ne_eq, not_true, or_self,
        if_true, if_false]
      have hcollected := hok.transmit.mark hmem (fun hg => (hok.left_after hg).1) hfinish
      rw [Finset.card_range] at hcollected
      refine h.change (h.toTraceCore.change rfl ?_ ?_ rfl) ?_ rfl
      · refine ⟨fun _ => ?_, fun hd => absurd hd hremote⟩
        simp only [Function.update_self]
        exact hok.mark_left hf (hsent hnode) rfl rfl rfl hcollected
      · intro c hc
        simp [hc]
      · rintro rfl
        rfl
  · simp only [ChipSystemSim.onTransmitEnd, hnode, ne_eq, not_false_eq_true, true_or,
      if_true, if_false]
    rwa [Function.update_eq_self]

theorem TraceOk.onReceive (h : TraceOk cfg record now st net) {node f v : Nat}
    (hleft : net.left b f = some v) (hv : v < now) :
    let reached := if node = (st.direction b).destination then mark (net.reached b) now f
      else net.reached b
    let net' := { net with reached := Function.update net.reached b reached }
    TraceOk cfg record now (ChipSystemSim.onReceive cfg now node b f st net').1
      (ChipSystemSim.onReceive cfg now node b f st net').2 := by
  intro reached net'
  have hremote := (h.direction b).remote_of_left hleft
  have hok := (h.direction b).remote hremote
  have hmem : f ∈ Finset.range (st.direction b).fragments := hok.transmit.awaited hleft
  by_cases hnode : node = (st.direction b).destination
  · by_cases hfinish : 0 ≤ (st.direction b).arrivalNs
    · have hnet : net' = net := by
        simp only [net', reached, hnode, if_true, hok.arrive.mark_finished hmem hfinish,
          Function.update_eq_self]
      simp only [ChipSystemSim.onReceive, hnode, hfinish, ne_eq, not_true, or_true, if_true, hnet]
      exact h
    · have hcollected := hok.arrive.mark hmem (fun hg => (hok.reached_after hg).1) hfinish
      rw [Finset.card_range] at hcollected
      have hnet : net'.reached b = mark (net.reached b) now f := by
        simp only [net', reached, hnode, if_true, Function.update_self]
      have hother : ∀ c, c ≠ b → net'.sentAt c = net.sentAt c ∧ net'.packets c = net.packets c ∧
          net'.left c = net.left c ∧ net'.reached c = net.reached c := by
        intro c hc
        simp [net', hc]
      simp only [ChipSystemSim.onReceive, hnode, hfinish, ne_eq, not_true, or_self, if_false]
      split
      · rename_i hcard
        rw [if_neg hcard] at hcollected
        refine h.change (h.toTraceCore.change rfl ⟨fun _ => ?_, fun hd => absurd hd hremote⟩
          hother rfl) ?_ rfl
        · rw [hnet]
          exact hok.mark_reached hleft hv rfl rfl rfl hcollected
        · rintro rfl
          rfl
      · rename_i hcard
        rw [if_pos (not_not.mp hcard)] at hcollected
        have hcore : TraceCore cfg record now (st.setDirection b { st.direction b with
            received := insert f (st.direction b).received, arrivalNs := now }) net' := by
          refine h.toTraceCore.change rfl ⟨fun _ => ?_, fun hd => absurd hd hremote⟩ hother rfl
          rw [hnet]
          exact hok.mark_reached hleft hv rfl rfl rfl hcollected
        cases b with
        | true => exact h.change hcore (fun hb => absurd hb (by decide)) rfl
        | false =>
          have hflag : st.acknowledgementScheduled = false := by
            by_contra hne
            have hset := (h.scheduled_iff.mp (by simpa using hne)).2
            exact hfinish hset
          have hcall := h.acknowledgementCall
          rw [hflag] at hcall
          exact hcore.arrived hflag hcall le_rfl
  · have hnet : net' = net := by
      simp only [net', reached, hnode, if_false, Function.update_eq_self]
    simp only [ChipSystemSim.onReceive, hnode, ne_eq, not_false_eq_true, true_or, if_true, hnet]
    exact h

theorem TraceOk.due (h : TraceOk cfg record now st net) (hdue : now ∈ net.scheduled b) :
    net.scheduled b = [now] ∧ net.sentAt b = [] ∧
    (b = true → st.acknowledgementScheduled = true) := by
  have hone : ∀ {t : Nat}, net.scheduled b ++ net.sentAt b = [t] →
      net.scheduled b = [now] ∧ net.sentAt b = [] := by
    intro t ht
    rcases List.append_eq_singleton_iff.mp ht with ⟨h₁, _⟩ | ⟨h₁, h₂⟩
    · rw [h₁] at hdue
      cases hdue
    · rw [h₁, List.mem_singleton] at hdue
      subst hdue
      exact ⟨h₁, h₂⟩
  cases b with
  | false =>
    obtain ⟨h₁, h₂⟩ := hone h.forwardCall
    exact ⟨h₁, h₂, fun hb => absurd hb (by decide)⟩
  | true =>
    have hcall := h.acknowledgementCall
    split at hcall
    · rename_i hflag
      obtain ⟨h₁, h₂⟩ := hone hcall
      exact ⟨h₁, h₂, fun _ => hflag⟩
    · rw [(List.append_eq_nil_iff.mp hcall).1] at hdue
      cases hdue

theorem TraceOk.sendDirection (h : TraceOk cfg record now st net) (hdue : now ∈ net.scheduled b)
    (hdefined : (st.direction b).source = (st.direction b).destination →
      now + cfg.cycleNs < 2 ^ 63) :
    TraceOk cfg record now (ChipSystemSim.sendDirection cfg now b st (PhaseTwo.called now b net)).1
      (ChipSystemSim.sendDirection cfg now b st (PhaseTwo.called now b net)).2 := by
  obtain ⟨hscheduled, hsent, hflag⟩ := h.due hdue
  let net' := PhaseTwo.called now b net
  have hsent' : net'.sentAt b = [now] := by
    simp [net', PhaseTwo.called, hsent]
  have hcalls : ∀ c, net'.scheduled c ++ net'.sentAt c = net.scheduled c ++ net.sentAt c := by
    intro c
    by_cases hc : c = b
    · subst hc
      simp [net', PhaseTwo.called, hscheduled, hsent]
    · simp [net', PhaseTwo.called, hc]
  have hother : ∀ c, c ≠ b → net'.sentAt c = net.sentAt c ∧ net'.packets c = net.packets c ∧
      net'.left c = net.left c ∧ net'.reached c = net.reached c := by
    intro c hc
    simp [net', PhaseTwo.called, hc]
  by_cases hd : (st.direction b).source = (st.direction b).destination
  · have hwithin := (h.direction b).within hd
    have hunset : (st.direction b).arrivalNs = -1 := by
      rcases hwithin.times with ⟨_, _, harrival⟩ | ⟨u, hu, _⟩
      · exact harrival
      · rw [hsent] at hu
        cases hu
    have hcore : TraceCore cfg record now
        (st.setDirection b ((st.direction b).completeAt (now + cfg.cycleNs))) net' := by
      refine h.toTraceCore.change rfl ⟨fun hne => absurd hd hne, fun _ => ?_⟩ hother (hcalls false)
      exact ⟨hwithin.no_packet, hwithin.no_left, Or.inr ⟨now, hsent', hdefined hd, rfl, rfl⟩⟩
    have hsend : ChipSystemSim.sendDirection cfg now b st net' = acknowledgeArrival cfg now b
        (st.setDirection b ((st.direction b).completeAt (now + cfg.cycleNs))) net' := if_pos hd
    rw [hsend]
    cases b with
    | true => exact h.change hcore (fun hb => absurd hb (by decide)) (hcalls true)
    | false =>
      have hflag' : st.acknowledgementScheduled = false := by
        by_contra hne
        have hset := (h.scheduled_iff.mp (by simpa using hne)).2
        have harrival : st.forward.arrivalNs = -1 := hunset
        omega
      have hcall := h.acknowledgementCall
      rw [hflag', ← hcalls true] at hcall
      refine hcore.arrived hflag' hcall ?_
      simp only [TraceState.setDirection, DirectionState.completeAt, Bool.false_eq_true, if_false]
      omega
  · have hok := (h.direction b).remote hd
    have hleft : ∀ f, net.left b f = none := by
      intro f
      cases hf : net.left b f with
      | none => rfl
      | some t => exact absurd hsent (hok.left_after hf).2.1
    have hsame : st.setDirection b (st.direction b) = st := by
      cases b <;> rfl
    simp only [ChipSystemSim.sendDirection, hd, if_false]
    rw [← hsame]
    refine h.change (h.toTraceCore.change rfl ⟨fun _ => ?_, fun hl => absurd hl hd⟩ ?_
      (hcalls false)) ?_
      (hcalls true)
    · rw [hsame]
      refine ⟨?_, ?_, ?_, hok.transmit, hok.arrive⟩
      · intro f hf
        simp only [Function.update_self, List.map_map] at hf
        obtain ⟨g, hg, rfl⟩ := List.mem_map.mp hf
        refine ⟨List.mem_range.mp hg, ?_⟩
        show net'.sentAt b ≠ []
        rw [hsent']
        exact List.cons_ne_nil _ _
      · intro f t hf
        have hnone : net.left b f = some t := hf
        rw [hleft f] at hnone
        cases hnone
      · intro f t hf
        obtain ⟨_, v, hv, _⟩ := hok.reached_after hf
        rw [hleft f] at hv
        cases hv
    · intro c hc
      obtain ⟨h₁, h₂, h₃, h₄⟩ := hother c hc
      refine ⟨h₁, ?_, h₃, h₄⟩
      simp only [Function.update_of_ne hc]
      exact h₂
    · rintro rfl
      rfl

end Callbacks

namespace PhaseTwo

variable {s t : PhaseTwo}

structure Invariant (cfg : PhaseTwoConfig) (s : PhaseTwo) : Prop where
  clock : s.now < 2 ^ 63
  trace : ∀ i < cfg.bench.length, TraceOk cfg (cfg.record i) s.now (s.states i) (s.net i)

theorem invariant_start : Invariant cfg (start cfg) where
  clock := by simp [start]
  trace := by
    intro i hi
    refine traceOk_start ?_ rfl rfl rfl rfl
    funext b
    simp only [start, Bool.or_eq_true, decide_eq_true_eq, not_le.mpr hi, or_false]

theorem Invariant.set (h : Invariant cfg s) {trace : Nat} {r : TraceState × Ns3Trace}
    (hr : trace < cfg.bench.length → TraceOk cfg (cfg.record trace) s.now r.1 r.2) :
    Invariant cfg (s.set trace r) where
  clock := h.clock
  trace := by
    intro i hi
    by_cases htrace : i = trace
    · subst htrace
      simpa only [PhaseTwo.set, Function.update_self] using hr hi
    · simpa only [PhaseTwo.set, Function.update_of_ne htrace] using h.trace i hi

theorem Invariant.step (h : Invariant cfg s) (hstep : Step cfg s t) : Invariant cfg t := by
  obtain ⟨hallowed, happly⟩ := hstep
  rename_i e
  cases e with
  | advance time =>
    cases happly
    exact ⟨hallowed.2, fun i hi => (h.trace i hi).later hallowed.1⟩
  | send trace b refused =>
    obtain ⟨htrace, hdue, hdefined⟩ := hallowed
    simp only [apply] at happly
    split at happly
    · cases happly
    · cases happly
      exact h.set fun _ => (h.trace trace htrace).sendDirection hdue hdefined
  | transmitEnd node trace b f =>
    obtain ⟨htrace, hf, hsent⟩ := hallowed
    cases happly
    exact h.set fun _ => (h.trace trace htrace).onTransmitEnd hf hsent
  | receive node trace b f =>
    obtain ⟨htrace, _, v, hv, hleft⟩ := hallowed
    cases happly
    exact h.set fun _ => (h.trace trace htrace).onReceive hleft hv

theorem invariant_steps (h : Steps cfg (start cfg) s) : Invariant cfg s := by
  induction h with
  | refl => exact invariant_start
  | tail _ hstep ih => exact ih.step hstep

end PhaseTwo

end ChipSystemSim
