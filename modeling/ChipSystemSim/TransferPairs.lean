import ChipSystemSim.PipeMetrics

/-! The collector pairs each read with the write that it returned. On a pipe the
records, the pushes and the returns all follow the order of the requests, so the
size-filtered lists that the collector zips are those of the FIFO. -/

namespace ChipSystemSim

variable {ι : Type} [DecidableEq ι]

instance (op : Op) (x : Text) (m : MetricRecord) : Decidable (OnPipe op x m) :=
  inferInstanceAs (Decidable (_ ∧ _))

/-- Records, pushes and returns of a pipe are in the order of the requests. -/
structure Aligned (cfg : Config) (o : Observed ι) : Prop where
  recorded : ∀ op x, ((o.records.filter fun r => OnPipe op x r.2).map Prod.fst).Sublist
    (o.issued op x)
  pushed : ∀ a b x, (o.tags.pushed a b x).Sublist (o.issued .W x)
  returned : ∀ a b x, ((o.tags.returned a b x).map Prod.fst).Sublist (o.issued .R x)
  exposed : ∀ r ∈ o.records, ∀ a b x w, (r.1, w) ∈ o.tags.returned a b x →
    o.started w ≤ finishedAt r.2
  present : ∀ i c reply peer, o.net.conn i = some c → c.phase = .replied reply →
    reply.recorded = true →
    cfg.routing.farSlot c.request.op c.request.name = some peer → i ∈ o.records.map Prod.fst

section Steps

variable {cfg : Config} {o : Observed ι} {log : List (Event ι)} {a : Action ι} {s' : State ι}
  {e : Option (Event ι)}
  {t₁ t₂ : Int}

omit [DecidableEq ι] in
theorem aligned_init (cfg : Config) (clock : Int) :
    Aligned cfg (Observed.init clock : Observed ι) := by
  refine ⟨?_, ?_, ?_, ?_, ?_⟩ <;> simp [Observed.init, State.init, Tags.init]

omit [DecidableEq ι] in
theorem sublist_concat {l m front : List ι} {i : ι} (h : l.Sublist m) (hm : m = front ++ [i])
    (hi : i ∉ l) : (l ++ [i]).Sublist m := by
  subst hm
  obtain ⟨l₁, l₂, rfl, h₁, h₂⟩ := List.sublist_append_iff.mp h
  rcases List.sublist_singleton.mp h₂ with rfl | rfl
  · rw [List.append_nil]
    exact h₁.append (List.Sublist.refl _)
  · simp at hi

omit [DecidableEq ι] in
theorem issuedAfter_client {i : ι} (ha : a.client = some i) (issued : Op → Text → List ι) :
    issuedAfter issued a = issued := by
  cases a <;> first | rfl | cases ha

omit [DecidableEq ι] in
theorem sublist_issuedAfter (a : Action ι) (issued : Op → Text → List ι) (op : Op) (x : Text) :
    (issued op x).Sublist (issuedAfter issued a op x) := by
  cases a with
  | connect i slot request =>
    simp only [issuedAfter]
    split
    · exact List.sublist_append_left ..
    · exact List.Sublist.refl _
  | _ => exact List.Sublist.refl _

def Event.op : Event ι → Op
  | .enqueue _ _ _ => .W
  | .dequeue _ _ _ => .R

/-- An event comes from a step of the client that it names. -/
theorem Effect.event (hsound : Sound cfg o.net) {v : Event ι} (h : Effect cfg o.net a s' (some v)) :
    a.client = some v.owner ∧ ∃ c, o.net.conn v.owner = some c ∧ c.request.op = v.op ∧
    c.request.name = v.name := by
  cases h with
  | @localWrite i c path payload h hph hr hp hlimit => exact ⟨rfl, c, h, by rw [hr]; rfl, rfl⟩
  | @localRead _ i c data rest ha h hph hq =>
    refine ⟨by rcases ha with rfl | rfl <;> rfl, c, h, ?_, rfl⟩
    rcases hph with ⟨_, ⟨path, hr⟩, _⟩ | ⟨hph, _⟩
    · rw [hr]
      rfl
    · have hok := hsound.phases i c h
      rw [hph] at hok
      exact hok.1
  | @gatewayWrite i c peer path payload h hph hr hf => exact ⟨rfl, c, h, by rw [hr]; rfl, rfl⟩
  | @gatewayRead _ i c peer data rest ha h hph hstop hq =>
    refine ⟨by rcases ha with rfl | rfl <;> rfl, c, h, ?_, rfl⟩
    rcases hph with ⟨_, path, hr⟩ | ⟨⟨n, hph⟩, _⟩
    · rw [hr]
      rfl
    · have hok := hsound.phases i c h
      rw [hph] at hok
      exact hok.1

/-- The request of a client that takes a step is the last one of its kind. -/
theorem client_last (hissued : Issued o) (h : Effect cfg o.net a s' e) {i : ι}
    (ha : a.client = some i) {c : Conn} (hc : o.net.conn i = some c) :
    ∃ front, issuedAfter o.issued a c.request.op c.request.name = front ++ [i] := by
  obtain ⟨c₁, hc₁, hactive⟩ := h.client_active ha
  cases hc.symm.trans hc₁
  rw [issuedAfter_client ha]
  exact hissued.last i c hc hactive

/-- The owner of an event is the last one to have issued a request of its kind. -/
theorem event_last (hsound : Sound cfg o.net) (hissued : Issued o) {v : Event ι}
    (h : Effect cfg o.net a s' (some v)) :
    ∃ front, issuedAfter o.issued a v.op v.name = front ++ [v.owner] := by
  obtain ⟨hclient, c, hc, hop, hname⟩ := h.event hsound
  obtain ⟨front, hfront⟩ := client_last hissued h hclient hc
  rw [hop, hname] at hfront
  exact ⟨front, hfront⟩

omit [DecidableEq ι] in
theorem emitted_eq {i : ι} {c : Conn} {reply : Reply} {peer : Slot} (ha : a.client = some i)
    (hc : s'.conn i = some c) (hph : c.phase = .replied reply) (hreply : reply.recorded = true)
    (hpeer : cfg.routing.farSlot c.request.op c.request.name = some peer)
    (started : ι → Int) (t : Int) :
    emitted cfg s' a started t = [(i, metricRecord cfg c peer (started i) t)] := by
  simp only [emitted, ha, hc, hph, peerFor_init_iff.mpr hpeer, hreply, if_true]

theorem recorded_step (hissued : Issued o) (hstamped : Stamped cfg o) (ho : Aligned cfg o)
    (h : Effect cfg o.net a s' e) (op : Op) (x : Text) :
    (((o.next cfg a s' e t₁ t₂).records.filter fun r => OnPipe op x r.2).map Prod.fst).Sublist
      (issuedAfter o.issued a op x) := by
  have hold := (ho.recorded op x).trans (sublist_issuedAfter a o.issued op x)
  rcases emitted_cases cfg s' a (startedAfter o.started a t₁) t₂ with hnil |
    ⟨i, c', peer, hclient, hc', -, -, hone⟩
  · simpa only [Observed.next, hnil, List.append_nil] using hold
  · simp only [Observed.next, hone, List.filter_append, List.map_append]
    by_cases hpipe : OnPipe op x (metricRecord cfg c' peer (startedAfter o.started a t₁ i) t₂)
    · obtain ⟨rfl, rfl⟩ := onPipe_metricRecord.mp hpipe
      obtain ⟨c, hc, hactive⟩ := h.client_active hclient
      obtain ⟨front, hfront⟩ := client_last hissued h hclient hc
      rw [List.filter_singleton, decide_eq_true hpipe]
      refine sublist_concat hold (h.request hc hc' ▸ hfront) fun hmem => ?_
      obtain ⟨r, hr, rfl⟩ := List.mem_map.mp hmem
      obtain ⟨d, -, -, hd, hph, -⟩ := hstamped.records r (List.mem_of_mem_filter hr)
      cases hc.symm.trans hd
      rw [hph] at hactive
      cases hactive
    · rw [List.filter_singleton, decide_eq_false hpipe]
      simpa using hold

omit [DecidableEq ι] in
/-- A write that a read returned was handled before. -/
theorem returned_handled {s : State ι} {t : Tags ι} (hlog : LogOk s log)
    (ht : Tagged cfg s t log) {r w : ι} {a b : Slot} {x : Text} (h : (r, w) ∈ t.returned a b x) :
    ∃ c, s.conn w = some c ∧ c.phase ≠ .connected := by
  have hpushed : w ∈ t.pushed a b x := by
    rw [ht.fifo a b x]
    exact List.mem_append_left _ (List.mem_map_of_mem h)
  obtain ⟨⟨payload, hevent⟩, -⟩ := ht.pushed a b x w hpushed
  obtain ⟨c, hc, -, hsettled⟩ := hlog.settled _ hevent
  refine ⟨c, hc, ?_⟩
  rintro hph
  rw [hph] at hsettled
  cases hsettled

theorem pushed_step (hsound : Sound cfg o.net) (hissued : Issued o) (ho : Aligned cfg o)
    (h : Effect cfg o.net a s' e) (ht : Tagged cfg s' (o.tags.step o.net a e) (log ++ e.toList))
    (a₁ b₁ : Slot) (x : Text) :
    ((o.tags.step o.net a e).pushed a₁ b₁ x).Sublist (issuedAfter o.issued a .W x) := by
  have hold := fun a₁ b₁ x => (ho.pushed a₁ b₁ x).trans (sublist_issuedAfter a o.issued .W x)
  rcases (tagMove hsound h o.tags).pushed with ⟨hsame, -⟩ |
    ⟨i, a₀, b₀, x₀, payload, rfl, -, -, hnew⟩
  · rw [hsame]
    exact hold a₁ b₁ x
  · have honce := ht.writesOnce a₀ b₀ x₀
    rw [hnew, setRoute_self, List.nodup_append] at honce
    rw [hnew]
    by_cases hroute : a₁ = a₀ ∧ b₁ = b₀ ∧ x = x₀
    · obtain ⟨rfl, rfl, rfl⟩ := hroute
      obtain ⟨front, hfront⟩ := event_last hsound hissued h
      rw [setRoute_self]
      exact sublist_concat (hold a₁ b₁ x) hfront fun hi =>
        honce.2.2 i hi i (List.mem_singleton_self i) rfl
    · rw [setRoute_of_ne _ _ hroute]
      exact hold a₁ b₁ x

theorem returned_step (hsound : Sound cfg o.net) (htags : Tagged cfg o.net o.tags log)
    (hissued : Issued o) (ho : Aligned cfg o) (h : Effect cfg o.net a s' e)
    (ht : Tagged cfg s' (o.tags.step o.net a e) (log ++ e.toList)) (a₁ b₁ : Slot) (x : Text) :
    (((o.tags.step o.net a e).returned a₁ b₁ x).map Prod.fst).Sublist
      (issuedAfter o.issued a .R x) := by
  have hold := fun a₁ b₁ x => (ho.returned a₁ b₁ x).trans (sublist_issuedAfter a o.issued .R x)
  rcases (tagMove hsound h o.tags).returned htags with
    ⟨hsame, -⟩ | ⟨i, w, a₀, b₀, x₀, data, rfl, -, -, -, hnew⟩
  · rw [hsame]
    exact hold a₁ b₁ x
  · have honce := ht.readsOnce a₀ b₀ x₀
    rw [hnew, setRoute_self, List.map_append, List.nodup_append] at honce
    rw [hnew]
    by_cases hroute : a₁ = a₀ ∧ b₁ = b₀ ∧ x = x₀
    · obtain ⟨rfl, rfl, rfl⟩ := hroute
      obtain ⟨front, hfront⟩ := event_last hsound hissued h
      rw [setRoute_self, List.map_append]
      exact sublist_concat (hold a₁ b₁ x) hfront fun hi =>
        honce.2.2 i hi i (List.mem_singleton_self i) rfl
    · rw [setRoute_of_ne _ _ hroute]
      exact hold a₁ b₁ x

theorem exposed_step (hsound : Sound cfg o.net) (hlog : LogOk o.net log)
    (htags : Tagged cfg o.net o.tags log) (hstamped : Stamped cfg o) (ho : Aligned cfg o)
    (hs : step cfg o.net a = some (s', e)) (ht₁ : o.clock ≤ t₁) (ht₂ : t₁ ≤ t₂)
    {r : ι × MetricRecord} (hr : r ∈ (o.next cfg a s' e t₁ t₂).records) {a₁ b₁ : Slot} {x : Text}
    {w : ι} (hw : (r.1, w) ∈ (o.tags.step o.net a e).returned a₁ b₁ x) :
    startedAfter o.started a t₁ w ≤ finishedAt r.2 := by
  have h := step_effect hs
  rcases List.mem_append.mp hr with hr | hr
  · obtain ⟨c, -, -, hc, hph, -⟩ := hstamped.records r hr
    have hold : (r.1, w) ∈ o.tags.returned a₁ b₁ x := by
      rcases (tagMove hsound h o.tags).returned htags with
        ⟨hsame, -⟩ | ⟨i, w₀, a₀, b₀, x₀, data, rfl, -, -, -, hnew⟩
      · rwa [hsame] at hw
      · rw [hnew] at hw
        rcases mem_setRoute_concat hw with hw | ⟨-, -, -, hnew⟩
        · exact hw
        · obtain ⟨c₁, hc₁, hactive⟩ := h.client_active (h.event hsound).1
          cases (Prod.mk.inj hnew).1
          cases hc.symm.trans hc₁
          rw [hph] at hactive
          cases hactive
    obtain ⟨d, hd, hconn⟩ := returned_handled hlog htags hold
    rw [startedAfter_eq hs hd hconn]
    exact ho.exposed r hr a₁ b₁ x w hold
  · rcases emitted_cases cfg s' a (startedAfter o.started a t₁) t₂ with hnil |
      ⟨i, c, peer, -, -, -, -, hone⟩
    · rw [hnil] at hr
      cases hr
    · rw [hone] at hr
      cases List.mem_singleton.mp hr
      obtain ⟨d, hd, hconn⟩ := returned_handled (logOk_step hlog h)
        (tagged_step hsound hlog htags h) hw
      exact started_le hstamped hs ht₁ ht₂ hd hconn

theorem present_step (ho : Aligned cfg o) (h : Effect cfg o.net a s' e) {i : ι} {c' : Conn}
    {reply : Reply} {peer : Slot} (hc' : s'.conn i = some c') (hph : c'.phase = .replied reply)
    (hreply : reply.recorded = true)
    (hpeer : cfg.routing.farSlot c'.request.op c'.request.name = some peer) :
    i ∈ (o.next cfg a s' e t₁ t₂).records.map Prod.fst := by
  simp only [Observed.next, List.map_append, List.mem_append]
  by_cases hclient : a.client = some i
  · refine Or.inr ?_
    rw [emitted_eq hclient hc' hph hreply hpeer]
    exact List.mem_singleton_self i
  · refine Or.inl ?_
    rcases h.others hclient with ⟨_, hn⟩ | ⟨slot, request, _, _, hnew⟩ |
      ⟨c, c₁, hc, hc₁, -, hr, halike⟩
    · cases hc'.symm.trans hn
    · cases hc'.symm.trans hnew
      cases hph
    · cases hc'.symm.trans hc₁
      rw [hr] at hpeer
      exact ho.present i c reply peer hc ((halike.2 reply).mp hph) hreply hpeer

theorem TimedRun.aligned (h : TimedRun cfg o log) : Aligned cfg o := by
  induction h with
  | init clock => exact aligned_init cfg clock
  | @step o log a s' e t₁ t₂ hrun ha hs ht₁ ht₂ ih =>
    have heffect := step_effect hs
    have hlog := logOk_run hrun.run
    have htagged := tagged_step hrun.sound hlog hrun.tagged heffect
    exact ⟨recorded_step hrun.issued hrun.stamped ih heffect,
      pushed_step hrun.sound hrun.issued ih heffect htagged,
      returned_step hrun.sound hrun.tagged hrun.issued ih heffect htagged, fun r hr a₁ b₁ x w hw =>
        exposed_step hrun.sound hlog hrun.tagged hrun.stamped ih hs ht₁ ht₂ hr hw,
      fun i c reply peer hc hph hreply hpeer => present_step ih heffect hc hph hreply hpeer⟩

end Steps

omit [DecidableEq ι] in
theorem eq_of_sublist {l m whole : List ι} (hl : l.Sublist whole) (hm : m.Sublist whole)
    (hnodup : whole.Nodup) (h : ∀ i, i ∈ l ↔ i ∈ m) : l = m := by
  induction hl generalizing m with
  | slnil => exact (List.sublist_nil.mp hm).symm
  | @cons l whole x hl ih =>
    obtain ⟨hx, hrest⟩ := List.nodup_cons.mp hnodup
    have hnot : x ∉ m := fun hmem => hx (hl.subset ((h x).mpr hmem))
    cases hm with
    | cons _ hm => exact ih hm hrest h
    | cons_cons _ hm => exact absurd List.mem_cons_self hnot
  | @cons_cons l whole x hl ih =>
    obtain ⟨hx, hrest⟩ := List.nodup_cons.mp hnodup
    cases hm with
    | cons _ hm => exact absurd (hm.subset ((h x).mp List.mem_cons_self)) hx
    | @cons_cons m _ _ hm =>
      have hlx : x ∉ l := fun hmem => hx (hl.subset hmem)
      have hmx : x ∉ m := fun hmem => hx (hm.subset hmem)
      refine congrArg (x :: ·) (ih hm hrest fun i => ?_)
      constructor
      · intro hi
        exact (List.mem_cons.mp ((h i).mp (List.mem_cons_of_mem x hi))).resolve_left fun hix =>
          hlx (hix ▸ hi)
      · intro hi
        exact (List.mem_cons.mp ((h i).mpr (List.mem_cons_of_mem x hi))).resolve_left fun hix =>
          hmx (hix ▸ hi)

section Routes

variable {cfg : Config} {o : Observed ι} {log : List (Event ι)} {a b : Slot} {x : Text}

def OnRoute (op : Op) (x : Text) (source peer : Slot) (m : MetricRecord) : Prop :=
  OnPipe op x m ∧ m.sourceSlot = some source ∧ m.peerSlot = some peer

instance (op : Op) (x : Text) (source peer : Slot) (m : MetricRecord) :
    Decidable (OnRoute op x source peer m) :=
  inferInstanceAs (Decidable (_ ∧ _))

def recordsOn (o : Observed ι) (op : Op) (x : Text) (source peer : Slot) : List ι :=
  (o.records.filter fun r => OnRoute op x source peer r.2).map Prod.fst

omit [DecidableEq ι] in
theorem onRoute_metricRecord {c : Conn} {far source peer : Slot}
    {started finished : Int} {op : Op} :
    OnRoute op x source peer (metricRecord cfg c far started finished) ↔
      c.request.op = op ∧ c.request.name = x ∧ c.slot = source ∧ far = peer := by
  rw [OnRoute, onPipe_metricRecord]
  simp only [metricRecord, Option.some.injEq, and_assoc]

theorem recordsOn_sublist (h : TimedRun cfg o log) (op : Op) (source peer : Slot) :
    (recordsOn o op x source peer).Sublist (o.issued op x) := by
  refine List.Sublist.trans ?_ (h.aligned.recorded op x)
  refine List.Sublist.map _ (List.monotone_filter_right _ fun r hr => ?_)
  simp only [decide_eq_true_eq] at hr ⊢
  exact hr.1

/-- In a run that is over, a record is there for each request that has a peer. -/
theorem mem_recordsOn (h : TimedRun cfg o log) (hdone : Complete o.net) {op : Op}
    {source peer : Slot} {i : ι} :
    i ∈ recordsOn o op x source peer ↔ ∃ c, o.net.conn i = some c ∧ c.request.op = op ∧
    c.request.name = x ∧
      c.slot = source ∧ cfg.routing.farSlot op x = some peer := by
  constructor
  · intro hi
    obtain ⟨r, hr, rfl⟩ := List.mem_map.mp hi
    obtain ⟨hmem, hroute⟩ := List.mem_filter.mp hr
    obtain ⟨c, far, finished, hc, -, hfar, hm, -⟩ := h.stamped.records r hmem
    rw [decide_eq_true_eq, hm] at hroute
    obtain ⟨rfl, rfl, rfl, rfl⟩ := onRoute_metricRecord.mp hroute
    exact ⟨c, hc, rfl, rfl, rfl, hfar⟩
  · rintro ⟨c, hc, rfl, rfl, rfl, hfar⟩
    have hreply : ∃ reply, c.phase = .replied reply ∧ reply.recorded = true := by
      rcases hdone i c hc with hph | ⟨data, hph⟩
      · exact ⟨_, hph, rfl⟩
      · exact ⟨_, hph, rfl⟩
    obtain ⟨reply, hph, hrecorded⟩ := hreply
    obtain ⟨r, hr, rfl⟩ := List.mem_map.mp (h.aligned.present i c reply peer hc hph hrecorded hfar)
    refine List.mem_map.mpr ⟨r, List.mem_filter.mpr ⟨hr, ?_⟩, rfl⟩
    obtain ⟨d, far, finished, hd, -, hfar', hm, -⟩ := h.stamped.records r hr
    cases hc.symm.trans hd
    rw [decide_eq_true_eq, hm, onRoute_metricRecord]
    exact ⟨rfl, rfl, rfl, Option.some.inj (hfar'.symm.trans hfar)⟩

omit [DecidableEq ι] in
theorem conn_of_onSlot {s : State ι} {i : ι} {slot : Slot} (h : OnSlot s i slot) {c : Conn}
    (hc : s.conn i = some c) : c.slot = slot := by
  obtain ⟨d, hd, hslot⟩ := h
  cases hc.symm.trans hd
  exact hslot

theorem pushed_of_write (h : TimedRun cfg o log) (hdone : Complete o.net) {i : ι} {c : Conn}
    (hc : o.net.conn i = some c) (hop : c.request.op = .W) :
    ∃ a b, i ∈ o.tags.pushed a b c.request.name := by
  have hreply : c.phase = .replied .ok := by
    rcases hdone i c hc with hph | ⟨data, hph⟩
    · exact hph
    · have hok := h.sound.phases i c hc
      rw [hph] at hok
      cases hop.symm.trans hok.1
  obtain ⟨payload, hevent⟩ := (logOk_run h.run).queued i c hc (by rw [hreply]; rfl)
  exact h.tagged.enqueues i _ payload hevent

theorem recordsOn_pushed (h : TimedRun cfg o log) (hdone : Complete o.net) :
    recordsOn o .W x a b = o.tags.pushed a b x := by
  have htags := h.tagged
  have hlog := logOk_run h.run
  refine eq_of_sublist (recordsOn_sublist h .W a b) (h.aligned.pushed a b x)
    (h.issued.nodup .W x) fun i => ?_
  rw [mem_recordsOn h hdone]
  constructor
  · rintro ⟨c, hc, hop, rfl, rfl, hfar⟩
    obtain ⟨a', b', hi⟩ := pushed_of_write h hdone hc hop
    obtain ⟨-, hslot, hfar'⟩ := htags.pushed a' b' _ i hi
    rw [conn_of_onSlot hslot hc, Option.some.inj (hfar.symm.trans hfar')]
    exact hi
  · intro hi
    obtain ⟨⟨payload, hevent⟩, hslot, hfar⟩ := htags.pushed a b x i hi
    obtain ⟨c, path, hc, hr⟩ := hlog.writes i x payload hevent
    obtain ⟨d, hd, hname, -⟩ := hlog.settled _ hevent
    cases hc.symm.trans hd
    exact ⟨c, hc, by rw [hr]; rfl, hname, conn_of_onSlot hslot hc, hfar⟩

theorem mem_pushed_iff (h : TimedRun cfg o log) (hdone : Complete o.net) {i : ι} :
    i ∈ o.tags.pushed a b x ↔ ∃ c, o.net.conn i = some c ∧ c.request.op = .W ∧ c.request.name = x ∧
    c.slot = a ∧
      cfg.routing.farSlot .W x = some b := by
  rw [← recordsOn_pushed h hdone, mem_recordsOn h hdone]

theorem recordsOn_returned (h : TimedRun cfg o log) (hdone : Complete o.net) :
    recordsOn o .R x b a = (o.tags.returned a b x).map Prod.fst := by
  have htags := h.tagged
  have hlog := logOk_run h.run
  refine eq_of_sublist (recordsOn_sublist h .R b a) (h.aligned.returned a b x)
    (h.issued.nodup .R x) fun i => ?_
  rw [mem_recordsOn h hdone]
  constructor
  · rintro ⟨c, hc, hop, hname, rfl, hfar⟩
    have hreply : ∃ data, c.phase = .replied (.okData data) := by
      rcases hdone i c hc with hph | hph
      · have hok := h.sound.phases i c hc
        rw [hph] at hok
        cases hop.symm.trans hok
      · exact hph
    obtain ⟨data, hph⟩ := hreply
    have hevent := (hlog.reads i x data).mpr ⟨c, hc, hname, by rw [hph]; rfl⟩
    obtain ⟨a', b', w, hi⟩ := htags.dequeues i x data hevent
    obtain ⟨-, hslot, hfar'⟩ := htags.returned a' b' x (i, w) hi
    rw [conn_of_onSlot hslot hc, Option.some.inj (hfar.symm.trans hfar')]
    exact List.mem_map_of_mem hi
  · intro hi
    obtain ⟨⟨r, w⟩, hm, rfl⟩ := List.mem_map.mp hi
    obtain ⟨⟨data, hevent, -⟩, hslot, hfar⟩ := htags.returned a b x (r, w) hm
    obtain ⟨c, hc, hname, hdata⟩ := (hlog.reads r x data).mp hevent
    obtain ⟨path, hr⟩ := (h.sound.phases r c hc).read hdata
    exact ⟨c, hc, by rw [hr]; rfl, hname, conn_of_onSlot hslot hc, hfar⟩

end Routes

section Sizes

variable {cfg : Config} {o : Observed ι} {log : List (Event ι)} {a b : Slot} {x : Text} {n : Int}

def hasSize (s : State ι) (n : Int) (i : ι) : Bool :=
  match s.conn i with
  | some c => (c.request.byteCount : Int) = n
  | none => false

theorem name_ne_nil {routing : Routing} {op : Op} {peer : Slot}
    (h : routing.farSlot op x = some peer) : x ≠ [] := by
  rintro rfl
  have hmatch : matchPipeName [] = none := by decide
  simp [Routing.farSlot, hmatch] at h

omit [DecidableEq ι] in
theorem write_key_iff (cfg : Config) {c : Conn} (far : Slot) (started finished : Int)
    (hname : c.request.name ≠ []) (a b : Slot) (x : Text) (n : Int) :
    transferKey (metricRecord cfg c far started finished) = some (a, b, x, n) ∧
      (metricRecord cfg c far started finished).operation = some writeOperation ↔
    OnRoute .W x a b (metricRecord cfg c far started finished) ∧
    (c.request.byteCount : Int) = n := by
  rw [onRoute_metricRecord]
  cases hop : c.request.op with
  | W => simp [transferKey, metricRecord, hop, hname, operationText]; tauto
  | R => simp [transferKey, metricRecord, hop, hname, operationText, writeOperation, readOperation]

omit [DecidableEq ι] in
theorem read_key_iff (cfg : Config) {c : Conn} (far : Slot) (started finished : Int)
    (hname : c.request.name ≠ []) (a b : Slot) (x : Text) (n : Int) :
    transferKey (metricRecord cfg c far started finished) = some (a, b, x, n) ∧
      (metricRecord cfg c far started finished).operation = some readOperation ↔
    OnRoute .R x b a (metricRecord cfg c far started finished) ∧
    (c.request.byteCount : Int) = n := by
  rw [onRoute_metricRecord]
  cases hop : c.request.op with
  | W => simp [transferKey, metricRecord, hop, hname, operationText, writeOperation, readOperation]
  | R =>
    simp [transferKey, metricRecord, hop, hname, operationText, writeOperation, readOperation]
    tauto

theorem writesAt_ids (h : TimedRun cfg o log) :
    (writesAt Prod.snd o.records (a, b, x, n)).map Prod.fst = (recordsOn o .W x a b).filter
      (hasSize o.net n) := by
  rw [recordsOn, List.filter_map, List.filter_filter]
  refine congrArg _ (List.filter_congr fun r hr => ?_)
  obtain ⟨c, far, finished, hc, -, hfar, hm, -⟩ := h.stamped.records r hr
  have hkey := write_key_iff cfg far (o.started r.1) finished (name_ne_nil hfar) a b x n
  rw [← hm] at hkey
  simp only [hkey, Function.comp_apply, hasSize, hc, Bool.decide_and, Bool.and_comm]

theorem readsAt_ids (h : TimedRun cfg o log) :
    (readsAt Prod.snd o.records (a, b, x, n)).map Prod.fst = (recordsOn o .R x b a).filter
      (hasSize o.net n) := by
  rw [recordsOn, List.filter_map, List.filter_filter]
  refine congrArg _ (List.filter_congr fun r hr => ?_)
  obtain ⟨c, far, finished, hc, -, hfar, hm, -⟩ := h.stamped.records r hr
  have hkey := read_key_iff cfg far (o.started r.1) finished (name_ne_nil hfar) a b x n
  rw [← hm] at hkey
  simp only [hkey, Function.comp_apply, hasSize, hc, Bool.decide_and, Bool.and_comm]

/-- The logs of the routers, merged in any way that keeps the order of each. -/
def Merged (input records : List (ι × MetricRecord)) : Prop :=
  input.Perm records ∧ ∀ slot : Slot, input.filter (fun r => r.2.sourceSlot = some slot) =
    records.filter fun r => r.2.sourceSlot = some slot

omit [DecidableEq ι] in
theorem Merged.filter_eq {input records : List (ι × MetricRecord)} (h : Merged input records)
    {slot : Slot} {p : ι × MetricRecord → Bool}
    (hp : ∀ r, p r = true → r.2.sourceSlot = some slot) : input.filter p = records.filter p := by
  have hsplit : ∀ l : List (ι × MetricRecord),
      l.filter p = (l.filter fun r => r.2.sourceSlot = some slot).filter p := by
    intro l
    rw [List.filter_filter]
    refine List.filter_congr fun r _ => ?_
    cases hr : p r with
    | true => simp [hp r hr]
    | false => simp
  rw [hsplit input, h.2 slot, ← hsplit]

omit [DecidableEq ι] in
theorem writesAt_merged {input records : List (ι × MetricRecord)} (h : Merged input records)
    (key : TransferKey) : writesAt Prod.snd input key = writesAt Prod.snd records key := by
  obtain ⟨a, b, x, n⟩ := key
  have hslot : ∀ r : ι × MetricRecord, decide (transferKey r.2 = some (a, b, x, n) ∧
      r.2.operation = some writeOperation) = true → r.2.sourceSlot = some a := by
    intro r hr
    obtain ⟨hkey, hop⟩ := decide_eq_true_eq.mp hr
    rcases (transferKey_eq_some_iff.mp hkey).2.2.2 with ⟨-, hsource, -⟩ | ⟨hread, -⟩
    · exact hsource
    · cases hop.symm.trans hread
  exact h.filter_eq hslot

omit [DecidableEq ι] in
theorem readsAt_merged {input records : List (ι × MetricRecord)} (h : Merged input records)
    (key : TransferKey) : readsAt Prod.snd input key = readsAt Prod.snd records key := by
  obtain ⟨a, b, x, n⟩ := key
  have hslot : ∀ r : ι × MetricRecord, decide (transferKey r.2 = some (a, b, x, n) ∧
      r.2.operation = some readOperation) = true → r.2.sourceSlot = some b := by
    intro r hr
    obtain ⟨hkey, hop⟩ := decide_eq_true_eq.mp hr
    rcases (transferKey_eq_some_iff.mp hkey).2.2.2 with ⟨hwrite, -⟩ | ⟨-, hsource, -⟩
    · cases hop.symm.trans hwrite
    · exact hsource
  exact h.filter_eq hslot

theorem record_times (h : TimedRun cfg o log) {r : ι × MetricRecord} (hr : r ∈ o.records) :
    r.2.startedUnixNs = some (o.started r.1) ∧ r.2.finishedUnixNs = some (finishedAt r.2) ∧
      o.started r.1 ≤ finishedAt r.2 := by
  obtain ⟨c, far, finished, -, -, -, hm, hle, -⟩ := h.stamped.records r hr
  rw [hm]
  exact ⟨rfl, rfl, hle⟩

/-- The records of a pipe are sorted by any of their stamps. -/
theorem records_sorted (h : TimedRun cfg o log) (op : Op) {p : ι × MetricRecord → Bool}
    (hp : ∀ r ∈ o.records, p r = true → OnPipe op x r.2) :
    (o.records.filter p).Pairwise fun r q => startedAt r.2 ≤ startedAt q.2 ∧
    finishedAt r.2 ≤ finishedAt q.2 := by
  refine (List.Pairwise.filter p h.stamped.ordered).imp_of_mem ?_
  intro r q hr hq hordered
  obtain ⟨hrmem, hrp⟩ := List.mem_filter.mp hr
  obtain ⟨hqmem, hqp⟩ := List.mem_filter.mp hq
  have hle := hordered op x (hp r hrmem hrp) (hp q hqmem hqp)
  obtain ⟨hrstarted, -, hrle⟩ := record_times h hrmem
  obtain ⟨hqstarted, -, hqle⟩ := record_times h hqmem
  simp only [startedAt, hrstarted, hqstarted, Option.getD_some] at hle ⊢
  omega

theorem writeItems_input (h : TimedRun cfg o log) {input : List (ι × MetricRecord)}
    (hinput : Merged input o.records) (key : TransferKey) :
    writeItems Prod.snd input key = writesAt Prod.snd o.records key := by
  rw [← writesAt_merged hinput]
  refine writeItems_eq ?_
  rw [writesAt_merged hinput]
  obtain ⟨a, b, x, n⟩ := key
  refine (records_sorted (x := x) h .W fun r _ hr => ?_).imp fun h => h.1
  obtain ⟨hkey, hop⟩ := decide_eq_true_eq.mp hr
  exact ⟨hop, (transferKey_eq_some_iff.mp hkey).1⟩

theorem readItems_input (h : TimedRun cfg o log) {input : List (ι × MetricRecord)}
    (hinput : Merged input o.records) (key : TransferKey) :
    readItems Prod.snd input key = readsAt Prod.snd o.records key := by
  rw [← readsAt_merged hinput]
  refine readItems_eq ?_
  rw [readsAt_merged hinput]
  obtain ⟨a, b, x, n⟩ := key
  refine (records_sorted (x := x) h .R fun r _ hr => ?_).imp fun h => h.2
  obtain ⟨hkey, hop⟩ := decide_eq_true_eq.mp hr
  exact ⟨hop, (transferKey_eq_some_iff.mp hkey).1⟩

theorem size_returned (h : TimedRun cfg o log) {r w : ι} (hm : (r, w) ∈ o.tags.returned a b x) :
    hasSize o.net n r = hasSize o.net n w := by
  obtain ⟨⟨data, hevent, ⟨c, path, hc, hr, -⟩⟩, -⟩ := h.tagged.returned a b x (r, w) hm
  obtain ⟨d, hd, -, hdata⟩ := ((logOk_run h.run).reads r x data).mp hevent
  obtain ⟨path', hr'⟩ := (h.sound.phases r d hd).read hdata
  simp only [hasSize, hc, hd, hr, hr', Request.byteCount]

def returnsOf (o : Observed ι) (a b : Slot) (x : Text) (n : Int) : List (ι × ι) :=
  (o.tags.returned a b x).filter fun m => hasSize o.net n m.1

theorem readItems_ids (h : TimedRun cfg o log) (hdone : Complete o.net)
    {input : List (ι × MetricRecord)} (hinput : Merged input o.records) :
    (readItems Prod.snd input (a, b, x, n)).map Prod.fst = (returnsOf o a b x n).map Prod.fst := by
  rw [readItems_input h hinput, readsAt_ids h, recordsOn_returned h hdone, List.filter_map]
  rfl

theorem writeItems_ids (h : TimedRun cfg o log) (hdone : Complete o.net)
    {input : List (ι × MetricRecord)} (hinput : Merged input o.records) :
    (writeItems Prod.snd input (a, b, x, n)).map Prod.fst =
      (returnsOf o a b x n).map Prod.snd ++ (transit o.net o.tags a b x).filter
        (hasSize o.net n) := by
  rw [writeItems_input h hinput, writesAt_ids h, recordsOn_pushed h hdone, h.tagged.fifo,
    List.filter_append, List.filter_map]
  refine congrArg (fun l => List.map Prod.snd l ++ _) (List.filter_congr fun m hm => ?_)
  exact (size_returned h hm).symm

theorem zip_returns {α β : Type} (l : List (α × β)) (rest : List β) :
    (l.map Prod.snd ++ rest).zip (l.map Prod.fst) = l.map Prod.swap := by
  induction l with
  | nil => simp
  | cons m l ih =>
    obtain ⟨x, y⟩ := m
    simp [ih]

/-- The read `r` returned the payload of the write `w`. -/
def Returned (o : Observed ι) (r w : ι) : Prop := ∃ a b x, (r, w) ∈ o.tags.returned a b x

theorem zip_items (h : TimedRun cfg o log) (hdone : Complete o.net)
    {input : List (ι × MetricRecord)} (hinput : Merged input o.records)
    {write read : ι × MetricRecord}
    (hm : (write, read) ∈ (writeItems Prod.snd input (a, b, x, n)).zip
    (readItems Prod.snd input (a, b, x, n))) : (read.1, write.1) ∈ o.tags.returned a b x := by
  have hids : (write.1, read.1) ∈ (returnsOf o a b x n).map Prod.swap := by
    rw [← zip_returns, ← writeItems_ids h hdone hinput, ← readItems_ids h hdone hinput,
      List.zip_map]
    exact List.mem_map_of_mem (f := Prod.map Prod.fst Prod.fst) hm
  obtain ⟨⟨r, w⟩, hmem, hswap⟩ := List.mem_map.mp hids
  obtain ⟨hw, hr⟩ := Prod.mk.inj hswap
  rw [← hw, ← hr]
  exact List.mem_of_mem_filter hmem

end Sizes

section Collected

variable {cfg : Config} {o : Observed ι} {log : List (Event ι)} {input : List (ι × MetricRecord)}

/-- What the names say is what the bytes say. -/
theorem Returned.payload (h : TimedRun cfg o log) {r w : ι} (hr : Returned o r w) :
    ∃ data c d path, o.net.conn r = some c ∧ c.phase.data = some data ∧ o.net.conn w = some d ∧
      d.request = .write path data := by
  obtain ⟨a, b, x, hm⟩ := hr
  obtain ⟨⟨data, hevent, ⟨d, path, hd, hwrite, -⟩⟩, -⟩ := h.tagged.returned a b x (r, w) hm
  obtain ⟨c, hc, -, hdata⟩ := ((logOk_run h.run).reads r x data).mp hevent
  exact ⟨data, c, d, path, hc, hdata, hd, hwrite⟩

variable (h : TimedRun cfg o log) (hdone : Complete o.net) (hinput : Merged input o.records)
include h hdone hinput

theorem returned_of_transfers {m : Transfer (ι × MetricRecord)}
    (hm : m ∈ transfers Prod.snd input) : Returned o m.read.1 m.write.1 := by
  obtain ⟨⟨a, b, x, n⟩, -, hm⟩ := List.mem_flatMap.mp hm
  exact ⟨a, b, x, zip_items h hdone hinput (transfersAt_zip hm)⟩

/-- No pair is skipped: a read ends after the write that it returned has begun. -/
theorem transferOf_isSome (key : TransferKey) {m : (ι × MetricRecord) × (ι × MetricRecord)}
    (hm : m ∈ (writeItems Prod.snd input key).zip (readItems Prod.snd input key)) :
    (transferOf Prod.snd m.1 m.2).isSome := by
  obtain ⟨a, b, x, n⟩ := key
  obtain ⟨write, read⟩ := m
  have hreturned := zip_items h hdone hinput hm
  have hwrite : write ∈ o.records := by
    have hmem := (List.of_mem_zip hm).1
    rw [writeItems_input h hinput] at hmem
    exact List.mem_of_mem_filter hmem
  have hread : read ∈ o.records := by
    have hmem := (List.of_mem_zip hm).2
    rw [readItems_input h hinput] at hmem
    exact List.mem_of_mem_filter hmem
  have hexposed := h.aligned.exposed read hread a b x write.1 hreturned
  obtain ⟨hstarted, -, -⟩ := record_times h hwrite
  obtain ⟨hrstarted, hrfinished, hrle⟩ := record_times h hread
  have hnot : ¬finishedAt read.2 < max (o.started write.1) (o.started read.1) := by omega
  simp only [transferOf, hstarted, hrstarted, hrfinished, Option.bind_eq_bind, Option.bind_some,
    if_neg hnot, Option.isSome_some]

/-- No returned payload is missed. -/
theorem mem_transfers_of_returned {r w : ι} (hr : Returned o r w) :
    ∃ m ∈ transfers Prod.snd input, m.read.1 = r ∧ m.write.1 = w := by
  obtain ⟨a, b, x, hm⟩ := hr
  obtain ⟨⟨data, hevent, -⟩, -⟩ := h.tagged.returned a b x (r, w) hm
  obtain ⟨c, hc, -⟩ := ((logOk_run h.run).reads r x data).mp hevent
  have hsize : hasSize o.net c.request.byteCount r = true := by simp [hasSize, hc]
  have hids : (w, r) ∈ (returnsOf o a b x c.request.byteCount).map Prod.swap :=
    List.mem_map.mpr ⟨(r, w), List.mem_filter.mpr ⟨hm, hsize⟩, rfl⟩
  rw [← zip_returns, ← writeItems_ids h hdone hinput, ← readItems_ids h hdone hinput,
    List.zip_map] at hids
  obtain ⟨⟨write, read⟩, hzip, heq⟩ := List.mem_map.mp hids
  obtain ⟨rfl, rfl⟩ := Prod.mk.inj heq
  obtain ⟨m, htransfer⟩ := Option.isSome_iff_exists.mp (transferOf_isSome h hdone hinput _ hzip)
  obtain ⟨hwrite, hread⟩ := transferOf_items htransfer
  obtain ⟨hmem, hkey, -⟩ := mem_writeItems.mp (List.of_mem_zip hzip).1
  refine ⟨m, List.mem_flatMap.mpr ⟨_, mem_transferKeys.mpr ⟨write, hmem, hkey⟩, ?_⟩, ?_, ?_⟩
  · exact List.mem_filterMap.mpr ⟨_, hzip, htransfer⟩
  · rw [hread]
  · rw [hwrite]

omit hdone in
/-- Both ends of a transfer report the scope of its route. -/
theorem keyScoped_input :
    KeyScoped Prod.snd (fun key => transportScope (Router.init key.1 cfg.routing) key.2.1)
      input := by
  intro r hr
  obtain ⟨c, far, finished, -, -, hfar, hm, -⟩ := h.stamped.records r (hinput.1.mem_iff.mp hr)
  rw [hm]
  exact keyed_of_router rfl rfl (name_ne_nil hfar) rfl rfl rfl rfl

/-- The records are those of the requests, one each. -/
theorem mem_input_iff {i : ι} : i ∈ input.map Prod.fst ↔ ∃ c, o.net.conn i = some c := by
  rw [(hinput.1.map Prod.fst).mem_iff]
  constructor
  · intro hi
    obtain ⟨r, hr, rfl⟩ := List.mem_map.mp hi
    obtain ⟨c, -, -, hc, -⟩ := h.stamped.records r hr
    exact ⟨c, hc⟩
  · rintro ⟨c, hc⟩
    rcases hdone i c hc with hph | ⟨data, hph⟩
    · obtain ⟨payload, hevent⟩ := (logOk_run h.run).queued i c hc (by rw [hph]; rfl)
      obtain ⟨a, b, hi⟩ := h.tagged.enqueues i _ payload hevent
      obtain ⟨-, -, hfar⟩ := h.tagged.pushed a b _ i hi
      have hop : c.request.op = .W := by
        obtain ⟨d, hd, hop, -⟩ := (mem_pushed_iff h hdone).mp hi
        cases hc.symm.trans hd
        exact hop
      exact h.aligned.present i c .ok b hc hph rfl (by rw [hop]; exact hfar)
    · have hevent := ((logOk_run h.run).reads i c.request.name data).mpr
        ⟨c, hc, rfl, by rw [hph]; rfl⟩
      obtain ⟨a, b, w, hi⟩ := h.tagged.dequeues i _ data hevent
      obtain ⟨-, -, hfar⟩ := h.tagged.returned a b _ (i, w) hi
      have hop : c.request.op = .R := by
        have hok := h.sound.phases i c hc
        rw [hph] at hok
        exact hok.1
      exact h.aligned.present i c _ a hc hph rfl (by rw [hop]; exact hfar)

omit hinput in
/-- A write is on the way exactly if no read has returned it. -/
theorem mem_transit_iff {a b : Slot} {x : Text} {i : ι} (hi : i ∈ o.tags.pushed a b x) :
    i ∈ transit o.net o.tags a b x ↔ ¬∃ r, Returned o r i := by
  have htags := h.tagged
  have hfifo := htags.fifo a b x
  have hnodup := htags.writesOnce a b x
  rw [hfifo] at hi hnodup
  constructor
  · rintro htransit ⟨r, a', b', x', hr⟩
    have hpushed : i ∈ o.tags.pushed a' b' x' := by
      rw [htags.fifo]
      exact List.mem_append_left _ (List.mem_map_of_mem (f := Prod.snd) hr)
    rw [← hfifo] at hi
    obtain ⟨c, hc, -, hname, hslot, hfar⟩ := (mem_pushed_iff h hdone).mp hi
    obtain ⟨d, hd, -, hname', hslot', hfar'⟩ := (mem_pushed_iff h hdone).mp hpushed
    cases hc.symm.trans hd
    subst hname hslot hname' hslot'
    cases hfar.symm.trans hfar'
    exact List.disjoint_of_nodup_append hnodup (List.mem_map_of_mem (f := Prod.snd) hr) htransit
  · intro hnone
    rcases List.mem_append.mp hi with hi | hi
    · obtain ⟨⟨r, w⟩, hm, rfl⟩ := List.mem_map.mp hi
      exact absurd ⟨r, a, b, x, hm⟩ hnone
    · exact hi

theorem length_writeItems (a b : Slot) (x : Text) (n : Int) :
    (writeItems Prod.snd input (a, b, x, n)).length =
      (readItems Prod.snd input (a, b, x, n)).length +
      ((transit o.net o.tags a b x).filter (hasSize o.net n)).length := by
  have hwrites := congrArg List.length
    (writeItems_ids (a := a) (b := b) (x := x) (n := n) h hdone hinput)
  have hreads := congrArg List.length
    (readItems_ids (a := a) (b := b) (x := x) (n := n) h hdone hinput)
  simp only [List.length_append, List.length_map] at hwrites hreads
  omega

/-- The writes of a key are no more than its reads exactly if each was returned. -/
theorem length_writeItems_le_iff :
    (∀ key, (writeItems Prod.snd input key).length ≤ (readItems Prod.snd input key).length) ↔
      ∀ i c, o.net.conn i = some c → c.request.op = .W → ∃ r, Returned o r i := by
  have hlength := length_writeItems h hdone hinput
  constructor
  · intro hle i c hc hop
    by_contra hnone
    obtain ⟨a, b, hpushed⟩ := pushed_of_write h hdone hc hop
    have htransit := (mem_transit_iff h hdone hpushed).mpr hnone
    have hsize : hasSize o.net c.request.byteCount i = true := by simp [hasSize, hc]
    have hpos := List.length_pos_of_mem (List.mem_filter.mpr ⟨htransit, hsize⟩)
    have := hle (a, b, c.request.name, c.request.byteCount)
    rw [hlength] at this
    omega
  · rintro hall ⟨a, b, x, n⟩
    have hnil : (transit o.net o.tags a b x).filter (hasSize o.net n) = [] := by
      refine List.filter_eq_nil_iff.mpr fun i hi => ?_
      have hpushed : i ∈ o.tags.pushed a b x := by
        rw [h.tagged.fifo]
        exact List.mem_append_right _ hi
      obtain ⟨c, hc, hop, -⟩ := (mem_pushed_iff h hdone).mp hpushed
      exact absurd (hall i c hc hop) ((mem_transit_iff h hdone hpushed).mp hi)
    rw [hlength, hnil]
    exact le_rfl

theorem length_readItems_le (key : TransferKey) :
    (readItems Prod.snd input key).length ≤ (writeItems Prod.snd input key).length := by
  obtain ⟨a, b, x, n⟩ := key
  have := length_writeItems h hdone hinput a b x n
  omega

end Collected

/-- The counters of a group count its pairs, and what is left of its records. -/
structure TransportCounters.Accounts (c : TransportCounters) (input : List (ι × MetricRecord))
    (group : Group) : Prop where
  pairs : c.transportPairs =
    (transfers Prod.snd input).countP fun m => group ∈ selectedGroups (classifyScope m.write.2)
  writes : c.transportPairs + c.transportUnmatchedWrites = input.countP fun r =>
    r.2.operation = some writeOperation ∧ group ∈ selectedGroups (classifyScope r.2)
  reads : c.transportPairs + c.transportUnmatchedReads = input.countP fun r =>
    r.2.operation = some readOperation ∧ group ∈ selectedGroups (classifyScope r.2)

/-- In a run that is over and whose operations all succeeded, the collector pairs
each read with the write that it returned, no operation twice, and leaves no
operation unmatched exactly if every payload was read. -/
theorem transfers_right {cfg : Config} {o : Observed ι} {log : List (Event ι)}
    (h : TimedRun cfg o log) (hdone : Complete o.net) {input : List (ι × MetricRecord)}
    (hinput : Merged input o.records) :
    transfers id (input.map Prod.snd) = (transfers Prod.snd input).map (Transfer.map Prod.snd) ∧
    (∀ m ∈ transfers Prod.snd input, Returned o m.read.1 m.write.1) ∧
    (∀ r w, Returned o r w → ∃ m ∈ transfers Prod.snd input, m.read.1 = r ∧ m.write.1 = w) ∧
    ((transfers Prod.snd input).map fun m => m.write.1).Nodup ∧
    ((transfers Prod.snd input).map fun m => m.read.1).Nodup ∧
    (input.map Prod.fst).Nodup ∧ (∀ i, i ∈ input.map Prod.fst ↔ ∃ c, o.net.conn i = some c) ∧
    (∀ group, (collectExposedTransportMetrics id (input.map Prod.snd) group).Accounts input group) ∧
    (((collectExposedTransportMetrics id (input.map Prod.snd) .all).transportUnmatchedWrites = 0 ∧
        (collectExposedTransportMetrics id (input.map Prod.snd) .all).transportUnmatchedReads = 0) ↔
      ∀ i c, o.net.conn i = some c → c.request.op = .W → ∃ r, Returned o r i) := by
  have honce : (input.map Prod.fst).Nodup := (hinput.1.map Prod.fst).nodup_iff.mpr h.stamped.once
  obtain ⟨hwrites, hreads⟩ := transfers_nodup honce
  refine ⟨transfers_map Prod.snd id input, fun m => returned_of_transfers h hdone hinput,
    fun r w => mem_transfers_of_returned h hdone hinput, hwrites, hreads, honce,
    fun i => mem_input_iff h hdone hinput, fun group => ?_, ?_⟩
  · have hscoped := keyScoped_input h hinput
    rw [collectExposedTransportMetrics_map]
    refine ⟨?_, pairs_add_unmatchedWrites hscoped group, pairs_add_unmatchedReads hscoped group⟩
    rw [List.countP_eq_length_filter]
    rfl
  · rw [collectExposedTransportMetrics_map]
    refine Iff.trans ?_ (length_writeItems_le_iff h hdone hinput)
    exact unmatched_all_eq_zero_iff (length_readItems_le h hdone hinput)
      fun key m hm => transferOf_isSome h hdone hinput key hm

def connections {n : Nat} (s : State (Fin n)) : List Conn := (List.finRange n).filterMap s.conn

/-- `Sequential` as a test over finitely many clients. -/
def sequentialAmong {n : Nat} (s : State (Fin n)) : Action (Fin n) → Bool
  | .connect _ _ request => (connections s).all fun c =>
    (c.request.op ≠ request.op ∨ c.request.name ≠ request.name) || c.phase.isReplied
  | .close i => (s.conn i).all fun c => c.phase.isReplied
  | _ => true

/-- A run of finitely many clients in which the clock goes forward at every reading. -/
def timedExec {n : Nat} (cfg : Config) : List (Action (Fin n)) → Observed (Fin n) →
    Option (Observed (Fin n))
  | [], o => some o
  | a :: rest, o =>
    match step cfg o.net a with
    | none => none
    | some (s', e) =>
      if sequentialAmong o.net a then
        timedExec cfg rest (o.next cfg a s' e (o.clock + 1) (o.clock + 2))
      else none

theorem mem_connections {n : Nat} {s : State (Fin n)} {i : Fin n} {c : Conn}
    (h : s.conn i = some c) : c ∈ connections s :=
  List.mem_filterMap.mpr ⟨i, List.mem_finRange i, h⟩

theorem sequential_of_sequentialAmong {n : Nat} {s : State (Fin n)} {a : Action (Fin n)}
    (h : sequentialAmong s a = true) : Sequential s a := by
  cases a with
  | connect i slot request =>
    intro j c hc hop hname
    have hj := List.all_eq_true.mp h c (mem_connections hc)
    simpa [hop, hname] using hj
  | close i =>
    intro c hc
    simpa [sequentialAmong, hc] using h
  | _ => trivial

theorem timedExec_run {n : Nat} {cfg : Config} {actions : List (Action (Fin n))}
    {o o' : Observed (Fin n)} {log : List (Event (Fin n))} (h : TimedRun cfg o log)
    (he : timedExec cfg actions o = some o') : ∃ log', TimedRun cfg o' log' := by
  induction actions generalizing o log with
  | nil =>
    cases he
    exact ⟨log, h⟩
  | cons a rest ih =>
    simp only [timedExec] at he
    split at he
    · cases he
    · rename_i s' e hs
      split at he
      · rename_i hcheck
        exact ih (.step h (sequential_of_sequentialAmong hcheck) hs (by omega) (by omega)) he
      · cases he

def Phase.succeeded : Phase → Bool
  | .replied .ok => true
  | .replied (.okData _) => true
  | _ => false

theorem complete_of_succeeded {n : Nat} {s : State (Fin n)}
    (h : (connections s).all (fun c => c.phase.succeeded) = true) : Complete s := by
  intro i c hc
  have hph := List.all_eq_true.mp h c (mem_connections hc)
  cases hphase : c.phase with
  | replied reply =>
    cases reply with
    | ok => exact Or.inl rfl
    | okData data => exact Or.inr ⟨data, rfl⟩
    | err error => simp [hphase, Phase.succeeded] at hph
  | _ => simp [hphase, Phase.succeeded] at hph

/-- Payloads of two sizes go through the gateways while another one stays on its slot.
The last write is never read. -/
def twoSizes : List (Action (Fin 7)) :=
  [.connect 5 0 (.read innerPipe 4), .handle 5,
    .connect 0 0 (.write crossPipe ones), .handle 0, .accept 0, .pick 0 1, .send 0 1,
    .connect 1 1 (.read crossPipe 4), .handle 1, .connect 4 0 (.write innerPipe threes), .handle 4,
    .finish 0 1, .wakeWrite 0, .relay 0,
    .connect 2 0 (.write crossPipe twos), .handle 2, .accept 2, .pick 0 1, .send 0 1,
    .receive 1 0, .notify 1 0, .accept 1, .relay 1,
    .connect 3 1 (.read crossPipe 8), .handle 3, .accept 3, .wakeLocal 5,
    .receive 1 0, .notify 1 0, .finish 0 1, .wakeRead 3, .wakeWrite 2, .relay 3, .relay 2,
    .connect 6 0 (.write crossPipe threes), .handle 6, .accept 6, .pick 0 1, .send 0 1, .finish 0 1,
    .wakeWrite 6, .relay 6]

theorem transfers_right_two_sizes :
    ∃ (o : Observed (Fin 7)) (log : List (Event (Fin 7))), TimedRun twoSlots o log ∧
    Complete o.net ∧
      (∃ m ∈ transfers Prod.snd o.records, m.read.1 = 1 ∧ m.write.1 = 0) ∧
      (∃ m ∈ transfers Prod.snd o.records, m.read.1 = 3 ∧ m.write.1 = 2) ∧
      (∃ m ∈ transfers Prod.snd o.records, m.read.1 = 5 ∧ m.write.1 = 4) ∧
      let c := collectExposedTransportMetrics id (o.records.map Prod.snd) .all
      c.transportPairs + c.transportUnmatchedWrites = 4 ∧
        c.transportPairs + c.transportUnmatchedReads = 3 := by
  have hexec : (timedExec twoSlots twoSizes (Observed.init 0)).map (fun o =>
      decide ((1, 0) ∈ o.tags.returned 0 1 crossPipe ∧ (3, 2) ∈ o.tags.returned 0 1 crossPipe ∧
        (5, 4) ∈ o.tags.returned 0 0 innerPipe ∧
        (o.records.countP fun r => r.2.operation = some writeOperation ∧
          Group.all ∈ selectedGroups (classifyScope r.2)) = 4 ∧
        (o.records.countP fun r => r.2.operation = some readOperation ∧
          Group.all ∈ selectedGroups (classifyScope r.2)) = 3) &&
      (connections o.net).all fun c => c.phase.succeeded) = some true := by
    decide +kernel
  obtain ⟨o, ho, hcheck⟩ := Option.map_eq_some_iff.mp hexec
  obtain ⟨hlists, hall⟩ := Bool.and_eq_true_iff.mp hcheck
  obtain ⟨hfirst, hsecond, hinner, hwrites, hreads⟩ := of_decide_eq_true hlists
  obtain ⟨log, hrun⟩ := timedExec_run (.init 0) ho
  have hdone := complete_of_succeeded hall
  obtain ⟨-, -, hpairs, -, -, -, -, hcounters, -⟩ :=
    transfers_right hrun hdone ⟨.refl _, fun _ => rfl⟩
  exact ⟨o, log, hrun, hdone, hpairs 1 0 ⟨0, 1, crossPipe, hfirst⟩,
    hpairs 3 2 ⟨0, 1, crossPipe, hsecond⟩, hpairs 5 4 ⟨0, 0, innerPipe, hinner⟩,
    (hcounters .all).writes.trans hwrites, (hcounters .all).reads.trans hreads⟩

end ChipSystemSim
