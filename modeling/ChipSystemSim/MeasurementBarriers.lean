import ChipSystemSim.BarrierTraces
import ChipSystemSim.MlpDpTraining
import ChipSystemSim.SteadyMeasurement

/-! The window of a measurement over several workers: which records of a
data-parallel run it is taken from. -/

namespace ChipSystemSim

def phaseOneRank (processIndex ranks : Nat) : Nat :=
  if processIndex < ranks then processIndex else (processIndex - ranks) / kGpusPerRank

/-- The arguments of the processes in the workload: the CPUs first, then two workers for each. -/
def phaseOneCoordinates (processIndex ranks : Nat) : Place :=
  if processIndex < ranks then (processIndex, 0)
  else ((processIndex - ranks) / kGpusPerRank, (processIndex - ranks) % kGpusPerRank + 1)

def Place.coord (p : Place) : Coord := (p.1, p.2)

/-- The placement that `generate_mlp_dp_matrix` writes. -/
def mlpPlacement (nodes ranksPerNode : Nat) : Placement :=
  let ranks := nodes * ranksPerNode
  { swarmNodes := nodes
    processes := (List.range (ranks * 3)).map (fun index =>
      ⟨.phase1, index, (phaseOneRank index ranks / ranksPerNode : Nat),
        some (phaseOneCoordinates index ranks).coord⟩) ++
      [⟨.phase2, 0, 0, none⟩] }

structure MlpDeployment where
  nodes : Nat
  ranksPerNode : Nat
  choice : nodes ∈ [1, 2, 4, 8]
  several : 2 ≤ nodes
  positive : 0 < ranksPerNode
  limit : nodes * ranksPerNode ≤ 8
  topology : Topology
  routing : Routing
  generated : generateRouting (mlpPlacement nodes ranksPerNode) topology none = .ok routing

namespace MlpDeployment

variable (D : MlpDeployment)

def ranks : Nat := D.nodes * D.ranksPerNode

def slot (p : Place) : Slot := (p.1 / D.ranksPerNode : Nat)

def places : List Place :=
  (List.range D.ranks).flatMap fun rank => [(rank, 0), (rank, 1), (rank, 2)]

end MlpDeployment

structure TimedOp extends MessageOp where
  started : Int
  finished : Int

def TimedOp.name (t : TimedOp) : Text :=
  match t.op with
  | .W => pipeName (Place.coord t.place) (Place.coord t.far)
  | .R => pipeName (Place.coord t.far) (Place.coord t.place)

/-- What the router of the worker prints for an operation. -/
def MlpDeployment.record (D : MlpDeployment) (t : TimedOp) : PipeRecord where
  operation := some (operationText t.op)
  pipeName := some t.name
  bytes := some t.bytes
  sourceSlot := some (D.slot t.place)
  peerSlot := some (D.slot t.far)
  transportScope := some (transportScope (Router.init (D.slot t.place) D.routing) (D.slot t.far))
  crossNode := physicalSlot D.routing (D.slot t.place) ≠ physicalSlot D.routing (D.slot t.far)
  startedUnixNs := some t.started
  finishedUnixNs := some t.finished
  elapsedNs := some (t.finished - t.started)
  synchronizationWaitNs := some (if t.op = .R then t.finished - t.started else 0)

variable {F : Type} [Field F]

/-- A run whose programs pass their checks: what each process did, by one clock and one operation
after the other, and the records of all of it in some order. -/
structure MlpRun (D : MlpDeployment) (T : Training F) where
  ranks_eq : T.ranks = D.ranks
  power : isPowerOfTwo T.ranks = true
  divides : T.samples % (T.ranks * kGpusPerRank) = 0
  ops : Place → List TimedOp
  performs : ∀ p, Performs T p (T.start.proc p) ((ops p).map TimedOp.toMessageOp)
  forward : ∀ p, ∀ t ∈ ops p, t.started ≤ t.finished
  ordered : ∀ p, (ops p).Pairwise fun t u => t.finished ≤ u.started
  log : List PipeRecord
  complete : log.Perm (D.places.flatMap fun p => (ops p).map D.record)

/-- The time of the last of some operations to finish. -/
def LastFinish (ops : List TimedOp) (time : Int) : Prop :=
  (∃ t ∈ ops, t.finished = time) ∧ ∀ t ∈ ops, t.finished ≤ time

namespace MlpRun

variable {D : MlpDeployment} {T : Training F} (run : MlpRun D T)

/-- The releases of the start barrier that the first rank writes to other workers, in its order. -/
def releases : List TimedOp :=
  (run.ops (0, 0)).filter fun t => t.op = .W ∧ t.tag = .release ∧ D.slot t.far ≠ D.slot (0, 0)

/-- The completion writes of the ranks on other workers. -/
def completions : List TimedOp :=
  (List.range D.ranks).flatMap fun rank =>
    (run.ops (rank, 0)).filter fun t => t.op = .W ∧ t.tag = .finished ∧
    D.slot (rank, 0) ≠ D.slot (0, 0)

/-- The window goes from the last release to the last completion. -/
def WindowAtBarriers : Prop :=
  ∃ start finish, chooseWindow run.log = .ok (start, finish, .multiRankBarriers) ∧
    LastFinish run.releases start ∧ LastFinish run.completions finish

end MlpRun

section Deployment

variable (D : MlpDeployment)

theorem slot_zero (y : Nat) : D.slot (0, y) = 0 := by
  rw [MlpDeployment.slot, Nat.zero_div]
  rfl

theorem slot_eq_zero_iff (p : Place) : D.slot p = 0 ↔ p.1 < D.ranksPerNode := by
  rw [MlpDeployment.slot, Int.natCast_eq_zero, Nat.div_eq_zero_iff]
  have := D.positive
  omega

theorem ranksPerNode_lt_ranks : D.ranksPerNode < D.ranks := by
  rw [MlpDeployment.ranks]
  exact (Nat.lt_mul_iff_one_lt_left D.positive).mpr D.several

theorem mem_places {p : Place} : p ∈ D.places ↔ p.1 < D.ranks ∧ p.2 ≤ 2 := by
  obtain ⟨r, y⟩ := p
  simp only [MlpDeployment.places, List.mem_flatMap, List.mem_range, List.mem_cons, Prod.mk.injEq,
    List.not_mem_nil, or_false]
  constructor
  · rintro ⟨rank, hrank, ⟨rfl, rfl⟩ | ⟨rfl, rfl⟩ | ⟨rfl, rfl⟩⟩
    · exact ⟨hrank, by omega⟩
    · exact ⟨hrank, by omega⟩
    · exact ⟨hrank, by omega⟩
  · rintro ⟨hr, hy⟩
    refine ⟨r, hr, ?_⟩
    omega

/-- The routing file has the slot of every process. -/
theorem lookup_slot {p : Place} (hp : p ∈ D.places) :
    D.routing.coordinateToWorkerSlot.lookup (coordKey p.coord) = some (D.slot p) := by
  obtain ⟨hr, hy⟩ := (mem_places D).mp hp
  obtain ⟨r, y⟩ := p
  dsimp only at hr hy
  have hplaced : ∃ index < D.ranks * 3, phaseOneRank index D.ranks = r ∧
      phaseOneCoordinates index D.ranks = (r, y) := by
    by_cases hcpu : y = 0
    · subst hcpu
      refine ⟨r, by omega, ?_, ?_⟩
      · rw [phaseOneRank, if_pos hr]
      · rw [phaseOneCoordinates, if_pos hr]
    · refine ⟨D.ranks + (2 * r + (y - 1)), by omega, ?_, ?_⟩
      · rw [phaseOneRank, if_neg (by omega), kGpusPerRank]
        omega
      · rw [phaseOneCoordinates, if_neg (by omega), kGpusPerRank, Prod.mk.injEq]
        omega
  obtain ⟨index, hindex, hrank, hcoordinates⟩ := hplaced
  have hmem : (⟨.phase1, index, D.slot (r, y), some (Place.coord (r, y))⟩ : PlacedProcess) ∈
      (mlpPlacement D.nodes D.ranksPerNode).processes := by
    rw [mlpPlacement]
    refine List.mem_append_left _ (List.mem_map.mpr ⟨index, List.mem_range.mpr hindex, ?_⟩)
    rw [← MlpDeployment.ranks, hrank, hcoordinates]
    rfl
  exact coordinateToSlot_lookup (generateRouting_ok D.generated).1 hmem rfl

/-- The records of a run are records of the routers. -/
theorem record_of_router {t : TimedOp} (hfar : t.far ∈ D.places)
    (hforward : t.started ≤ t.finished) : ∃ o : Operation D.routing, o.record = D.record t := by
  have hrouted : (Router.init (D.slot t.place) D.routing).peerFor t.op t.name =
      .ok (D.slot t.far) := by
    have hlookup := lookup_slot D hfar
    rw [TimedOp.name]
    cases t.op with
    | W => exact peerFor_pipeName hlookup
    | R => exact peerFor_pipeName hlookup
  exact ⟨⟨D.slot t.place, t.op, t.name, t.bytes, D.slot t.far, hrouted, t.started, t.finished,
    hforward, t.started, t.finished⟩, rfl⟩

theorem places_nodup : D.places.Nodup := by
  rw [MlpDeployment.places, List.nodup_flatMap]
  refine ⟨fun rank _ => by simp, List.nodup_range.imp ?_⟩
  intro r q hrq p hr hq
  simp only [List.mem_cons, List.not_mem_nil, or_false] at hr hq
  have hleft : p.1 = r := by rcases hr with rfl | rfl | rfl <;> rfl
  have hright : p.1 = q := by rcases hq with rfl | rfl | rfl <;> rfl
  exact hrq (hleft.symm.trans hright)

theorem isStartRelease_record (t : TimedOp) :
    (D.record t).isStartRelease = true ↔ t.op = .W ∧ t.bytes = 4 ∧ D.slot t.place = 0 ∧
    D.slot t.far ≠ 0 := by
  have hoperation : operationText t.op = writeOperation ↔ t.op = .W := by
    cases t.op with
    | W => decide
    | R => decide
  simp only [PipeRecord.isStartRelease, MlpDeployment.record, decide_eq_true_eq, Option.some.injEq,
    hoperation, ne_eq]
  norm_cast

theorem isCompletionWrite_record (t : TimedOp) :
    (D.record t).isCompletionWrite = true ↔ t.op = .W ∧ t.bytes = 4 ∧ D.slot t.place ≠ 0 ∧
    D.slot t.far = 0 := by
  have hoperation : operationText t.op = writeOperation ↔ t.op = .W := by
    cases t.op with
    | W => decide
    | R => decide
  simp only [PipeRecord.isCompletionWrite, MlpDeployment.record, decide_eq_true_eq,
    Option.some.injEq, hoperation, ne_eq]
  norm_cast

end Deployment

theorem flatMap_single {α β : Type} {l : List α} (hnodup : l.Nodup) {x : α} (hx : x ∈ l)
    {f : α → List β} (hf : ∀ y ∈ l, y ≠ x → f y = []) : l.flatMap f = f x := by
  obtain ⟨before, after, rfl⟩ := List.append_of_mem hx
  rw [List.nodup_append, List.nodup_cons] at hnodup
  obtain ⟨-, ⟨hafter, -⟩, hapart⟩ := hnodup
  have hbefore : before.flatMap f = [] := by
    rw [List.flatMap_eq_nil_iff]
    exact fun y hy => hf y (by simp [hy]) (hapart y hy x (by simp))
  have hrest : after.flatMap f = [] := by
    rw [List.flatMap_eq_nil_iff]
    exact fun y hy => hf y (by simp [hy]) fun h => hafter (h ▸ hy)
  rw [List.flatMap_append, List.flatMap_cons, hbefore, hrest, List.nil_append, List.append_nil]

namespace MlpRun

variable {D : MlpDeployment} {T : Training F} (run : MlpRun D T)

/-- The writes of a process that look like those of a barrier. -/
def tokens (p : Place) : List TimedOp := (run.ops p).filter fun t => t.toMessageOp.isToken

theorem tokens_map (p : Place) :
    (run.tokens p).map TimedOp.toMessageOp = ((run.ops p).map TimedOp.toMessageOp).filter
      MessageOp.isToken := by
  rw [tokens, List.filter_map]
  rfl

include run in
theorem ranks_pos : 0 < T.ranks := by
  have := ranksPerNode_lt_ranks D
  rw [run.ranks_eq]
  omega

theorem performs_rank {r : Nat} (hr : r < D.ranks) :
    Performs T (r, 0) (.cpu (T.cpuMain r)) ((run.ops (r, 0)).map TimedOp.toMessageOp) := by
  have hproc : T.start.proc (r, 0) = .cpu (T.cpuMain r) := by
    rw [← run.ranks_eq] at hr
    simp [Training.start, Training.world, hr]
  rw [← hproc]
  exact run.performs (r, 0)

theorem tokens_zero :
    (run.tokens (0, 0)).map TimedOp.toMessageOp =
      (List.range' 1 (D.ranks - 1)).map fun peer => tokenWrite .release (0, 0) (peer, 0) := by
  have hpos := run.ranks_pos
  rw [tokens_map, tokens_first run.power run.divides hpos (run.performs_rank (run.ranks_eq ▸ hpos)),
    run.ranks_eq]

theorem tokens_rank {r : Nat} (hr : r ≠ 0) (hlt : r < D.ranks) :
    (run.tokens (r, 0)).map TimedOp.toMessageOp =
      [tokenWrite .ready (r, 0) (0, 0), tokenWrite .finished (r, 0) (0, 0)] := by
  rw [tokens_map, tokens_other run.power run.divides hr (run.ranks_eq ▸ hlt)
    (run.performs_rank hlt)]

theorem tokens_worker {p : Place} (hp : p ∈ D.places) (hy : p.2 ≠ 0) : run.tokens p = [] := by
  obtain ⟨hr, hle⟩ := (mem_places D).mp hp
  have hproc : T.start.proc p = .gpu .awaitHeader := by
    rw [← run.ranks_eq] at hr
    simp [Training.start, Training.world, hr, hy, hle, kGpusPerRank]
  have hnone := tokens_gpu (run.performs p) ⟨_, hproc⟩
  rw [← tokens_map] at hnone
  exact List.map_eq_nil_iff.mp hnone

/-- The writes that look like those of a barrier are those of the barriers. -/
theorem token_cases {p : Place} (hp : p ∈ D.places) {t : TimedOp} (ht : t ∈ run.ops p)
    (htoken : t.toMessageOp.isToken = true) :
    (p = (0, 0) ∧ ∃ peer, peer ≠ 0 ∧ peer < D.ranks ∧
      t.toMessageOp = tokenWrite .release (0, 0) (peer, 0)) ∨
      (p.1 ≠ 0 ∧ p.2 = 0 ∧ (t.toMessageOp = tokenWrite .ready p (0, 0) ∨
        t.toMessageOp = tokenWrite .finished p (0, 0))) := by
  have hmem : t ∈ run.tokens p := List.mem_filter.mpr ⟨ht, htoken⟩
  obtain ⟨r, y⟩ := p
  by_cases hy : y = 0
  · subst hy
    by_cases hr : r = 0
    · subst hr
      have hmap : t.toMessageOp ∈ (run.tokens (0, 0)).map TimedOp.toMessageOp :=
        List.mem_map_of_mem hmem
      rw [run.tokens_zero] at hmap
      obtain ⟨peer, hpeer, heq⟩ := List.mem_map.mp hmap
      rw [List.mem_range'_1] at hpeer
      exact .inl ⟨rfl, peer, by omega, by omega, heq.symm⟩
    · have hmap : t.toMessageOp ∈ (run.tokens (r, 0)).map TimedOp.toMessageOp :=
        List.mem_map_of_mem hmem
      rw [run.tokens_rank hr ((mem_places D).mp hp).1] at hmap
      simp only [List.mem_cons, List.not_mem_nil, or_false] at hmap
      exact .inr ⟨hr, rfl, hmap⟩
  · rw [run.tokens_worker hp hy] at hmem
    cases hmem

theorem isToken_of_size {t : TimedOp} (hop : t.op = .W) (hbytes : t.bytes = 4) :
    t.toMessageOp.isToken = true := by
  simp [MessageOp.isToken, hop, hbytes]

theorem isToken_of_tag {t : TimedOp} (hop : t.op = .W) (htag : t.tag.isBarrier = true) :
    t.toMessageOp.isToken = true := by
  simp [MessageOp.isToken, hop, htag]

/-- The records of the releases are records of the router of the first rank. -/
theorem release_of_router {t : TimedOp} (ht : t ∈ run.releases) :
    ∃ o : Operation D.routing, o.record = D.record t := by
  have hzero : (0, 0) ∈ D.places := (mem_places D).mpr ⟨run.ranks_eq ▸ run.ranks_pos, by decide⟩
  obtain ⟨hmem, hrelease⟩ := List.mem_filter.mp ht
  obtain ⟨hop, htag, -⟩ := of_decide_eq_true hrelease
  have htoken := isToken_of_tag hop (htag ▸ rfl)
  rcases run.token_cases hzero hmem htoken with ⟨-, peer, -, hpeer, heq⟩ | ⟨hne, -⟩
  · have hfar : t.far = (peer, 0) := congrArg MessageOp.far heq
    refine record_of_router D ?_ (run.forward (0, 0) t hmem)
    rw [hfar]
    exact (mem_places D).mpr ⟨hpeer, Nat.zero_le _⟩
  · exact absurd rfl hne

theorem releases_eq : run.releases = (run.tokens (0, 0)).filter fun t => D.slot t.far ≠ 0 := by
  rw [releases, tokens, List.filter_filter]
  apply List.filter_congr
  intro t ht
  rw [slot_zero, Bool.eq_iff_iff]
  simp only [decide_eq_true_eq, Bool.and_eq_true]
  constructor
  · rintro ⟨hop, htag, hslot⟩
    exact ⟨hslot, isToken_of_tag hop (by rw [htag]; rfl)⟩
  · rintro ⟨hslot, htoken⟩
    have hp : (0, 0) ∈ D.places := (mem_places D).mpr ⟨run.ranks_eq ▸ run.ranks_pos, by decide⟩
    rcases run.token_cases hp ht htoken with ⟨-, peer, -, -, heq⟩ | ⟨hne, -⟩
    · have hop : t.toMessageOp.op = .W := by rw [heq]; rfl
      have htag : t.toMessageOp.tag = .release := by rw [heq]; rfl
      exact ⟨hop, htag, hslot⟩
    · exact absurd rfl hne

/-- The first rank releases the ranks beyond its own worker in their order. -/
theorem releases_map :
    run.releases.map TimedOp.toMessageOp =
      (List.range' D.ranksPerNode (D.ranks - D.ranksPerNode)).map fun peer =>
        tokenWrite .release (0, 0) (peer, 0) := by
  have hsplit : List.range' 1 (D.ranks - 1) =
      List.range' 1 (D.ranksPerNode - 1) ++ List.range' D.ranksPerNode
        (D.ranks - D.ranksPerNode) := by
    have hpos := D.positive
    have hlt := ranksPerNode_lt_ranks D
    have happend := List.range'_append_1 (s := 1) (m := D.ranksPerNode - 1)
      (n := D.ranks - D.ranksPerNode)
    rw [show 1 + (D.ranksPerNode - 1) = D.ranksPerNode by omega,
      show D.ranksPerNode - 1 + (D.ranks - D.ranksPerNode) = D.ranks - 1 by omega] at happend
    exact happend.symm
  have hfilter : run.releases.map TimedOp.toMessageOp =
      ((run.tokens (0, 0)).map TimedOp.toMessageOp).filter fun o => D.slot o.far ≠ 0 := by
    rw [releases_eq, List.filter_map]
    rfl
  rw [hfilter, tokens_zero, hsplit, List.map_append, List.filter_append]
  have hnear : ((List.range' 1 (D.ranksPerNode - 1)).map fun peer =>
      tokenWrite .release (0, 0) (peer, 0)).filter (fun o => D.slot o.far ≠ 0) = [] := by
    rw [List.filter_eq_nil_iff]
    intro o ho
    obtain ⟨peer, hpeer, rfl⟩ := List.mem_map.mp ho
    rw [List.mem_range'_1] at hpeer
    simp only [tokenWrite, decide_eq_true_eq, ne_eq, not_not, slot_eq_zero_iff]
    omega
  rw [hnear, List.nil_append, List.filter_eq_self]
  intro o ho
  obtain ⟨peer, hpeer, rfl⟩ := List.mem_map.mp ho
  rw [List.mem_range'_1] at hpeer
  simp only [tokenWrite, decide_eq_true_eq, ne_eq, slot_eq_zero_iff]
  omega

theorem length_releases : run.releases.length = D.ranks - D.ranksPerNode := by
  rw [← List.length_map TimedOp.toMessageOp, releases_map, List.length_map, List.length_range']

/-- The number of slots that the releases go to. -/
theorem card_release_slots :
    (run.releases.map fun t => D.slot t.far).dedup.length = D.nodes - 1 := by
  have hmap : (run.releases.map fun t => D.slot t.far) =
      (List.range' D.ranksPerNode (D.ranks - D.ranksPerNode)).map fun peer => D.slot (peer, 0) := by
    have h := congrArg (List.map fun o : MessageOp => D.slot o.far) run.releases_map
    rw [List.map_map, List.map_map] at h
    exact h
  have hslots : ((List.range' D.ranksPerNode (D.ranks - D.ranksPerNode)).map fun peer =>
      D.slot (peer, 0)).toFinset =
      Finset.Ico (1 : Int) D.nodes := by
    have hpos := D.positive
    have hlt := ranksPerNode_lt_ranks D
    refine Finset.ext fun (slot : Int) => ?_
    simp only [List.mem_toFinset, List.mem_map, List.mem_range'_1, Finset.mem_Ico,
      MlpDeployment.slot]
    constructor
    · rintro ⟨peer, ⟨hle, hpeer⟩, rfl⟩
      have hone : 1 ≤ peer / D.ranksPerNode := (Nat.one_le_div_iff hpos).mpr hle
      have hnodes : peer / D.ranksPerNode < D.nodes := by
        rw [Nat.div_lt_iff_lt_mul hpos, ← MlpDeployment.ranks]
        omega
      exact ⟨Int.ofNat_le.mpr hone, Int.ofNat_lt.mpr hnodes⟩
    · rintro ⟨hone, hnodes⟩
      obtain ⟨node, rfl⟩ := Int.eq_ofNat_of_zero_le (Int.le_trans (by decide) hone)
      refine ⟨node * D.ranksPerNode, ⟨?_, ?_⟩, ?_⟩
      · exact Nat.le_mul_of_pos_left _ (Int.ofNat_le.mp hone)
      · have hbelow : node * D.ranksPerNode < D.nodes * D.ranksPerNode :=
          Nat.mul_lt_mul_of_pos_right (Int.ofNat_lt.mp hnodes) hpos
        rw [← MlpDeployment.ranks] at hbelow
        omega
      · rw [Nat.mul_div_cancel _ hpos]
  rw [← List.card_toFinset, hmap, hslots, Int.card_Ico]
  omega

/-- The releases finish one after the other. -/
theorem releases_sorted : (run.releases.map TimedOp.finished).Pairwise (· ≤ ·) := by
  have hordered : run.releases.Pairwise fun t u => t.finished ≤ u.started :=
    (run.ordered (0, 0)).filter _
  rw [List.pairwise_map]
  refine hordered.imp_of_mem fun {t u} _ hu hle => ?_
  exact hle.trans (run.forward (0, 0) u (List.mem_of_mem_filter hu))

theorem mem_places_of_rank {r : Nat} (hr : r < D.ranks) : (r, 0) ∈ D.places :=
  (mem_places D).mpr ⟨hr, Nat.zero_le _⟩

/-- The log has the releases as its start releases. -/
theorem filter_isStartRelease :
    (run.log.filter PipeRecord.isStartRelease).Perm (run.releases.map D.record) := by
  have hzero : (0, 0) ∈ D.places := mem_places_of_rank (run.ranks_eq ▸ run.ranks_pos)
  have hother : ∀ p ∈ D.places, p ≠ (0, 0) →
      ((run.ops p).map D.record).filter PipeRecord.isStartRelease = [] := by
    intro p hp hne
    rw [List.filter_eq_nil_iff]
    intro r hr hrelease
    obtain ⟨t, ht, rfl⟩ := List.mem_map.mp hr
    obtain ⟨hop, hbytes, -, hfar⟩ := (isStartRelease_record D t).mp hrelease
    rcases run.token_cases hp ht (isToken_of_size hop hbytes) with ⟨hp', -⟩ | ⟨-, -, heq | heq⟩
    · exact hne hp'
    · have : t.far = (0, 0) := congrArg MessageOp.far heq
      exact hfar (by rw [this, slot_zero])
    · have : t.far = (0, 0) := congrArg MessageOp.far heq
      exact hfar (by rw [this, slot_zero])
  have hfirst : ((run.ops (0, 0)).map D.record).filter PipeRecord.isStartRelease = run.releases.map
      D.record := by
    rw [List.filter_map, releases_eq, tokens, List.filter_filter]
    congr 1
    apply List.filter_congr
    intro t ht
    rw [Function.comp_apply, Bool.eq_iff_iff, isStartRelease_record]
    simp only [decide_eq_true_eq, Bool.and_eq_true]
    constructor
    · rintro ⟨hop, hbytes, -, hfar⟩
      exact ⟨hfar, isToken_of_size hop hbytes⟩
    · rintro ⟨hfar, htoken⟩
      rcases run.token_cases hzero ht htoken with ⟨-, peer, -, -, heq⟩ | ⟨hne, -⟩
      · have hop : t.op = .W := congrArg MessageOp.op heq
        have hbytes : t.bytes = 4 := congrArg MessageOp.bytes heq
        have hplace : t.place = (0, 0) := congrArg MessageOp.place heq
        exact ⟨hop, hbytes, by rw [hplace, slot_zero], hfar⟩
      · exact absurd rfl hne
  have hlog := run.complete.filter PipeRecord.isStartRelease
  rw [List.filter_flatMap, flatMap_single (places_nodup D) hzero hother, hfirst] at hlog
  exact hlog

/-- The two tokens of another rank. -/
theorem exists_tokens_rank {r : Nat} (hr : r ≠ 0) (hlt : r < D.ranks) :
    ∃ t u, run.tokens (r, 0) = [t, u] ∧ t.toMessageOp = tokenWrite .ready (r, 0) (0, 0) ∧
      u.toMessageOp = tokenWrite .finished (r, 0) (0, 0) ∧ t.finished ≤ u.finished := by
  have hmap := run.tokens_rank hr hlt
  obtain ⟨t, rest, htokens, ht, hrest⟩ := List.map_eq_cons_iff.mp hmap
  obtain ⟨u, rest', rfl, hu, hrest'⟩ := List.map_eq_cons_iff.mp hrest
  rw [List.map_eq_nil_iff] at hrest'
  subst hrest'
  refine ⟨t, u, htokens, ht, hu, ?_⟩
  have hordered : (run.tokens (r, 0)).Pairwise fun t u => t.finished ≤ u.started :=
    (run.ordered (r, 0)).filter _
  rw [htokens, List.pairwise_pair] at hordered
  have hmem : u ∈ run.tokens (r, 0) := by simp [htokens]
  exact hordered.trans (run.forward (r, 0) u (List.mem_of_mem_filter hmem))

theorem mem_completions {t : TimedOp} :
    t ∈ run.completions ↔ ∃ rank < D.ranks, t ∈ run.ops (rank, 0) ∧ t.op = .W ∧ t.tag = .finished ∧
      D.slot (rank, 0) ≠ 0 := by
  simp only [completions, List.mem_flatMap, List.mem_range, List.mem_filter,
    decide_eq_true_eq, slot_zero]

/-- A completion is a completion write of the log. -/
theorem completion_logged {t : TimedOp} (ht : t ∈ run.completions) :
    D.record t ∈ run.log.filter PipeRecord.isCompletionWrite := by
  obtain ⟨rank, hrank, hops, hop, htag, hslot⟩ := run.mem_completions.mp ht
  have hp : (rank, 0) ∈ D.places := mem_places_of_rank hrank
  rw [List.mem_filter, run.complete.mem_iff, List.mem_flatMap]
  refine ⟨⟨(rank, 0), hp, List.mem_map_of_mem hops⟩, ?_⟩
  rcases run.token_cases hp hops (isToken_of_tag hop (by rw [htag]; rfl)) with
    ⟨-, peer, -, -, heq⟩ | ⟨-, -, heq | heq⟩
  · have : t.tag = .release := congrArg MessageOp.tag heq
    cases htag.symm.trans this
  · have : t.tag = .ready := congrArg MessageOp.tag heq
    cases htag.symm.trans this
  · have hbytes : t.bytes = 4 := congrArg MessageOp.bytes heq
    have hplace : t.place = (rank, 0) := congrArg MessageOp.place heq
    have hfar : t.far = (0, 0) := congrArg MessageOp.far heq
    rw [isCompletionWrite_record]
    exact ⟨hop, hbytes, by rw [hplace]; exact hslot, by rw [hfar, slot_zero]⟩

/-- No completion write of the log finishes after all completions. The start barrier has writes
of the same size, but each of them comes before the completion of its rank. -/
theorem completion_write_le {r : PipeRecord}
    (hr : r ∈ run.log.filter PipeRecord.isCompletionWrite) :
    ∃ u, r = D.record u ∧ ∃ t ∈ run.completions, u.finished ≤ t.finished := by
  rw [List.mem_filter, run.complete.mem_iff, List.mem_flatMap] at hr
  obtain ⟨⟨⟨rank, y⟩, hp, hr⟩, hcompletion⟩ := hr
  obtain ⟨u, hu, rfl⟩ := List.mem_map.mp hr
  obtain ⟨hop, hbytes, hplace, -⟩ := (isCompletionWrite_record D u).mp hcompletion
  have htoken := isToken_of_size hop hbytes
  have hrank := ((mem_places D).mp hp).1
  refine ⟨u, rfl, ?_⟩
  rcases run.token_cases hp hu htoken with ⟨-, peer, -, -, heq⟩ | ⟨hne, rfl, heq⟩
  · have : u.place = (0, 0) := congrArg MessageOp.place heq
    exact absurd (by rw [this, slot_zero]) hplace
  · have hslot : D.slot (rank, 0) ≠ 0 := by
      have : u.place = (rank, 0) := by
        rcases heq with heq | heq <;> exact congrArg MessageOp.place heq
      rwa [this] at hplace
    obtain ⟨t, t', htokens, -, ht', hle⟩ := run.exists_tokens_rank hne hrank
    have hmem' : t' ∈ run.ops (rank, 0) := by
      have : t' ∈ run.tokens (rank, 0) := by simp [htokens]
      exact List.mem_of_mem_filter this
    refine ⟨t', run.mem_completions.mpr
      ⟨rank, hrank, hmem', congrArg MessageOp.op ht', congrArg MessageOp.tag ht', hslot⟩,
      ?_⟩
    have hmem : u ∈ run.tokens (rank, 0) := List.mem_filter.mpr ⟨hu, htoken⟩
    rw [htokens, List.mem_pair] at hmem
    rcases hmem with rfl | rfl
    · exact hle
    · exact le_refl _

theorem lastFinish_iff {ops : List TimedOp} {time : Int} :
    LastFinish ops time ↔ maxTime (ops.map TimedOp.finished) = .ok time := by
  rw [maxTime_eq_ok, LastFinish]
  simp

theorem exists_lastFinish {ops : List TimedOp} (hne : ops ≠ []) : ∃ time, LastFinish ops time := by
  cases ops with
  | nil => exact absurd rfl hne
  | cons t rest => exact ⟨_, lastFinish_iff.mpr rfl⟩

theorem releases_ne_nil : run.releases ≠ [] := by
  have hlt := ranksPerNode_lt_ranks D
  apply List.ne_nil_of_length_pos
  rw [length_releases]
  omega

theorem completions_ne_nil : run.completions ≠ [] := by
  have hlt := ranksPerNode_lt_ranks D
  have hpos := D.positive
  have hrank : D.ranks - 1 < D.ranks := by omega
  obtain ⟨_, t, htokens, -, ht, -⟩ := run.exists_tokens_rank (by omega : D.ranks - 1 ≠ 0) hrank
  have hmem : t ∈ run.tokens (D.ranks - 1, 0) := by simp [htokens]
  have hslot : D.slot (D.ranks - 1, 0) ≠ 0 := by
    rw [ne_eq, slot_eq_zero_iff]
    omega
  apply List.ne_nil_of_mem
  exact run.mem_completions.mpr
    ⟨D.ranks - 1, hrank, List.mem_of_mem_filter hmem, congrArg MessageOp.op ht,
    congrArg MessageOp.tag ht, hslot⟩

/-- The latest completion write of the log is the last completion. -/
theorem maxTime_completionWrites {finished : PipeRecord → Int}
    (hfinished : ∀ t, finished (D.record t) = t.finished) {time : Int} :
    maxTime ((run.log.filter PipeRecord.isCompletionWrite).map finished) = .ok time ↔
      LastFinish run.completions time := by
  rw [maxTime_eq_ok, LastFinish]
  constructor
  · rintro ⟨hmem, hle⟩
    obtain ⟨r, hr, rfl⟩ := List.mem_map.mp hmem
    obtain ⟨u, rfl, t, ht, hut⟩ := run.completion_write_le hr
    have hall : ∀ t ∈ run.completions, t.finished ≤ finished (D.record u) := by
      intro t ht
      rw [← hfinished t]
      exact hle _ (List.mem_map_of_mem (run.completion_logged ht))
    rw [hfinished] at hall ⊢
    exact ⟨⟨t, ht, le_antisymm (hall t ht) hut⟩, hall⟩
  · rintro ⟨⟨t, ht, rfl⟩, hle⟩
    refine ⟨?_, ?_⟩
    · rw [← hfinished t]
      exact List.mem_map_of_mem (run.completion_logged ht)
    · intro time htime
      obtain ⟨r, hr, rfl⟩ := List.mem_map.mp htime
      obtain ⟨u, rfl, t', ht', hle'⟩ := run.completion_write_le hr
      rw [hfinished]
      exact hle'.trans (hle t' ht')

/-- The window starts with the last of as many releases as there are other workers. -/
theorem chooseWindow_log {start finish : Int} :
    chooseWindow run.log = .ok (start, finish, .multiRankBarriers) ↔
      LastFinish (run.releases.take (D.nodes - 1)) start ∧ LastFinish run.completions finish := by
  have hreleases := run.filter_isStartRelease
  have hfirst : run.log.filter PipeRecord.isStartRelease ≠ [] := by
    intro hnil
    rw [hnil] at hreleases
    exact run.releases_ne_nil (List.map_eq_nil_iff.mp hreleases.nil_eq.symm)
  have hlast : run.log.filter PipeRecord.isCompletionWrite ≠ [] := by
    obtain ⟨t, ht⟩ := List.exists_mem_of_ne_nil _ run.completions_ne_nil
    exact List.ne_nil_of_mem (run.completion_logged ht)
  let finished : PipeRecord → Int := fun r => r.finishedUnixNs.getD 0
  let peer : PipeRecord → Int := fun r => r.peerSlot.getD 0
  have hfinished : ∀ t, finished (D.record t) = t.finished := fun t => rfl
  have hrelease : ∀ r ∈ run.log.filter PipeRecord.isStartRelease,
      r.finishedUnixNs = some (finished r) ∧ r.peerSlot = some (peer r) := by
    intro r hr
    obtain ⟨t, -, rfl⟩ := List.mem_map.mp (hreleases.mem_iff.mp hr)
    exact ⟨rfl, rfl⟩
  have hcompletion : ∀ r ∈ run.log.filter PipeRecord.isCompletionWrite,
      r.finishedUnixNs = some (finished r) := by
    intro r hr
    obtain ⟨u, rfl, -⟩ := run.completion_write_le hr
    rfl
  have htimes : ((run.log.filter PipeRecord.isStartRelease).map finished).mergeSort (· ≤ ·) =
      run.releases.map TimedOp.finished := by
    have hperm := (hreleases.map finished)
    rw [List.map_map] at hperm
    apply List.Perm.eq_of_pairwise' _ run.releases_sorted ((List.mergeSort_perm _ _).trans hperm)
    exact List.pairwise_mergeSort' _ _
  have hslots : ((run.log.filter PipeRecord.isStartRelease).map peer).dedup.length =
      D.nodes - 1 := by
    have hperm := ((hreleases.map peer).dedup).length_eq
    rw [List.map_map] at hperm
    exact hperm.trans run.card_release_slots
  have hwindow := barrierWindow_eq finished peer hrelease hcompletion
  rw [htimes, hslots, ← List.map_take] at hwindow
  rw [chooseWindow, if_pos ⟨hfirst, hlast⟩, hwindow, lastFinish_iff,
    ← run.maxTime_completionWrites hfinished]
  cases maxTime ((run.releases.take (D.nodes - 1)).map TimedOp.finished) with
  | error e => simp [bind, Except.bind]
  | ok start' =>
    cases maxTime ((run.log.filter PipeRecord.isCompletionWrite).map finished) with
    | error e => simp [bind, Except.bind]
    | ok finish' => simp [bind, Except.bind, pure, Except.pure]

theorem late_release_of_window (hwindow : run.WindowAtBarriers) :
    ∀ t ∈ run.releases.drop (D.nodes - 1), ∃ u ∈ run.releases.take (D.nodes - 1),
      t.finished ≤ u.finished := by
  obtain ⟨start, finish, hwindow, ⟨-, hlast⟩, -⟩ := hwindow
  obtain ⟨⟨⟨u, hu, rfl⟩, -⟩, -⟩ := run.chooseWindow_log.mp hwindow
  exact fun t ht => ⟨u, hu, hlast t (List.mem_of_mem_drop ht)⟩

end MlpRun

/-- The window starts at the last release if and only if none of the releases beyond the first ones,
one for each other worker, finishes after all of these: always when a worker has one rank. -/
theorem window_at_barriers_iff {D : MlpDeployment} {T : Training F} (run : MlpRun D T) :
    run.WindowAtBarriers ↔
      D.ranksPerNode = 1 ∨
        ∀ t ∈ run.releases.drop (D.nodes - 1), ∃ u ∈ run.releases.take (D.nodes - 1),
          t.finished ≤ u.finished := by
  constructor
  · intro hwindow
    exact .inr (run.late_release_of_window hwindow)
  · intro h
    have hlate : ∀ t ∈ run.releases.drop (D.nodes - 1),
        ∃ u ∈ run.releases.take (D.nodes - 1), t.finished ≤ u.finished := by
      rcases h with hone | h
      · have hlength : run.releases.length ≤ D.nodes - 1 := by
          rw [run.length_releases, MlpDeployment.ranks, hone, Nat.mul_one]
        rw [List.drop_eq_nil_of_le hlength]
        intro t ht
        cases ht
      · exact h
    have htake : run.releases.take (D.nodes - 1) ≠ [] := by
      have hseveral := D.several
      rw [ne_eq, List.take_eq_nil_iff]
      rintro (hzero | hnil)
      · omega
      · exact run.releases_ne_nil hnil
    obtain ⟨start, hstart⟩ := MlpRun.exists_lastFinish htake
    obtain ⟨finish, hfinish⟩ := MlpRun.exists_lastFinish run.completions_ne_nil
    refine ⟨start, finish, run.chooseWindow_log.mpr ⟨hstart, hfinish⟩, ?_, hfinish⟩
    obtain ⟨⟨u, hu, rfl⟩, hle⟩ := hstart
    refine ⟨⟨u, List.mem_of_mem_take hu, rfl⟩, ?_⟩
    intro t ht
    rw [← List.take_append_drop (D.nodes - 1) run.releases] at ht
    rcases List.mem_append.mp ht with ht | ht
    · exact hle t ht
    · obtain ⟨v, hv, htv⟩ := hlate t ht
      exact htv.trans (hle v hv)

section Clock

variable {T : Training F}

/-- The operations of all processes from given states on, after a time. -/
structure Timed (T : Training F) (proc : Place → Proc F) (now : Int) (ops : Place → List TimedOp) :
    Prop where
  performs : ∀ p, Performs T p (proc p) ((ops p).map TimedOp.toMessageOp)
  times : ∀ p, ∀ t ∈ ops p, now ≤ t.started ∧ t.started < t.finished
  ordered : ∀ p, (ops p).Pairwise fun t u => t.finished ≤ u.started

/-- A write or a read takes the next tick. -/
theorem Timed.tick {proc proc' : Place → Proc F} {now : Int} {ops : Place → List TimedOp}
    (h : Timed T proc' (now + 1) ops) {p : Place} (hothers : ∀ q, q ≠ p → proc' q = proc q)
    {o : MessageOp} (ho : Performs T p (proc p) (o :: (ops p).map TimedOp.toMessageOp)) :
    Timed T proc now (Function.update ops p (⟨o, now, now + 1⟩ :: ops p)) := by
  have hlater : ∀ q, ∀ t ∈ ops q, now ≤ t.started ∧ t.started < t.finished := by
    intro q t ht
    obtain ⟨hle, hlt⟩ := h.times q t ht
    exact ⟨by omega, hlt⟩
  refine ⟨fun q => ?_, fun q => ?_, fun q => ?_⟩
  all_goals by_cases hq : q = p
  · subst hq
    rw [Function.update_self]
    exact ho
  · rw [Function.update_of_ne hq, ← hothers q hq]
    exact h.performs q
  · subst hq
    rw [Function.update_self]
    exact List.forall_mem_cons.mpr ⟨⟨le_refl now, Int.lt_succ now⟩, hlater q⟩
  · rw [Function.update_of_ne hq]
    exact hlater q
  · subst hq
    rw [Function.update_self]
    exact (h.ordered q).cons fun u hu => (h.times q u hu).1
  · rw [Function.update_of_ne hq]
    exact h.ordered q

/-- A finished run with a clock that goes on with every operation. -/
theorem exists_timed {s final : Kahn.State Place Link (Msg F) (Vec F) (Proc F)}
    (h : Kahn.Steps T.network s final) (hfin : Kahn.Finished T.network final) (now : Int) :
    ∃ ops, Timed T s.proc now ops := by
  induction h using Relation.ReflTransGen.head_induction_on generalizing now with
  | refl => exact ⟨fun _ => [], fun p => .done (hfin p), fun p t ht => (by cases ht), fun p => .nil⟩
  | @head s s' hstep _ ih =>
    obtain ⟨p, hfires⟩ := hstep
    obtain ⟨ops, hops⟩ := ih (now + 1)
    have hothers : ∀ q, q ≠ p → s'.proc q = s.proc q := fun q hq => hfires.proc_ne hq
    have hrest := hops.performs p
    cases hfires with
    | @send c v k hact =>
      have hk : Performs T p k ((ops p).map TimedOp.toMessageOp) := by simpa using hrest
      exact ⟨_, hops.tick hothers (.send hact hk)⟩
    | @recv c w k v rest hact _ haccepts =>
      have hk : Performs T p (k v) ((ops p).map TimedOp.toMessageOp) := by simpa using hrest
      exact ⟨_, hops.tick hothers (.recv hact haccepts hk)⟩
    | @emit o k hact =>
      have hk : Performs T p k ((ops p).map TimedOp.toMessageOp) := by simpa using hrest
      refine ⟨ops, fun q => ?_, fun q t ht => ?_, hops.ordered⟩
      · by_cases hq : q = p
        · subst hq
          exact .emit hact hk
        · rw [← hothers q hq]
          exact hops.performs q
      · obtain ⟨hle, hlt⟩ := hops.times q t ht
        exact ⟨by omega, hlt⟩

/-- Every configuration has a run, and in one of its runs each operation takes time. -/
theorem exists_run (D : MlpDeployment) (hT : T.Valid) (hranks : T.ranks = D.ranks) :
    ∃ run : MlpRun D T, ∀ p, ∀ t ∈ run.ops p, t.started < t.finished := by
  obtain ⟨final, hsteps, hfin, -⟩ := hT.complete
  obtain ⟨ops, hops⟩ := exists_timed (Training.network_steps hsteps) hfin 0
  have hpower : isPowerOfTwo T.ranks = true := by
    obtain ⟨k, hk⟩ := hT.ranks
    rw [hk]
    exact isPowerOfTwo_of_pow k
  exact ⟨⟨hranks, hpower, hT.divides, ops, hops.performs, fun p t ht => (hops.times p t ht).2.le,
    hops.ordered, _, .refl _⟩, fun p t ht => (hops.times p t ht).2⟩

end Clock

def twoByTwoRouting : Routing :=
  ⟨(List.range 12).map fun index =>
    (coordKey (phaseOneCoordinates index 4).coord, (phaseOneRank index 4 / 2 : Nat)),
    [(0, 0), (1, 0)], some 9500⟩

def twoByTwo : MlpDeployment where
  nodes := 2
  ranksPerNode := 2
  choice := by decide
  several := by decide
  positive := by decide
  limit := by decide
  topology := twoWorkerTopology
  routing := twoByTwoRouting
  generated := rfl

def fourRanks : Training ℚ where
  ranks := 4
  samples := 8
  iterations := 1
  sampleGradient := fun model s index => model index + s

theorem fourRanks_valid : fourRanks.Valid where
  ranks := ⟨2, rfl⟩
  divides := rfl
  positive := by decide
  bounded := by decide

/-- The second release to the other worker comes after the window has started. -/
theorem window_before_last_release : ∃ run : MlpRun twoByTwo fourRanks,
    (∀ t ∈ run.releases, ∃ o : Operation twoByTwoRouting, o.record = twoByTwo.record t) ∧
      ¬ run.WindowAtBarriers := by
  obtain ⟨run, hforward⟩ := exists_run twoByTwo fourRanks_valid rfl
  refine ⟨run, fun t ht => run.release_of_router ht, fun hwindow => ?_⟩
  have hlate := run.late_release_of_window hwindow
  have hlength : run.releases.length = 2 := run.length_releases
  obtain ⟨t, u, htu⟩ := List.length_eq_two.mp hlength
  have hordered : run.releases.Pairwise fun t u => t.finished ≤ u.started :=
    (run.ordered (0, 0)).filter _
  rw [htu, List.pairwise_pair] at hordered
  have hmem : u ∈ run.releases := by simp [htu]
  have htakes := hforward (0, 0) u (List.mem_of_mem_filter hmem)
  rw [htu] at hlate
  obtain ⟨v, hv, hle⟩ := hlate u (by simp [twoByTwo])
  have : v = t := by simpa [twoByTwo] using hv
  subst this
  omega

end ChipSystemSim
