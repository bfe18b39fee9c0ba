import ChipSystemSim.RoutingTable
import ChipSystemSim.RequestHeader
import Mathlib.Order.Interval.Finset.Nat

/-! `generate_placement`: the processes of the workload in the order of a policy,
cut into groups of equal size. -/

namespace ChipSystemSim

/-- A node of the argument list as Python's `int` meets it. A finite float is its
truncated value. -/
inductive ArgValue where
  | text (t : Text)
  | number (n : Int)
  | boolean (b : Bool)
  | real (truncated : Int)
  | infinite
  | other

inductive IntError where
  | invalid
  | overflow
  deriving DecidableEq, Repr

def ArgValue.toInt : ArgValue → Except IntError Int
  | .text t =>
    match pyInt t with
    | some n => .ok n
    | none => .error .invalid
  | .number n => .ok n
  | .boolean b => .ok (if b then 1 else 0)
  | .real truncated => .ok truncated
  | .infinite => .error .overflow
  | .other => .error .invalid

inductive PlacementPolicy where
  | contiguous
  | communicationAware
  | rankAware
  deriving DecidableEq, Repr

abbrev ProcessIdentity := ProcessPhase × Nat

inductive PlacementError where
  | usage
  | uneven (total nodes : Nat)
  | notMlp (policy : PlacementPolicy)
  | communicationGraph
  | rankGraph
  | rankNodes
  | noArguments (index : Nat)
  | noPair (index : Nat)
  | overflow
  deriving DecidableEq, Repr

def PlacementPolicy.name : PlacementPolicy → String
  | contiguous => "contiguous"
  | communicationAware => "communication-aware"
  | rankAware => "rank-aware"

def PlacementError.message : PlacementError → String
  | usage => "argument --nodes: invalid choice"
  | uneven total nodes =>
    String.ofList (decimal total) ++ " native processes cannot be evenly grouped across " ++
      String.ofList (decimal nodes) ++ " nodes"
  | notMlp policy => policy.name ++ " placement is currently defined only for workload 'mlp'"
  | communicationGraph =>
    "communication-aware MLP placement requires the unmodified " ++
      "four-GPU, CPU, DSA, MNSIM and PopNet process graph"
  | rankGraph => "rank-aware MLP placement requires the unmodified native MLP process graph"
  | rankNodes => "rank-aware MLP placement is defined only for 1 or 2 nodes"
  | noArguments index =>
    "phase-one process " ++ String.ofList (decimal index) ++ " has no coordinate arguments"
  | noPair index =>
    "phase-one process " ++ String.ofList (decimal index) ++
      " has no consecutive numeric chiplet coordinate pair"
  | overflow => "cannot convert float infinity to integer"

/-- A process of the source YAML: its `args`, absent as the empty list, and none when
they are no list. -/
structure SourceProcess where
  args : Option (List ArgValue)

structure SourceConfig where
  phase1 : List SourceProcess
  phase2 : List SourceProcess

abbrev SourceEntry := ProcessIdentity × SourceProcess

def SourceConfig.processes (config : SourceConfig) : List SourceEntry :=
  (config.phase1.zipIdx.map fun p => ((.phase1, p.2), p.1)) ++
    config.phase2.zipIdx.map fun p => ((.phase2, p.2), p.1)

def argPair (first second : ArgValue) : Except IntError Coord := do
  return (← first.toInt, ← second.toInt)

def firstPair (index : Nat) : List ArgValue → Except PlacementError Coord
  | first :: second :: rest =>
    match argPair first second with
    | .ok c => .ok c
    | .error .overflow => .error .overflow
    | .error .invalid => firstPair index (second :: rest)
  | _ => .error (.noPair index)

def processCoordinates (process : SourceProcess) : ProcessIdentity →
    Except PlacementError (Option Coord)
  | (.phase2, _) => .ok none
  | (.phase1, index) =>
    match process.args with
    | none => .error (.noArguments index)
    | some arguments =>
      if arguments.length < 2 then .error (.noArguments index)
      else (firstPair index arguments).map some

def byIdentity (source : List SourceEntry) (identity : ProcessIdentity) : Option SourceProcess :=
  (source.filter fun e => e.1 = identity).getLast?.map Prod.snd

def SameIdentities (source : List SourceEntry) (identities : List ProcessIdentity) : Prop :=
  (∀ e ∈ source, e.1 ∈ identities) ∧ ∀ identity ∈ identities, ∃ e ∈ source, e.1 = identity

instance (source : List SourceEntry) (identities : List ProcessIdentity) :
    Decidable (SameIdentities source identities) :=
  inferInstanceAs (Decidable (_ ∧ _))

def reorder (source : List SourceEntry) (identities : List ProcessIdentity) : List SourceEntry :=
  identities.filterMap fun identity => (byIdentity source identity).map fun p => (identity, p)

def communicationIdentities : List ProcessIdentity :=
  [(.phase1, 4), (.phase1, 0), (.phase1, 1), (.phase1, 2), (.phase1, 3), (.phase1, 5), (.phase1, 6),
    (.phase2, 0)]

def communicationAwareMlpOrder (source : List SourceEntry) :
    Except PlacementError (List SourceEntry) :=
  if SameIdentities source communicationIdentities then .ok (reorder source communicationIdentities)
  else .error .communicationGraph

def rankRequired : List ProcessIdentity :=
  [(.phase1, 0), (.phase1, 1), (.phase1, 2), (.phase1, 3), (.phase1, 4), (.phase1, 5), (.phase1, 6),
    (.phase2, 0)]

-- the source spells this list out once for one node and once for two
def rankIdentities : List ProcessIdentity :=
  [(.phase1, 4), (.phase1, 0), (.phase1, 1), (.phase1, 6), (.phase1, 2), (.phase1, 3), (.phase1, 5),
    (.phase2, 0)]

def rankAwareMlpOrder (source : List SourceEntry) (nodes : Nat) :
    Except PlacementError (List SourceEntry) :=
  if ¬SameIdentities source rankRequired then .error .rankGraph
  else if nodes = 1 ∨ nodes = 2 then .ok (reorder source rankIdentities)
  else .error .rankNodes

def mlpName : Text := ['m', 'l', 'p']

def orderProcesses (workload : Text) (policy : PlacementPolicy) (nodes : Nat)
    (source : List SourceEntry) : Except PlacementError (List SourceEntry) :=
  match policy with
  | .contiguous => .ok source
  | .communicationAware =>
    if workload ≠ mlpName then .error (.notMlp policy) else communicationAwareMlpOrder source
  | .rankAware =>
    if workload ≠ mlpName then .error (.notMlp policy) else rankAwareMlpOrder source nodes

def nodeLabel (slot : Nat) : Text := "chipsystemsim.node.".toList ++ decimal slot

structure PlacementRecord where
  placed : PlacedProcess
  nodeLabel : Text

def PlacementRecord.identity (r : PlacementRecord) : ProcessIdentity :=
  (r.placed.phase, r.placed.processIndex)

/-- The record of the process at a place of the order. -/
def placeOne (perNode : Nat) (e : SourceEntry) (globalIndex : Nat) :
    Except PlacementError PlacementRecord := do
  let coordinates ← processCoordinates e.2 e.1
  return {
    placed := ⟨e.1.1, e.1.2, (globalIndex / perNode : Nat), coordinates⟩
    nodeLabel := ChipSystemSim.nodeLabel (globalIndex / perNode) }

def placeAll (perNode : Nat) : Nat → List SourceEntry → Except PlacementError (List PlacementRecord)
  | _, [] => .ok []
  | globalIndex, e :: rest => do
    let record ← placeOne perNode e globalIndex
    let records ← placeAll perNode (globalIndex + 1) rest
    return record :: records

def nodeChoices : List Nat := [1, 2, 4, 8]

def generatePlacement (workload : Text) (policy : PlacementPolicy) (nodes : Nat)
    (config : SourceConfig) : Except PlacementError (List PlacementRecord) :=
  if nodes ∉ nodeChoices then .error .usage
  else if config.processes.length % nodes ≠ 0 then .error (.uneven config.processes.length nodes)
  else do
    let source ← orderProcesses workload policy nodes config.processes
    placeAll (config.processes.length / nodes) 0 source

/-- The two arguments at some place are the numbers of the pair, and at no earlier
place are there two numbers side by side. -/
def FirstNumericPair (args : List ArgValue) (c : Coord) : Prop :=
  ∃ i first second, args[i]? = some first ∧ args[i + 1]? = some second ∧
    argPair first second = .ok c ∧
    ∀ j < i, ∀ f s, args[j]? = some f → args[j + 1]? = some s → argPair f s = .error .invalid

theorem firstPair_ok_iff {index : Nat} {args : List ArgValue} {c : Coord} :
    firstPair index args = .ok c ↔ FirstNumericPair args c := by
  unfold FirstNumericPair
  induction args with
  | nil => simp [firstPair]
  | cons a rest ih =>
    cases rest with
    | nil =>
      simp only [firstPair, List.getElem?_cons_succ, List.getElem?_nil]
      constructor
      · intro h
        cases h
      · rintro ⟨_, _, _, _, h, _⟩
        cases h
    | cons b rest =>
      constructor
      · intro h
        cases hp : argPair a b with
        | ok c' =>
          simp only [firstPair, hp, Except.ok.injEq] at h
          exact ⟨0, a, b, rfl, rfl, h ▸ hp, fun j hj => absurd hj (Nat.not_lt_zero j)⟩
        | error e =>
          cases e with
          | overflow => simp [firstPair, hp] at h
          | invalid =>
            simp only [firstPair, hp] at h
            obtain ⟨i, first, second, hf, hs, hc, hbefore⟩ := ih.mp h
            refine ⟨i + 1, first, second, hf, hs, hc, ?_⟩
            intro j hj f s hjf hjs
            cases j with
            | zero =>
              rw [← Option.some.inj hjf, ← Option.some.inj hjs]
              exact hp
            | succ j => exact hbefore j (Nat.lt_of_succ_lt_succ hj) f s hjf hjs
      · rintro ⟨i, first, second, hf, hs, hc, hbefore⟩
        cases i with
        | zero =>
          rw [← Option.some.inj hf, ← Option.some.inj hs] at hc
          simp only [firstPair, hc]
        | succ i =>
          have hp : argPair a b = .error .invalid := hbefore 0 (Nat.succ_pos i) a b rfl rfl
          simp only [firstPair, hp]
          apply ih.mpr
          exact ⟨i, first, second, hf, hs, hc, fun j hj => hbefore (j + 1) (Nat.succ_lt_succ hj)⟩

theorem processCoordinates_ok {process : SourceProcess} {identity : ProcessIdentity}
    {coordinates : Option Coord} (h : processCoordinates process identity = .ok coordinates) :
    (identity.1 = .phase1 → ∃ args c, process.args = some args ∧ coordinates = some c ∧
      FirstNumericPair args c) ∧
      (identity.1 = .phase2 → coordinates = none) := by
  obtain ⟨phase, index⟩ := identity
  cases phase with
  | phase2 => exact ⟨fun hphase => (by cases hphase), fun _ => (Except.ok.inj h).symm⟩
  | phase1 =>
    refine ⟨fun _ => ?_, fun hphase => (by cases hphase)⟩
    cases hargs : process.args with
    | none => simp [processCoordinates, hargs] at h
    | some args =>
      simp only [processCoordinates, hargs] at h
      split at h
      · cases h
      · cases hpair : firstPair index args with
        | error e => simp [hpair, Except.map] at h
        | ok c =>
          simp only [hpair, Except.map, Except.ok.injEq] at h
          exact ⟨args, c, rfl, h.symm, firstPair_ok_iff.mp hpair⟩

theorem placeOne_ok {perNode globalIndex : Nat} {e : SourceEntry} {r : PlacementRecord}
    (h : placeOne perNode e globalIndex = .ok r) :
    r.identity = e.1 ∧ r.placed.nodeSlot = (globalIndex / perNode : Nat) ∧
      r.nodeLabel = nodeLabel (globalIndex / perNode) ∧
      processCoordinates e.2 e.1 = .ok r.placed.coordinates := by
  cases hc : processCoordinates e.2 e.1 with
  | error error => simp [placeOne, hc, bind, Except.bind] at h
  | ok coordinates =>
    simp only [placeOne, hc, bind, Except.bind, pure, Except.pure, Except.ok.injEq] at h
    subst h
    exact ⟨rfl, rfl, rfl, rfl⟩

theorem placeAll_ok {perNode start : Nat} {source : List SourceEntry}
    {records : List PlacementRecord} (h : placeAll perNode start source = .ok records) :
    List.Forall₂ (fun e r => placeOne perNode e.1 e.2 = .ok r) (source.zipIdx start) records := by
  induction source generalizing start records with
  | nil =>
    rw [← Except.ok.inj h]
    exact .nil
  | cons e rest ih =>
    cases hr : placeOne perNode e start with
    | error error => simp [placeAll, hr, bind, Except.bind] at h
    | ok record =>
      cases ha : placeAll perNode (start + 1) rest with
      | error error => simp [placeAll, hr, ha, bind, Except.bind] at h
      | ok others =>
        simp only [placeAll, hr, ha, bind, Except.bind, pure, Except.pure, Except.ok.injEq] at h
        subst h
        exact .cons hr (ih ha)

theorem filter_key_eq {α β : Type*} [DecidableEq β] {f : α → β} {l : List α}
    (hnodup : (l.map f).Nodup) {a : α} (ha : a ∈ l) : l.filter (fun b => f b = f a) = [a] := by
  induction l with
  | nil => cases ha
  | cons b rest ih =>
    obtain ⟨hfresh, hrest⟩ := List.nodup_cons.mp hnodup
    rcases List.mem_cons.mp ha with rfl | hmem
    · rw [List.filter_cons_of_pos (by simp), List.filter_eq_nil_iff.mpr]
      intro c hc heq
      apply hfresh
      exact List.mem_map.mpr ⟨c, hc, of_decide_eq_true heq⟩
    · have hne : f b ≠ f a := by
        intro heq
        exact hfresh (heq ▸ List.mem_map_of_mem hmem)
      rw [List.filter_cons_of_neg (by simpa using hne), ih hrest hmem]

section Order

variable {source ordered : List SourceEntry} {identities : List ProcessIdentity}

theorem processes_nodup (config : SourceConfig) : (config.processes.map Prod.fst).Nodup := by
  have hphase : ∀ (phase : ProcessPhase) (l : List SourceProcess),
      ((l.zipIdx.map fun p => ((phase, p.2), p.1)).map Prod.fst : List ProcessIdentity) =
        (List.range l.length).map fun i => (phase, i) := by
    intro phase l
    rw [List.map_map, List.range_eq_range', ← List.zipIdx_map_snd 0 l, List.map_map]
    rfl
  have hinj : ∀ phase : ProcessPhase, Function.Injective fun i : Nat => (phase, i) :=
    fun _ _ _ h => (Prod.mk.inj h).2
  rw [SourceConfig.processes, List.map_append, hphase, hphase]
  refine List.Nodup.append (List.nodup_range.map (hinj _)) (List.nodup_range.map (hinj _)) ?_
  rw [List.disjoint_left]
  intro identity h1 h2
  obtain ⟨i, _, rfl⟩ := List.mem_map.mp h1
  obtain ⟨j, _, hj⟩ := List.mem_map.mp h2
  cases (Prod.mk.inj hj).1

theorem byIdentity_eq_some (hnodup : (source.map Prod.fst).Nodup) {identity : ProcessIdentity}
    {p : SourceProcess} (h : (identity, p) ∈ source) : byIdentity source identity = some p := by
  have hfilter := filter_key_eq hnodup h
  rw [byIdentity, hfilter]
  rfl

theorem reorder_perm (hnodup : (source.map Prod.fst).Nodup) (hids : identities.Nodup)
    (h : SameIdentities source identities) : (reorder source identities).Perm source := by
  have hlookup : ∀ {e : SourceEntry}, e ∈ source → byIdentity source e.1 = some e.2 :=
    fun he => byIdentity_eq_some hnodup he
  have hmem : ∀ e, e ∈ reorder source identities ↔ e ∈ source := by
    intro e
    simp only [reorder, List.mem_filterMap, Option.map_eq_some_iff]
    constructor
    · rintro ⟨identity, hid, p, hp, rfl⟩
      obtain ⟨e, he, rfl⟩ := h.2 identity hid
      rw [hlookup he, Option.some.injEq] at hp
      exact hp ▸ he
    · intro he
      exact ⟨e.1, h.1 e he, e.2, hlookup he, rfl⟩
  have hreorder : (reorder source identities).Nodup := by
    refine hids.filterMap ?_
    intro a b e ha hb
    obtain ⟨_, _, rfl⟩ := Option.map_eq_some_iff.mp ha
    obtain ⟨_, _, hb⟩ := Option.map_eq_some_iff.mp hb
    exact (Prod.mk.inj hb).1.symm
  exact (List.perm_ext_iff_of_nodup hreorder hnodup.of_map).mpr hmem

theorem orderProcesses_perm {workload : Text} {policy : PlacementPolicy} {nodes : Nat}
    (hnodup : (source.map Prod.fst).Nodup)
    (h : orderProcesses workload policy nodes source = .ok ordered) : ordered.Perm source := by
  cases policy with
  | contiguous =>
    rw [← Except.ok.inj h]
  | communicationAware =>
    simp only [orderProcesses, communicationAwareMlpOrder] at h
    split at h
    · cases h
    · split at h
      · rename_i hsame
        rw [← Except.ok.inj h]
        exact reorder_perm hnodup (by decide) hsame
      · cases h
  | rankAware =>
    simp only [orderProcesses, rankAwareMlpOrder] at h
    split at h
    · cases h
    · split at h
      · cases h
      · rename_i hsame
        split at h
        · rw [← Except.ok.inj h]
          have hsame := not_not.mp hsame
          have hids : ∀ identity, identity ∈ rankIdentities ↔ identity ∈ rankRequired :=
            fun identity => (show rankIdentities.Perm rankRequired by decide).mem_iff
          apply reorder_perm hnodup (by decide)
          exact ⟨fun e he => (hids _).mpr (hsame.1 e he), fun i hi => hsame.2 i ((hids i).mp hi)⟩
        · cases h

end Order

theorem countP_range_div {perNode nodes node : Nat} (hnode : node < nodes) :
    (List.range (perNode * nodes)).countP (fun g => g / perNode = node) = perNode := by
  rcases Nat.eq_zero_or_pos perNode with rfl | hpos
  · simp
  · have hcard : ((Finset.range (perNode * nodes)).filter fun g => g / perNode = node) =
        Finset.Ico (perNode * node) (perNode * node + perNode) := by
      ext g
      have hle : perNode * node + perNode ≤ perNode * nodes := by
        rw [← Nat.mul_succ]
        exact Nat.mul_le_mul_left _ hnode
      simp only [Finset.mem_filter, Finset.mem_range, Finset.mem_Ico]
      rw [Nat.div_eq_iff hpos]
      rw [Nat.mul_comm node]
      omega
    calc (List.range (perNode * nodes)).countP (fun g => g / perNode = node)
        = ((Finset.range (perNode * nodes)).filter fun g => g / perNode = node).card := by
          rw [List.countP_eq_length_filter]
          rfl
      _ = perNode := by rw [hcard, Nat.card_Ico, Nat.add_sub_cancel_left]

section Groups

variable {workload : Text} {policy : PlacementPolicy} {nodes : Nat} {config : SourceConfig}
  {records : List PlacementRecord}

theorem generatePlacement_ok (h : generatePlacement workload policy nodes config = .ok records) :
    nodes ∈ nodeChoices ∧ config.processes.length % nodes = 0 ∧
      ∃ ordered : List SourceEntry, orderProcesses workload policy nodes config.processes =
        .ok ordered ∧
        List.Forall₂ (fun e r => placeOne (config.processes.length / nodes) e.1 e.2 = .ok r)
          ordered.zipIdx records := by
  unfold generatePlacement at h
  split at h
  · cases h
  · rename_i hnodes
    split at h
    · cases h
    · rename_i heven
      cases ho : orderProcesses workload policy nodes config.processes with
      | error e => simp [ho, bind, Except.bind] at h
      | ok ordered =>
        simp only [ho, bind, Except.bind] at h
        exact ⟨not_not.mp hnodes, not_not.mp heven, ordered, rfl, placeAll_ok h⟩

theorem exists_of_forall₂ {α β : Type*} {R : α → β → Prop} {l : List α} {m : List β}
    (h : List.Forall₂ R l m) {b : β} (hb : b ∈ m) : ∃ a ∈ l, R a b := by
  induction h with
  | nil => cases hb
  | @cons a b' _ _ hab _ ih =>
    rcases List.mem_cons.mp hb with rfl | hb
    · exact ⟨a, List.mem_cons_self, hab⟩
    · obtain ⟨c, hc, hcb⟩ := ih hb
      exact ⟨c, List.mem_cons_of_mem _ hc, hcb⟩

theorem map_eq_of_forall₂ {α β γ : Type*} {R : α → β → Prop} {f : α → γ} {g : β → γ} {l : List α}
    {m : List β} (h : List.Forall₂ R l m) (hfg : ∀ a b, R a b → f a = g b) : l.map f = m.map g := by
  induction h with
  | nil => rfl
  | cons hab _ ih => rw [List.map_cons, List.map_cons, hfg _ _ hab, ih]

theorem records_ordered (h : generatePlacement workload policy nodes config = .ok records) :
    ∃ ordered : List SourceEntry, orderProcesses workload policy nodes config.processes =
      .ok ordered ∧
      ordered.Perm config.processes ∧ records.map PlacementRecord.identity = ordered.map Prod.fst ∧
      records.map (fun r => r.placed.nodeSlot) = (List.range config.processes.length).map fun g =>
        Int.ofNat (g / (config.processes.length / nodes)) := by
  obtain ⟨_, _, ordered, horder, hplaced⟩ := generatePlacement_ok h
  have hperm := orderProcesses_perm (processes_nodup config) horder
  refine ⟨ordered, horder, hperm, ?_, ?_⟩
  · rw [← List.zipIdx_map_fst 0 ordered, List.map_map]
    exact (map_eq_of_forall₂ hplaced fun e r hr => (placeOne_ok hr).1.symm).symm
  · have hslots : ordered.zipIdx.map
        (fun e => Int.ofNat (e.2 / (config.processes.length / nodes))) =
        records.map fun r => r.placed.nodeSlot :=
      map_eq_of_forall₂ hplaced fun e r hr => (placeOne_ok hr).2.1.symm
    rw [← hslots, ← hperm.length_eq, List.range_eq_range', ← List.zipIdx_map_snd 0 ordered,
      List.map_map]
    rfl

theorem records_identities (h : generatePlacement workload policy nodes config = .ok records) :
    (records.map PlacementRecord.identity).Perm (config.processes.map Prod.fst) := by
  obtain ⟨ordered, _, hperm, hids, _⟩ := records_ordered h
  rw [hids]
  exact hperm.map Prod.fst

theorem records_nodup (h : generatePlacement workload policy nodes config = .ok records) :
    (records.map PlacementRecord.identity).Nodup :=
  (records_identities h).nodup_iff.mpr (processes_nodup config)

theorem group_size (h : generatePlacement workload policy nodes config = .ok records) :
    config.processes.length / nodes * nodes = config.processes.length :=
  Nat.div_mul_cancel (Nat.dvd_of_mod_eq_zero (generatePlacement_ok h).2.1)

theorem record_node (h : generatePlacement workload policy nodes config = .ok records)
    {r : PlacementRecord} (hr : r ∈ records) :
    ∃ node < nodes, r.placed.nodeSlot = Int.ofNat node ∧ r.nodeLabel = nodeLabel node := by
  obtain ⟨_, _, ordered, horder, hplaced⟩ := generatePlacement_ok h
  have hperm := orderProcesses_perm (processes_nodup config) horder
  obtain ⟨e, he, hplace⟩ := exists_of_forall₂ hplaced hr
  obtain ⟨_, hslot, hlabel, _⟩ := placeOne_ok hplace
  refine ⟨_, ?_, hslot, hlabel⟩
  apply Nat.div_lt_of_lt_mul
  rw [group_size h, ← hperm.length_eq]
  exact List.snd_lt_of_mem_zipIdx he

theorem record_source (h : generatePlacement workload policy nodes config = .ok records)
    {r : PlacementRecord} (hr : r ∈ records) :
    ∃ process, (r.identity, process) ∈ config.processes ∧
      (r.placed.phase = .phase1 → ∃ args c, process.args = some args ∧
        r.placed.coordinates = some c ∧
        FirstNumericPair args c) ∧
      (r.placed.phase = .phase2 → r.placed.coordinates = none) := by
  obtain ⟨_, _, ordered, horder, hplaced⟩ := generatePlacement_ok h
  have hperm := orderProcesses_perm (processes_nodup config) horder
  obtain ⟨e, he, hplace⟩ := exists_of_forall₂ hplaced hr
  obtain ⟨hid, _, _, hcoordinates⟩ := placeOne_ok hplace
  refine ⟨e.1.2, ?_, processCoordinates_ok (hid ▸ hcoordinates)⟩
  rw [hid]
  exact hperm.mem_iff.mp (List.fst_mem_of_mem_zipIdx he)

theorem records_per_slot (h : generatePlacement workload policy nodes config = .ok records)
    {node : Nat} (hnode : node < nodes) :
    records.countP (fun r => r.placed.nodeSlot = Int.ofNat node) =
      config.processes.length / nodes := by
  obtain ⟨_, _, _, _, hslots⟩ := records_ordered h
  have hcount := congrArg (List.countP fun slot => slot = Int.ofNat node) hslots
  rw [List.countP_map, List.countP_map] at hcount
  calc records.countP (fun r => r.placed.nodeSlot = Int.ofNat node)
      = (List.range (config.processes.length / nodes * nodes)).countP
          (fun g => g / (config.processes.length / nodes) = node) := by
        rw [group_size h]
        refine hcount.trans (List.countP_congr fun g _ => ?_)
        simp only [Function.comp, decide_eq_true_eq]
        exact Int.ofNat_inj
    _ = config.processes.length / nodes := countP_range_div hnode

/-- Every process of the workload has one record, in the order of the policy the
slots are filled one after the other with equally many processes, and a record keeps
the pair of numbers that stands first among the arguments. -/
theorem placement_partitions_processes
    (h : generatePlacement workload policy nodes config = .ok records) :
    (records.map PlacementRecord.identity).Perm (config.processes.map Prod.fst) ∧
    (policy = .contiguous → records.map PlacementRecord.identity = config.processes.map Prod.fst) ∧
    (records.map (fun r => r.placed.nodeSlot)).Pairwise (· ≤ ·) ∧
    (∀ r ∈ records, ∃ node < nodes, r.placed.nodeSlot = Int.ofNat node ∧
      r.nodeLabel = nodeLabel node) ∧
    (∀ node < nodes, records.countP (fun r => r.placed.nodeSlot = Int.ofNat node) =
      config.processes.length / nodes) ∧
    ∀ r ∈ records, ∃ process, (r.identity, process) ∈ config.processes ∧
      (r.placed.phase = .phase1 → ∃ args c, process.args = some args ∧
        r.placed.coordinates = some c ∧
        FirstNumericPair args c) ∧
      (r.placed.phase = .phase2 → r.placed.coordinates = none) := by
  refine ⟨records_identities h, ?_, ?_, fun r hr => record_node h hr, fun node hnode =>
    records_per_slot h hnode,
    fun r hr => record_source h hr⟩
  · rintro rfl
    obtain ⟨ordered, horder, _, hids, _⟩ := records_ordered h
    rw [hids, ← Except.ok.inj horder]
  · obtain ⟨_, _, _, _, hslots⟩ := records_ordered h
    rw [hslots, List.pairwise_map]
    refine List.pairwise_lt_range.imp ?_
    intro g g' hlt
    exact Int.ofNat_le.mpr (Nat.div_le_div_right (Nat.le_of_lt hlt))

end Groups

/-- The native workload: four GPU processes, the CPU, the DSA, MNSIM and PopNet. -/
def mlpConfig : SourceConfig where
  phase1 :=
    [⟨some [.number 0, .number 1]⟩, ⟨some [.number 1, .number 1]⟩, ⟨some [.number 1, .number 0]⟩,
      ⟨some [.number 2, .number 2]⟩, ⟨some [.text ['a'], .number 5, .number 5]⟩,
      ⟨some [.number 2, .number 0]⟩, ⟨some [.number 0, .number 3]⟩]
  phase2 := [⟨some []⟩]

def mlpRecords : List PlacementRecord :=
  [⟨⟨.phase1, 4, 0, some (5, 5)⟩, nodeLabel 0⟩, ⟨⟨.phase1, 0, 0, some (0, 1)⟩, nodeLabel 0⟩,
    ⟨⟨.phase1, 1, 0, some (1, 1)⟩, nodeLabel 0⟩, ⟨⟨.phase1, 6, 0, some (0, 3)⟩, nodeLabel 0⟩,
    ⟨⟨.phase1, 2, 1, some (1, 0)⟩, nodeLabel 1⟩, ⟨⟨.phase1, 3, 1, some (2, 2)⟩, nodeLabel 1⟩,
    ⟨⟨.phase1, 5, 1, some (2, 0)⟩, nodeLabel 1⟩, ⟨⟨.phase2, 0, 1, none⟩, nodeLabel 1⟩]

theorem placement_partitions_processes_mlp :
    generatePlacement mlpName .rankAware 2 mlpConfig = .ok mlpRecords ∧
    (mlpRecords.map PlacementRecord.identity).Perm (mlpConfig.processes.map Prod.fst) ∧
    mlpRecords.countP (fun r => r.placed.nodeSlot = Int.ofNat 1) = 4 := by
  have h : generatePlacement mlpName .rankAware 2 mlpConfig = .ok mlpRecords := rfl
  obtain ⟨hperm, _, _, _, hcount, _⟩ := placement_partitions_processes h
  exact ⟨h, hperm, hcount 1 (by decide)⟩

end ChipSystemSim
