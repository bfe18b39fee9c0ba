import ChipSystemSim.MatmulDpRun
import ChipSystemSim.RoutingTable
import ChipSystemSim.SizeLimits

/-! The block GEMM over the transport: for which rank counts that the generator accepts a
run can end at all. -/

namespace ChipSystemSim

namespace Matmul

open WordBytes

/-- `placement` of `generate_matmul_dp_dind_matrix.py`. -/
def placement (nodes ranks : Nat) : Placement :=
  let ranksPerWorker := ranks / nodes
  { swarmNodes := nodes
    processes := ⟨.phase1, 0, 0, some controllerCoordinate⟩ ::
      (List.range ranks).map (fun rank =>
        ⟨.phase1, rank + 1, (rank / ranksPerWorker : Nat), some (gpuCoordinate rank)⟩) ++
          [⟨.phase2, 0, 0, none⟩] }

/-- A configuration that the generator, the controller and the workers accept, with what the
device memory of each worker holds at first. -/
structure Setup where
  nodes : Nat
  ranks : Nat
  choice : nodes ∈ [1, 2, 4, 8]
  supported : Supported ranks
  even : ranks % nodes = 0
  topology : Topology
  routing : Routing
  generated : generateRouting (placement nodes ranks) topology none = .ok routing
  memory : Fin ranks → List Word
  memory_length : ∀ rank, (memory rank).length = rowsPerRank ranks * kColumns

namespace Setup

variable (D : Setup)

def benchmark : Program (Party D.ranks) (Proc D.ranks) Word := program D.supported.bounded D.memory

def slot : Party D.ranks → Slot
  | none => 0
  | some rank => (rank / (D.ranks / D.nodes) : Nat)

theorem placed (p : Party D.ranks) :
    D.routing.coordinateToWorkerSlot.lookup (coordKey (partyCoordinate p)) = some (D.slot p) := by
  have htable := (generateRouting_ok D.generated).1
  cases p with
  | none =>
    have hmem : (⟨.phase1, 0, 0, some controllerCoordinate⟩ : PlacedProcess) ∈
        (placement D.nodes D.ranks).processes := by
      rw [placement]
      exact List.mem_append_left _ List.mem_cons_self
    exact coordinateToSlot_lookup htable hmem rfl
  | some rank =>
    have hmem : (⟨.phase1, rank + 1, (rank / (D.ranks / D.nodes) : Nat),
        some (gpuCoordinate rank)⟩ : PlacedProcess) ∈ (placement D.nodes D.ranks).processes := by
      rw [placement]
      refine List.mem_append_left _ (List.mem_cons_of_mem _ (List.mem_map.mpr ⟨rank, ?_, rfl⟩))
      exact List.mem_range.mpr rank.isLt
    exact coordinateToSlot_lookup htable hmem rfl

/-- The processes on their workers, with a gateway for every pair of these. -/
def place : Deployment D.benchmark where
  routing := D.routing
  linked := fun _ _ => true
  slot := D.slot
  placed := D.placed

/-- In every state of every run: no request was refused for its size, no block has failed
its check, and a checksum that was shown is the expected one; and when all processes have
ended, it was shown. -/
def Correct : Prop :=
  ∀ S log, D.benchmark.Reach D.place S log →
    (∀ i conn, S.net.conn i = some conn → conn.phase.oversize = false) ∧
      (∀ row column, S.proc none ≠ .cpu (.failed row column)) ∧
      (∀ total ∈ S.emitted none, total.toInt = expectedChecksum) ∧
      (D.benchmark.Done S → S.emitted none = [word expectedChecksum])

end Setup

section Correct

variable {D : Setup}

theorem expectedChecksum_lt : expectedChecksum < 2 ^ 63 := by decide +kernel

theorem toInt_expectedChecksum : (word expectedChecksum).toInt = expectedChecksum :=
  toInt_word expectedChecksum_lt

theorem rows_le (hranks : 4 ≤ D.ranks) : rowsPerRank D.ranks ≤ 120 := by
  rw [rowsPerRank, kGlobalRows]
  exact Nat.div_le_of_le_mul (by omega)

theorem rows_large (hranks : D.ranks < 4) : 127 ≤ rowsPerRank D.ranks := by
  have hpos := D.supported.positive
  rw [rowsPerRank, kGlobalRows, Nat.le_div_iff_mul_le hpos]
  omega

def largest (ranks : Nat) : Nat := max (kInner * kColumns * 8) (rowsPerRank ranks * kColumns * 8)

theorem controllerAct_send_le {ranks : Nat} {state next : Controller ranks} {c : Ends}
    {v : WordBytes.Bytes} (h : controllerAct state = .send c v next) :
    v.length ≤ largest ranks := by
  have hheader : headerBytes ≤ largest ranks :=
    (by decide : headerBytes ≤ kInner * kColumns * 8).trans (le_max_left _ _)
  cases state with
  | sendHeader rank =>
    cases h
    rw [length_bytes]
    exact hheader
  | sendA rank =>
    cases h
    rw [length_fillA]
    exact le_max_right _ _
  | sendB rank =>
    cases h
    rw [length_fillB]
    exact le_max_left _ _
  | stop rank total =>
    cases h
    rw [length_bytes]
    exact hheader
  | receive | report | failed | finished => cases h

theorem controllerAct_recv_le {ranks : Nat} {state : Controller ranks}
    {next : WordBytes.Bytes → Controller ranks} {c : Ends} {n : Nat}
    (h : controllerAct state = .recv c n next) : n ≤ largest ranks := by
  cases state with
  | receive rank total =>
    cases h
    exact le_max_right _ _
  | sendHeader | sendA | sendB | stop | report | failed | finished => cases h

theorem workerAct_send_le {ranks rank : Nat} {state next : Worker ranks} {c : Ends}
    {v : WordBytes.Bytes} (h : workerAct rank state = .send c v next) :
    v.length ≤ largest ranks := by
  cases state with
  | sendC rows memory =>
    cases h
    have hrows : rows * kColumns * 8 ≤ rowsPerRank ranks * kColumns * 8 :=
      Nat.mul_le_mul_right _ (Nat.mul_le_mul_right _ rows.2)
    rw [length_encode, Nat.mul_comm]
    calc (memory.take (rows * kColumns)).length * 8 ≤ rows * kColumns * 8 :=
          Nat.mul_le_mul_right _ (List.length_take_le ..)
      _ ≤ largest ranks := hrows.trans (le_max_right _ _)
  | awaitHeader | awaitA | awaitB | exited => cases h

theorem workerAct_recv_le {ranks rank : Nat} {state : Worker ranks}
    {next : WordBytes.Bytes → Worker ranks} {c : Ends} {n : Nat}
    (h : workerAct rank state = .recv c n next) : n ≤ largest ranks := by
  cases state with
  | awaitHeader memory =>
    cases h
    exact (by decide : headerBytes ≤ kInner * kColumns * 8).trans (le_max_left _ _)
  | awaitA rows memory =>
    cases h
    have hrows : rows * kInner * 8 ≤ rowsPerRank ranks * kColumns * 8 :=
      Nat.mul_le_mul_right _ (Nat.mul_le_mul_right _ rows.2)
    exact hrows.trans (le_max_right _ _)
  | awaitB rows a memory =>
    cases h
    exact le_max_left _ _
  | sendC | exited => cases h

theorem partyAct_send_le {ranks : Nat} {p : Party ranks} {state next : Proc ranks} {c : Ends}
    {v : WordBytes.Bytes} (h : partyAct p state = .send c v next) : v.length ≤ largest ranks := by
  cases p with
  | none =>
    cases state with
    | cpu state =>
      obtain ⟨_, hact, -⟩ := Kahn.Act.map_eq_send h
      exact controllerAct_send_le hact
    | gpu => cases h
  | some rank =>
    cases state with
    | cpu => cases h
    | gpu state =>
      obtain ⟨_, hact, -⟩ := Kahn.Act.map_eq_send h
      exact workerAct_send_le hact

theorem partyAct_recv_le {ranks : Nat} {p : Party ranks} {state : Proc ranks}
    {next : WordBytes.Bytes → Proc ranks} {c : Ends} {n : Nat}
    (h : partyAct p state = .recv c n next) : n ≤ largest ranks := by
  cases p with
  | none =>
    cases state with
    | cpu state =>
      obtain ⟨_, hact, -⟩ := Kahn.Act.map_eq_recv h
      exact controllerAct_recv_le hact
    | gpu => cases h
  | some rank =>
    cases state with
    | cpu => cases h
    | gpu state =>
      obtain ⟨_, hact, -⟩ := Kahn.Act.map_eq_recv h
      exact workerAct_recv_le hact

/-- With four ranks or more, every message keeps the limit. -/
theorem benchmark_fits (hranks : 4 ≤ D.ranks) : D.benchmark.Fits := by
  have hlargest : largest D.ranks ≤ 65000 := by
    have hrows := rows_le hranks
    rw [largest, kInner, kColumns]
    omega
  refine ⟨fun p => ?_, fun hact => (partyAct_send_le hact).trans hlargest, fun hact =>
    (partyAct_recv_le hact).trans hlargest⟩
  · cases p with
    | none =>
      show (-2 ^ 31 ≤ (5 : Int) ∧ (5 : Int) < 2 ^ 31) ∧ (-2 ^ 31 ≤ (5 : Int) ∧ (5 : Int) < 2 ^ 31)
      decide
    | some rank =>
      have hrank := rank.isLt
      have hbounded := D.supported.bounded
      rw [kMaxRanks] at hbounded
      show (-2 ^ 31 ≤ ((rank % 6 : Nat) : Int) ∧ ((rank % 6 : Nat) : Int) < 2 ^ 31) ∧
        (-2 ^ 31 ≤ ((rank / 6 : Nat) : Int) ∧ ((rank / 6 : Nat) : Int) < 2 ^ 31)
      omega

/-- Whatever the transport does, what the processes compute is right. -/
theorem computes {S : System (Party D.ranks) (Proc D.ranks) Word}
    {log : List (Event (Party D.ranks × Nat))} (h : D.benchmark.Reach D.place S log) :
    (∀ row column, S.proc none ≠ .cpu (.failed row column)) ∧
    S.emitted none <+: [word expectedChecksum] ∧
      (D.benchmark.Done S → S.emitted none = [word expectedChecksum]) := by
  have hrun : ∃ final, Kahn.Steps D.benchmark.network D.benchmark.origin final ∧
      Kahn.Finished D.benchmark.network final ∧ final.proc = world .finished (fun _ => .exited 0) ∧
      final.emitted none = [word expectedChecksum] := exists_finished D.supported D.memory_length
  obtain ⟨final, hsteps, hfin, hproc, hemitted⟩ := hrun
  have hview := Program.steps_view h
  have hend := Kahn.steps_final hsteps hfin hview
  refine ⟨?_, ?_, ?_⟩
  · intro row column hfailed
    have hdone : D.benchmark.act none (S.proc none) = .done := by
      rw [hfailed]
      rfl
    have hstate : (D.benchmark.view D.place S).proc none = .cpu (.failed row column) := by
      simp only [Program.view, hdone, Program.advance]
      exact hfailed
    have hlast := Kahn.proc_of_done hend (p := none) (by rw [hstate]; rfl)
    rw [hstate, hproc] at hlast
    cases hlast
  · have hle := Kahn.emitted_mono hend none
    rwa [hemitted] at hle
  · intro hdone
    have heq := Kahn.finished_unique hview hsteps (hdone.view h).1 hfin
    have hshown := congrArg (fun t => Kahn.State.emitted t none) heq
    exact hshown.trans hemitted

/-- With less than four ranks, the first block is refused in some run. -/
theorem block_refused (hranks : D.ranks < 4) : ¬ D.Correct := by
  intro hcorrect
  have hrows := rows_large hranks
  have hpos := D.supported.positive
  have hstart : D.benchmark.act none (D.benchmark.start none) =
      .send (toWorker 0) (blockHeader (⟨0, hpos⟩ : Fin D.ranks)).bytes
        (.cpu (.sendA ⟨0, hpos⟩)) := by
    have hstate : (dispatchFrom 0 : Controller D.ranks) = .sendHeader ⟨0, hpos⟩ := dif_pos hpos
    show (controllerAct (dispatchFrom 0)).map Proc.cpu = _
    rw [hstate]
    rfl
  have hslot : D.place.slot (D.benchmark.consumer (toWorker 0)) = D.place.slot none := by
    show D.slot (partyAt (gpuCoordinate (⟨0, hpos⟩ : Fin D.ranks))) = 0
    rw [partyAt_gpu D.supported.bounded, Setup.slot, Nat.zero_div]
    rfl
  have hinit : D.benchmark.Reach D.place D.benchmark.init [] := .init
  obtain ⟨S, log, hreach, hidle, hnext⟩ :=
    hinit.write_local (p := none) rfl hstart (by rw [length_bytes]; decide) hslot
  have hact : D.benchmark.act none (S.proc none) = .send (toWorker 0)
      (encode (fillA (0 * rowsPerRank D.ranks) (rowsPerRank D.ranks)))
        (.cpu (.sendB ⟨0, hpos⟩)) := by
    rw [hnext]
    rfl
  obtain ⟨S', log', i, conn, hreach', hconn, hrefused⟩ := hreach.refused hidle hact (by
    rw [length_fillA, kInner]
    omega)
  have haccepted := (hcorrect S' log' hreach').1 i conn hconn
  rw [hrefused] at haccepted
  cases haccepted

end Correct

/-- A configuration works in every run if and only if it has at least four ranks. -/
theorem matmul_correct_iff (D : Setup) : D.Correct ↔ 4 ≤ D.ranks := by
  constructor
  · intro hcorrect
    by_contra hranks
    exact block_refused (Nat.lt_of_not_le hranks) hcorrect
  · intro hranks S log h
    obtain ⟨hblocks, hshown, hdone⟩ := computes h
    refine ⟨?_, hblocks, ?_, hdone⟩
    · intro i conn hc
      exact Program.not_oversize (benchmark_fits hranks) (fun _ _ _ => rfl) h hc
    · intro total htotal
      have hmem := hshown.subset htotal
      rw [List.mem_singleton] at hmem
      rw [hmem, toInt_expectedChecksum]

def oneNode : Setup where
  nodes := 1
  ranks := 2
  choice := by decide
  supported := ⟨by decide, by decide, by decide⟩
  even := by decide
  topology := ⟨[0], []⟩
  routing :=
    ⟨[(coordKey (5, 5), 0), (coordKey (0, 0), 0), (coordKey (1, 0), 0)], [(0, 0)], some 9500⟩
  generated := rfl
  memory := fun _ => List.replicate (rowsPerRank 2 * kColumns) 0
  memory_length := fun _ => List.length_replicate

/-- Its blocks of 122880 bytes are refused. -/
theorem one_node_refused : ¬ oneNode.Correct := block_refused (by decide)

end Matmul

end ChipSystemSim
