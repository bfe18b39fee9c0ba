import ChipSystemSim.PlacementIndependence
import ChipSystemSim.WordBytes

/-! The block GEMM benchmark: the controller `matmul_dp_cpu.cpp` and the GPU workers
`matmul_dp_gpu.cu` as processes over pipes. -/

namespace ChipSystemSim

namespace Matmul

open WordBytes

def kGlobalRows : Nat := 480

def kInner : Nat := 64

def kColumns : Nat := 64

def kMaxRanks : Nat := 35

def word (n : Nat) : Word := BitVec.ofNat 64 n

structure WorkHeader where
  iteration : Word
  rowBegin : Word
  rows : Word

def WorkHeader.bytes (header : WorkHeader) : WordBytes.Bytes :=
  encode [header.iteration, header.rowBegin, header.rows]

def WorkHeader.ofBytes (b : WordBytes.Bytes) : WorkHeader :=
  let words := decode b
  ⟨words.getD 0 0, words.getD 1 0, words.getD 2 0⟩

/-- `sizeof(WorkHeader)`. -/
def headerBytes : Nat := 24

def gpuCoordinate (rank : Nat) : Coord := ((rank % 6 : Nat), (rank / 6 : Nat))

def controllerCoordinate : Coord := (5, 5)

def fillB : List Word := rowMajor kInner kColumns fun _ column => word (column + 1)

def fillA (rowBegin rows : Nat) : List Word :=
  rowMajor rows kInner fun row _ => word (rowBegin + row + 1)

def expected (rowBegin row column : Nat) : Word :=
  word kInner * word (rowBegin + row + 1) * word (column + 1)

/-- The row and the column that `CheckBlock` throws for. -/
def checkBlock (matrix : List Word) (rowBegin rows : Nat) : Option (Nat × Nat) :=
  ((List.range (rows * kColumns)).find? fun i =>
    matrix.getD i 0 ≠ expected rowBegin (i / kColumns) (i % kColumns)).map fun i =>
      (rowBegin + i / kColumns, i % kColumns)

def checksum (matrix : List Word) : Word := matrix.foldl (· + ·) 0

/-- The threads of the kernel: eight by eight in a block, and the blocks of the grid. -/
def threads (rows : Nat) : List (Nat × Nat) :=
  (List.range ((rows + 8 - 1) / 8)).flatMap fun blockY =>
    (List.range ((kColumns + 8 - 1) / 8)).flatMap fun blockX =>
    (List.range 8).flatMap fun y => (List.range 8).map fun x => (x + 8 * blockX, y + 8 * blockY)

def gemmSum (a b : List Word) (row column : Nat) : Word :=
  (List.range kInner).foldl
    (fun sum k => sum + a.getD (row * kInner + k) 0 * b.getD (k * kColumns + column) 0) 0

def blockGemmThread (a b : List Word) (rows : Nat) (t : Nat × Nat) : Option (Nat × Word) :=
  let column := t.1
  let row := t.2
  if rows ≤ row ∨ kColumns ≤ column then none
  else some (row * kColumns + column, gemmSum a b row column)

def blockGemm (a b c : List Word) (rows : Nat) : List Word :=
  (threads rows).foldl (writeCell (blockGemmThread a b rows)) c

/-- The state of the controller: the message it is about to send or to receive. -/
inductive Controller (ranks : Nat) where
  | sendHeader (rank : Fin ranks)
  | sendA (rank : Fin ranks)
  | sendB (rank : Fin ranks)
  | receive (rank : Fin ranks) (total : Word)
  | stop (rank : Fin ranks) (total : Word)
  | report (total : Word)
  | failed (row column : Nat)
  | finished

/-- `header.rows` after the check: at most `max_rows`. -/
abbrev Rows (ranks : Nat) := { rows : Nat // rows ≤ kGlobalRows / ranks }

/-- The state of a GPU worker, with its device memory for the result. -/
inductive Worker (ranks : Nat) where
  | awaitHeader (c : List Word)
  | awaitA (rows : Rows ranks) (c : List Word)
  | awaitB (rows : Rows ranks) (a c : List Word)
  | sendC (rows : Rows ranks) (c : List Word)
  | exited (code : Nat)

inductive Proc (ranks : Nat) where
  | cpu (state : Controller ranks)
  | gpu (state : Worker ranks)

variable {ranks : Nat}

def rowsPerRank (ranks : Nat) : Nat := kGlobalRows / ranks

/-- A rank count that the controller and the workers accept. -/
structure Supported (ranks : Nat) : Prop where
  positive : 0 < ranks
  bounded : ranks ≤ kMaxRanks
  divides : kGlobalRows % ranks = 0

def stopFrom (rank : Nat) (total : Word) : Controller ranks :=
  if h : rank < ranks then .stop ⟨rank, h⟩ total else .report total

def collectFrom (rank : Nat) (total : Word) : Controller ranks :=
  if h : rank < ranks then .receive ⟨rank, h⟩ total else stopFrom 0 total

def dispatchFrom (rank : Nat) : Controller ranks :=
  if h : rank < ranks then .sendHeader ⟨rank, h⟩ else collectFrom 0 0

def toWorker (rank : Nat) : Ends := (controllerCoordinate, gpuCoordinate rank)

def toController (rank : Nat) : Ends := (gpuCoordinate rank, controllerCoordinate)

def blockHeader (rank : Fin ranks) : WorkHeader :=
  ⟨0, word (rank * rowsPerRank ranks), word (rowsPerRank ranks)⟩

def stopHeader : WorkHeader := ⟨-1, 0, 0⟩

def takeBlock (rank : Fin ranks) (total : Word) (data : WordBytes.Bytes) : Controller ranks :=
  let result := decode data
  match checkBlock result (rank * rowsPerRank ranks) (rowsPerRank ranks) with
  | some (row, column) => .failed row column
  | none => collectFrom (rank + 1) (total + checksum result)

def controllerAct : Controller ranks → Kahn.Act Ends WordBytes.Bytes Nat Word (Controller ranks)
  | .sendHeader rank => .send (toWorker rank) (blockHeader rank).bytes (.sendA rank)
  | .sendA rank =>
    .send (toWorker rank) (encode (fillA (rank * rowsPerRank ranks) (rowsPerRank ranks)))
      (.sendB rank)
  | .sendB rank => .send (toWorker rank) (encode fillB) (dispatchFrom (rank + 1))
  | .receive rank total =>
    .recv (toController rank) (rowsPerRank ranks * kColumns * 8) (takeBlock rank total)
  | .stop rank total => .send (toWorker rank) stopHeader.bytes (stopFrom (rank + 1) total)
  | .report total => .emit total .finished
  | .failed _ _ => .done
  | .finished => .done

def takeHeader (c : List Word) (header : WorkHeader) : Worker ranks :=
  if header.iteration.toInt < 0 then .exited 0
  else if h : 0 < header.rows.toInt ∧ header.rows.toInt ≤ (kGlobalRows / ranks : Nat) ∧
    0 ≤ header.rowBegin.toInt ∧
      (header.rowBegin + header.rows).toInt ≤ kGlobalRows then
    .awaitA ⟨header.rows.toInt.toNat, by omega⟩ c
  else .exited 1

def workerAct (rank : Nat) : Worker ranks → Kahn.Act Ends WordBytes.Bytes Nat Word (Worker ranks)
  | .awaitHeader c => .recv (toWorker rank) headerBytes fun data => takeHeader c (.ofBytes data)
  | .awaitA rows c => .recv (toWorker rank) (rows * kInner * 8) fun data =>
    .awaitB rows (decode data) c
  | .awaitB rows a c =>
    .recv (toWorker rank) (kInner * kColumns * 8) fun data =>
      .sendC rows (blockGemm a (decode data) c rows)
  | .sendC rows c => .send (toController rank) (encode (c.take (rows * kColumns))) (.awaitHeader c)
  | .exited _ => .done

abbrev Party (ranks : Nat) := Option (Fin ranks)

def partyCoordinate : Party ranks → Coord
  | none => controllerCoordinate
  | some rank => gpuCoordinate rank

def partyAt (c : Coord) : Party ranks :=
  if c = controllerCoordinate then none
  else if h : (6 * c.2 + c.1).toNat < ranks then some ⟨_, h⟩ else none

def partyAct : Party ranks → Proc ranks → Kahn.Act Ends WordBytes.Bytes Nat Word (Proc ranks)
  | none, .cpu state => (controllerAct state).map .cpu
  | some rank, .gpu state => (workerAct rank state).map .gpu
  | _, _ => .done

theorem partyAt_controller : partyAt controllerCoordinate = (none : Party ranks) := if_pos rfl

theorem partyAt_gpu (hranks : ranks ≤ kMaxRanks) (rank : Fin ranks) :
    partyAt (gpuCoordinate rank) = some rank := by
  have hrank := rank.isLt
  rw [kMaxRanks] at hranks
  have hne : gpuCoordinate rank ≠ controllerCoordinate := by
    rw [gpuCoordinate, controllerCoordinate, ne_eq, Prod.mk.injEq]
    omega
  have hindex : (6 * (gpuCoordinate rank).2 + (gpuCoordinate rank).1).toNat = rank := by
    simp only [gpuCoordinate]
    omega
  rw [partyAt, if_neg hne]
  simp only [hindex, hrank, dif_pos]

theorem controllerAct_send {state next : Controller ranks} {c : Ends} {v : WordBytes.Bytes}
    (h : controllerAct state = .send c v next) : ∃ rank : Fin ranks, c = toWorker rank := by
  cases state with
  | sendHeader rank | sendA rank | sendB rank | stop rank =>
    cases h
    exact ⟨rank, rfl⟩
  | receive | report | failed | finished => cases h

theorem controllerAct_recv {state : Controller ranks} {next : WordBytes.Bytes → Controller ranks}
    {c : Ends} {n : Nat} (h : controllerAct state = .recv c n next) :
    ∃ rank : Fin ranks, c = toController rank := by
  cases state with
  | receive rank =>
    cases h
    exact ⟨rank, rfl⟩
  | sendHeader | sendA | sendB | stop | report | failed | finished => cases h

theorem workerAct_send {rank : Nat} {state next : Worker ranks} {c : Ends} {v : WordBytes.Bytes}
    (h : workerAct rank state = .send c v next) : c = toController rank := by
  cases state with
  | sendC =>
    cases h
    rfl
  | awaitHeader | awaitA | awaitB | exited => cases h

theorem workerAct_recv {rank : Nat} {state : Worker ranks} {next : WordBytes.Bytes → Worker ranks}
    {c : Ends} {n : Nat} (h : workerAct rank state = .recv c n next) : c = toWorker rank := by
  cases state with
  | awaitHeader | awaitA | awaitB =>
    cases h
    rfl
  | sendC | exited => cases h

theorem partyAct_send (hranks : ranks ≤ kMaxRanks) {p : Party ranks}
    {state next : Proc ranks} {c : Ends} {v : WordBytes.Bytes}
    (h : partyAct p state = .send c v next) :
    p = partyAt c.1 ∧ partyCoordinate p = c.1 ∧
    partyCoordinate (partyAt c.2 : Party ranks) = c.2 := by
  cases p with
  | none =>
    cases state with
    | cpu state =>
      obtain ⟨_, hact, -⟩ := Kahn.Act.map_eq_send h
      obtain ⟨rank, rfl⟩ := controllerAct_send hact
      refine ⟨partyAt_controller.symm, rfl, ?_⟩
      rw [toWorker, partyAt_gpu hranks]
      rfl
    | gpu => cases h
  | some rank =>
    cases state with
    | cpu => cases h
    | gpu state =>
      obtain ⟨_, hact, -⟩ := Kahn.Act.map_eq_send h
      obtain rfl := workerAct_send hact
      refine ⟨(partyAt_gpu hranks rank).symm, rfl, ?_⟩
      rw [toController, partyAt_controller]
      rfl

theorem partyAct_recv (hranks : ranks ≤ kMaxRanks) {p : Party ranks} {state : Proc ranks}
    {c : Ends} {n : Nat} {next : WordBytes.Bytes → Proc ranks}
    (h : partyAct p state = .recv c n next) :
    p = partyAt c.2 ∧ partyCoordinate p = c.2 ∧
    partyCoordinate (partyAt c.1 : Party ranks) = c.1 := by
  cases p with
  | none =>
    cases state with
    | cpu state =>
      obtain ⟨_, hact, -⟩ := Kahn.Act.map_eq_recv h
      obtain ⟨rank, rfl⟩ := controllerAct_recv hact
      refine ⟨partyAt_controller.symm, rfl, ?_⟩
      rw [toController, partyAt_gpu hranks]
      rfl
    | gpu => cases h
  | some rank =>
    cases state with
    | cpu => cases h
    | gpu state =>
      obtain ⟨_, hact, -⟩ := Kahn.Act.map_eq_recv h
      obtain rfl := workerAct_recv hact
      refine ⟨(partyAt_gpu hranks rank).symm, rfl, ?_⟩
      rw [toWorker, partyAt_controller]
      rfl

/-- The benchmark with what the device memory of each worker holds at first. -/
def program (hranks : ranks ≤ kMaxRanks) (memory : Fin ranks → List Word) :
    Program (Party ranks) (Proc ranks) Word where
  coord := partyCoordinate
  act := partyAct
  start
    | none => .cpu (dispatchFrom 0)
    | some rank => .gpu (.awaitHeader (memory rank))
  producer := fun c => partyAt c.1
  consumer := fun c => partyAt c.2
  path := fun _ c => pipeOf c
  path_name := fun _ c => lastComponent_self (slash_notMem_pipeName c.1 c.2)
  send_ends := partyAct_send hranks
  recv_ends := partyAct_recv hranks

end Matmul

end ChipSystemSim
