import ChipSystemSim.MatmulDp
import Mathlib.Algebra.BigOperators.Ring.Finset

/-! What the block GEMM computes: every block is as the controller expects it, and the
checksum does not depend on the number of ranks. -/

namespace ChipSystemSim

namespace Matmul

open WordBytes Finset

section Arithmetic

theorem word_add (m n : Nat) : word m + word n = word (m + n) := (BitVec.ofNat_add m n).symm

theorem word_mul (m n : Nat) : word m * word n = word (m * n) := (BitVec.ofNat_mul m n).symm

theorem toInt_word {n : Nat} (h : n < 2 ^ 63) : (word n).toInt = n := by
  have hvalue : (word n).toNat = n := by
    rw [word, BitVec.toNat_ofNat]
    exact Nat.mod_eq_of_lt (by omega)
  rw [BitVec.toInt_eq_toNat_of_lt (by rw [hvalue]; omega), hvalue]

/-- What the kernel computes for a cell, and what `CheckBlock` expects there. -/
def cellValue (rowBegin row column : Nat) : Nat := kInner * (rowBegin + row + 1) * (column + 1)

theorem expected_eq (rowBegin row column : Nat) :
    expected rowBegin row column = word (cellValue rowBegin row column) := by
  rw [expected, word_mul, word_mul, cellValue]

theorem foldl_constant {term : Nat → Word} {m n : Nat} (h : ∀ k < n, term k = word m) :
    (List.range n).foldl (fun sum k => sum + term k) 0 = word (n * m) := by
  induction n with
  | zero =>
    rw [Nat.zero_mul]
    rfl
  | succ n ih =>
    rw [List.range_succ, List.foldl_append, ih fun k hk => h k (by omega), List.foldl_cons,
      List.foldl_nil, h n (by omega), word_add, Nat.succ_mul]

theorem gemmSum_fill {rowBegin rows row column : Nat} (hrow : row < rows)
    (hcolumn : column < kColumns) :
    gemmSum (fillA rowBegin rows) fillB row column = expected rowBegin row column := by
  have hterm : ∀ k < kInner, (fillA rowBegin rows).getD (row * kInner + k) 0 *
      fillB.getD (k * kColumns + column) 0 =
      word ((rowBegin + row + 1) * (column + 1)) := by
    intro k hk
    rw [fillA, fillB, getD_rowMajor _ _ hrow hk, getD_rowMajor _ _ hk hcolumn, word_mul]
  rw [gemmSum, foldl_constant hterm, expected_eq, cellValue, Nat.mul_assoc]

theorem mem_threads {rows row column : Nat} (hrow : row < rows) (hcolumn : column < kColumns) :
    (column, row) ∈ threads rows := by
  rw [kColumns] at hcolumn
  simp only [threads, List.mem_flatMap, List.mem_map, List.mem_range, Prod.mk.injEq, kColumns]
  exact ⟨row / 8, by omega, column / 8, by omega, row % 8, by omega, column % 8, by omega,
    by omega, by omega⟩

/-- The grid covers the block. -/
theorem take_blockGemm (a b : List Word) {c : List Word} {rows : Nat}
    (hc : rows * kColumns ≤ c.length) :
    (blockGemm a b c rows).take (rows * kColumns) = rowMajor rows kColumns (gemmSum a b) := by
  have hpos : 0 < kColumns := by decide
  apply List.ext_getElem?
  intro i
  by_cases hi : i < rows * kColumns
  · have hrow : i / kColumns < rows := Nat.div_lt_of_lt_mul (Nat.mul_comm rows kColumns ▸ hi)
    have hcolumn : i % kColumns < kColumns := Nat.mod_lt i hpos
    have hvalue : ∀ t j x, blockGemmThread a b rows t = some (j, x) →
        x = gemmSum a b (j / kColumns) (j % kColumns) := by
      intro t j x ht
      rw [blockGemmThread] at ht
      split at ht
      · cases ht
      · rename_i hinside
        cases ht
        have hlt : t.1 < kColumns := by omega
        rw [Nat.mul_comm, Nat.mul_add_div hpos, Nat.div_eq_of_lt hlt, Nat.add_zero, Nat.mul_add_mod,
          Nat.mod_eq_of_lt hlt]
    have hwritten : ∃ t ∈ threads rows, ∃ x, blockGemmThread a b rows t = some (i, x) := by
      refine ⟨_, mem_threads hrow hcolumn, gemmSum a b (i / kColumns) (i % kColumns), ?_⟩
      rw [blockGemmThread, if_neg (by omega)]
      simp only [Nat.div_add_mod']
    rw [List.getElem?_take_of_lt hi, blockGemm, getElem?_writeCells hvalue _ _ (by omega)
      (.inl hwritten), rowMajor,
      List.getElem?_map, List.getElem?_range hi]
    rfl
  · rw [List.getElem?_take_eq_none (by omega), List.getElem?_eq_none]
    rw [length_rowMajor]
    omega

theorem getD_block (rowBegin rows : Nat) {i : Nat} (hi : i < rows * kColumns) :
    (rowMajor rows kColumns (expected rowBegin)).getD i 0 = expected rowBegin (i / kColumns)
      (i % kColumns) := by
  have hrow : i / kColumns < rows := Nat.div_lt_of_lt_mul (Nat.mul_comm rows kColumns ▸ hi)
  have h := getD_rowMajor (expected rowBegin) 0 hrow (Nat.mod_lt i (by decide : 0 < kColumns))
  rwa [Nat.div_add_mod'] at h

theorem checkBlock_block (rowBegin rows : Nat) :
    checkBlock (rowMajor rows kColumns (expected rowBegin)) rowBegin rows = none := by
  rw [checkBlock, Option.map_eq_none_iff, List.find?_eq_none]
  intro i hi
  rw [List.mem_range] at hi
  simp only [getD_block rowBegin rows hi, ne_eq, not_true_eq_false, decide_false,
    Bool.false_eq_true, not_false_eq_true]

theorem checksum_map_word (values : List Nat) : checksum (values.map word) = word values.sum := by
  have hfold : ∀ start, (values.map word).foldl (· + ·) (word start) = word
      (start + values.sum) := by
    induction values with
    | nil => exact fun start => rfl
    | cons value values ih =>
      intro start
      rw [List.map_cons, List.foldl_cons, word_add, ih, List.sum_cons, Nat.add_assoc]
  have h := hfold 0
  rwa [Nat.zero_add] at h

theorem sum_rowMajor (rows columns : Nat) (f : Nat → Nat → Nat) :
    (rowMajor rows columns f).sum = ∑ row ∈ range rows, ∑ column ∈ range columns, f row column := by
  induction rows with
  | zero => simp [rowMajor]
  | succ rows ih =>
    have hlast : ∀ i ∈ List.range columns,
        f ((rows * columns + i) / columns) ((rows * columns + i) % columns) = f rows i := by
      intro i hi
      rw [List.mem_range] at hi
      have hpos : 0 < columns := by omega
      rw [Nat.mul_comm, Nat.mul_add_div hpos, Nat.div_eq_of_lt hi, Nat.add_zero, Nat.mul_add_mod,
        Nat.mod_eq_of_lt hi]
    have hsplit : rowMajor (rows + 1) columns f = rowMajor rows columns f ++
        (List.range columns).map (f rows) := by
      rw [rowMajor, Nat.succ_mul, List.range_add, List.map_append, List.map_map, rowMajor]
      congr 1
      exact List.map_congr_left hlast
    rw [hsplit, List.sum_append, ih, sum_range_succ]
    rfl

/-- The checksum of a block. -/
theorem checksum_block (rowBegin rows : Nat) :
    checksum (rowMajor rows kColumns (expected rowBegin)) =
      word (∑ row ∈ range rows, ∑ column ∈ range kColumns, cellValue rowBegin row column) := by
  have hmap : rowMajor rows kColumns (expected rowBegin) =
      (rowMajor rows kColumns (cellValue rowBegin)).map word := by
    rw [rowMajor, rowMajor, List.map_map]
    exact List.map_congr_left fun i _ => expected_eq ..
  rw [hmap, checksum_map_word, sum_rowMajor]

/-- `EXPECTED_CHECKSUM` of `validate_matmul_dp_results.py`. -/
def expectedChecksum : Nat :=
  kInner * (List.range' 1 kGlobalRows).sum * (List.range' 1 kColumns).sum

theorem sum_range'_one (n : Nat) : (List.range' 1 n).sum = ∑ i ∈ range n, (i + 1) := by
  induction n with
  | zero => rfl
  | succ n ih =>
    rw [List.range'_1_concat, List.sum_append, ih, sum_range_succ, List.sum_singleton,
      Nat.add_comm 1 n]

theorem sum_map_range (n : Nat) (g : Nat → Nat) :
    ((List.range n).map g).sum = ∑ i ∈ range n, g i := rfl

theorem sum_range_mul (m n : Nat) (g : Nat → Nat) :
    ∑ i ∈ range m, ∑ j ∈ range n, g (i * n + j) = ∑ k ∈ range (m * n), g k := by
  have hcells : rowMajor m n (fun i j => g (i * n + j)) = (List.range (m * n)).map g :=
    List.map_congr_left fun k _ => congrArg g (Nat.div_add_mod' k n)
  rw [← sum_rowMajor, hcells, sum_map_range]

theorem sum_products (a m n : Nat) :
    ∑ row ∈ range m, ∑ column ∈ range n, a * (row + 1) * (column + 1) =
      a * (List.range' 1 m).sum * (List.range' 1 n).sum := by
  rw [sum_range'_one, sum_range'_one, Nat.mul_assoc, sum_mul_sum, mul_sum]
  refine sum_congr rfl fun row _ => ?_
  rw [mul_sum]
  exact sum_congr rfl fun column _ => Nat.mul_assoc ..

/-- The blocks of all ranks together are the whole matrix. -/
theorem sum_blocks {ranks rows : Nat} (h : ranks * rows = kGlobalRows) :
    ∑ rank ∈ range ranks, ∑ row ∈ range rows, ∑ column ∈ range kColumns,
      cellValue (rank * rows) row column =
      expectedChecksum := by
  have hrows := sum_range_mul ranks rows fun row => ∑ column ∈ range kColumns, kInner * (row + 1) *
    (column + 1)
  rw [h, sum_products, ← expectedChecksum] at hrows
  exact hrows

end Arithmetic

section Run

variable {ranks : Nat}

theorem Supported.mul_rows (h : Supported ranks) : ranks * rowsPerRank ranks = kGlobalRows :=
  Nat.mul_div_cancel' (Nat.dvd_of_mod_eq_zero h.divides)

theorem Supported.rows_pos (h : Supported ranks) : 0 < rowsPerRank ranks := by
  have hrows := h.mul_rows
  rcases Nat.eq_zero_or_pos (rowsPerRank ranks) with hzero | hpos
  · rw [hzero, Nat.mul_zero] at hrows
    cases hrows
  · exact hpos

theorem Supported.block_le (h : Supported ranks) (rank : Fin ranks) :
    rank * rowsPerRank ranks + rowsPerRank ranks ≤ kGlobalRows := by
  rw [← h.mul_rows, ← Nat.succ_mul]
  exact Nat.mul_le_mul_right _ rank.isLt

/-- `header.rows` of every block. -/
def allRows (ranks : Nat) : Rows ranks := ⟨rowsPerRank ranks, Nat.le_refl _⟩

theorem coe_allRows (ranks : Nat) : (allRows ranks : Nat) = rowsPerRank ranks := rfl

theorem length_bytes (header : WorkHeader) : header.bytes.length = headerBytes := length_encode _

theorem ofBytes_bytes (header : WorkHeader) : WorkHeader.ofBytes header.bytes = header := by
  rw [WorkHeader.ofBytes, WorkHeader.bytes, decode_encode]
  rfl

theorem takeHeader_stop (c : List Word) : (takeHeader c stopHeader : Worker ranks) = .exited 0 :=
  if_pos (by decide)

theorem takeHeader_block (h : Supported ranks) (rank : Fin ranks) (c : List Word) :
    takeHeader c (blockHeader rank) = .awaitA (allRows ranks) c := by
  have hle := h.block_le rank
  have hpos := h.rows_pos
  have hglobal : kGlobalRows < 2 ^ 63 := by decide
  have hiteration : ¬ (blockHeader rank).iteration.toInt < 0 := by
    show ¬ (0 : Word).toInt < 0
    decide
  have hrows : (blockHeader rank).rows.toInt = rowsPerRank ranks := toInt_word (by omega)
  have hbegin : (blockHeader rank).rowBegin.toInt = (rank * rowsPerRank ranks : Nat) :=
    toInt_word (by omega)
  have hend : ((blockHeader rank).rowBegin + (blockHeader rank).rows).toInt =
      (rank * rowsPerRank ranks + rowsPerRank ranks : Nat) := by
    rw [blockHeader, word_add, toInt_word (by omega)]
  have hbound : rowsPerRank ranks = kGlobalRows / ranks := rfl
  rw [takeHeader, if_neg hiteration, dif_pos]
  · simp only [hrows, Int.toNat_natCast, allRows]
  · rw [hrows, hbegin, hend]
    omega

def world (controller : Controller ranks) (workers : Fin ranks → Worker ranks) :
    Party ranks → Proc ranks
  | none => .cpu controller
  | some rank => .gpu (workers rank)

theorem update_world (controller controller' : Controller ranks)
    (workers : Fin ranks → Worker ranks) (rank : Fin ranks) (worker : Worker ranks) :
    Function.update (Function.update (world controller workers) none (.cpu controller')) (some rank)
      (.gpu worker) =
      world controller' (Function.update workers rank worker) := by
  funext p
  cases p with
  | none => rfl
  | some r =>
    by_cases hr : r = rank
    · subst hr
      simp [world]
    · simp [world, hr]

/-- The benchmark gets from one state of its processes to another, with no message on its way before
or after, and shows nothing. -/
def Goes (hranks : ranks ≤ kMaxRanks) (memory : Fin ranks → List Word)
    (controller : Controller ranks) (workers : Fin ranks → Worker ranks)
    (controller' : Controller ranks) (workers' : Fin ranks → Worker ranks) : Prop :=
  ∀ e, Kahn.Settles (program hranks memory).network (world controller workers) e
    (world controller' workers') e

variable {hranks : ranks ≤ kMaxRanks} {memory : Fin ranks → List Word}
  {controller controller' controller'' : Controller ranks}
  {workers workers' workers'' : Fin ranks → Worker ranks}

theorem Goes.trans (h : Goes hranks memory controller workers controller' workers')
    (h' : Goes hranks memory controller' workers' controller'' workers'') :
    Goes hranks memory controller workers controller'' workers'' := fun e => (h e).trans (h' e)

theorem Goes.toWorker {rank : Fin ranks} {worker worker' : Worker ranks}
    {v : WordBytes.Bytes} {n : Nat} {next : WordBytes.Bytes → Worker ranks}
    (hsend : controllerAct controller = .send (toWorker rank) v controller')
    (hrecv : workerAct rank worker = .recv (toWorker rank) n next) (hlength : v.length = n)
    (hnext : next v = worker') :
    Goes hranks memory controller (Function.update workers rank worker) controller'
      (Function.update workers rank worker') := by
  intro e
  subst hnext
  have hcpu : (program hranks memory).network.act none
      (world controller (Function.update workers rank worker) none) =
      .send (Matmul.toWorker rank) v (.cpu controller') := congrArg (Kahn.Act.map Proc.cpu) hsend
  have hgpu : (program hranks memory).network.act (some rank)
      (world controller (Function.update workers rank worker) (some rank)) =
      .recv (Matmul.toWorker rank) n fun v => .gpu (next v) := by
    rw [world, Function.update_self]
    exact congrArg (Kahn.Act.map Proc.gpu) hrecv
  have h := Kahn.Settles.transfer (e := e) (Option.some_ne_none rank).symm hcpu hgpu
    (beq_iff_eq.mpr hlength)
  rwa [update_world, Function.update_idem] at h

theorem Goes.toController {rank : Fin ranks} {worker worker' : Worker ranks}
    {v : WordBytes.Bytes} {n : Nat} {next : WordBytes.Bytes → Controller ranks}
    (hsend : workerAct rank worker = .send (toController rank) v worker')
    (hrecv : controllerAct controller = .recv (toController rank) n next) (hlength : v.length = n)
    (hnext : next v = controller') :
    Goes hranks memory controller (Function.update workers rank worker) controller'
      (Function.update workers rank worker') := by
  intro e
  subst hnext
  have hgpu : (program hranks memory).network.act (some rank)
      (world controller (Function.update workers rank worker) (some rank)) =
      .send (Matmul.toController rank) v (.gpu worker') := by
    rw [world, Function.update_self]
    exact congrArg (Kahn.Act.map Proc.gpu) hsend
  have hcpu : (program hranks memory).network.act none
      (world controller (Function.update workers rank worker) none) =
      .recv (Matmul.toController rank) n fun v => .cpu (next v) :=
        congrArg (Kahn.Act.map Proc.cpu) hrecv
  have h := Kahn.Settles.transfer (e := e) (Option.some_ne_none rank) hgpu hcpu
    (beq_iff_eq.mpr hlength)
  rwa [Function.update_comm (Option.some_ne_none rank), update_world, Function.update_idem] at h

/-- A loop of the controller over the ranks, each of which changes the state of its worker. -/
theorem Goes.loop (controllers : Nat → Controller ranks) {before after : Fin ranks → Worker ranks}
    (hstep : ∀ (rank : Fin ranks) (workers : Fin ranks → Worker ranks),
      Goes hranks memory (controllers rank) (Function.update workers rank (before rank))
        (controllers (rank + 1))
        (Function.update workers rank (after rank))) :
    Goes hranks memory (controllers 0) before (controllers ranks) after := by
  have hpart : ∀ n ≤ ranks, Goes hranks memory (controllers 0) before (controllers n)
      fun rank => if (rank : Nat) < n then after rank else before rank := by
    intro n hn
    induction n with
    | zero => exact fun e => Kahn.Settles.refl
    | succ n ih =>
      have h := hstep ⟨n, hn⟩ fun rank => if (rank : Nat) < n then after rank else before rank
      have hbefore : Function.update (fun rank : Fin ranks => if (rank : Nat) < n then after rank
          else before rank) ⟨n, hn⟩
          (before ⟨n, hn⟩) = fun rank : Fin ranks => if (rank : Nat) < n then after rank
            else before rank := by
        rw [Function.update_eq_iff]
        exact ⟨(if_neg (Nat.lt_irrefl n)).symm, fun rank _ => rfl⟩
      have hworkers : Function.update (fun rank : Fin ranks => if (rank : Nat) < n then after rank
          else before rank) ⟨n, hn⟩
          (after ⟨n, hn⟩) = fun rank : Fin ranks => if (rank : Nat) < n + 1 then after rank
            else before rank := by
        funext rank
        by_cases hrank : rank = ⟨n, hn⟩
        · subst hrank
          simp
        · have hne : (rank : Nat) ≠ n := fun heq => hrank (Fin.ext heq)
          rw [Function.update_of_ne hrank]
          by_cases hlt : (rank : Nat) < n
          · rw [if_pos hlt, if_pos (by omega)]
          · rw [if_neg hlt, if_neg (by omega)]
      rw [hbefore, hworkers] at h
      exact (ih (by omega)).trans h
  have h := hpart ranks (le_refl ranks)
  have hall : (fun rank : Fin ranks => if (rank : Nat) < ranks then after rank else before rank) =
      after :=
    funext fun rank => if_pos rank.isLt
  rwa [hall] at h

def computed (memory : Fin ranks → List Word) (rank : Fin ranks) : List Word :=
  blockGemm (fillA (rank * rowsPerRank ranks) (rowsPerRank ranks)) fillB (memory rank)
    (rowsPerRank ranks)

def blockOf (rank : Fin ranks) : List Word :=
  rowMajor (rowsPerRank ranks) kColumns (expected (rank * rowsPerRank ranks))

theorem take_computed (hmemory : ∀ rank, (memory rank).length = rowsPerRank ranks * kColumns)
    (rank : Fin ranks) :
    (computed memory rank).take (rowsPerRank ranks * kColumns) = blockOf rank := by
  rw [computed, take_blockGemm _ _ (hmemory rank).ge, blockOf]
  exact rowMajor_congr (by decide) fun row hrow column hcolumn => gemmSum_fill hrow hcolumn

theorem length_fillA (rowBegin rows : Nat) :
    (encode (fillA rowBegin rows)).length = rows * kInner * 8 := by
  rw [length_encode, fillA, length_rowMajor, Nat.mul_comm]

theorem length_fillB : (encode fillB).length = kInner * kColumns * 8 := by
  rw [length_encode, fillB, length_rowMajor, Nat.mul_comm]

theorem Goes.dispatch (h : Supported ranks) :
    Goes hranks memory (dispatchFrom 0) (fun rank => .awaitHeader (memory rank)) (collectFrom 0 0)
      fun rank => .sendC (allRows ranks) (computed memory rank) := by
  have hlast : (dispatchFrom ranks : Controller ranks) = collectFrom 0 0 :=
    dif_neg (Nat.lt_irrefl ranks)
  rw [← hlast]
  refine Goes.loop dispatchFrom fun rank workers => ?_
  have hstate : (dispatchFrom rank : Controller ranks) = .sendHeader rank := dif_pos rank.isLt
  have hheader : takeHeader (memory rank) (.ofBytes (blockHeader rank).bytes) =
      .awaitA (allRows ranks) (memory rank) := by
    rw [ofBytes_bytes, takeHeader_block h]
  have hfirst : Goes hranks memory (.sendHeader rank)
      (Function.update workers rank (.awaitHeader (memory rank)))
      (.sendA rank) (Function.update workers rank (.awaitA (allRows ranks) (memory rank))) :=
    .toWorker rfl rfl (length_bytes (blockHeader rank)) hheader
  have hsecond : Goes hranks memory (.sendA rank)
      (Function.update workers rank (.awaitA (allRows ranks) (memory rank))) (.sendB rank)
      (Function.update workers rank (.awaitB (allRows ranks)
        (fillA (rank * rowsPerRank ranks) (rowsPerRank ranks)) (memory rank))) :=
    .toWorker rfl rfl (length_fillA ..) (congrArg (Worker.awaitB _ · _) (decode_encode _))
  have hthird : Goes hranks memory (.sendB rank)
      (Function.update workers rank (.awaitB (allRows ranks)
        (fillA (rank * rowsPerRank ranks) (rowsPerRank ranks)) (memory rank)))
          (dispatchFrom (rank + 1))
      (Function.update workers rank (.sendC (allRows ranks) (computed memory rank))) :=
    .toWorker rfl rfl length_fillB (by rw [decode_encode, coe_allRows, computed])
  rw [hstate]
  exact hfirst.trans (hsecond.trans hthird)

def partialSum (ranks n : Nat) : Nat :=
  ∑ rank ∈ range n, ∑ row ∈ range (rowsPerRank ranks), ∑ column ∈ range kColumns,
    cellValue (rank * rowsPerRank ranks) row column

theorem takeBlock_blockOf (rank : Fin ranks) :
    takeBlock rank (word (partialSum ranks rank)) (encode (blockOf rank)) =
      collectFrom (rank + 1) (word (partialSum ranks (rank + 1))) := by
  rw [takeBlock, decode_encode, blockOf, checkBlock_block]
  dsimp only
  rw [checksum_block, word_add, partialSum, partialSum, sum_range_succ]

theorem partialSum_ranks (h : Supported ranks) : partialSum ranks ranks = expectedChecksum :=
  sum_blocks h.mul_rows

theorem Goes.collect (h : Supported ranks)
    (hmemory : ∀ rank, (memory rank).length = rowsPerRank ranks * kColumns) :
    Goes hranks memory (collectFrom 0 0) (fun rank => .sendC (allRows ranks) (computed memory rank))
      (stopFrom 0 (word expectedChecksum)) fun rank => .awaitHeader (computed memory rank) := by
  have hlast : (collectFrom ranks (word (partialSum ranks ranks)) : Controller ranks) =
      stopFrom 0 (word expectedChecksum) := by
    rw [collectFrom, dif_neg (Nat.lt_irrefl ranks), partialSum_ranks h]
  rw [← hlast]
  refine Goes.loop (fun n => collectFrom n (word (partialSum ranks n))) fun rank workers => ?_
  have hstate : (collectFrom rank (word (partialSum ranks rank)) : Controller ranks) =
      .receive rank (word (partialSum ranks rank)) := dif_pos rank.isLt
  rw [hstate, ← takeBlock_blockOf]
  have hlength : (encode (blockOf rank)).length = rowsPerRank ranks * kColumns * 8 := by
    rw [length_encode, blockOf, length_rowMajor, Nat.mul_comm]
  refine Goes.toController ?_ rfl hlength rfl
  rw [workerAct, coe_allRows, take_computed hmemory]

theorem Goes.stop (memory' : Fin ranks → List Word) (total : Word) :
    Goes hranks memory (stopFrom 0 total) (fun rank => .awaitHeader (memory' rank)) (.report total)
      fun _ => .exited 0 := by
  have hlast : (stopFrom ranks total : Controller ranks) = .report total :=
    dif_neg (Nat.lt_irrefl ranks)
  rw [← hlast]
  refine Goes.loop (fun n => stopFrom n total) fun rank workers => ?_
  have hstate : (stopFrom rank total : Controller ranks) = .stop rank total := dif_pos rank.isLt
  have hheader : (takeHeader (memory' rank) (.ofBytes stopHeader.bytes) : Worker ranks) =
      .exited 0 := by
    rw [ofBytes_bytes, takeHeader_stop]
  rw [hstate]
  exact .toWorker rfl rfl (length_bytes stopHeader) hheader

/-- The benchmark has a run in which everything ends well. -/
theorem exists_finished (h : Supported ranks)
    (hmemory : ∀ rank, (memory rank).length = rowsPerRank ranks * kColumns) :
    ∃ final, Kahn.Steps (program hranks memory).network (program hranks memory).origin final ∧
      Kahn.Finished (program hranks memory).network final ∧
      final.proc = world .finished (fun _ => .exited 0) ∧
      final.emitted none = [word expectedChecksum] := by
  have hreport : Kahn.Settles (program hranks memory).network
      (world (.report (word expectedChecksum)) fun _ => .exited 0) (fun _ => []) _ _ :=
    Kahn.Settles.emit (p := none) rfl
  have hrun := ((Goes.dispatch h).trans ((Goes.collect h hmemory).trans (.stop _ _)) _).trans
    hreport
  obtain ⟨received, hsteps⟩ := hrun fun _ => []
  have hproc : Function.update (world (.report (word expectedChecksum)) fun _ => .exited 0) none
      (.cpu .finished) =
      world .finished fun _ : Fin ranks => .exited 0 := by
    funext p
    cases p with
    | none => rfl
    | some rank => rfl
  have horigin : (program hranks memory).origin =
      ⟨world (dispatchFrom 0) fun rank => .awaitHeader (memory rank),
      fun _ => [], fun _ => [], fun _ => []⟩ := by
    rw [Program.origin]
    congr 1
  rw [hproc, ← horigin] at hsteps
  refine ⟨_, hsteps, ?_, rfl, ?_⟩
  · intro p
    cases p with
    | none => rfl
    | some rank => rfl
  · rfl

end Run

end Matmul

end ChipSystemSim
