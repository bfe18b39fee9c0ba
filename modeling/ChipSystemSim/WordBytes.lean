import Mathlib.Data.List.GetD
import Mathlib.Data.Nat.ModEq
import Mathlib.Tactic.Common

/-! Arrays of 64-bit words: their bytes with the lowest first, matrices row by row,
and loops that write each cell from its index alone. -/

namespace WordBytes

abbrev Word := BitVec 64

abbrev Bytes := List UInt8

def natBytes : Nat → Nat → Bytes
  | 0, _ => []
  | width + 1, n => UInt8.ofNat n :: natBytes width (n / 256)

def natOfBytes (b : Bytes) : Nat := b.foldr (fun x acc => x.toNat + 256 * acc) 0

def wordBytes (w : Word) : Bytes := natBytes 8 w.toNat

def encode (words : List Word) : Bytes := words.flatMap wordBytes

/-- The words of an array. Bytes that do not fill one are left out. -/
def decode (b : Bytes) : List Word :=
  (List.range (b.length / 8)).map fun i => BitVec.ofNat 64 (natOfBytes ((b.drop (8 * i)).take 8))

theorem length_natBytes (width n : Nat) : (natBytes width n).length = width := by
  induction width generalizing n with
  | zero => rfl
  | succ width ih => rw [natBytes, List.length_cons, ih]

theorem natOfBytes_natBytes (width n : Nat) : natOfBytes (natBytes width n) = n % 256 ^ width := by
  induction width generalizing n with
  | zero => simp [natBytes, natOfBytes, Nat.mod_one]
  | succ width ih =>
    have hrest : natOfBytes (natBytes (width + 1) n) = n % 256 +
      256 * natOfBytes (natBytes width (n / 256)) := by
      simp [natBytes, natOfBytes, UInt8.toNat_ofNat']
    rw [hrest, ih, Nat.pow_succ', Nat.mod_mul]

theorem length_encode (words : List Word) : (encode words).length = 8 * words.length := by
  induction words with
  | nil => rfl
  | cons w words ih =>
    rw [encode, List.flatMap_cons, List.length_append, ← encode, ih, wordBytes, length_natBytes,
      List.length_cons]
    omega

theorem drop_encode (words : List Word) (i : Nat) :
    (encode words).drop (8 * i) = encode (words.drop i) := by
  induction i generalizing words with
  | zero => rfl
  | succ i ih =>
    cases words with
    | nil => simp [encode]
    | cons w words =>
      have hlength : (wordBytes w).length = 8 := length_natBytes 8 _
      rw [List.drop_succ_cons, ← ih, Nat.mul_succ, Nat.add_comm, ← List.drop_drop, encode,
        List.flatMap_cons, ← hlength, List.drop_left, ← encode, hlength]

theorem decode_encode (words : List Word) : decode (encode words) = words := by
  apply List.ext_getElem
  · rw [decode, List.length_map, List.length_range, length_encode,
      Nat.mul_div_cancel_left _ (by decide)]
  · intro i hi hi'
    have hword : ((encode words).drop (8 * i)).take 8 = wordBytes words[i] := by
      have hlength : (wordBytes words[i]).length = 8 := length_natBytes 8 _
      rw [drop_encode, List.drop_eq_getElem_cons hi', encode, List.flatMap_cons, ← hlength,
        List.take_left]
    simp only [decode, List.getElem_map, List.getElem_range, hword, wordBytes, natOfBytes_natBytes]
    rw [show 256 ^ 8 = 2 ^ 64 by decide, Nat.mod_eq_of_lt words[i].isLt, BitVec.ofNat_toNat,
      BitVec.setWidth_eq]

section Rows

variable {α : Type}

def rowMajor (rows columns : Nat) (f : Nat → Nat → α) : List α :=
  (List.range (rows * columns)).map fun i => f (i / columns) (i % columns)

theorem length_rowMajor (rows columns : Nat) (f : Nat → Nat → α) :
    (rowMajor rows columns f).length = rows * columns := by
  rw [rowMajor, List.length_map, List.length_range]

theorem rowMajor_congr {rows columns : Nat} {f g : Nat → Nat → α} (hcolumns : 0 < columns)
    (h : ∀ row < rows, ∀ column < columns, f row column = g row column) :
    rowMajor rows columns f = rowMajor rows columns g := by
  apply List.map_congr_left
  intro i hi
  rw [List.mem_range] at hi
  exact h _ (Nat.div_lt_of_lt_mul (Nat.mul_comm rows columns ▸ hi)) _ (Nat.mod_lt i hcolumns)

theorem getD_rowMajor {rows columns : Nat} (f : Nat → Nat → α) (d : α) {row column : Nat}
    (hrow : row < rows) (hcolumn : column < columns) :
    (rowMajor rows columns f).getD (row * columns + column) d = f row column := by
  have hindex : row * columns + column < rows * columns := by
    have hle : (row + 1) * columns ≤ rows * columns := Nat.mul_le_mul_right columns hrow
    rw [Nat.succ_mul] at hle
    omega
  have hpos : 0 < columns := by omega
  rw [List.getD_eq_getElem _ _ (by rwa [length_rowMajor])]
  simp only [rowMajor, List.getElem_map, List.getElem_range]
  rw [Nat.mul_comm row columns, Nat.mul_add_div hpos, Nat.div_eq_of_lt hcolumn, Nat.add_zero,
    Nat.mul_add_mod, Nat.mod_eq_of_lt hcolumn]

end Rows

section Cells

variable {α τ : Type}

def writeCell (write : τ → Option (Nat × α)) (memory : List α) (t : τ) : List α :=
  match write t with
  | some (i, x) => memory.set i x
  | none => memory

variable {write : τ → Option (Nat × α)}

theorem length_writeCell (memory : List α) (t : τ) :
    (writeCell write memory t).length = memory.length := by
  rw [writeCell]
  cases write t with
  | none => rfl
  | some c => exact List.length_set

/-- After all threads, in any order, each cell that one of them writes holds its value, if the
cell alone decides it. -/
theorem getElem?_writeCells {value : Nat → α}
    (hvalue : ∀ t i x, write t = some (i, x) → x = value i) (threads : List τ) (memory : List α)
    {i : Nat} (hi : i < memory.length)
    (h : (∃ t ∈ threads, ∃ x, write t = some (i, x)) ∨ memory[i]? = some (value i)) :
    (threads.foldl (writeCell write) memory)[i]? = some (value i) := by
  induction threads generalizing memory with
  | nil =>
    rcases h with ⟨t, ht, -⟩ | h
    · cases ht
    · exact h
  | cons t threads ih =>
    rw [List.foldl_cons]
    apply ih _ (by rwa [length_writeCell])
    cases ht : write t with
    | none =>
      rw [writeCell, ht]
      rcases h with ⟨u, hu, x, hx⟩ | h
      · rcases List.mem_cons.mp hu with rfl | hu
        · cases ht.symm.trans hx
        · exact .inl ⟨u, hu, x, hx⟩
      · exact .inr h
    | some c =>
      obtain ⟨j, y⟩ := c
      rw [writeCell, ht]
      by_cases hj : j = i
      · subst hj
        right
        rw [hvalue t j y ht]
        exact List.getElem?_set_self hi
      · rcases h with ⟨u, hu, x, hx⟩ | h
        · rcases List.mem_cons.mp hu with rfl | hu
          · cases ht.symm.trans hx
            exact absurd rfl hj
          · exact .inl ⟨u, hu, x, hx⟩
        · right
          rw [← h]
          exact List.getElem?_set_ne hj

end Cells

end WordBytes
