import Chip8.Guarded.Dump

/-!
# Dumps line by line

What the rows of a memory are (`Dump.length_rows` and its neighbours) and how they become lines: two or more rows of
zeros in succession are a gap (`Dump.collapse_of_two_le`), and a row that does not begin so many is a line of its own
(`Dump.collapse_of_lt_two`).  So a loop over the numbers of the rows writes these lines (`Dump.map_snd_linesFrom`), and
the loops with their checks write the same ones (`Guarded.dump_eq`).
-/

namespace Chip8

namespace Dump

/-! ### Rows -/

theorem length_rows (address : Nat) (bytes : List UInt8) :
    (rows address bytes).length = (bytes.length + 15) / 16 := by
  fun_induction rows address bytes with
  | case1 => rfl
  | case2 address byte rest ih =>
    rw [List.length_cons, ih, List.length_drop, List.length_cons, rowSize]
    omega

/-- Rows stand one after another, each by the size of a row behind the one before. -/
theorem address_getElem_rows (address : Nat) (bytes : List UInt8) {i : Nat} (h : i < (rows address bytes).length) :
    (rows address bytes)[i].address = address + i * rowSize := by
  fun_induction rows address bytes generalizing i with
  | case1 => exact absurd h (Nat.not_lt_zero i)
  | case2 address byte rest ih =>
    cases i with
    | zero => rw [List.getElem_cons_zero, Nat.zero_mul, Nat.add_zero]
    | succ i =>
      rw [List.getElem_cons_succ, ih, rowSize]
      omega

/-- No row is empty. -/
theorem length_bytes_of_mem_rows {address : Nat} {bytes : List UInt8} {row : Row} (h : row ∈ rows address bytes) :
    0 < row.bytes.length ∧ row.bytes.length ≤ rowSize := by
  fun_induction rows address bytes with
  | case1 => cases h
  | case2 address byte rest ih =>
    rcases List.mem_cons.1 h with rfl | hm
    · simp only [List.length_cons, List.length_take, rowSize]
      omega
    · exact ih hm

/-! ### Lines -/

/-- Behind a gap all rows of zeros are passed over. -/
theorem collapse_true (rows : List Row) : collapse true rows = collapse false (rows.dropWhile Row.isZero) := by
  induction rows with
  | nil => rfl
  | cons row rest ih =>
    by_cases hz : row.isZero = true
    · rw [collapse, if_pos hz, if_pos rfl, ih, List.dropWhile_cons_of_pos hz]
    · rw [List.dropWhile_cons_of_neg hz, collapse, collapse, if_neg hz, if_neg hz]

theorem collapse_of_two_le {rows : List Row} (h : 2 ≤ (rows.takeWhile Row.isZero).length) :
    collapse false rows = .gap :: collapse false (rows.dropWhile Row.isZero) := by
  match rows, h with
  | row :: next :: rest, h =>
    by_cases hz : row.isZero = true
    · rw [List.takeWhile_cons_of_pos hz] at h
      by_cases hn : next.isZero = true
      · rw [collapse, if_pos hz, if_neg Bool.false_ne_true, if_pos (by simpa using hn), collapse_true,
          List.dropWhile_cons_of_pos hz]
      · simp [List.takeWhile_cons_of_neg hn] at h
    · simp [List.takeWhile_cons_of_neg hz] at h
  | [row], h =>
    have hl : ([row].takeWhile Row.isZero).length ≤ 1 := (List.takeWhile_sublist Row.isZero).length_le
    omega

theorem collapse_of_lt_two {row : Row} {rest : List Row} (h : ((row :: rest).takeWhile Row.isZero).length < 2) :
    collapse false (row :: rest) = .row row :: collapse false rest := by
  by_cases hz : row.isZero = true
  · have hn : rest.head?.any Row.isZero ≠ true := by
      intro hn
      cases rest with
      | nil => cases hn
      | cons next rest =>
        rw [List.takeWhile_cons_of_pos hz, List.takeWhile_cons_of_pos (by simpa using hn), List.length_cons,
          List.length_cons] at h
        omega
    rw [collapse, if_pos hz, if_neg Bool.false_ne_true, if_neg hn]
  · rw [collapse, if_neg hz]

/-! ### The loop over the rows -/

/-- The number of rows of zeros that follow one another from row `i` on. -/
def zeroRun (rows : List Row) (i : Nat) : Nat := ((rows.drop i).takeWhile Row.isZero).length

theorem zeroRun_le (rows : List Row) (i : Nat) : zeroRun rows i ≤ rows.length - i := by
  rw [zeroRun, ← List.length_drop]
  exact (List.takeWhile_sublist Row.isZero).length_le

theorem dropWhile_drop (rows : List Row) (i : Nat) :
    (rows.drop i).dropWhile Row.isZero = rows.drop (i + zeroRun rows i) := by
  rw [zeroRun, ← List.drop_drop]
  exact (List.drop_left' rfl).symm.trans (congrArg _ List.takeWhile_append_dropWhile)

/-- The lines from row `i` on, each with the row that it begins at.  The loop goes on behind the run that a gap stands
for, or with the next row. -/
def linesFrom (rows : List Row) (i : Nat) : List (Nat × Line) :=
  if h : i < rows.length then
    if 2 ≤ zeroRun rows i then (i, .gap) :: linesFrom rows (i + zeroRun rows i)
    else (i, .row rows[i]) :: linesFrom rows (i + 1)
  else []
termination_by rows.length - i

theorem map_snd_linesFrom (rows : List Row) (i : Nat) :
    (linesFrom rows i).map Prod.snd = collapse false (rows.drop i) := by
  fun_induction linesFrom rows i with
  | case1 i h hrun ih =>
    rw [List.map_cons, ih, collapse_of_two_le hrun, dropWhile_drop]
  | case2 i h hrun ih =>
    have hdrop : rows.drop i = rows[i] :: rows.drop (i + 1) := List.drop_eq_getElem_cons h
    rw [zeroRun, hdrop] at hrun
    rw [List.map_cons, ih, hdrop, collapse_of_lt_two (Nat.not_le.1 hrun)]
  | case3 i h => rw [List.map_nil, List.drop_of_length_le (Nat.not_lt.1 h), collapse]

/-- The loop writes the lines of a memory of any size. -/
theorem memory_eq_linesFrom (bytes : List UInt8) :
    memory bytes = (linesFrom (rows 0 bytes) 0).map fun entry => entry.2.text := by
  rw [memory, ← List.drop_zero (l := rows 0 bytes), ← map_snd_linesFrom, List.map_map, List.drop_zero]
  rfl

end Dump

namespace Guarded

open Dump

theorem zeroRun_of_lt {rows : List Row} {i : Nat} (h : i < rows.length) :
    zeroRun rows i = .ok (Dump.zeroRun rows i) := by
  have hd : rows.drop i = rows[i] :: rows.drop (i + 1) := List.drop_eq_getElem_cons h
  rw [zeroRun, index_of_lt h, ok_bind]
  dsimp only
  by_cases hz : rows[i].isZero = true
  · rw [if_pos (by simpa using hz), slice_of_le (by omega) (Nat.le_refl _), ok_bind, pure_eq_ok,
      List.take_of_length_le (Nat.le_of_eq List.length_drop)]
    rfl
  · rw [if_neg (by simpa using hz), pure_eq_ok, Dump.zeroRun, hd, List.takeWhile_cons_of_neg hz, List.length_nil]

theorem rowLine_eq {row : Row} (h : 0 < row.bytes.length) (h' : row.address + row.bytes.length < 65536) :
    rowLine row.address row.bytes = .ok (Line.row row).text := by
  rw [rowLine, add_of_lt h', ok_bind, sub_of_le (by omega), ok_bind, pure_eq_ok]
  rfl

/-- The lines from a row on are those of the rows that are left. -/
theorem memoryLines_rows {bytes : List UInt8} (h : bytes.length ≤ 4096) (i : Nat) :
    memoryLines (rows 0 bytes) i = .ok ((linesFrom (rows 0 bytes) i).map fun entry => entry.2.text) := by
  have hlength := length_rows 0 bytes
  have hsize : rowSize = 16 := rfl
  have hrow := @length_bytes_of_mem_rows 0 bytes
  have haddress := @address_getElem_rows 0 bytes
  generalize rows 0 bytes = rows at hlength hrow haddress ⊢
  fun_induction linesFrom rows i with
  | case1 i hi htwo ih =>
    have hle := zeroRun_le rows i
    rw [memoryLines, if_pos hi, zeroRun_of_lt hi, ok_bind, if_pos htwo, add_of_lt (by omega), ok_bind, ih, ok_bind,
      pure_eq_ok, List.map_cons]
  | case2 i hi htwo ih =>
    obtain ⟨hpos, hle⟩ := hrow (List.getElem_mem hi)
    have ha : rows[i].address = i * 16 := by rw [haddress hi, hsize, Nat.zero_add]
    rw [memoryLines, if_pos hi, zeroRun_of_lt hi, ok_bind, if_neg htwo, index_of_lt hi, ok_bind, hsize,
      mul_of_lt (by omega), ok_bind, ← ha]
    dsimp only [List.get_eq_getElem]
    rw [rowLine_eq hpos (by omega), ok_bind, add_of_lt (by omega), ok_bind, ih, ok_bind, pure_eq_ok, List.map_cons]
  | case3 i hi => rw [memoryLines, if_neg hi, pure_eq_ok, List.map_nil]

private theorem mapM_eq_ok {α β : Type} {f : α → Guarded β} {g : α → β} {values : List α}
    (h : ∀ value ∈ values, f value = .ok (g value)) : values.mapM f = .ok (values.map g) := by
  induction values with
  | nil => rfl
  | cons value rest ih =>
    rw [List.mapM_cons, h value List.mem_cons_self, ok_bind, ih fun other ho => h other (List.mem_cons_of_mem _ ho)]
    rfl

theorem registerCell_eq (registers : Vector UInt8 16) {i j : Nat} (h : i * 4 + j < 16) :
    registerCell registers i j = .ok ("V" ++ String.ofList (Hexadecimal.digits (i * 4 + j)) ++ " "
      ++ Dump.byte (registers.getD (i * 4 + j) 0) ++ " ") := by
  have hvalue : registers.getD (i * 4 + j) 0 = registers.get ⟨i * 4 + j, h⟩ :=
    (Array.getElem_eq_getD 0).symm
  rw [registerCell, mul_of_lt (by omega), ok_bind, add_of_lt (by omega), ok_bind, index_of_lt h, ok_bind, pure_eq_ok,
    hvalue]

theorem registerLine_eq (registers : Vector UInt8 16) {i : Nat} (h : i < 4) :
    registerLine registers i = .ok (Dump.registerLine registers (i * 4)) := by
  have hcells : (List.range 4).mapM (registerCell registers i) = .ok ((List.range 4).map fun j =>
      "V" ++ String.ofList (Hexadecimal.digits (i * 4 + j)) ++ " " ++ Dump.byte (registers.getD (i * 4 + j) 0)
        ++ " ") := by
    apply mapM_eq_ok
    intro j hj
    have hj := List.mem_range.1 hj
    exact registerCell_eq registers (by omega)
  rw [registerLine, hcells, ok_bind, pure_eq_ok]
  rfl

theorem dump_eq (machine : Machine) : dump machine = .ok machine.dump := by
  have hlength : machine.memory.toList.length = 4096 := Vector.length_toList
  have hregisters : (List.range 4).mapM (registerLine machine.registers) = .ok (Dump.registers machine.registers) :=
    mapM_eq_ok fun i hi => registerLine_eq machine.registers (List.mem_range.1 hi)
  have hmemory := memoryLines_rows (Nat.le_of_eq hlength) 0
  rw [dump, hregisters, ok_bind, hmemory, ok_bind, pure_eq_ok, ← memory_eq_linesFrom]
  rfl

end Guarded

end Chip8
