import Chip8.Proofs.DumpLines
import Chip8.Proofs.Numerals
import Mathlib.Data.List.Basic

/-!
# Dumps tell the machine

What a dump shows can be read back from it: two machines have the same dump only if all that is shown of them is the
same (`Machine.dump_eq_iff`).

Texts are taken apart at a character that does not occur within their parts: a dump at the ends of its lines, the line
of the stack and those of the memory at the blanks, a line of registers at the `V` before each of them.  A gap does not
tell how many rows it stands for.  But each row that is not all zeros is shown with its address
(`Dump.row_mem_collapse`), and the others are known once the size of the memory is (`Dump.bytes_getElem_rows_eq`).
-/

namespace Chip8

namespace Dump

/-! ### Texts and their parts -/

section Parts

variable {mark : Char}

theorem splitOn_ended {parts : List (List Char)} (h : ∀ part ∈ parts, mark ∉ part) :
    (parts.flatMap fun part => part ++ [mark]).splitOn mark = parts ++ [[]] := by
  induction parts with
  | nil => rw [List.flatMap_nil, List.splitOn_nil, List.nil_append]
  | cons part parts ih =>
    obtain ⟨hpart, hparts⟩ := List.forall_mem_cons.1 h
    rw [List.flatMap_cons, List.append_assoc, List.singleton_append,
      List.splitOn_append_cons_self_of_not_mem hpart, ih hparts, List.cons_append]

theorem splitOn_begun {first : List Char} {parts : List (List Char)} (hfirst : mark ∉ first)
    (h : ∀ part ∈ parts, mark ∉ part) :
    (first ++ parts.flatMap fun part => mark :: part).splitOn mark = first :: parts := by
  induction parts generalizing first with
  | nil => rw [List.flatMap_nil, List.append_nil, List.splitOn_eq_singleton hfirst]
  | cons part parts ih =>
    obtain ⟨hpart, hparts⟩ := List.forall_mem_cons.1 h
    rw [List.flatMap_cons, List.cons_append, List.splitOn_append_cons_self_of_not_mem hfirst, ih hpart hparts]

variable {delimiter : String} (hmark : delimiter.toList = [mark])

include hmark

/-- Parts that each end with a mark can be told from their text. -/
theorem join_ended_inj {parts parts' : List String} (h : ∀ part ∈ parts, mark ∉ part.toList)
    (h' : ∀ part ∈ parts', mark ∉ part.toList) :
    String.join (parts.map (· ++ delimiter)) = String.join (parts'.map (· ++ delimiter)) ↔ parts = parts' := by
  have hsplit (parts : List String) (h : ∀ part ∈ parts, mark ∉ part.toList) :
      (String.join (parts.map (· ++ delimiter))).toList.splitOn mark = parts.map String.toList ++ [[]] := by
    rw [← splitOn_ended (by simpa using h), String.toList_join, List.flatMap_map, List.flatMap_map]
    simp only [String.toList_append, hmark]
  constructor
  · intro htext
    have hparts := congrArg (fun text => text.toList.splitOn mark) htext
    rw [hsplit parts h, hsplit parts' h'] at hparts
    exact (List.map_inj_right fun _ _ => String.toList_inj.1).1 (List.append_cancel_right hparts)
  · rintro rfl
    rfl

/-- Parts that each begin with a mark can be told from a text that has them behind a first one. -/
theorem join_begun_inj {first first' : String} {parts parts' : List String} (hfirst : mark ∉ first.toList)
    (hfirst' : mark ∉ first'.toList) (h : ∀ part ∈ parts, mark ∉ part.toList)
    (h' : ∀ part ∈ parts', mark ∉ part.toList) :
    first ++ String.join (parts.map (delimiter ++ ·)) = first' ++ String.join (parts'.map (delimiter ++ ·)) ↔
      first = first' ∧ parts = parts' := by
  have hsplit (first : String) (parts : List String) (hfirst : mark ∉ first.toList)
      (h : ∀ part ∈ parts, mark ∉ part.toList) :
      (first ++ String.join (parts.map (delimiter ++ ·))).toList.splitOn mark =
        first.toList :: parts.map String.toList := by
    rw [← splitOn_begun hfirst (by simpa using h), String.toList_append, String.toList_join, List.flatMap_map,
      List.flatMap_map]
    simp only [String.toList_append, hmark, List.singleton_append]
  constructor
  · intro htext
    have hparts := congrArg (fun text => text.toList.splitOn mark) htext
    rw [hsplit first parts hfirst h, hsplit first' parts' hfirst' h', List.cons_eq_cons] at hparts
    exact ⟨String.toList_inj.1 hparts.1, (List.map_inj_right fun _ _ => String.toList_inj.1).1 hparts.2⟩
  · rintro ⟨rfl, rfl⟩
    rfl

end Parts

/-! ### Numbers -/

theorem byte_inj {value value' : UInt8} : byte value = byte value' ↔ value = value' :=
  Hexadecimal.text_inj.trans UInt8.toNat_inj

theorem word_inj {value value' : UInt16} : word value = word value' ↔ value = value' :=
  Hexadecimal.text_inj.trans UInt16.toNat_inj

theorem decimal_inj {n m : Nat} : n.repr = m.repr ↔ n = m := by
  constructor
  · intro h
    have hvalue := congrArg (fun text => Nat.ofDigitChars 10 text.toList 0) h
    simpa using hvalue
  · rintro rfl
    rfl

@[simp]
theorem newline_notMem_hexadecimal (width n : Nat) : '\n' ∉ (Hexadecimal.text width n).toList :=
  Hexadecimal.notMem_text (by decide) (by decide) width n

@[simp]
theorem blank_notMem_hexadecimal (width n : Nat) : ' ' ∉ (Hexadecimal.text width n).toList :=
  Hexadecimal.notMem_text (by decide) (by decide) width n

@[simp]
theorem newline_notMem_digits (n : Nat) : '\n' ∉ Hexadecimal.digits n :=
  fun h => absurd (Hexadecimal.mem_alphabet_of_mem_digits h) (by decide)

@[simp]
theorem newline_notMem_decimal (n : Nat) : '\n' ∉ Nat.toDigits 10 n :=
  fun h => absurd (Nat.isDigit_of_mem_toDigits (by decide) (by decide) h) (by decide)

/-! ### Registers and the stack -/

/-- The text of a register in its line, behind the `V`. -/
def registerPart (registers : Vector UInt8 16) (k : Nat) : String :=
  String.ofList (Hexadecimal.digits k) ++ (" " ++ (byte (registers.getD k 0) ++ " "))

theorem registerLine_eq_parts (registers : Vector UInt8 16) (first : Nat) :
    registerLine registers first =
      "\t" ++ String.join (((List.range' first 4).map (registerPart registers)).map ("V" ++ ·)) := by
  rw [registerLine, List.map_map]
  simp only [registerPart, Function.comp_def, String.append_assoc]

theorem notMem_registerPart (registers : Vector UInt8 16) (k : Nat) : 'V' ∉ (registerPart registers k).toList := by
  have hdigits : 'V' ∉ Hexadecimal.digits k := fun h => absurd (Hexadecimal.mem_alphabet_of_mem_digits h) (by decide)
  have hbyte : 'V' ∉ (byte (registers.getD k 0)).toList := Hexadecimal.notMem_text (by decide) (by decide) _ _
  simp [registerPart, hdigits, hbyte]

@[simp]
theorem newline_notMem_registerLine (registers : Vector UInt8 16) (first : Nat) :
    '\n' ∉ (registerLine registers first).toList := by
  simp [registerLine, byte]

theorem registerLine_inj {registers registers' : Vector UInt8 16} {first : Nat} :
    registerLine registers first = registerLine registers' first ↔
      ∀ k ∈ List.range' first 4, registers.getD k 0 = registers'.getD k 0 := by
  have hparts (registers : Vector UInt8 16) :
      ∀ part ∈ (List.range' first 4).map (registerPart registers), 'V' ∉ part.toList :=
    List.forall_mem_map.2 fun k _ => notMem_registerPart registers k
  rw [registerLine_eq_parts, registerLine_eq_parts,
    join_begun_inj (show "V".toList = ['V'] by simp) (by simp) (by simp) (hparts registers) (hparts registers'),
    and_iff_right rfl, List.map_inj_left]
  simp only [registerPart, String.append_right_inj, String.append_left_inj, byte_inj]

theorem registers_inj {registers registers' : Vector UInt8 16} :
    Dump.registers registers = Dump.registers registers' ↔ registers = registers' := by
  rw [Dump.registers, Dump.registers, List.map_inj_left]
  constructor
  · intro h
    apply Vector.ext
    intro k hk
    have hline := h (k / 4 * 4) (by simp only [List.mem_cons]; omega)
    have hvalue := registerLine_inj.1 hline k (by rw [List.mem_range'_1]; omega)
    calc registers[k] = registers.getD k 0 := Array.getElem_eq_getD 0
      _ = registers'.getD k 0 := hvalue
      _ = registers'[k] := (Array.getElem_eq_getD 0).symm
  · rintro rfl _ _
    rfl

theorem stack_inj {addresses addresses' : List UInt16} :
    stack addresses = stack addresses' ↔ addresses = addresses' := by
  have htext (addresses : List UInt16) :
      stack addresses = "Stack:" ++ String.join ((addresses.reverse.map word).map (" " ++ ·)) := by
    rw [stack, List.map_map, Function.comp_def]
  have hparts (addresses : List UInt16) : ∀ part ∈ addresses.reverse.map word, ' ' ∉ part.toList :=
    List.forall_mem_map.2 fun address _ => blank_notMem_hexadecimal 4 address.toNat
  rw [htext, htext, join_begun_inj (show " ".toList = [' '] by simp) (by simp) (by simp) (hparts _) (hparts _),
    and_iff_right rfl, List.map_inj_right fun _ _ => word_inj.1, List.reverse_inj]

/-! ### The lines of the memory -/

/-- What blanks set apart in a line, the part before the first blank by itself. -/
def Line.parts : Line → String × List String
  | row shown =>
    ("\t" ++ Hexadecimal.text 4 shown.address,
      "-" :: Hexadecimal.text 4 (shown.address + shown.bytes.length - 1) :: ":" :: shown.bytes.map byte)
  | gap => ("\t...", [])

theorem Line.text_eq_parts (line : Line) :
    line.text = line.parts.1 ++ String.join (line.parts.2.map (" " ++ ·)) := by
  cases line with
  | row shown => simp [text, parts, ← String.toList_inj, String.toList_join, Function.comp_def]
  | gap => rfl

@[simp]
theorem Line.newline_notMem_text (line : Line) : '\n' ∉ line.text.toList := by
  cases line with
  | row shown => simp [text, byte]
  | gap => simp [text]

theorem Line.blank_notMem_parts (line : Line) :
    ' ' ∉ line.parts.1.toList ∧ ∀ part ∈ line.parts.2, ' ' ∉ part.toList := by
  cases line with
  | row shown => simp [parts, byte]
  | gap => simp [parts]

theorem Line.parts_inj {line line' : Line} : line.parts = line'.parts ↔ line = line' := by
  constructor
  · intro h
    cases line with
    | row shown =>
      cases line' with
      | row shown' =>
        obtain ⟨address, bytes⟩ := shown
        obtain ⟨address', bytes'⟩ := shown'
        simp only [parts, Prod.mk.injEq, List.cons.injEq, String.append_right_inj, Hexadecimal.text_inj] at h
        obtain ⟨haddress, -, -, -, hbytes⟩ := h
        rw [haddress, (List.map_inj_right fun _ _ => byte_inj.1).1 hbytes]
      | gap => simp [parts] at h
    | gap =>
      cases line' with
      | row shown' => simp [parts] at h
      | gap => rfl
  · rintro rfl
    rfl

theorem Line.text_inj {line line' : Line} : line.text = line'.text ↔ line = line' := by
  obtain ⟨hfirst, hrest⟩ := line.blank_notMem_parts
  obtain ⟨hfirst', hrest'⟩ := line'.blank_notMem_parts
  rw [line.text_eq_parts, line'.text_eq_parts, join_begun_inj (by simp) hfirst hfirst' hrest hrest', ← Prod.ext_iff,
    parts_inj]

/-! ### Rows and gaps -/

/-- No row is passed over that has a byte other than zero. -/
theorem row_mem_collapse {inGap : Bool} {rows : List Row} {row : Row} (h : row ∈ rows) (hz : ¬row.isZero = true) :
    Line.row row ∈ collapse inGap rows := by
  induction rows generalizing inGap with
  | nil => cases h
  | cons other rest ih =>
    rcases List.mem_cons.1 h with rfl | h
    · rw [collapse, if_neg hz]
      exact List.mem_cons_self
    · rw [collapse]
      split_ifs
      · exact ih h
      all_goals exact List.mem_cons_of_mem _ (ih h)

theorem mem_of_row_mem_collapse {inGap : Bool} {rows : List Row} {row : Row} (h : Line.row row ∈ collapse inGap rows) :
    row ∈ rows := by
  induction rows generalizing inGap with
  | nil => cases h
  | cons other rest ih =>
    rw [collapse] at h
    split_ifs at h
    · exact List.mem_cons_of_mem _ (ih h)
    · exact List.mem_cons_of_mem _ (ih (by simpa using h))
    all_goals
      rcases List.mem_cons.1 h with h | h
      · exact List.mem_cons.2 (.inl (Line.row.inj h))
      · exact List.mem_cons_of_mem _ (ih h)

theorem bytes_getElem_rows (address : Nat) (bytes : List UInt8) {i : Nat} (h : i < (rows address bytes).length) :
    (rows address bytes)[i].bytes = (bytes.drop (i * rowSize)).take rowSize := by
  fun_induction rows address bytes generalizing i with
  | case1 => exact absurd h (Nat.not_lt_zero i)
  | case2 address byte rest ih =>
    cases i with
    | zero => rfl
    | succ i =>
      have hdrop : (i + 1) * rowSize = rowSize - 1 + i * rowSize + 1 := by
        rw [rowSize]
        omega
      rw [List.getElem_cons_succ, ih, List.drop_drop, hdrop, List.drop_succ_cons]

theorem Row.isZero_iff {row : Row} : row.isZero = true ↔ row.bytes = List.replicate row.bytes.length 0 := by
  simp [Row.isZero, List.eq_replicate_iff]

/-- A row with a byte other than zero is the same in all memories that are shown by the same lines. -/
theorem getElem_rows_eq {bytes bytes' : List UInt8}
    (h : collapse false (rows 0 bytes) = collapse false (rows 0 bytes')) {i : Nat} (hi : i < (rows 0 bytes).length)
    (hi' : i < (rows 0 bytes').length) (hz : ¬(rows 0 bytes)[i].isZero = true) :
    (rows 0 bytes)[i] = (rows 0 bytes')[i] := by
  have hline : Line.row (rows 0 bytes)[i] ∈ collapse false (rows 0 bytes') := by
    rw [← h]
    exact row_mem_collapse (List.getElem_mem hi) hz
  obtain ⟨j, hj, hrow⟩ := List.mem_iff_getElem.1 (mem_of_row_mem_collapse hline)
  have haddress := congrArg Row.address hrow
  rw [address_getElem_rows, address_getElem_rows, rowSize] at haddress
  obtain rfl : j = i := by omega
  exact hrow.symm

/-- The rows that a gap hides are known too: they are as many as the size leaves room for, and all zeros. -/
theorem bytes_getElem_rows_eq {bytes bytes' : List UInt8} (hlength : bytes.length = bytes'.length)
    (h : collapse false (rows 0 bytes) = collapse false (rows 0 bytes')) {i : Nat} (hi : i < (rows 0 bytes).length)
    (hi' : i < (rows 0 bytes').length) : (rows 0 bytes)[i].bytes = (rows 0 bytes')[i].bytes := by
  by_cases hz : (rows 0 bytes)[i].isZero = true
  · by_cases hz' : (rows 0 bytes')[i].isZero = true
    · have hsize : (rows 0 bytes)[i].bytes.length = (rows 0 bytes')[i].bytes.length := by
        rw [bytes_getElem_rows, bytes_getElem_rows, List.length_take, List.length_take, List.length_drop,
          List.length_drop, hlength]
      rw [Row.isZero_iff.1 hz, Row.isZero_iff.1 hz', hsize]
    · rw [getElem_rows_eq h.symm hi' hi hz']
  · rw [getElem_rows_eq h hi hi' hz]

/-- Memories of one size can be told from their lines. -/
theorem memory_inj {bytes bytes' : List UInt8} (hlength : bytes.length = bytes'.length) :
    memory bytes = memory bytes' ↔ bytes = bytes' := by
  rw [memory, memory, List.map_inj_right fun _ _ => Line.text_inj.1]
  constructor
  · intro h
    have hrows : (rows 0 bytes).map Row.bytes = (rows 0 bytes').map Row.bytes := by
      apply List.ext_getElem (by rw [List.length_map, List.length_map, length_rows, length_rows, hlength])
      intro i hi hi'
      rw [List.length_map] at hi hi'
      rw [List.getElem_map, List.getElem_map]
      exact bytes_getElem_rows_eq hlength h hi hi'
    rw [← flatMap_rows 0 bytes, ← flatMap_rows 0 bytes', List.flatMap_def, List.flatMap_def, hrows]
  · rintro rfl
    rfl

end Dump

namespace Machine

theorem newline_notMem_dumpLines (machine : Machine) : ∀ line ∈ machine.dumpLines, '\n' ∉ line.toList := by
  simp [dumpLines, Dump.registers, Dump.memory, Dump.word, Dump.stack]

theorem dumpLines_inj {machine other : Machine} : machine.dump = other.dump ↔ machine.dumpLines = other.dumpLines :=
  Dump.join_ended_inj (show "\n".toList = ['\n'] by simp) machine.newline_notMem_dumpLines
    other.newline_notMem_dumpLines

/-- The dumps of two machines are equal exactly if counters, indices, timers, registers, stacks and memories are. -/
theorem dump_eq_iff (machine other : Machine) :
    machine.dump = other.dump ↔
      machine.counter = other.counter ∧ machine.index = other.index ∧ machine.delay = other.delay ∧
        machine.sound = other.sound ∧ machine.registers = other.registers ∧ machine.stack = other.stack ∧
        machine.memory = other.memory := by
  have hregisters : (Dump.registers machine.registers).length = (Dump.registers other.registers).length := rfl
  have hmemory : machine.memory.toList.length = other.memory.toList.length := by
    rw [Vector.length_toList, Vector.length_toList]
  have htimer {timer timer' : Timer} : timer.value.toNat.repr = timer'.value.toNat.repr ↔ timer = timer' := by
    rw [Dump.decimal_inj, UInt8.toNat_inj, Timer.mk.injEq]
  rw [dumpLines_inj, dumpLines, dumpLines]
  simp only [List.cons_append, List.nil_append, List.append_assoc, List.cons.injEq, true_and, String.append_right_inj,
    List.append_eq_append_iff_of_size_eq_left hregisters, Dump.word_inj, htimer, Dump.registers_inj, Dump.stack_inj,
    Dump.memory_inj hmemory, Vector.toList_inj]

end Machine

end Chip8
