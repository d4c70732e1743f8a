import Chip8.Proofs.DumpReading
import Mathlib.Data.List.Chain

/-!
# What the lines of a memory show

The lines of a memory of any size, told by its bytes alone: rows of sixteen bytes, the last of which may be shorter, and
for two or more blank rows in succession, as many as there are, one line with dots (`Dump.Shows`).  The loop that writes
the lines keeps to it (`Dump.mem_printedFrom`): it never stands in the middle of a run of blank rows, so the run that it
finds from there on is a whole one.
-/

namespace Chip8.Dump

/-! ### Runs -/

/-- The `length` places from `first` on have the property, and the places next to them do not. -/
structure MaximalRun (p : Nat → Prop) (first length : Nat) : Prop where
  holds : ∀ k < length, p (first + k)
  before : ∀ i, first = i + 1 → ¬p i
  behind : ¬p (first + length)

/-- The place belongs to a run of two or more. -/
def InLongRun (p : Nat → Prop) (i : Nat) : Prop :=
  ∃ first length, MaximalRun p first length ∧ 2 ≤ length ∧ first ≤ i ∧ i < first + length

section Runs

variable {p : Nat → Prop} {first length i : Nat}

/-- A place that nothing comes before is the first one of its run. -/
theorem MaximalRun.first_eq (h : MaximalRun p first length) (hle : first ≤ i) (hlt : i < first + length)
    (hb : ∀ j, i = j + 1 → ¬p j) : first = i := by
  by_contra hne
  obtain ⟨j, rfl⟩ : ∃ j, i = j + 1 := ⟨i - 1, by omega⟩
  have hj := h.holds (j - first) (by omega)
  rw [Nat.add_sub_cancel' (by omega)] at hj
  exact hb j rfl hj

theorem MaximalRun.not_inLongRun (h : MaximalRun p i length) (hlt : length < 2) : ¬InLongRun p i := by
  rintro ⟨first, length', hrun, hlong, hle, hi⟩
  obtain rfl := hrun.first_eq hle hi h.before
  exact h.behind (hrun.holds length (by omega))

theorem MaximalRun.not_succ (h : MaximalRun p i length) (hlt : length < 2) (hi : p i) : ¬p (i + 1) := by
  obtain rfl | rfl : length = 0 ∨ length = 1 := by omega
  · exact absurd hi h.behind
  · exact h.behind

theorem not_inLongRun_of_not (h : ¬p i) : ¬InLongRun p i := by
  rintro ⟨first, length, hrun, -, hle, hi⟩
  have hp := hrun.holds (i - first) (by omega)
  rw [Nat.add_sub_cancel' hle] at hp
  exact h hp

end Runs

theorem any_getElem?_of_lt_takeWhile {α : Type} {p : α → Bool} {values : List α} {k : Nat}
    (h : k < (values.takeWhile p).length) : values[k]?.any p = true := by
  induction values generalizing k with
  | nil => exact absurd h (Nat.not_lt_zero k)
  | cons value rest ih =>
    by_cases hp : p value = true
    · rw [List.takeWhile_cons_of_pos hp] at h
      cases k with
      | zero => exact hp
      | succ k => exact ih (Nat.lt_of_succ_lt_succ h)
    · rw [List.takeWhile_cons_of_neg hp] at h
      exact absurd h (Nat.not_lt_zero k)

theorem any_getElem?_length_takeWhile {α : Type} (p : α → Bool) (values : List α) :
    values[(values.takeWhile p).length]?.any p = false := by
  induction values with
  | nil => rfl
  | cons value rest ih =>
    by_cases hp : p value = true
    · rw [List.takeWhile_cons_of_pos hp]
      exact ih
    · rw [List.takeWhile_cons_of_neg hp]
      exact Bool.not_eq_true _ ▸ hp

theorem any_getElem?_of_lt_zeroRun {rows : List Row} {i k : Nat} (h : k < zeroRun rows i) :
    rows[i + k]?.any Row.isZero = true := by
  rw [← List.getElem?_drop]
  exact any_getElem?_of_lt_takeWhile h

/-- From a place that does not continue a run, the rows of zeros that follow are a whole one. -/
theorem maximalRun_zeroRun {rows : List Row} {p : Nat → Prop} (hp : ∀ i, p i ↔ rows[i]?.any Row.isZero = true)
    {i : Nat} (hb : ∀ j, i = j + 1 → ¬p j) : MaximalRun p i (zeroRun rows i) where
  holds _ hk := (hp _).2 (any_getElem?_of_lt_zeroRun hk)
  before := hb
  behind := by
    rw [hp, ← List.getElem?_drop, zeroRun, any_getElem?_length_takeWhile]
    exact Bool.false_ne_true

/-! ### Rows -/

/-- The bytes of row `i`. -/
def rowBytes (bytes : List UInt8) (i : Nat) : List UInt8 := (bytes.drop (16 * i)).take 16

/-- There is a row `i`, and it has no byte but zeros. -/
def Blank (bytes : List UInt8) (i : Nat) : Prop := 16 * i < bytes.length ∧ ∀ value ∈ rowBytes bytes i, value = 0

/-- The line of row `i`, with the addresses of its first and last byte. -/
def rowText (bytes : List UInt8) (i : Nat) : String :=
  "\t" ++ Hexadecimal.text 4 (16 * i) ++ " - " ++ Hexadecimal.text 4 (min (16 * i + 16) bytes.length - 1) ++ " :"
    ++ String.join ((rowBytes bytes i).map fun value => " " ++ Hexadecimal.text 2 value.toNat)

/-- The lines that belong to a memory, by the rows that they begin at. -/
inductive Shows (bytes : List UInt8) : Nat → String → Prop
  | gap {first length : Nat} (run : MaximalRun (Blank bytes) first length) (long : 2 ≤ length) :
      Shows bytes first "\t..."
  | row {i : Nat} (inside : 16 * i < bytes.length) (alone : ¬InLongRun (Blank bytes) i) :
      Shows bytes i (rowText bytes i)

theorem lt_length_rows_iff {bytes : List UInt8} {i : Nat} : i < (rows 0 bytes).length ↔ 16 * i < bytes.length := by
  rw [length_rows]
  omega

theorem getElem_rows {bytes : List UInt8} {i : Nat} (h : i < (rows 0 bytes).length) :
    (rows 0 bytes)[i] = ⟨16 * i, rowBytes bytes i⟩ := by
  have hsize : i * rowSize = 16 * i := Nat.mul_comm i 16
  have haddress := address_getElem_rows 0 bytes h
  have hbytes := bytes_getElem_rows 0 bytes h
  rw [hsize, Nat.zero_add] at haddress
  rw [hsize] at hbytes
  calc (rows 0 bytes)[i] = ⟨(rows 0 bytes)[i].address, (rows 0 bytes)[i].bytes⟩ := rfl
    _ = ⟨16 * i, rowBytes bytes i⟩ := by
      rw [haddress, hbytes]
      rfl

theorem text_row {bytes : List UInt8} {i : Nat} (h : 16 * i < bytes.length) :
    (Line.row ⟨16 * i, rowBytes bytes i⟩).text = rowText bytes i := by
  have hlast : 16 * i + (rowBytes bytes i).length - 1 = min (16 * i + 16) bytes.length - 1 := by
    rw [rowBytes, List.length_take, List.length_drop]
    omega
  rw [Line.text, hlast]
  rfl

theorem blank_iff {bytes : List UInt8} {i : Nat} : Blank bytes i ↔ (rows 0 bytes)[i]?.any Row.isZero = true := by
  rw [Blank, ← lt_length_rows_iff]
  by_cases h : i < (rows 0 bytes).length
  · simp [h, getElem_rows, Row.isZero]
  · simp [h]

namespace Shows

variable {bytes : List UInt8} {i j length : Nat} {text : String}

theorem inside (h : Shows bytes i text) : 16 * i < bytes.length := by
  cases h with
  | gap run long => exact (run.holds 0 (by omega)).1
  | row inside alone => exact inside

/-- A run of blank rows has one line. -/
theorem iff_of_run (hrun : MaximalRun (Blank bytes) i length) (hlong : 2 ≤ length) (hle : i ≤ j)
    (hlt : j < i + length) : Shows bytes j text ↔ j = i ∧ text = "\t..." := by
  constructor
  · intro h
    cases h with
    | gap run long => exact ⟨(hrun.first_eq hle hlt run.before).symm, rfl⟩
    | row inside alone => exact absurd ⟨i, length, hrun, hlong, hle, hlt⟩ alone
  · rintro ⟨rfl, rfl⟩
    exact .gap hrun hlong

theorem iff_of_alone (hinside : 16 * i < bytes.length) (halone : ¬InLongRun (Blank bytes) i) :
    Shows bytes i text ↔ text = rowText bytes i := by
  constructor
  · intro h
    cases h with
    | gap run long => exact absurd ⟨i, _, run, long, Nat.le_refl i, by omega⟩ halone
    | row inside alone => rfl
  · rintro rfl
    exact .row hinside halone

/-- If one line is all that belongs to some rows, what is to be shown from the first of them on is this line and what is
to be shown behind them. -/
theorem from_iff {line : String} {n : Nat} (hlt : i < n)
    (h : ∀ j text, i ≤ j → j < n → (Shows bytes j text ↔ j = i ∧ text = line)) :
    (j = i ∧ text = line ∨ n ≤ j ∧ Shows bytes j text) ↔ i ≤ j ∧ Shows bytes j text := by
  constructor
  · rintro (⟨rfl, rfl⟩ | ⟨hle, hshows⟩)
    · exact ⟨Nat.le_refl j, (h j text (Nat.le_refl j) hlt).2 ⟨rfl, rfl⟩⟩
    · exact ⟨by omega, hshows⟩
  · rintro ⟨hle, hshows⟩
    by_cases hn : n ≤ j
    · exact .inr ⟨hn, hshows⟩
    · exact .inl ((h j text hle (Nat.not_le.1 hn)).1 hshows)

end Shows

/-! ### The loop -/

/-- The lines from row `i` on, by the rows that they begin at. -/
def printedFrom (bytes : List UInt8) (i : Nat) : List (Nat × String) :=
  (linesFrom (rows 0 bytes) i).map fun entry => (entry.1, entry.2.text)

theorem map_snd_printedFrom (bytes : List UInt8) : (printedFrom bytes 0).map Prod.snd = memory bytes := by
  rw [printedFrom, List.map_map, memory_eq_linesFrom]
  rfl

/-- The loop that stands at a row, but not in the middle of a run, writes what is to be shown from there on. -/
theorem mem_printedFrom {bytes : List UInt8} {i j : Nat} {text : String}
    (hb : ∀ k, i = k + 1 → Blank bytes k → ¬Blank bytes i) :
    (j, text) ∈ printedFrom bytes i ↔ i ≤ j ∧ Shows bytes j text := by
  have hblank := @blank_iff bytes
  have hinside := @lt_length_rows_iff bytes
  have hrow := @getElem_rows bytes
  rw [printedFrom]
  generalize rows 0 bytes = rows at hblank hinside hrow ⊢
  have hrun {i : Nat} (hb : ∀ k, i = k + 1 → Blank bytes k → ¬Blank bytes i) (hi : Blank bytes i) :
      MaximalRun (Blank bytes) i (zeroRun rows i) :=
    maximalRun_zeroRun (fun _ => hblank) fun k hk hp => hb k hk hp hi
  fun_induction linesFrom rows i with
  | case1 i h hlong ih =>
    have hstart := hrun hb (hblank.2 (any_getElem?_of_lt_zeroRun (Nat.lt_of_lt_of_le Nat.zero_lt_two hlong)))
    have hrest : _ ↔ i + zeroRun rows i ≤ j ∧ Shows bytes j text := ih fun _ _ _ => hstart.behind
    rw [List.map_cons, List.mem_cons, hrest, Prod.mk.injEq]
    exact Shows.from_iff (by omega) fun _ _ => Shows.iff_of_run hstart hlong
  | case2 i h hshort ih =>
    have hlt : zeroRun rows i < 2 := Nat.not_le.1 hshort
    have halone : ¬InLongRun (Blank bytes) i := by
      by_cases hi : Blank bytes i
      · exact (hrun hb hi).not_inLongRun hlt
      · exact not_inLongRun_of_not hi
    have hnext : ∀ k, i + 1 = k + 1 → Blank bytes k → ¬Blank bytes (i + 1) := by
      intro k hk hi
      obtain rfl := Nat.succ.inj hk
      exact (hrun hb hi).not_succ hlt hi
    have hrest : _ ↔ i + 1 ≤ j ∧ Shows bytes j text := ih hnext
    rw [List.map_cons, List.mem_cons, hrest, Prod.mk.injEq, hrow h, text_row (hinside.1 h)]
    refine Shows.from_iff (Nat.lt_succ_self i) fun k other hle hlt => ?_
    obtain rfl : k = i := by omega
    rw [and_iff_right rfl]
    exact Shows.iff_of_alone (hinside.1 h) halone
  | case3 i h =>
    refine iff_of_false (List.not_mem_nil) ?_
    rintro ⟨hle, hshows⟩
    have hlt := hinside.2 hshows.inside
    omega

theorem le_of_mem_linesFrom {rows : List Row} {i : Nat} {entry : Nat × Line} (h : entry ∈ linesFrom rows i) :
    i ≤ entry.1 := by
  fun_induction linesFrom rows i with
  | case1 i _ _ ih | case2 i _ _ ih =>
    rcases List.mem_cons.1 h with rfl | h
    · exact Nat.le_refl i
    · have hle := ih h
      omega
  | case3 i _ => cases h

theorem pairwise_printedFrom (bytes : List UInt8) (i : Nat) :
    ((printedFrom bytes i).map Prod.fst).Pairwise (· < ·) := by
  rw [printedFrom, List.map_map]
  generalize rows 0 bytes = rows
  fun_induction linesFrom rows i with
  | case1 i _ _ ih | case2 i _ _ ih =>
    refine List.pairwise_cons.2 ⟨List.forall_mem_map.2 fun entry he => ?_, ih⟩
    have hle := le_of_mem_linesFrom he
    change i < entry.1
    omega
  | case3 i _ => exact .nil

/-! ### Gaps and single rows -/

/-- Behind a gap there is a row. -/
theorem head?_collapse_true (rows : List Row) : (collapse true rows).head? ≠ some .gap := by
  induction rows with
  | nil => simp [collapse]
  | cons row rest ih =>
    by_cases hz : row.isZero = true
    · rwa [collapse, if_pos hz, if_pos rfl]
    · simp [collapse, hz]

theorem isChain_collapse (inGap : Bool) (rows : List Row) :
    (collapse inGap rows).IsChain fun line next => ¬(line = .gap ∧ next = .gap) := by
  induction rows generalizing inGap with
  | nil => exact .nil
  | cons row rest ih =>
    rw [collapse]
    split_ifs
    · exact ih true
    · refine (ih true).cons fun next hnext h => head?_collapse_true rest ?_
      rw [← h.2]
      exact hnext
    all_goals exact (ih false).cons fun _ _ h => Line.noConfusion h.1

theorem eq_of_shows_rowText {bytes : List UInt8} {i j : Nat} {text : String} (hinside : 16 * i < bytes.length)
    (h : Shows bytes j text) (ht : text = rowText bytes i) : j = i := by
  rw [← text_row hinside] at ht
  cases h with
  | gap run long => cases Line.text_inj.1 (show Line.gap.text = _ from ht)
  | row inside alone =>
    rw [← text_row inside, Line.text_inj] at ht
    have haddress : 16 * j = 16 * i := congrArg Row.address (Line.row.inj ht)
    omega

theorem nodup_printedFrom (bytes : List UInt8) (i : Nat) : (printedFrom bytes i).Nodup := by
  refine (List.pairwise_map.1 (pairwise_printedFrom bytes i)).imp ?_
  rintro entry _ hlt rfl
  exact Nat.lt_irrefl _ hlt

/-- A row outside of the gaps is written once. -/
theorem count_rowText {bytes : List UInt8} {i : Nat} (hinside : 16 * i < bytes.length)
    (halone : ¬InLongRun (Blank bytes) i) : (memory bytes).count (rowText bytes i) = 1 := by
  have hmem {j : Nat} {text : String} : (j, text) ∈ printedFrom bytes 0 ↔ 0 ≤ j ∧ Shows bytes j text :=
    mem_printedFrom fun k hk => absurd hk.symm (Nat.succ_ne_zero k)
  have honly : ∀ entry ∈ printedFrom bytes 0, entry.2 == rowText bytes i ↔ entry == (i, rowText bytes i) := by
    rintro ⟨j, text⟩ he
    simp only [beq_iff_eq, Prod.mk.injEq]
    constructor
    · intro ht
      exact ⟨eq_of_shows_rowText hinside (hmem.1 he).2 ht, ht⟩
    · exact And.right
  calc (memory bytes).count (rowText bytes i)
      = (printedFrom bytes 0).countP fun entry => entry.2 == rowText bytes i := by
        rw [← map_snd_printedFrom, List.count_eq_countP, List.countP_map]
        rfl
    _ = (printedFrom bytes 0).count (i, rowText bytes i) := List.countP_congr honly
    _ = 1 := by rw [(nodup_printedFrom bytes 0).count, if_pos (hmem.2 ⟨Nat.zero_le i, .row hinside halone⟩)]

theorem getElem?_rowBytes (bytes : List UInt8) (a : Nat) : (rowBytes bytes (a / 16))[a % 16]? = bytes[a]? := by
  rw [rowBytes, List.getElem?_take_of_lt (Nat.mod_lt a (by decide)), List.getElem?_drop, Nat.div_add_mod]

/-- The loop over the rows of a memory of any size writes its lines in ascending order, and these are the ones that
belong to it: one with dots for two or more blank rows in succession, and one for each other row, with its addresses and
all its bytes.  So no two lines with dots are neighbours, a byte other than zero is written once, in the row of its
address, and so is a blank row by itself. -/
theorem memory_shows (bytes : List UInt8) :
    ((printedFrom bytes 0).map Prod.snd = memory bytes ∧ ((printedFrom bytes 0).map Prod.fst).Pairwise (· < ·) ∧
      ∀ i text, (i, text) ∈ printedFrom bytes 0 ↔ Shows bytes i text) ∧
    ((memory bytes).IsChain fun line next => ¬(line = "\t..." ∧ next = "\t...")) ∧
    (∀ (a : Nat) (value : UInt8), bytes[a]? = some value → value ≠ 0 →
      (memory bytes).count (rowText bytes (a / 16)) = 1 ∧ (rowBytes bytes (a / 16))[a % 16]? = some value) ∧
    ∀ i, MaximalRun (Blank bytes) i 1 → (memory bytes).count (rowText bytes i) = 1 := by
  refine ⟨⟨map_snd_printedFrom bytes, pairwise_printedFrom bytes 0, ?_⟩, ?gaps, ?bytes, ?single⟩
  · intro i text
    rw [mem_printedFrom fun k hk => absurd hk.symm (Nat.succ_ne_zero k), and_iff_right (Nat.zero_le i)]
  case gaps =>
    rw [memory, List.isChain_map]
    refine (isChain_collapse false (rows 0 bytes)).imp fun line next h => ?_
    rintro ⟨hline, hnext⟩
    exact h ⟨Line.text_inj.1 hline, Line.text_inj.1 hnext⟩
  case bytes =>
    intro a value ha hne
    have hrow : (rowBytes bytes (a / 16))[a % 16]? = some value := (getElem?_rowBytes bytes a).trans ha
    obtain ⟨hlt, -⟩ := List.getElem?_eq_some_iff.1 ha
    have hblank : ¬Blank bytes (a / 16) := fun h => hne (h.2 value (List.mem_of_getElem? hrow))
    exact ⟨count_rowText (by omega) (not_inLongRun_of_not hblank), hrow⟩
  case single =>
    intro i hrun
    exact count_rowText (hrun.holds 0 Nat.zero_lt_one).1 (hrun.not_inLongRun Nat.one_lt_two)

/-- Three blank rows between one with a byte and a short last one. -/
example : memory (1 :: List.replicate 63 0 ++ [2]) =
    ["\t0x0000 - 0x000F : 0x01 0x00 0x00 0x00 0x00 0x00 0x00 0x00 0x00 0x00 0x00 0x00 0x00 0x00 0x00 0x00", "\t...",
      "\t0x0040 - 0x0040 : 0x02"] := by
  decide +kernel

end Chip8.Dump
