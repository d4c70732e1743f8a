import Chip8.Text.Hexadecimal
import Mathlib.Data.List.GetD

/-!
# Numbers told by their text

`Hexadecimal.value` reads digits as a number.  It gives back the number whose digits were written
(`Hexadecimal.value_digits`), whatever zeros stand in front, so different numbers have different texts.  The characters
of a text are those of the alphabet and the `x` of its opening.
-/

namespace Chip8.Hexadecimal

/-- The number that the digits stand for, the most significant one first. -/
def value (digits : List Char) : Nat := digits.foldl (fun n digit => n * 16 + alphabet.idxOf digit) 0

theorem idxOf_digit {n : Nat} (h : n < 16) : alphabet.idxOf (digit n) = n :=
  (show ∀ n : Fin 16, alphabet.idxOf (digit n.val) = n.val by decide) ⟨n, h⟩

theorem value_append_singleton (digits : List Char) (digit : Char) :
    value (digits ++ [digit]) = value digits * 16 + alphabet.idxOf digit := by
  rw [value, List.foldl_append]
  rfl

theorem value_digits (n : Nat) : value (digits n) = n := by
  fun_induction digits n with
  | case1 n h =>
    change 0 * 16 + alphabet.idxOf (digit n) = n
    rw [idxOf_digit h]
    omega
  | case2 n h ih =>
    rw [value_append_singleton, ih, idxOf_digit (by omega)]
    omega

/-- Zeros in front do not count. -/
theorem value_zeros_append (k : Nat) (digits : List Char) : value (List.replicate k '0' ++ digits) = value digits := by
  induction k with
  | zero => rfl
  | succ k ih =>
    rw [List.replicate_succ, List.cons_append]
    exact ih

theorem text_inj {width n m : Nat} : text width n = text width m ↔ n = m := by
  constructor
  · intro h
    have hdigits := String.ofList_inj.1 ((String.append_right_inj "0x").1 h)
    have hvalue := congrArg value hdigits
    rwa [List.leftpad, List.leftpad, value_zeros_append, value_zeros_append, value_digits, value_digits] at hvalue
  · rintro rfl
    rfl

/-! ### The characters of a text -/

theorem digit_mem_alphabet (n : Nat) : digit n ∈ alphabet := by
  by_cases h : n < alphabet.length
  · rw [digit, List.getD_eq_getElem _ _ h]
    exact List.getElem_mem h
  · rw [digit, List.getD_eq_default _ _ (Nat.not_lt.1 h)]
    decide

theorem mem_alphabet_of_mem_digits {n : Nat} {c : Char} (h : c ∈ digits n) : c ∈ alphabet := by
  fun_induction digits n with
  | case1 n =>
    rw [List.mem_singleton.1 h]
    exact digit_mem_alphabet n
  | case2 n _ ih =>
    rcases List.mem_append.1 h with h | h
    · exact ih h
    · rw [List.mem_singleton.1 h]
      exact digit_mem_alphabet _

theorem notMem_text {c : Char} (hx : c ≠ 'x') (hc : c ∉ alphabet) (width n : Nat) : c ∉ (text width n).toList := by
  have hzero : c ≠ '0' := fun h => hc (h ▸ by decide)
  intro h
  simp only [text, String.toList_append, String.toList_ofList, List.leftpad, List.mem_append, List.mem_replicate] at h
  rcases h with h | ⟨-, h⟩ | h
  · simp [hx, hzero] at h
  · exact hzero h
  · exact hc (mem_alphabet_of_mem_digits h)

end Chip8.Hexadecimal
