import Chip8.Instruction.Encoding

/-!
# Decoding inverts encoding

The digits of an opcode are what masks and shifts cut out of it (`Opcode.family_shiftRight` and its neighbours), and
they determine it (`Opcode.ofAddress_nnn` and its neighbours).  The opcodes that `Opcode.ofAddress`, `Opcode.ofByte`
and `Opcode.ofPair` build have the digits they were built from.  So decoding gives back every instruction that was
encoded, the routines `0E0` and `0EE` apart (`Instruction.decode?_encode`), and the instruction that was decoded
encodes to the same opcode (`Instruction.encode_of_decode?`).  The opcodes without an instruction are those that encode
none (`Instruction.decode?_eq_none_iff`).
-/

namespace Chip8

namespace Opcode

/-! ### Digits as numbers -/

theorem val_family (opcode : Opcode) : opcode.family.val = opcode.toNat / 4096 := by
  have h := opcode.toNat_lt
  simp only [family, Fin.val_ofNat]
  omega

theorem val_x (opcode : Opcode) : opcode.x.val = opcode.toNat / 256 % 16 := rfl

theorem val_y (opcode : Opcode) : opcode.y.val = opcode.toNat / 16 % 16 := rfl

theorem val_n (opcode : Opcode) : opcode.n.val = opcode.toNat % 16 := rfl

theorem val_nnn (opcode : Opcode) : opcode.nnn.val = opcode.toNat % 4096 := rfl

/-! ### Digits by masks and shifts -/

/-- Masking before a shift is masking after it. -/
private theorem toNat_mask_shiftRight (word mask : UInt16) (amount : Nat) :
    ((word &&& mask).toBitVec >>> amount).toNat = word.toNat >>> amount &&& mask.toNat >>> amount := by
  rw [BitVec.toNat_ushiftRight, UInt16.toNat_toBitVec, UInt16.toNat_and, Nat.shiftRight_and_distrib]

private theorem toNat_and_low (word : UInt16) : (word &&& 0x00FF).toNat = word.toNat % 256 :=
  (UInt16.toNat_and word 0x00FF).trans (Nat.and_two_pow_sub_one_eq_mod _ 8)

private theorem toNat_and_address (word : UInt16) : (word &&& 0x0FFF).toNat = word.toNat % 4096 :=
  (UInt16.toNat_and word 0x0FFF).trans (Nat.and_two_pow_sub_one_eq_mod _ 12)

theorem family_shiftRight (opcode : Opcode) :
    ((opcode &&& 0xF000).toBitVec >>> 12).toNat = opcode.family.val := by
  have h := opcode.toNat_lt
  have hmask (a : Nat) : a &&& (0xF000 : UInt16).toNat >>> 12 = a % 2 ^ 4 := Nat.and_two_pow_sub_one_eq_mod a 4
  rw [toNat_mask_shiftRight, hmask, Nat.shiftRight_eq_div_pow, val_family]
  omega

theorem x_shiftRight (opcode : Opcode) :
    ((opcode &&& 0x0FFF &&& 0xFF00).toBitVec >>> 8).toNat = opcode.x.val := by
  have hmask (a : Nat) : a &&& (0xFF00 : UInt16).toNat >>> 8 = a % 2 ^ 8 := Nat.and_two_pow_sub_one_eq_mod a 8
  rw [toNat_mask_shiftRight, hmask, toNat_and_address, Nat.shiftRight_eq_div_pow, val_x]
  omega

theorem y_shiftRight (opcode : Opcode) :
    ((opcode &&& 0x00FF &&& 0xFFF0).toBitVec >>> 4).toNat = opcode.y.val := by
  have hmask (a : Nat) : a &&& (0xFFF0 : UInt16).toNat >>> 4 = a % 2 ^ 12 := Nat.and_two_pow_sub_one_eq_mod a 12
  rw [toNat_mask_shiftRight, hmask, toNat_and_low, Nat.shiftRight_eq_div_pow, val_y]
  omega

theorem n_eq_masked (opcode : Opcode) : (opcode &&& 0x000F).toNat = opcode.n.val :=
  (UInt16.toNat_and opcode 0x000F).trans (Nat.and_two_pow_sub_one_eq_mod _ 4)

theorem nn_eq_masked (opcode : Opcode) : (opcode &&& 0x00FF).toNat = opcode.nn.toNat := by
  rw [toNat_and_low, nn, toNat_lowByte]

theorem nnn_eq_masked (opcode : Opcode) : (opcode &&& 0x0FFF).toNat = opcode.nnn.val :=
  toNat_and_address opcode

/-! ### The digits of a built opcode -/

theorem family_ofAddress {family : Nat} (h : family < 16) (nnn : Address) :
    (ofAddress family nnn).family.val = family := by
  have h' := nnn.isLt
  rw [val_family, toNat_ofAddress h]
  omega

theorem nnn_ofAddress {family : Nat} (h : family < 16) (nnn : Address) : (ofAddress family nnn).nnn = nnn := by
  have h' := nnn.isLt
  apply Fin.ext
  rw [val_nnn, toNat_ofAddress h]
  omega

theorem family_ofByte {family nn : Nat} (h : family < 16) (h' : nn < 256) (x : Register) :
    (ofByte family x nn).family.val = family := by
  have hx := x.isLt
  rw [val_family, toNat_ofByte h h']
  omega

theorem x_ofByte {family nn : Nat} (h : family < 16) (h' : nn < 256) (x : Register) :
    (ofByte family x nn).x = x := by
  have hx := x.isLt
  apply Fin.ext
  rw [val_x, toNat_ofByte h h']
  omega

theorem toNat_nn_ofByte {family nn : Nat} (h : family < 16) (h' : nn < 256) (x : Register) :
    (ofByte family x nn).nn.toNat = nn := by
  have hx := x.isLt
  rw [Opcode.nn, toNat_lowByte, toNat_ofByte h h']
  omega

theorem family_ofPair {family n : Nat} (h : family < 16) (h' : n < 16) (x y : Register) :
    (ofPair family x y n).family.val = family := by
  have hx := x.isLt
  have hy := y.isLt
  rw [val_family, toNat_ofPair h h']
  omega

theorem x_ofPair {family n : Nat} (h : family < 16) (h' : n < 16) (x y : Register) :
    (ofPair family x y n).x = x := by
  have hx := x.isLt
  have hy := y.isLt
  apply Fin.ext
  rw [val_x, toNat_ofPair h h']
  omega

theorem y_ofPair {family n : Nat} (h : family < 16) (h' : n < 16) (x y : Register) :
    (ofPair family x y n).y = y := by
  have hx := x.isLt
  have hy := y.isLt
  apply Fin.ext
  rw [val_y, toNat_ofPair h h']
  omega

theorem val_n_ofPair {family n : Nat} (h : family < 16) (h' : n < 16) (x y : Register) :
    (ofPair family x y n).n.val = n := by
  have hx := x.isLt
  have hy := y.isLt
  rw [val_n, toNat_ofPair h h']
  omega

/-! ### An opcode from its digits -/

theorem ofAddress_nnn {opcode : Opcode} {family : Nat} (h : opcode.family.val = family) :
    ofAddress family opcode.nnn = opcode := by
  apply UInt16.toNat_inj.1
  rw [← h, toNat_ofAddress opcode.family.isLt, val_family, val_nnn]
  omega

theorem ofByte_x_nn {opcode : Opcode} {family : Nat} (h : opcode.family.val = family) :
    ofByte family opcode.x opcode.nn.toNat = opcode := by
  apply UInt16.toNat_inj.1
  rw [← h, toNat_ofByte opcode.family.isLt opcode.nn.toNat_lt, val_family, val_x, nn, toNat_lowByte]
  omega

theorem ofPair_x_y_n {opcode : Opcode} {family : Nat} (h : opcode.family.val = family) :
    ofPair family opcode.x opcode.y opcode.n.val = opcode := by
  apply UInt16.toNat_inj.1
  rw [← h, toNat_ofPair opcode.family.isLt opcode.n.isLt, val_family, val_x, val_y, val_n]
  omega

end Opcode

theorem ArithmeticOp.code_lt (op : ArithmeticOp) : op.code < 16 := by
  cases op <;> decide

namespace Instruction

/-- Decoding gives back an instruction, unless it is one of the two routines that do not exist. -/
theorem decode?_encode {instruction : Instruction} (h₁ : instruction ≠ routine 0x0E0)
    (h₂ : instruction ≠ routine 0x0EE) : decode? instruction.encode = some instruction := by
  cases instruction with
  | routine nnn =>
    have hnnn := Opcode.nnn_ofAddress (show 0x0 < 16 by decide) nnn
    have h₁' : nnn ≠ 0x0E0 := fun e => h₁ (by rw [e])
    have h₂' : nnn ≠ 0x0EE := fun e => h₂ (by rw [e])
    simp [encode, decode?, Opcode.family_ofAddress, hnnn, h₁', h₂']
  | clear | ret => rfl
  | jump nnn | call nnn | setIndex nnn | jumpOffset nnn =>
    simp [encode, decode?, Opcode.family_ofAddress, Opcode.nnn_ofAddress]
  | skipEqual x nn | skipNotEqual x nn | set x nn | add x nn | random x nn =>
    have hnn := nn.toNat_lt
    simp [encode, decode?, Opcode.family_ofByte, Opcode.x_ofByte, hnn, ← UInt8.toNat_inj, Opcode.toNat_nn_ofByte]
  | skipSame x y | skipNotSame x y =>
    simp [encode, decode?, Opcode.family_ofPair, Opcode.x_ofPair, Opcode.y_ofPair, Opcode.val_n_ofPair, Fin.ext_iff]
  | arithmetic op x y =>
    simp [encode, decode?, Opcode.family_ofPair, Opcode.x_ofPair, Opcode.y_ofPair, Opcode.val_n_ofPair, op.code_lt]
  | draw x y n =>
    simp [encode, decode?, Opcode.family_ofPair, Opcode.x_ofPair, Opcode.y_ofPair, Opcode.val_n_ofPair, Fin.ext_iff]
  | skipKeyDown x | skipKeyUp x | readDelay x | awaitKey x | setDelay x | setSound x | addIndex x | indexGlyph x
  | storeDecimal x | storeRegisters x | loadRegisters x =>
    simp [encode, decode?, Opcode.family_ofByte, Opcode.x_ofByte, Opcode.toNat_nn_ofByte]

theorem decode?_encode_of_ne {instruction : Instruction} (h : ∀ nnn, instruction ≠ routine nnn) :
    decode? instruction.encode = some instruction :=
  decode?_encode (h 0x0E0) (h 0x0EE)

/-- An opcode is the encoding of the instruction that it stands for. -/
theorem encode_of_decode? {opcode : Opcode} {instruction : Instruction} (h : decode? opcode = some instruction) :
    instruction.encode = opcode := by
  unfold decode? at h
  split at h
  case h_1 hf =>
    have e := Opcode.ofAddress_nnn hf
    split at h
    · rename_i hn
      cases h
      rwa [hn] at e
    · split at h
      · rename_i hn
        cases h
        rwa [hn] at e
      · cases h
        exact e
  case h_9 hf =>
    have e := Opcode.ofPair_x_y_n hf
    obtain ⟨op, hop, rfl⟩ := Option.map_eq_some_iff.1 h
    rwa [← ArithmeticOp.code_of_ofCode? hop] at e
  case h_6 hf | h_10 hf =>
    have e := Opcode.ofPair_x_y_n hf
    split at h
    · rename_i hn
      cases h
      rwa [hn] at e
    · cases h
  case h_15 hf | h_16 hf =>
    have e := Opcode.ofByte_x_nn hf
    split at h <;> try cases h
    all_goals
      rename_i hnn
      rwa [hnn] at e
  case h_2 hf | h_3 hf | h_11 hf | h_12 hf =>
    cases h
    exact Opcode.ofAddress_nnn hf
  case h_4 hf | h_5 hf | h_7 hf | h_8 hf | h_13 hf =>
    cases h
    exact Opcode.ofByte_x_nn hf
  case h_14 hf =>
    cases h
    exact Opcode.ofPair_x_y_n hf
  case h_17 => cases h

/-- The opcodes without an instruction are those that no instruction is encoded by. -/
theorem decode?_eq_none_iff {opcode : Opcode} :
    decode? opcode = none ↔ ∀ instruction : Instruction, opcode ≠ instruction.encode := by
  constructor
  · rintro h instruction rfl
    by_cases h₁ : instruction = routine 0x0E0
    · subst h₁
      cases h
    · by_cases h₂ : instruction = routine 0x0EE
      · subst h₂
        cases h
      · rw [decode?_encode h₁ h₂] at h
        cases h
  · intro h
    cases hd : decode? opcode with
    | none => rfl
    | some instruction => exact absurd (encode_of_decode? hd).symm (h instruction)

end Instruction

end Chip8
