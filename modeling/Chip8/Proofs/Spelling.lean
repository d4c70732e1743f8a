import Chip8.Instruction.Text
import Chip8.Proofs.Encoding

/-!
# Spelling

How an opcode is spelled, told from its digits: five tables have the names, by the family and the digits that select
among a family, and the other digits are the fields, in decimal.  `Opcode.Spelled` puts the two together.  An opcode
that stands for an instruction has the text of the instruction as its one spelling, and others have none
(`Opcode.spelled_iff`).
-/

namespace Chip8

namespace Opcode

/-- The families that have an address. -/
def addressNames : List (Nat × String) := [(0x1, "Jump"), (0x2, "Call"), (0xA, "SetIndex"), (0xB, "JumpOffset")]

/-- The families that have a register and a byte. -/
def byteNames : List (Nat × String) :=
  [(0x3, "SkipEqual"), (0x4, "SkipNotEqual"), (0x6, "Set"), (0x7, "Add"), (0xC, "Random")]

/-- The families that have two registers and end in zero. -/
def pairNames : List (Nat × String) := [(0x5, "SkipRegistersEqual"), (0x9, "SkipRegistersNotEqual")]

/-- The last digits within family `8`. -/
def operationNames : List (Nat × String) :=
  [(0x0, "Assign"), (0x1, "Or"), (0x2, "And"), (0x3, "Xor"), (0x4, "AddCarry"), (0x5, "SubBorrow"),
    (0x6, "ShiftRight"), (0x7, "SubReverse"), (0xE, "ShiftLeft")]

/-- The last two digits within the families `E` and `F`, which have a register. -/
def registerNames : List (Nat × Nat × String) :=
  [(0xE, 0x9E, "SkipKeyPressed"), (0xE, 0xA1, "SkipKeyNotPressed"), (0xF, 0x07, "GetDelayTimer"),
    (0xF, 0x0A, "AwaitKeyPress"), (0xF, 0x15, "SetDelayTimer"), (0xF, 0x18, "SetSoundTimer"),
    (0xF, 0x1E, "AddIndex"), (0xF, 0x29, "SetIndexToSprite"), (0xF, 0x33, "StoreBcd"),
    (0xF, 0x55, "StoreRegisters"), (0xF, 0x65, "LoadRegisters")]

inductive Spelled : Opcode → String → Prop
  | clear : Spelled 0x00E0 "Clear"
  | ret : Spelled 0x00EE "Return"
  | routine {nnn : Address} (hclear : nnn ≠ 0x0E0) (hret : nnn ≠ 0x0EE) :
      Spelled (ofAddress 0x0 nnn) ("System" ++ " \x7b nnn: " ++ nnn.val.repr ++ " \x7d")
  | address {family : Nat} {name : String} (h : (family, name) ∈ addressNames) (nnn : Address) :
      Spelled (ofAddress family nnn) (name ++ " \x7b nnn: " ++ nnn.val.repr ++ " \x7d")
  | byte {family : Nat} {name : String} (h : (family, name) ∈ byteNames) (x : Register) (nn : UInt8) :
      Spelled (ofByte family x nn.toNat) (name ++ " \x7b x: " ++ x.val.repr ++ ", nn: " ++ nn.toNat.repr ++ " \x7d")
  | pair {family : Nat} {name : String} (h : (family, name) ∈ pairNames) (x y : Register) :
      Spelled (ofPair family x y 0) (name ++ " \x7b x: " ++ x.val.repr ++ ", y: " ++ y.val.repr ++ " \x7d")
  | arithmetic {code : Nat} {ops : String} (h : (code, ops) ∈ operationNames) (x y : Register) :
      Spelled (ofPair 0x8 x y code)
        ("Arithmetic" ++ " \x7b ops: " ++ ops ++ ", x: " ++ x.val.repr ++ ", y: " ++ y.val.repr ++ " \x7d")
  | draw (x y : Register) (n : Fin 16) :
      Spelled (ofPair 0xD x y n.val)
        ("Draw" ++ " \x7b x: " ++ x.val.repr ++ ", y: " ++ y.val.repr ++ ", n: " ++ n.val.repr ++ " \x7d")
  | register {family code : Nat} {name : String} (h : (family, code, name) ∈ registerNames) (x : Register) :
      Spelled (ofByte family x code) (name ++ " \x7b x: " ++ x.val.repr ++ " \x7d")

end Opcode

/-! ### Fields -/

namespace Instruction

section Fields

variable {name opening second third field other another a b c : String}
  (ho : " \x7b " ++ field ++ ": " = opening)

include ho

private theorem fields_one : Term.fields name [(field, a)] = name ++ opening ++ a ++ " \x7d" := by
  subst ho
  show name ++ " \x7b " ++ (field ++ ": " ++ a) ++ " \x7d" = _
  simp only [String.append_assoc]

private theorem fields_two (hs : ", " ++ other ++ ": " = second) :
    Term.fields name [(field, a), (other, b)] = name ++ opening ++ a ++ second ++ b ++ " \x7d" := by
  subst ho hs
  show name ++ " \x7b " ++ (field ++ ": " ++ a ++ ", " ++ (other ++ ": " ++ b)) ++ " \x7d" = _
  simp only [String.append_assoc]

private theorem fields_three (hs : ", " ++ other ++ ": " = second) (ht : ", " ++ another ++ ": " = third) :
    Term.fields name [(field, a), (other, b), (another, c)] =
      name ++ opening ++ a ++ second ++ b ++ third ++ c ++ " \x7d" := by
  subst ho hs ht
  show name ++ " \x7b " ++
    (field ++ ": " ++ a ++ ", " ++ (other ++ ": " ++ b) ++ ", " ++ (another ++ ": " ++ c)) ++ " \x7d" = _
  simp only [String.append_assoc]

end Fields

theorem fields_nnn (name : String) (nnn : Address) :
    Term.fields name [Operand.nnn nnn] = name ++ " \x7b nnn: " ++ nnn.val.repr ++ " \x7d" :=
  fields_one (by decide)

theorem fields_x (name : String) (x : Register) :
    Term.fields name [Operand.x x] = name ++ " \x7b x: " ++ x.val.repr ++ " \x7d" :=
  fields_one (by decide)

theorem fields_x_nn (name : String) (x : Register) (nn : UInt8) :
    Term.fields name [Operand.x x, Operand.nn nn] =
      name ++ " \x7b x: " ++ x.val.repr ++ ", nn: " ++ nn.toNat.repr ++ " \x7d" :=
  fields_two (by decide) (by decide)

theorem fields_x_y (name : String) (x y : Register) :
    Term.fields name [Operand.x x, Operand.y y] =
      name ++ " \x7b x: " ++ x.val.repr ++ ", y: " ++ y.val.repr ++ " \x7d" :=
  fields_two (by decide) (by decide)

theorem fields_x_y_n (name : String) (x y : Register) (n : Fin 16) :
    Term.fields name [Operand.x x, Operand.y y, Operand.n n] =
      name ++ " \x7b x: " ++ x.val.repr ++ ", y: " ++ y.val.repr ++ ", n: " ++ n.val.repr ++ " \x7d" :=
  fields_three (by decide) (by decide) (by decide)

theorem fields_ops_x_y (name : String) (op : ArithmeticOp) (x y : Register) :
    Term.fields name [Operand.ops op, Operand.x x, Operand.y y] =
      name ++ " \x7b ops: " ++ op.name ++ ", x: " ++ x.val.repr ++ ", y: " ++ y.val.repr ++ " \x7d" :=
  fields_three (by decide) (by decide) (by decide)

/-! ### Instructions -/

/-- The text of an instruction spells its opcode; the two routines that are other instructions' opcodes do not count. -/
theorem spelled_encode {instruction : Instruction} (hclear : instruction ≠ routine 0x0E0)
    (hret : instruction ≠ routine 0x0EE) : instruction.encode.Spelled instruction.text := by
  cases instruction
  case routine nnn =>
    rw [text, fields_nnn]
    exact .routine (fun h => hclear (congrArg routine h)) (fun h => hret (congrArg routine h))
  case clear => exact .clear
  case ret => exact .ret
  case jump nnn | call nnn | setIndex nnn | jumpOffset nnn =>
    rw [text, fields_nnn]
    exact .address (by decide) nnn
  case skipEqual x nn | skipNotEqual x nn | set x nn | add x nn | random x nn =>
    rw [text, fields_x_nn]
    exact .byte (by decide) x nn
  case skipSame x y | skipNotSame x y =>
    rw [text, fields_x_y]
    exact .pair (by decide) x y
  case arithmetic op x y =>
    rw [text, fields_ops_x_y]
    exact .arithmetic (by cases op <;> decide) x y
  case draw x y n =>
    rw [text, fields_x_y_n]
    exact .draw x y n
  all_goals
    rw [text, fields_x]
    exact .register (by decide) _

/-- The two routines are no instructions that an opcode stands for. -/
theorem ne_routine_of_decode? {opcode : Opcode} {instruction : Instruction} (h : decode? opcode = some instruction) :
    instruction ≠ routine 0x0E0 ∧ instruction ≠ routine 0x0EE := by
  constructor
  · rintro rfl
    rw [← encode_of_decode? h] at h
    exact absurd h (by decide)
  · rintro rfl
    rw [← encode_of_decode? h] at h
    exact absurd h (by decide)

theorem exists_decode?_of_spelled {opcode : Opcode} {text : String} (h : opcode.Spelled text) :
    ∃ instruction, decode? opcode = some instruction ∧ instruction.text = text := by
  -- every row of a table is an instruction other than a routine
  have row (instruction : Instruction) (hne : ∀ nnn, instruction ≠ routine nnn) {text : String}
      (ht : instruction.text = text) : ∃ other, decode? instruction.encode = some other ∧ other.text = text :=
    ⟨instruction, decode?_encode_of_ne hne, ht⟩
  cases h with
  | clear => exact row clear nofun rfl
  | ret => exact row ret nofun rfl
  | @routine nnn hclear hret =>
    have hd : decode? (routine nnn).encode = some (routine nnn) :=
      decode?_encode (fun h => hclear (routine.inj h)) (fun h => hret (routine.inj h))
    exact ⟨routine nnn, hd, fields_nnn _ nnn⟩
  | address h nnn =>
    simp only [Opcode.addressNames, List.mem_cons, Prod.mk.injEq, List.not_mem_nil, or_false] at h
    rcases h with ⟨rfl, rfl⟩ | ⟨rfl, rfl⟩ | ⟨rfl, rfl⟩ | ⟨rfl, rfl⟩
    · exact row (jump nnn) nofun (fields_nnn _ nnn)
    · exact row (call nnn) nofun (fields_nnn _ nnn)
    · exact row (setIndex nnn) nofun (fields_nnn _ nnn)
    · exact row (jumpOffset nnn) nofun (fields_nnn _ nnn)
  | byte h x nn =>
    simp only [Opcode.byteNames, List.mem_cons, Prod.mk.injEq, List.not_mem_nil, or_false] at h
    rcases h with ⟨rfl, rfl⟩ | ⟨rfl, rfl⟩ | ⟨rfl, rfl⟩ | ⟨rfl, rfl⟩ | ⟨rfl, rfl⟩
    · exact row (skipEqual x nn) nofun (fields_x_nn _ x nn)
    · exact row (skipNotEqual x nn) nofun (fields_x_nn _ x nn)
    · exact row (set x nn) nofun (fields_x_nn _ x nn)
    · exact row (add x nn) nofun (fields_x_nn _ x nn)
    · exact row (random x nn) nofun (fields_x_nn _ x nn)
  | pair h x y =>
    simp only [Opcode.pairNames, List.mem_cons, Prod.mk.injEq, List.not_mem_nil, or_false] at h
    rcases h with ⟨rfl, rfl⟩ | ⟨rfl, rfl⟩
    · exact row (skipSame x y) nofun (fields_x_y _ x y)
    · exact row (skipNotSame x y) nofun (fields_x_y _ x y)
  | arithmetic h x y =>
    simp only [Opcode.operationNames, List.mem_cons, Prod.mk.injEq, List.not_mem_nil, or_false] at h
    rcases h with ⟨rfl, rfl⟩ | ⟨rfl, rfl⟩ | ⟨rfl, rfl⟩ | ⟨rfl, rfl⟩ | ⟨rfl, rfl⟩ | ⟨rfl, rfl⟩ | ⟨rfl, rfl⟩ |
      ⟨rfl, rfl⟩ | ⟨rfl, rfl⟩
    · exact row (arithmetic .copy x y) nofun (fields_ops_x_y _ _ x y)
    · exact row (arithmetic .or x y) nofun (fields_ops_x_y _ _ x y)
    · exact row (arithmetic .and x y) nofun (fields_ops_x_y _ _ x y)
    · exact row (arithmetic .xor x y) nofun (fields_ops_x_y _ _ x y)
    · exact row (arithmetic .add x y) nofun (fields_ops_x_y _ _ x y)
    · exact row (arithmetic .subtract x y) nofun (fields_ops_x_y _ _ x y)
    · exact row (arithmetic .shiftRight x y) nofun (fields_ops_x_y _ _ x y)
    · exact row (arithmetic .subtractFrom x y) nofun (fields_ops_x_y _ _ x y)
    · exact row (arithmetic .shiftLeft x y) nofun (fields_ops_x_y _ _ x y)
  | draw x y n => exact row (draw x y n) nofun (fields_x_y_n _ x y n)
  | register h x =>
    simp only [Opcode.registerNames, List.mem_cons, Prod.mk.injEq, List.not_mem_nil, or_false] at h
    rcases h with ⟨rfl, rfl, rfl⟩ | ⟨rfl, rfl, rfl⟩ | ⟨rfl, rfl, rfl⟩ | ⟨rfl, rfl, rfl⟩ | ⟨rfl, rfl, rfl⟩ |
      ⟨rfl, rfl, rfl⟩ | ⟨rfl, rfl, rfl⟩ | ⟨rfl, rfl, rfl⟩ | ⟨rfl, rfl, rfl⟩ | ⟨rfl, rfl, rfl⟩ | ⟨rfl, rfl, rfl⟩
    · exact row (skipKeyDown x) nofun (fields_x _ x)
    · exact row (skipKeyUp x) nofun (fields_x _ x)
    · exact row (readDelay x) nofun (fields_x _ x)
    · exact row (awaitKey x) nofun (fields_x _ x)
    · exact row (setDelay x) nofun (fields_x _ x)
    · exact row (setSound x) nofun (fields_x _ x)
    · exact row (addIndex x) nofun (fields_x _ x)
    · exact row (indexGlyph x) nofun (fields_x _ x)
    · exact row (storeDecimal x) nofun (fields_x _ x)
    · exact row (storeRegisters x) nofun (fields_x _ x)
    · exact row (loadRegisters x) nofun (fields_x _ x)

end Instruction

/-- An opcode is spelled like the instruction that it stands for, and like nothing else. -/
theorem Opcode.spelled_iff {opcode : Opcode} {text : String} :
    opcode.Spelled text ↔ ∃ instruction, Instruction.decode? opcode = some instruction ∧ instruction.text = text := by
  refine ⟨Instruction.exists_decode?_of_spelled, ?_⟩
  rintro ⟨instruction, hd, rfl⟩
  obtain ⟨hclear, hret⟩ := Instruction.ne_routine_of_decode? hd
  rw [← Instruction.encode_of_decode? hd]
  exact Instruction.spelled_encode hclear hret

end Chip8
