import Chip8.Proofs.Frame

/-!
# Arithmetic in natural numbers

The operations that set the flag compute a result and a carry, a borrow or a bit that is shifted out, and the two of
them together are the exact sum, difference, half or double (`ArithmeticOp.Balances`).  The others combine their bytes
bit by bit (`ArithmeticOp.combine`) and know no flag.  What an operation leaves in the registers follows from the order
of its writes, the flag last (`Machine.register_calculate_of_flag`).
-/

namespace Chip8

private theorem toNat_decide (p : Prop) [Decidable p] : (decide p).toNat = if p then 1 else 0 := by
  split <;> simp [*]

private theorem toNat_toUInt8 (b : Bool) : b.toUInt8.toNat = b.toNat := by
  cases b <;> rfl

namespace ArithmeticOp

/-- What the result `r` and the flag `f` of two bytes have to satisfy.  A borrow makes the flag of a difference zero. -/
def Balances (a b r f : Nat) : ArithmeticOp → Prop
  | add => r + 256 * f = a + b
  | subtract => r + b = a + 256 * (1 - f)
  | shiftRight => 2 * r + f = a
  | subtractFrom => r + a = b + 256 * (1 - f)
  | shiftLeft => r + 256 * f = 2 * a
  | copy | or | and | xor => False

/-- What becomes of two bits at one place, for the operations without a flag. -/
def combine (p q : Bool) : ArithmeticOp → Bool
  | or => p || q
  | and => p && q
  | xor => p ^^ q
  | copy | add | subtract | shiftRight | subtractFrom | shiftLeft => q

theorem exists_flag {op : ArithmeticOp} (h : op.SetsFlag) (a b : UInt8) :
    ∃ flag, op.flag? a b = some flag ∧ op.Balances a.toNat b.toNat (op.result a b).toNat flag.toNat := by
  have ha := a.toNat_lt
  have hb := b.toNat_lt
  cases op
  case add | subtract | shiftRight | subtractFrom | shiftLeft =>
    refine ⟨_, rfl, ?_⟩
    simp only [Balances, result_add, result_subtract, result_shiftRight, result_subtractFrom, result_shiftLeft,
      toNat_decide]
    split <;> omega
  all_goals exact absurd h id

theorem flag?_eq_none {op : ArithmeticOp} (h : ¬op.SetsFlag) (a b : UInt8) : op.flag? a b = none := by
  cases op
  case copy | or | and | xor => rfl
  all_goals exact absurd trivial h

theorem testBit_result {op : ArithmeticOp} (h : ¬op.SetsFlag) (a b : UInt8) (i : Nat) :
    (op.result a b).toNat.testBit i = op.combine (a.toNat.testBit i) (b.toNat.testBit i) := by
  cases op
  case copy => rfl
  case or => rw [result, UInt8.toNat_or, Nat.testBit_or, combine]
  case and => rw [result, UInt8.toNat_and, Nat.testBit_and, combine]
  case xor => rw [result, UInt8.toNat_xor, Nat.testBit_xor, combine]
  all_goals exact absurd trivial h

end ArithmeticOp

namespace Machine

/-! ### Registers -/

/-- The flag is written last, so it stays even where the result would stand. -/
theorem register_calculate_of_flag {machine : Machine} {op : ArithmeticOp} {x y : Register} {flag : Bool}
    (h : op.flag? (machine.register x) (machine.register y) = some flag) (k : Register) :
    (machine.calculate op x y).register k =
      if flagRegister = k then flag.toUInt8
      else if x = k then op.result (machine.register x) (machine.register y) else machine.register k := by
  simp only [calculate, h, register_setRegister]

theorem register_calculate_of_none {machine : Machine} {op : ArithmeticOp} {x y : Register}
    (h : op.flag? (machine.register x) (machine.register y) = none) (k : Register) :
    (machine.calculate op x y).register k =
      if x = k then op.result (machine.register x) (machine.register y) else machine.register k := by
  simp only [calculate, h, register_setRegister]

/-- Registers alone have a part in it. -/
theorem calculate_with (machine : Machine) (op : ArithmeticOp) (x y : Register) (counter : UInt16) (keypad : Keypad)
    (pending : List KeyEvent) :
    { machine with counter, keypad, pending }.calculate op x y =
      { machine.calculate op x y with counter, keypad, pending } := by
  simp only [calculate, register]
  split <;> rfl

/-- A step with such an operation always completes, and leaves in the registers what the operation does. -/
theorem register_perform_arithmetic {machine : Machine} {op : ArithmeticOp} {x y : Register} {command : Command}
    (hs : command.steps) (hf : machine.Fetches (Instruction.arithmetic op x y).encode) :
    (machine.perform command).answer = .stepped .plain none ∧
      ∀ k, (machine.perform command).machine.register k = (machine.calculate op x y).register k := by
  have hd : Instruction.decode? (Instruction.arithmetic op x y).encode = some (.arithmetic op x y) :=
    Instruction.decode?_encode_of_ne fun _ => Instruction.noConfusion
  have he : ∀ counter keypad pending, { machine with counter, keypad, pending }.execute (.arithmetic op x y) =
      .ok { machine :=
        { machine with
          counter, keypad, pending, memory := machine.memory
          registers := (machine.calculate op x y).registers } } := by
    intro counter keypad pending
    rw [execute, calculate_with, calculate_eq]
  obtain ⟨hanswer, _, _, _, _, _, hm⟩ := perform_of_execute_writes hs hf hd he
  refine ⟨hanswer, fun k => ?_⟩
  rw [hm]
  rfl

/-- A step with an arithmetic operation on registers `x` and `y` completes.  If the operation sets the flag, there are
one result and one flag that balance the bytes that the step found; the result goes to `x` and then the flag to its
register, which is all that changes, also where `x` or `y` is that register.  If not, `x` becomes the combination of
the two bytes bit by bit, and no other register changes, the one of the flag neither. -/
theorem perform_arithmetic {machine : Machine} {op : ArithmeticOp} {x y : Register} {command : Command}
    (hs : command.steps) (hf : machine.Fetches (Opcode.ofPair 0x8 x y op.code)) :
    let a := (machine.register x).toNat
    let b := (machine.register y).toNat
    let later := (machine.perform command).machine
    (machine.perform command).answer = .stepped .plain none ∧
      (op.SetsFlag → ∃ r f, r < 256 ∧ (f = 0 ∨ f = 1) ∧ op.Balances a b r f ∧
        (later.register flagRegister).toNat = f ∧ (x ≠ flagRegister → (later.register x).toNat = r) ∧
        ∀ k, k ≠ x → k ≠ flagRegister → later.register k = machine.register k) ∧
      (¬op.SetsFlag → (∀ i, (later.register x).toNat.testBit i = op.combine (a.testBit i) (b.testBit i)) ∧
        ∀ k, k ≠ x → later.register k = machine.register k) := by
  intro a b later
  obtain ⟨hanswer, hregister⟩ := register_perform_arithmetic hs hf
  have hregister : ∀ k, later.register k = (machine.calculate op x y).register k := hregister
  refine ⟨hanswer, ?_, ?_⟩
  · intro hset
    obtain ⟨flag, hflag, hbalance⟩ := ArithmeticOp.exists_flag hset (machine.register x) (machine.register y)
    have hone : flag.toNat = 0 ∨ flag.toNat = 1 := by
      have hlt := flag.toNat_lt
      omega
    refine ⟨_, flag.toNat, UInt8.toNat_lt _, hone, hbalance, ?_, ?_, ?_⟩
    · rw [hregister, register_calculate_of_flag hflag, if_pos rfl, toNat_toUInt8]
    · intro hx
      rw [hregister, register_calculate_of_flag hflag, if_neg (Ne.symm hx), if_pos rfl]
    · intro k hkx hk
      rw [hregister, register_calculate_of_flag hflag, if_neg (Ne.symm hk), if_neg (Ne.symm hkx)]
  · intro hset
    have hflag := ArithmeticOp.flag?_eq_none hset (machine.register x) (machine.register y)
    constructor
    · intro i
      rw [hregister, register_calculate_of_none hflag, if_pos rfl, ArithmeticOp.testBit_result hset]
    · intro k hk
      rw [hregister, register_calculate_of_none hflag, if_neg (Ne.symm hk)]

/-- The register of the flags on both sides of a sum, then on the right of a difference with a borrow, then on the left
of a disjunction. -/
theorem perform_arithmetic_aliased :
    let machine := ((create .perStep {}).machine.perform
      (.load [0x6F, 0xC8, 0x8F, 0xF4, 0x61, 0x00, 0x81, 0xF5, 0x8F, 0x11])).machine
    let adding := machine.after [.step]
    let subtracting := machine.after [.step, .step, .step]
    let joining := machine.after [.step, .step, .step, .step]
    ((adding.register flagRegister).toNat = 200 ∧
        ((adding.perform .step).machine.register flagRegister).toNat = 1) ∧
      (((subtracting.perform .step).machine.register 1).toNat = 255 ∧
        ((subtracting.perform .step).machine.register flagRegister).toNat = 0) ∧
      ∀ i, ((joining.perform (.tick [⟨3, true⟩])).machine.register flagRegister).toNat.testBit i =
        (Nat.testBit 0 i || Nat.testBit 255 i) := by
  intro machine adding subtracting joining
  obtain ⟨⟨hadd, haddhigh, haddlow, hsummand⟩, ⟨hsubtract, hsubtracthigh, hsubtractlow, hleft, hright⟩,
      hjoin, hjoinhigh, hjoinlow, hzero, hones⟩ :
      (adding.counter.toNat = 0x202 ∧ adding.memory[0x202] = 0x8F ∧ adding.memory[0x203] = 0xF4 ∧
          (adding.register flagRegister).toNat = 200) ∧
        (subtracting.counter.toNat = 0x206 ∧ subtracting.memory[0x206] = 0x81 ∧ subtracting.memory[0x207] = 0xF5 ∧
          (subtracting.register 1).toNat = 0 ∧ (subtracting.register flagRegister).toNat = 1) ∧
        joining.counter.toNat = 0x208 ∧ joining.memory[0x208] = 0x8F ∧ joining.memory[0x209] = 0x11 ∧
          (joining.register flagRegister).toNat = 0 ∧ (joining.register 1).toNat = 255 := by
    decide +kernel
  clear_value adding subtracting joining
  have hadding : adding.Fetches (Opcode.ofPair 0x8 flagRegister flagRegister ArithmeticOp.add.code) :=
    fetches_of_bytes hadd (by decide) haddhigh haddlow (by decide)
  have hsubtracting : subtracting.Fetches (Opcode.ofPair 0x8 1 flagRegister ArithmeticOp.subtract.code) :=
    fetches_of_bytes hsubtract (by decide) hsubtracthigh hsubtractlow (by decide)
  have hjoining : joining.Fetches (Opcode.ofPair 0x8 flagRegister 1 ArithmeticOp.or.code) :=
    fetches_of_bytes hjoin (by decide) hjoinhigh hjoinlow (by decide)
  have hstep : Command.step.steps := rfl
  have htick : (Command.tick [⟨3, true⟩]).steps := rfl
  refine ⟨⟨hsummand, ?_⟩, ?_, ?_⟩
  · obtain ⟨-, hsum, -⟩ := perform_arithmetic hstep hadding
    obtain ⟨r, f, hr, -, hbalance, hflag, -⟩ := hsum trivial
    rw [hsummand, ArithmeticOp.Balances] at hbalance
    rw [hflag]
    omega
  · obtain ⟨-, hdifference, -⟩ := perform_arithmetic hstep hsubtracting
    obtain ⟨r, f, hr, -, hbalance, hflag, hresult, -⟩ := hdifference trivial
    rw [hleft, hright, ArithmeticOp.Balances] at hbalance
    rw [hresult (by decide), hflag]
    omega
  · obtain ⟨-, -, hcombined⟩ := perform_arithmetic htick hjoining
    obtain ⟨hbits, -⟩ := hcombined id
    rw [hzero, hones] at hbits
    exact hbits

end Machine

end Chip8
