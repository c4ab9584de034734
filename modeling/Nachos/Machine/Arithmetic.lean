import Nachos.Machine.Mult
import Nachos.Machine.R2000
import Nachos.Userprog.LoadDelay

/-!
# Instructions which compute a register

The simulator against the definition of the processor, for the instructions
which set a general register to a value computed from registers and an
immediate operand.  `OR` uses its first operand twice, and the logical shifts
to the right shift signed numbers.  The checked instructions trap when they
should, but a load which is pending for their target overwrites the result.
-/

open Words Memory Calls Function

namespace Nachos

open Register R2000

namespace Machine

/-- The word at `PC`. -/
def FetchesWord (machine : Machine) (word : Word) : Prop :=
  ∃ physicalAddress mmu,
    machine.mmu.translate (machine.registers pcReg) 4 false =
      .ok (physicalAddress, mmu) ∧
    wordAt machine.mainMemory physicalAddress = word

/-- `R0` is zero, and no load is pending. -/
structure Settled (machine : Machine) : Prop where
  zero : machine.registers zeroReg = 0#32
  load : machine.registers loadReg = 0#32

/-- One general register is set, unless it is `R0`, and nothing else is
changed but the program counters. -/
structure Sets (target : Fin numGPRegs) (value : Word)
    (before after : Machine) : Prop where
  stored : after.registers (gp target) = if target.val = 0 then 0#32 else value
  others : ∀ num, num ≠ target → after.registers (gp num) = before.registers (gp num)
  hi : after.registers hiReg = before.registers hiReg
  lo : after.registers loReg = before.registers loReg
  memory : after.mainMemory = before.mainMemory

/-- The execution of the word computes a value for a register. -/
def Computes (machine : Machine) (word : Word) (target : Fin numGPRegs) (value : Word) : Prop :=
  ∀ mmu, (Cpu.execute (Instruction.decode word)).run answer
      { machine with mmu := mmu } =
    (Cpu.compute (gp target) value).run answer { machine with mmu := mmu }

section

variable {machine : Machine} {word value : Word} {target : Fin numGPRegs}

/-- The pending load is done after the value has been stored. -/
theorem oneInstruction_of_computes {load : Register} (fetched : machine.FetchesWord word)
    (computes : machine.Computes word target value)
    (pending : (machine.registers loadReg).toNat = load.val) :
    ∃ after, machine.oneInstruction = .ok after ∧
      after.mainMemory = machine.mainMemory ∧
      after.registers = advanced (loaded (update machine.registers (gp target) value) load 0#32
        0#32) (machine.registers nextPCReg + 4#32) := by
  obtain ⟨physicalAddress, mmu, translated, rfl⟩ := fetched
  have ran := (computes mmu).trans (Cpu.run_compute target value _)
  have kept : ((({ machine with mmu := mmu } : Machine).writeRegister
      (gp target) value).registers loadReg).toNat = load.val := by
    rw [writeRegister_gp_load]
    exact pending
  exact ⟨_, oneInstruction_eq translated ran kept, rfl, rfl⟩

theorem sets_of_computes (settled : machine.Settled) (fetched : machine.FetchesWord word)
    (computes : machine.Computes word target value) :
    ∃ after, machine.oneInstruction = .ok after ∧
      Sets target value machine after := by
  have pending : (machine.registers loadReg).toNat = (gp ⟨0, by decide⟩).val := by
    rw [settled.load]
    rfl
  obtain ⟨after, completed, memory, registers⟩ :=
    oneInstruction_of_computes fetched computes pending
  have general : ∀ num, after.registers (gp num) = if num.val = 0 then 0#32
      else update machine.registers (gp target) value (gp num) := by
    intro num
    rw [registers, advanced_gp, loaded_gp]
    split
    · rfl
    · rename_i nonzero
      rw [if_neg fun same => nonzero (congrArg Fin.val same)]
  have special : ∀ num ∈ [hiReg, loReg], after.registers num = machine.registers num := by
    intro num member
    have half : num = hiReg ∨ num = loReg := by simpa using member
    have above : numGPRegs ≤ num.val := by
      rcases half with rfl | rfl
      · decide
      · decide
    have apart : num ≠ prevPCReg ∧ num ≠ pcReg ∧ num ≠ nextPCReg ∧
        num ≠ loadReg ∧ num ≠ loadValueReg := by
      rcases half with rfl | rfl
      · decide
      · decide
    obtain ⟨notPrevious, notPc, notNext, notLoad, notValue⟩ := apart
    rw [registers, advanced, update_of_ne notNext,
      update_of_ne notPc, update_of_ne notPrevious,
      loaded_special _ _ _ _ above notLoad notValue,
      update_of_ne (gp_ne above target).symm]
  refine ⟨after, completed, ?_, ?_, ?_, ?_, memory⟩
  · rw [general, update_self]
  · intro num other
    rw [general, update_of_ne (gp_injective.ne other)]
    split
    · rename_i zero
      have same : gp num = zeroReg := Fin.ext zero
      rw [same, settled.zero]
    · rfl
  · exact special hiReg (by decide)
  · exact special loReg (by decide)

theorem Sets.congr {other : Word} {after : Machine} (sets : Sets target value machine after)
    (same : target.val = 0 ∨ value = other) :
    Sets target other machine after := by
  constructor
  · rcases same with zero | rfl
    · rw [sets.stored, if_pos zero, if_pos zero]
    · exact sets.stored
  · exact sets.others
  · exact sets.hi
  · exact sets.lo
  · exact sets.memory

variable (settled : machine.Settled) (fetched : machine.FetchesWord word)
  (computes : machine.Computes word target value) (expected : Word)
include settled fetched computes expected

theorem receives_iff :
    (∃ after, machine.oneInstruction = .ok after ∧
      (target.val ≠ 0 → after.registers (gp target) = expected)) ↔
    target.val = 0 ∨ value = expected := by
  obtain ⟨after, completed, sets⟩ := sets_of_computes settled fetched computes
  constructor
  · rintro ⟨other, completed', received⟩
    rw [completed] at completed'
    cases completed'
    by_cases zero : target.val = 0
    · exact .inl zero
    · rw [sets.stored, if_neg zero] at received
      exact .inr (received zero)
  · intro same
    refine ⟨after, completed, fun nonzero => ?_⟩
    rw [(sets.congr same).stored, if_neg nonzero]

theorem sets_iff :
    (∃ after, machine.oneInstruction = .ok after ∧
      Sets target expected machine after) ↔
    target.val = 0 ∨ value = expected := by
  constructor
  · rintro ⟨after, completed, sets⟩
    apply (receives_iff settled fetched computes expected).mp
    refine ⟨after, completed, fun nonzero => ?_⟩
    rw [sets.stored, if_neg nonzero]
  · intro same
    obtain ⟨after, completed, sets⟩ :=
      sets_of_computes settled fetched computes
    exact ⟨after, completed, sets.congr same⟩

end

/-! ## Arithmetic and logic -/

/-- The values of the two registers which a word names. -/
def rsValue (machine : Machine) (word : Word) : Word :=
  machine.registers (gp (rs word))

def rtValue (machine : Machine) (word : Word) : Word :=
  machine.registers (gp (rt word))

end Machine

/-- What the simulator computes. -/
def R2000.AluOperation.computed (operation : AluOperation) (rs rt : Word)
    (imm : BitVec 16) : Word :=
  if operation = .OR then rs else operation.value rs rt imm

namespace Machine

theorem flag_decide (condition : Prop) [Decidable condition] :
    Cpu.flag (decide condition) = if condition then 1#32 else 0#32 := by
  simp only [Cpu.flag, decide_eq_true_eq]

theorem computes_alu (machine : Machine) (operation : AluOperation)
    {word : Word} (encoded : operation.encoding.Matches word) :
    machine.Computes word (operation.target word)
      (operation.computed (machine.rsValue word) (machine.rtValue word) (imm word)) := by
  intro mmu
  unfold AluOperation.computed
  cases operation with
  | ADDU | SUBU | AND | XOR | NOR =>
    rw [decode_special encoded]
    rfl
  | ADDIU =>
    rw [decode_immediate encoded rfl]
    rfl
  | ANDI | ORI | XORI =>
    rw [decode_immediate encoded rfl, AluOperation.value, ← signExtend_and_mask]
    rfl
  | OR =>
    rw [decode_special encoded, if_pos rfl, ← BitVec.or_self (x := machine.rsValue word)]
    rfl
  | LUI =>
    rw [decode_immediate encoded rfl, AluOperation.value, ← signExtend_shiftLeft]
    rfl
  | SLT | SLTU =>
    rw [decode_special encoded, AluOperation.value, ← flag_decide]
    rfl
  | SLTI | SLTIU =>
    rw [decode_immediate encoded rfl, AluOperation.value, ← flag_decide]
    rfl

/-- Let a word encode one of the instructions and no load be pending.  The
simulator leaves what the definition says if and only if it is not `OR`, or
its target is `R0`, or `rs` has all bits of `rt`. -/
theorem alu_exact_iff (machine : Machine) (operation : AluOperation)
    (word : Word) (settled : machine.Settled)
    (fetched : machine.FetchesWord word)
    (encoded : operation.encoding.Matches word) :
    (∃ after, machine.oneInstruction = .ok after ∧ Sets (operation.target word)
        (operation.value (machine.rsValue word) (machine.rtValue word)
          (imm word)) machine after) ↔
    (operation = .OR → (operation.target word).val = 0 ∨
      machine.rsValue word ||| machine.rtValue word = machine.rsValue word) := by
  rw [sets_iff settled fetched (computes_alu machine operation encoded)]
  unfold AluOperation.computed
  by_cases isOr : operation = .OR
  · subst isOr
    simp only [if_true, forall_const]
    exact or_congr_right eq_comm
  · simp [isOr]

theorem one_lt_numGPRegs : 1 < numGPRegs := by decide

/-- A word of code with operands in `r1` and `r2`. -/
def withOperands (code first second : Word) : Machine :=
  oneWord code fun num =>
    if num = gp ⟨1, one_lt_numGPRegs⟩ then first
    else if num = gp ⟨2, two_lt_numGPRegs⟩ then second else 0#32

/-- `or r3, r1, r2` with 0 and 1. -/
theorem or_loses_operand :
    (withOperands 0x00221825#32 0#32 1#32).Settled ∧
    (withOperands 0x00221825#32 0#32 1#32).FetchesWord 0x00221825#32 ∧
    AluOperation.OR.encoding.Matches 0x00221825#32 ∧
    AluOperation.OR.value ((withOperands 0x00221825#32 0#32 1#32).rsValue 0x00221825#32)
      ((withOperands 0x00221825#32 0#32 1#32).rtValue 0x00221825#32)
      (imm 0x00221825#32) = 1#32 ∧
    ∃ after, (withOperands 0x00221825#32 0#32 1#32).oneInstruction =
        .ok after ∧
      after.registers (gp (AluOperation.OR.target 0x00221825#32)) = 0#32 := by
  exact ⟨⟨rfl, rfl⟩, ⟨0, _, rfl, rfl⟩, by decide, rfl, _, rfl, rfl⟩

/-- `addu r3, r1, r2` with 1 and 2. -/
theorem alu_exact_iff_addu :
    ∃ after, (withOperands 0x00221821#32 1#32 2#32).oneInstruction =
        .ok after ∧
      Sets ⟨3, by decide⟩ 3#32 (withOperands 0x00221821#32 1#32 2#32)
        after :=
  (alu_exact_iff _ .ADDU 0x00221821#32 ⟨rfl, rfl⟩ ⟨0, _, rfl, rfl⟩ (by decide)).mpr (by rintro ⟨⟩)

/-! ## Shifts -/

theorem shiftLeft_eq (word : Word) (amount : Nat) :
    word <<< amount = BitVec.ofNat 32 (word.toNat * 2 ^ amount) := by
  apply BitVec.eq_of_toNat_eq
  rw [BitVec.toNat_shiftLeft, BitVec.toNat_ofNat, Nat.shiftLeft_eq]

theorem sshiftRight_eq (word : Word) (amount : Nat) :
    word.sshiftRight amount = BitVec.ofInt 32 (word.toInt / 2 ^ amount) := by
  rw [← BitVec.ofInt_toInt (x := word.sshiftRight amount),
    BitVec.toInt_sshiftRight, Int.shiftRight_eq_div_pow]
  rfl

theorem toNat_and_31 (word : Word) : (word &&& 0x1f#32).toNat = word.toNat % 32 := by
  rw [BitVec.toNat_and]
  exact Nat.and_two_pow_sub_one_eq_mod word.toNat 5

end Machine

/-- What the simulator computes: all shifts to the right are signed. -/
def R2000.ShiftOperation.computed (operation : ShiftOperation) (rt : Word) (amount : Nat) : Word :=
  match operation with
  | SLL | SLLV => BitVec.ofNat 32 (rt.toNat * 2 ^ amount)
  | SRL | SRLV | SRA | SRAV => BitVec.ofInt 32 (rt.toInt / 2 ^ amount)

namespace Machine

/-- The amount by which a word shifts. -/
def shiftAmount (machine : Machine) (operation : ShiftOperation) (word : Word) : Nat :=
  operation.amount (machine.rsValue word) (shamt word)

theorem computes_shift (machine : Machine) (operation : ShiftOperation)
    {word : Word} (encoded : operation.encoding.Matches word) :
    machine.Computes word (rd word) (operation.computed (machine.rtValue word)
        (machine.shiftAmount operation word)) := by
  intro mmu
  have field : ((shamt word).zeroExtend 32).toNat = (shamt word).toNat :=
    BitVec.toNat_setWidth_of_le (by decide)
  unfold shiftAmount
  cases operation with
  | SLL =>
    rw [decode_special encoded, ShiftOperation.computed, ← shiftLeft_eq,
      ShiftOperation.amount, ← field]
    rfl
  | SLLV =>
    rw [decode_special encoded, ShiftOperation.computed, ← shiftLeft_eq,
      ShiftOperation.amount, ← toNat_and_31]
    rfl
  | SRL | SRA =>
    rw [decode_special encoded, ShiftOperation.computed, ← sshiftRight_eq,
      ShiftOperation.amount, ← field]
    rfl
  | SRLV | SRAV =>
    rw [decode_special encoded, ShiftOperation.computed, ← sshiftRight_eq,
      ShiftOperation.amount, ← toNat_and_31]
    rfl

/-- A signed shift is an unsigned one if there is no sign or no shift. -/
theorem signed_eq_unsigned_iff (word : Word) (amount : Nat) :
    BitVec.ofInt 32 (word.toInt / 2 ^ amount) =
        BitVec.ofNat 32 (word.toNat / 2 ^ amount) ↔
      word.msb = false ∨ amount = 0 := by
  constructor
  · intro same
    by_contra neither
    obtain ⟨signed, shifted⟩ := not_or.mp neither
    have negative : word.toInt < 0 :=
      BitVec.toInt_neg_of_msb_true (by simpa using signed)
    have least := (toInt_inRange word).1
    have power : (0 : Int) < 2 ^ amount := by positivity
    have below : word.toInt / 2 ^ amount < 0 :=
      Int.ediv_neg_of_neg_of_pos negative power
    have above : word.toInt ≤ word.toInt / 2 ^ amount := by
      apply Int.le_ediv_of_mul_le power
      nlinarith
    have half : word.toNat / 2 ^ amount < 2147483648 := by
      have doubled : 2 ^ 1 ≤ 2 ^ amount :=
        Nat.pow_le_pow_right (by decide) (Nat.pos_of_ne_zero shifted)
      have bound := word.isLt
      apply Nat.div_lt_of_lt_mul
      omega
    have values := congrArg BitVec.toInt same
    rw [toInt_ofInt_eq ⟨by omega, by omega⟩, toInt_ofNat_eq half] at values
    exact absurd (values ▸ below) (Int.natCast_nonneg _).not_gt
  · rintro (unsigned | rfl)
    · rw [BitVec.toInt_eq_toNat_of_msb unsigned, ← BitVec.ofInt_natCast]
      push_cast
      rfl
    · simp

/-- Let a word encode a shift and no load be pending.  The simulator leaves
the shifted value if and only if it is not a logical shift to the right, or
`rt` has no sign, or it is not shifted at all, or the target is `R0`. -/
theorem shift_exact_iff (machine : Machine) (operation : ShiftOperation)
    (word : Word) (settled : machine.Settled)
    (fetched : machine.FetchesWord word)
    (encoded : operation.encoding.Matches word) :
    (∃ after, machine.oneInstruction = .ok after ∧
      ((rd word).val ≠ 0 → after.registers (gp (rd word)) = operation.value (machine.rtValue word)
          (machine.shiftAmount operation word))) ↔
    (operation = .SRL ∨ operation = .SRLV → (rd word).val = 0 ∨
      (machine.rtValue word).msb = false ∨
      machine.shiftAmount operation word = 0) := by
  rw [receives_iff settled fetched (computes_shift machine operation encoded)]
  have logical := signed_eq_unsigned_iff (machine.rtValue word) (machine.shiftAmount operation word)
  unfold ShiftOperation.computed ShiftOperation.value
  cases operation with
  | SLL | SLLV | SRA | SRAV => simp
  | SRL | SRLV => simp [logical]

/-- `srl r3, r2, 1` and `srlv r3, r2, r1` with `r1 = 1` and only the sign bit
in `r2`. -/
theorem logical_shifts_keep_sign :
    (∃ after, (withOperands 0x00021842#32 1#32 signBit).oneInstruction =
        .ok after ∧
      after.registers (gp ⟨3, by decide⟩) = 0xc0000000#32) ∧
    ShiftOperation.SRL.encoding.Matches 0x00021842#32 ∧
    ShiftOperation.SRL.value signBit (shamt 0x00021842#32).toNat =
      0x40000000#32 ∧
    (∃ after, (withOperands 0x00221806#32 1#32 signBit).oneInstruction =
        .ok after ∧
      after.registers (gp ⟨3, by decide⟩) = 0xc0000000#32) ∧
    ShiftOperation.SRLV.encoding.Matches 0x00221806#32 ∧
    ShiftOperation.SRLV.value signBit 1 = 0x40000000#32 := by
  exact ⟨⟨_, rfl, rfl⟩, by decide, by decide, ⟨_, rfl, rfl⟩, by decide, by decide⟩

/-- `sra r3, r2, 1` with only the sign bit in `r2`. -/
theorem shift_exact_iff_sra :
    ∃ after, (withOperands 0x00021843#32 1#32 signBit).oneInstruction =
        .ok after ∧
      (3 ≠ 0 → after.registers (gp ⟨3, by decide⟩) = 0xc0000000#32) :=
  (shift_exact_iff _ .SRA 0x00021843#32 ⟨rfl, rfl⟩ ⟨0, _, rfl, rfl⟩ (by decide)).mpr (by decide)

/-! ## Sums and differences which are checked -/

theorem signs_eq_iff (left right : Word) :
    (left ^^^ right) &&& signBit = 0#32 ↔ left.msb = right.msb := by
  rw [← not_iff_not, ← Ne, Mult.and_signBit_ne_zero_iff, BitVec.msb_xor]
  cases left.msb with
  | false | true => simp

/-- The test of `ADD` finds the sums which do not fit. -/
theorem add_overflows_iff (left right : Word) :
    (left ^^^ right) &&& signBit = 0#32 ∧
        (left ^^^ (left + right)) &&& signBit ≠ 0#32 ↔
      ¬InRange (left.toInt + right.toInt) := by
  have overflow : left.saddOverflow right = true ↔ ¬InRange (left.toInt + right.toInt) := by
    unfold BitVec.saddOverflow InRange
    simp
    omega
  rw [← overflow, BitVec.saddOverflow_eq, Ne, signs_eq_iff, signs_eq_iff]
  cases left.msb with
  | false | true => simp

/-- `ADDI` compares the sum with its second operand. -/
theorem addi_overflows_iff (left right : Word) :
    (left ^^^ right) &&& signBit = 0#32 ∧
        (right ^^^ (left + right)) &&& signBit ≠ 0#32 ↔
      ¬InRange (left.toInt + right.toInt) := by
  rw [← add_overflows_iff, Ne, Ne, signs_eq_iff, signs_eq_iff, signs_eq_iff]
  apply and_congr_right
  intro same
  rw [same]

theorem sub_overflows_iff (left right : Word) :
    (left ^^^ right) &&& signBit ≠ 0#32 ∧
        (left ^^^ (left - right)) &&& signBit ≠ 0#32 ↔
      ¬InRange (left.toInt - right.toInt) := by
  have overflow : left.ssubOverflow right = true ↔ ¬InRange (left.toInt - right.toInt) := by
    unfold BitVec.ssubOverflow InRange
    simp
    omega
  rw [← overflow, BitVec.ssubOverflow_eq, Ne, Ne, signs_eq_iff, signs_eq_iff]
  cases left.msb with
  | false | true => simp

/-- The exact result of a checked instruction. -/
def exactResult (machine : Machine) (operation : CheckedOperation) (word : Word) : Int :=
  operation.exact (machine.rsValue word) (machine.rtValue word) (imm word)

theorem run_checked_of_exact {overflow : Bool} {exact : Int}
    (detects : overflow = true ↔ ¬InRange exact) (target : Fin numGPRegs)
    (machine : Machine) :
    (Cpu.checked overflow target (BitVec.ofInt 32 exact)).run answer
        machine =
      if InRange exact then
        (Cpu.compute (gp target) (BitVec.ofInt 32 exact)).run answer machine
      else .error (machine.raiseException .overflowException 0#32) := by
  rw [Cpu.run_checked]
  simp only [detects, ite_not]

theorem execute_checked (machine : Machine) (operation : CheckedOperation)
    {word : Word} (encoded : operation.encoding.Matches word) (mmu : Mmu) :
    (Cpu.execute (Instruction.decode word)).run answer
        { machine with mmu := mmu } =
      if InRange (machine.exactResult operation word) then
        (Cpu.compute (gp (operation.target word))
          (BitVec.ofInt 32 (machine.exactResult operation word))).run answer
          { machine with mmu := mmu }
      else .error (({ machine with mmu := mmu } : Machine).raiseException
        .overflowException 0#32) := by
  cases operation with
  | ADD =>
    have detects := add_overflows_iff (machine.rsValue word) (machine.rtValue word)
    refine Eq.trans ?_ (run_checked_of_exact (decide_eq_true_iff.trans detects) (rd word) _)
    rw [decode_special encoded, BitVec.ofInt_add, BitVec.ofInt_toInt, BitVec.ofInt_toInt]
    rfl
  | ADDI =>
    have detects := addi_overflows_iff (machine.rsValue word) ((imm word).signExtend 32)
    have extended : ((imm word).signExtend 32).toInt = (imm word).toInt :=
      BitVec.toInt_signExtend_of_le (by decide)
    unfold exactResult CheckedOperation.exact
    rw [← extended]
    refine Eq.trans ?_ (run_checked_of_exact (decide_eq_true_iff.trans detects) (rt word) _)
    rw [decode_immediate encoded rfl, BitVec.ofInt_add, BitVec.ofInt_toInt, BitVec.ofInt_toInt]
    rfl
  | SUB =>
    have detects := sub_overflows_iff (machine.rsValue word) (machine.rtValue word)
    refine Eq.trans ?_ (run_checked_of_exact (decide_eq_true_iff.trans detects) (rd word) _)
    rw [decode_special encoded, ofInt_sub, BitVec.ofInt_toInt, BitVec.ofInt_toInt]
    rfl

section

variable {machine : Machine} {operation : CheckedOperation} {word : Word}

theorem raised_of_overflow (fetched : machine.FetchesWord word)
    (encoded : operation.encoding.Matches word)
    (pending : (machine.registers loadReg).toNat < numTotalRegs)
    (overflow : ¬InRange (machine.exactResult operation word)) :
    ∃ after, machine.oneInstruction = .error (.raised .overflowException after) := by
  obtain ⟨physicalAddress, mmu, translated, rfl⟩ := fetched
  have ran := execute_checked machine operation encoded mmu
  rw [if_neg overflow] at ran
  obtain ⟨after, raised⟩ := @raiseException_eq { machine with mmu := mmu }
    pending .overflowException 0#32
  refine ⟨after, ?_⟩
  unfold oneInstruction
  rw [run_oneInstruction, fetch_eq translated]
  simp only [Program.run_bind, ran, raised]

theorem computes_checked (encoded : operation.encoding.Matches word)
    (fits : InRange (machine.exactResult operation word)) :
    machine.Computes word (operation.target word)
      (BitVec.ofInt 32 (machine.exactResult operation word)) := by
  intro mmu
  rw [execute_checked machine operation encoded mmu, if_pos fits]

/-- What the target holds after a checked instruction which completes: the
pending load is done last. -/
theorem completed_of_fits (fetched : machine.FetchesWord word)
    (encoded : operation.encoding.Matches word)
    (pending : (machine.registers loadReg).toNat < numTotalRegs)
    (fits : InRange (machine.exactResult operation word)) :
    ∃ after, machine.oneInstruction = .ok after ∧
      (after.registers (gp (operation.target word))).toInt =
        if (operation.target word).val = 0 then 0
        else if (machine.registers loadReg).toNat = (operation.target word).val then
          (machine.registers loadValueReg).toInt
        else machine.exactResult operation word := by
  obtain ⟨after, completed, -, registers⟩ := oneInstruction_of_computes
    fetched (computes_checked encoded fits)
    (show _ = (⟨_, pending⟩ : Register).val from rfl)
  have isLoad : gp (operation.target word) =
      (⟨(machine.registers loadReg).toNat, pending⟩ : Register) ↔
        (machine.registers loadReg).toNat = (operation.target word).val := by
    rw [Fin.ext_iff]
    exact eq_comm
  have notValue : loadValueReg ≠ gp (operation.target word) :=
    (gp_ne (by decide) _).symm
  refine ⟨after, completed, ?_⟩
  rw [registers, advanced_gp, loaded_general, update_self, update_of_ne notValue]
  simp only [isLoad, apply_ite BitVec.toInt, toInt_ofInt_eq fits]
  rfl

end

/-- A checked instruction traps exactly if the result does not fit, and its
target receives the exact result otherwise, if and only if the pending load
is for a register and, should the result fit, it is zero for the target `R0`
and no load with another value is pending for another target. -/
theorem checked_exact_iff (machine : Machine) (operation : CheckedOperation)
    (word : Word) (fetched : machine.FetchesWord word)
    (encoded : operation.encoding.Matches word) :
    (((∃ after, machine.oneInstruction =
        .error (.raised .overflowException after)) ↔
        ¬InRange (machine.exactResult operation word)) ∧
      (InRange (machine.exactResult operation word) →
        ∃ after, machine.oneInstruction = .ok after ∧
          (after.registers (gp (operation.target word))).toInt =
            machine.exactResult operation word)) ↔
    (machine.registers loadReg).toNat < numTotalRegs ∧
      (InRange (machine.exactResult operation word) → if (operation.target word).val = 0 then
          machine.exactResult operation word = 0
        else (machine.registers loadReg).toNat =
            (operation.target word).val →
          (machine.registers loadValueReg).toInt = machine.exactResult operation word) := by
  constructor
  · rintro ⟨traps, receives⟩
    by_cases fits : InRange (machine.exactResult operation word)
    · obtain ⟨after, completed, received⟩ := receives fits
      have pending := pending_of_ok completed
      obtain ⟨other, completed', holds⟩ :=
        completed_of_fits fetched encoded pending fits
      rw [completed] at completed'
      cases completed'
      rw [received] at holds
      refine ⟨pending, fun _ => ?_⟩
      split
      · rename_i zero
        rw [if_pos zero] at holds
        exact holds
      · rename_i nonzero
        intro loading
        rw [if_neg nonzero, if_pos loading] at holds
        exact holds.symm
    · obtain ⟨after, raised⟩ := traps.mpr fits
      exact ⟨pending_of_raised raised, fun fits' => absurd fits' fits⟩
  · rintro ⟨pending, condition⟩
    have receives : InRange (machine.exactResult operation word) →
        ∃ after, machine.oneInstruction = .ok after ∧
          (after.registers (gp (operation.target word))).toInt =
            machine.exactResult operation word := by
      intro fits
      obtain ⟨after, completed, holds⟩ :=
        completed_of_fits fetched encoded pending fits
      refine ⟨after, completed, holds.trans ?_⟩
      have expected := condition fits
      split
      · rename_i zero
        rw [if_pos zero] at expected
        exact expected.symm
      · rename_i nonzero
        rw [if_neg nonzero] at expected
        split
        · rename_i loading
          exact expected loading
        · rfl
    refine ⟨⟨?_, raised_of_overflow fetched encoded pending⟩, receives⟩
    rintro ⟨after, raised⟩ fits
    obtain ⟨other, completed, -⟩ := receives fits
    rw [completed] at raised
    cases raised

/-- `add r3, r1, r2` with 1 and 2, while 7 is being loaded into `r3`. -/
def addWhileLoading : Machine :=
  ((withOperands 0x00221820#32 1#32 2#32).writeRegister loadReg
    3#32).writeRegister loadValueReg 7#32

theorem pending_load_overwrites_sum :
    addWhileLoading.FetchesWord 0x00221820#32 ∧
    CheckedOperation.ADD.encoding.Matches 0x00221820#32 ∧
    addWhileLoading.exactResult .ADD 0x00221820#32 = 3 ∧
    ∃ after, addWhileLoading.oneInstruction = .ok after ∧
      after.registers (gp (CheckedOperation.ADD.target 0x00221820#32)) = 7#32 := by
  exact ⟨⟨0, _, rfl, rfl⟩, by decide, by decide, _, rfl, rfl⟩

/-- The same instruction when no load is pending. -/
theorem checked_exact_iff_add :
    ((∃ after, (withOperands 0x00221820#32 1#32 2#32).oneInstruction =
        .error (.raised .overflowException after)) ↔ ¬InRange 3) ∧
    (InRange 3 →
      ∃ after, (withOperands 0x00221820#32 1#32 2#32).oneInstruction =
          .ok after ∧
        (after.registers (gp ⟨3, by decide⟩)).toInt = 3) :=
  (checked_exact_iff (withOperands 0x00221820#32 1#32 2#32) .ADD
    0x00221820#32 ⟨0, _, rfl, rfl⟩ (by decide)).mpr (by decide)

end Machine

end Nachos
