import Nachos.Lib.Masks
import Nachos.Machine.MipsSim

/-!
# The instructions of the MIPS R2000

What the definition of the processor says about the instructions which
compute a general register: how they are encoded, which register they set and
what they set it to.  `Decode` finds the instructions which the words encode.
-/

open Words Masks

namespace Nachos

namespace R2000

/-- The fields which tell an instruction from others: those of format R have
opcode 0 and a function code, those of format I only an opcode. -/
inductive Encoding where
  | special (funct : BitVec 6)
  | immediate (opcode : BitVec 6)

def Encoding.Matches (word : Word) : Encoding → Prop
  | .special funct =>
    word.extractLsb' 26 6 = 0#6 ∧ word.extractLsb' 0 6 = funct
  | .immediate opcode => word.extractLsb' 26 6 = opcode

instance (word : Word) (encoding : Encoding) : Decidable (encoding.Matches word) :=
  match encoding with
  | .special _ => inferInstanceAs (Decidable (_ ∧ _))
  | .immediate _ => inferInstanceAs (Decidable (_ = _))

def rs (word : Word) : Fin numGPRegs := (word.extractLsb' 21 5).toFin

def rt (word : Word) : Fin numGPRegs := (word.extractLsb' 16 5).toFin

def rd (word : Word) : Fin numGPRegs := (word.extractLsb' 11 5).toFin

def shamt (word : Word) : BitVec 5 := word.extractLsb' 6 5

def imm (word : Word) : BitVec 16 := word.extractLsb' 0 16

/-! ## Arithmetic and logic -/

inductive AluOperation where
  | ADDU | SUBU | ADDIU | AND | ANDI | OR | ORI | XOR | XORI | NOR
  | LUI | SLT | SLTI | SLTU | SLTIU
  deriving DecidableEq

namespace AluOperation

def encoding : AluOperation → Encoding
  | ADDU => .special 0x21#6
  | SUBU => .special 0x23#6
  | AND => .special 0x24#6
  | OR => .special 0x25#6
  | XOR => .special 0x26#6
  | NOR => .special 0x27#6
  | SLT => .special 0x2a#6
  | SLTU => .special 0x2b#6
  | ADDIU => .immediate 0x09#6
  | SLTI => .immediate 0x0a#6
  | SLTIU => .immediate 0x0b#6
  | ANDI => .immediate 0x0c#6
  | ORI => .immediate 0x0d#6
  | XORI => .immediate 0x0e#6
  | LUI => .immediate 0x0f#6

def target (operation : AluOperation) (word : Word) : Fin numGPRegs :=
  match operation.encoding with
  | .special _ => rd word
  | .immediate _ => rt word

/-- The value of the target, from the values of `rs` and `rt` and the
immediate operand. -/
def value (operation : AluOperation) (rs rt : Word) (imm : BitVec 16) :
    Word :=
  match operation with
  | ADDU => rs + rt
  | SUBU => rs - rt
  | ADDIU => rs + imm.signExtend 32
  | AND => rs &&& rt
  | ANDI => rs &&& imm.zeroExtend 32
  | OR => rs ||| rt
  | ORI => rs ||| imm.zeroExtend 32
  | XOR => rs ^^^ rt
  | XORI => rs ^^^ imm.zeroExtend 32
  | NOR => ~~~(rs ||| rt)
  | LUI => imm ++ 0#16
  | SLT => if rs.toInt < rt.toInt then 1#32 else 0#32
  | SLTI =>
    if rs.toInt < (imm.signExtend 32).toInt then 1#32 else 0#32
  | SLTU => if rs.toNat < rt.toNat then 1#32 else 0#32
  | SLTIU =>
    if rs.toNat < (imm.signExtend 32).toNat then 1#32 else 0#32

end AluOperation

/-! ## Shifts -/

inductive ShiftOperation where
  | SLL | SLLV | SRL | SRLV | SRA | SRAV
  deriving DecidableEq

namespace ShiftOperation

def encoding : ShiftOperation → Encoding
  | SLL => .special 0x00#6
  | SRL => .special 0x02#6
  | SRA => .special 0x03#6
  | SLLV => .special 0x04#6
  | SRLV => .special 0x06#6
  | SRAV => .special 0x07#6

/-- The shift amount: a field of the word, or the last five bits of `rs`. -/
def amount (operation : ShiftOperation) (rs : Word) (shamt : BitVec 5) :
    Nat :=
  match operation with
  | SLL | SRL | SRA => shamt.toNat
  | SLLV | SRLV | SRAV => rs.toNat % 32

/-- The value of `rt` shifted, as a number. -/
def value (operation : ShiftOperation) (rt : Word) (amount : Nat) : Word :=
  match operation with
  | SLL | SLLV => BitVec.ofNat 32 (rt.toNat * 2 ^ amount)
  | SRL | SRLV => BitVec.ofNat 32 (rt.toNat / 2 ^ amount)
  | SRA | SRAV => BitVec.ofInt 32 (rt.toInt / 2 ^ amount)

end ShiftOperation

/-! ## Sums and differences which are checked -/

inductive CheckedOperation where
  | ADD | ADDI | SUB
  deriving DecidableEq

namespace CheckedOperation

def encoding : CheckedOperation → Encoding
  | ADD => .special 0x20#6
  | SUB => .special 0x22#6
  | ADDI => .immediate 0x08#6

def target (operation : CheckedOperation) (word : Word) : Fin numGPRegs :=
  match operation.encoding with
  | .special _ => rd word
  | .immediate _ => rt word

/-- The exact sum or difference. -/
def exact (operation : CheckedOperation) (rs rt : Word) (imm : BitVec 16) :
    Int :=
  match operation with
  | ADD => rs.toInt + rt.toInt
  | ADDI => rs.toInt + imm.toInt
  | SUB => rs.toInt - rt.toInt

end CheckedOperation

/-! ## Immediate operands -/

theorem signExtend_and_mask (imm : BitVec 16) :
    imm.signExtend 32 &&& 0xffff#32 = imm.zeroExtend 32 := by
  have low : (imm.signExtend 32).extractLsb' 0 16 = imm := by
    ext index inside
    have inWord : index < 32 := by omega
    simp [BitVec.getElem_signExtend, inside, inWord]
  refine (and_lowMask (imm.signExtend 32) 16 (by decide)).trans ?_
  rw [low]

theorem signExtend_shiftLeft (imm : BitVec 16) : imm.signExtend 32 <<< 16 = imm ++ 0#16 := by
  ext index inside
  rw [BitVec.getElem_append]
  by_cases low : index < 16
  · simp [low]
  · have high : index - 16 < 16 := by omega
    simp [BitVec.getElem_signExtend, low, high]

theorem signExtend_eq (imm : BitVec 16) : (if imm.zeroExtend 32 &&& 0x8000#32 ≠ 0#32 then
      imm.zeroExtend 32 ||| 0xffff0000#32 else imm.zeroExtend 32) =
      imm.signExtend 32 := by
  have small := imm.isLt
  have last : (imm.zeroExtend 32).getLsbD 15 = imm.msb := by
    simp [BitVec.msb_eq_getLsbD_last]
  have sign : imm.zeroExtend 32 &&& 0x8000#32 ≠ 0#32 ↔ imm.msb = true := by
    rw [show 0x8000#32 = BitVec.twoPow 32 15 from rfl, BitVec.and_twoPow, last]
    cases imm.msb with
    | false => simp
    | true => decide
  have disjoint : imm.zeroExtend 32 &&& 0xffff0000#32 = 0#32 := by
    rw [← signExtend_and_mask, BitVec.and_assoc]
    exact BitVec.and_zero
  simp only [sign]
  apply BitVec.eq_of_toNat_eq
  rw [BitVec.toNat_signExtend]
  split
  · rw [← BitVec.add_eq_or_of_and_eq_zero _ _ disjoint, BitVec.toNat_add, BitVec.toNat_setWidth]
    simp
    omega
  · simp

/-! ## Decoding -/

section

variable {word : Word}

theorem extraField_immediate : Instruction.extraField word .IFMT = (imm word).signExtend 32 := by
  have low : word &&& 0xffff#32 = (imm word).zeroExtend 32 :=
    and_lowMask word 16 (by decide)
  rw [← signExtend_eq, ← low]
  rfl

theorem extraField_register : Instruction.extraField word .RFMT = (shamt word).zeroExtend 32 := by
  have field : (word >>> 6).extractLsb' 0 5 = shamt word := by
    unfold shamt
    ext index inside
    simp
  refine (and_lowMask (word >>> 6) 5 (by decide)).trans ?_
  rw [field]

theorem decode_special {funct : BitVec 6} (encoded : (Encoding.special funct).Matches word) :
    Instruction.decode word =
      ⟨specialTable.getD funct.toNat .RES, rs word, rt word, rd word,
        (shamt word).zeroExtend 32⟩ := by
  unfold Instruction.decode
  rw [encoded.1, encoded.2, ← extraField_register]
  rfl

theorem decode_immediate {opcode : BitVec 6} {opCode : OpCode}
    (encoded : (Encoding.immediate opcode).Matches word)
    (listed : opTable.getD opcode.toNat (.op .RES, .IFMT) = (.op opCode, .IFMT)) :
    Instruction.decode word = ⟨opCode, rs word, rt word, rd word, (imm word).signExtend 32⟩ := by
  unfold Instruction.decode
  rw [show word.extractLsb' 26 6 = opcode from encoded, listed, ← extraField_immediate]
  rfl

end

end R2000

end Nachos
