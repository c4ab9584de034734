import Nachos.Machine.Cpu

/-!
# Instruction words

Decoding of a 32-bit instruction word by the tables of the simulator.
-/

open Words

namespace Nachos

inductive OpCode where
  | ADD | ADDI | ADDIU | ADDU | AND | ANDI
  | BEQ | BGEZ | BGEZAL | BGTZ | BLEZ | BLTZ | BLTZAL | BNE
  | DIV | DIVU | J | JAL | JALR | JR
  | LB | LBU | LH | LHU | LUI | LW | LWL | LWR
  | MFHI | MFLO | MTHI | MTLO | MULT | MULTU
  | NOR | OR | ORI | RFE | SB | SH
  | SLL | SLLV | SLT | SLTI | SLTIU | SLTU
  | SRA | SRAV | SRL | SRLV | SUB | SUBU
  | SW | SWL | SWR | XOR | XORI | SYSCALL | UNIMP | RES
  deriving DecidableEq

inductive Format where
  | IFMT | JFMT | RFMT
  deriving DecidableEq

/-- An entry of `opTable`: an operation, or a class decoded further. -/
inductive OpInfo where
  | op (opCode : OpCode)
  | special
  | bcond
  deriving DecidableEq

open OpCode Format OpInfo

def opTable : List (OpInfo × Format) := [
  (special, RFMT), (bcond, IFMT), (op J, JFMT), (op JAL, JFMT),
  (op BEQ, IFMT), (op BNE, IFMT), (op BLEZ, IFMT), (op BGTZ, IFMT),
  (op ADDI, IFMT), (op ADDIU, IFMT), (op SLTI, IFMT), (op SLTIU, IFMT),
  (op ANDI, IFMT), (op ORI, IFMT), (op XORI, IFMT), (op LUI, IFMT),
  (op UNIMP, IFMT), (op UNIMP, IFMT), (op UNIMP, IFMT), (op UNIMP, IFMT),
  (op RES, IFMT), (op RES, IFMT), (op RES, IFMT), (op RES, IFMT),
  (op RES, IFMT), (op RES, IFMT), (op RES, IFMT), (op RES, IFMT),
  (op RES, IFMT), (op RES, IFMT), (op RES, IFMT), (op RES, IFMT),
  (op LB, IFMT), (op LH, IFMT), (op LWL, IFMT), (op LW, IFMT),
  (op LBU, IFMT), (op LHU, IFMT), (op LWR, IFMT), (op RES, IFMT),
  (op SB, IFMT), (op SH, IFMT), (op SWL, IFMT), (op SW, IFMT),
  (op RES, IFMT), (op RES, IFMT), (op SWR, IFMT), (op RES, IFMT),
  (op UNIMP, IFMT), (op UNIMP, IFMT), (op UNIMP, IFMT), (op UNIMP, IFMT),
  (op RES, IFMT), (op RES, IFMT), (op RES, IFMT), (op RES, IFMT),
  (op UNIMP, IFMT), (op UNIMP, IFMT), (op UNIMP, IFMT), (op UNIMP, IFMT),
  (op RES, IFMT), (op RES, IFMT), (op RES, IFMT), (op RES, IFMT)]

def specialTable : List OpCode := [
  SLL, RES, SRL, SRA, SLLV, RES, SRLV, SRAV,
  JR, JALR, RES, RES, SYSCALL, UNIMP, RES, RES,
  MFHI, MTHI, MFLO, MTLO, RES, RES, RES, RES,
  MULT, MULTU, DIV, DIVU, RES, RES, RES, RES,
  ADD, ADDU, SUB, SUBU, AND, OR, XOR, NOR,
  RES, RES, SLT, SLTU, RES, RES, RES, RES,
  RES, RES, RES, RES, RES, RES, RES, RES,
  RES, RES, RES, RES, RES, RES, RES, RES]

structure Instruction where
  opCode : OpCode
  rs : Fin numGPRegs
  rt : Fin numGPRegs
  rd : Fin numGPRegs
  extra : Word

namespace Instruction

/-- The immediate, shift amount or target field. -/
def extraField (value : Word) : Format → Word
  | .IFMT =>
    let extra := value &&& 0xffff#32
    if extra &&& 0x8000#32 ≠ 0#32 then extra ||| 0xffff0000#32 else extra
  | .RFMT => (value >>> 6) &&& 0x1f#32
  | .JFMT => value &&& 0x3ffffff#32

/-- The further decoding of `BCOND` words. -/
def branchCondition (value : Word) : OpCode :=
  let selector := value &&& 0x1f0000#32
  if selector = 0#32 then BLTZ
  else if selector = 0x10000#32 then BGEZ
  else if selector = 0x100000#32 then BLTZAL
  else if selector = 0x110000#32 then BGEZAL
  else UNIMP

/-- `Instruction::Decode`. -/
def decode (value : Word) : Instruction :=
  let (info, format) :=
    opTable.getD (value.extractLsb' 26 6).toNat (op RES, IFMT)
  { opCode :=
      match info with
      | op opCode => opCode
      | special => specialTable.getD (value.extractLsb' 0 6).toNat RES
      | bcond => branchCondition value
    rs := (value.extractLsb' 21 5).toFin
    rt := (value.extractLsb' 16 5).toFin
    rd := (value.extractLsb' 11 5).toFin
    extra := extraField value format }

end Instruction

end Nachos
