import Nachos.Machine.Instruction

/-!
# The instruction interpreter

`oneInstruction` fetches, decodes and executes one instruction.  It is a
program over the operations of the machine, case by case as the simulator
has them.
-/

open Words Calls

namespace Nachos

open Register

/-- The loop of `Mult`: add shifted copies of `b` for the bits of `a`. -/
def multLoop : Nat → Word → Word → Word → Word → Word → Word × Word
  | 0, _, _, _, lo, hi => (hi, lo)
  | count + 1, a, bLo, bHi, lo, hi =>
    let odd : Bool := a &&& 1#32 ≠ 0#32
    let newLo := if odd then lo + bLo else lo
    let carried := if newLo < bLo then hi + 1#32 else hi
    let newHi := if odd then carried + bHi else hi
    if odd ∧ a &&& 0xfffffffe#32 = 0#32 then (newHi, newLo) else
    let shiftedHi := bHi <<< 1
    let nextHi :=
      if bLo &&& 0x80000000#32 ≠ 0#32 then shiftedHi ||| 1#32
      else shiftedHi
    multLoop count (a.sshiftRight 1) (bLo <<< 1) nextHi newLo newHi

/-- `Mult`: the high and low words of the product. -/
def mult (a b : Word) (signedArith : Bool) : Word × Word :=
  if a = 0#32 ∨ b = 0#32 then (0#32, 0#32) else
  let aNegative : Bool := signedArith && a.slt 0#32
  let bNegative : Bool := signedArith && b.slt 0#32
  let a := if aNegative then -a else a
  let b := if bNegative then -b else b
  let (hi, lo) := multLoop 32 a b 0#32 0#32 0#32
  if aNegative != bNegative then
    let newLo := ~~~lo + 1#32
    (if newLo = 0#32 then ~~~hi + 1#32 else ~~~hi, newLo)
  else (hi, lo)

/-- What is left to do when the `switch` of `OneInstruction` is left by
`break`: the pending load and the program counter after the next one. -/
structure Executed where
  nextLoadReg : Word
  nextLoadValue : Word
  pcAfter : Word

namespace Executed

def advance (pcAfter : Word) : Executed := ⟨0#32, 0#32, pcAfter⟩

def loading (target : Fin numGPRegs) (value pcAfter : Word) : Executed :=
  ⟨BitVec.ofNat 32 target.val, value, pcAfter⟩

end Executed

def signBit : Word := 0x80000000#32

/-- `IndexToAddr`. -/
def indexToAddr (index : Word) : Word := index <<< 2

namespace Cpu

open Executed

def readGp (num : Fin numGPRegs) : MachineProgram Word :=
  readRegister (gp num)

/-- A conditional branch. -/
def branchIf (condition : Bool) (extra : Word) : MachineProgram Executed := do
  let nextPC ← readRegister nextPCReg
  return advance (if condition then nextPC + indexToAddr extra else nextPC + 4#32)

/-- `registers[R31] = registers[NextPCReg] + 4`. -/
def link (num : Register) : MachineProgram Unit := do
  let nextPC ← readRegister nextPCReg
  writeRegister num (nextPC + 4#32)

/-- The value a partial load starts from: the register, or the load which is
pending for it. -/
def partialTarget (rt : Fin numGPRegs) : MachineProgram Word := do
  let pending ← readRegister loadReg
  if pending = BitVec.ofNat 32 rt.val then readRegister loadValueReg
  else readGp rt

def lwlValue (offset old value : Word) : Word :=
  if offset = 0#32 then value
  else if offset = 1#32 then (old &&& 0xff#32) ||| (value <<< 8)
  else if offset = 2#32 then (old &&& 0xffff#32) ||| (value <<< 16)
  else (old &&& 0xffffff#32) ||| (value <<< 24)

def lwrValue (offset old value : Word) : Word :=
  if offset = 0#32 then
    (old &&& 0xffffff00#32) ||| ((value.sshiftRight 24) &&& 0xff#32)
  else if offset = 1#32 then
    (old &&& 0xffff0000#32) ||| ((value.sshiftRight 16) &&& 0xffff#32)
  else if offset = 2#32 then
    (old &&& 0xff000000#32) ||| ((value.sshiftRight 8) &&& 0xffffff#32)
  else value

def swlValue (offset old value : Word) : Word :=
  if offset = 0#32 then value
  else if offset = 1#32 then
    (old &&& 0xff000000#32) ||| ((value.sshiftRight 8) &&& 0xffffff#32)
  else if offset = 2#32 then
    (old &&& 0xffff0000#32) ||| ((value.sshiftRight 16) &&& 0xffff#32)
  else (old &&& 0xffffff00#32) ||| ((value.sshiftRight 24) &&& 0xff#32)

def swrValue (offset old value : Word) : Word :=
  if offset = 0#32 then (old &&& 0xffffff#32) ||| (value <<< 24)
  else if offset = 1#32 then (old &&& 0xffff#32) ||| (value <<< 16)
  else if offset = 2#32 then (old &&& 0xff#32) ||| (value <<< 8)
  else value

/-- An instruction which only computes a register. -/
def compute (target : Register) (value : Word) : MachineProgram Executed := do
  writeRegister target value
  branchIf false 0#32

/-- The instructions which add or subtract and may overflow. -/
def checked (overflow : Bool) (target : Fin numGPRegs) (value : Word) :
    MachineProgram Executed :=
  if overflow then raise .overflowException 0#32
  else compute (gp target) value

/-- Schedule a load into `rt` for after the next instruction. -/
def loadLater (rt : Fin numGPRegs) (value : Word) :
    MachineProgram Executed := do
  let nextPC ← readRegister nextPCReg
  return loading rt value (nextPC + 4#32)

/-- `LWL` and `LWR`, which differ in how they merge the loaded word. -/
def partialLoad (instr : Instruction) (merge : Word → Word → Word → Word) :
    MachineProgram Executed := do
  let rs ← readGp instr.rs
  let tmp := rs + instr.extra
  assert (tmp &&& 3#32 = 0#32)
  let value ← readMem tmp 4
  let old ← partialTarget instr.rt
  loadLater instr.rt (merge (tmp &&& 3#32) old value)

/-- `SWL` and `SWR`, which differ in how they merge the stored word. -/
def partialStore (instr : Instruction) (merge : Word → Word → Word → Word) :
    MachineProgram Executed := do
  let rs ← readGp instr.rs
  let tmp := rs + instr.extra
  assert (tmp &&& 3#32 = 0#32)
  let old ← readMem (tmp &&& ~~~3#32) 4
  let rt ← readGp instr.rt
  writeMem (tmp &&& ~~~3#32) 4 (merge (tmp &&& 3#32) old rt)
  branchIf false 0#32

/-- `SB`, `SH` and `SW`. -/
def store (instr : Instruction) (size : Nat) : MachineProgram Executed := do
  let rs ← readGp instr.rs
  let rt ← readGp instr.rt
  writeMem (rs + instr.extra) size rt
  branchIf false 0#32

/-- `LB` and `LBU`. -/
def loadByte (instr : Instruction) (signed : Bool) :
    MachineProgram Executed := do
  let rs ← readGp instr.rs
  let value ← readMem (rs + instr.extra) 1
  loadLater instr.rt (if value &&& 0x80#32 ≠ 0#32 ∧ signed then value ||| 0xffffff00#32
     else value &&& 0xff#32)

/-- `LH` and `LHU`. -/
def loadHalf (instr : Instruction) (signed : Bool) :
    MachineProgram Executed := do
  let rs ← readGp instr.rs
  let tmp := rs + instr.extra
  if tmp &&& 1#32 ≠ 0#32 then raise .addressErrorException tmp else
  let value ← readMem tmp 2
  loadLater instr.rt (if value &&& 0x8000#32 ≠ 0#32 ∧ signed then value ||| 0xffff0000#32
     else value &&& 0xffff#32)

def loadWord (instr : Instruction) : MachineProgram Executed := do
  let rs ← readGp instr.rs
  let tmp := rs + instr.extra
  if tmp &&& 3#32 ≠ 0#32 then raise .addressErrorException tmp else
  let value ← readMem tmp 4
  loadLater instr.rt value

/-- `DIV`; the host traps when the quotient does not fit. -/
def divide (rs rt : Word) : MachineProgram Executed := do
  if rt = 0#32 then
    writeRegister loReg 0#32
    compute hiReg 0#32
  else if rs = signBit ∧ rt = -1#32 then fail .division
  else
    writeRegister loReg (rs.sdiv rt)
    compute hiReg (rs.srem rt)

def divideUnsigned (rs rt : Word) : MachineProgram Executed := do
  if rt = 0#32 then
    writeRegister loReg 0#32
    compute hiReg 0#32
  else
    writeRegister loReg (rs / rt)
    compute hiReg (rs % rt)

/-- A three-register instruction without exceptions. -/
def arith (instr : Instruction) (combine : Word → Word → Word) :
    MachineProgram Executed := do
  let rs ← readGp instr.rs
  let rt ← readGp instr.rt
  compute (gp instr.rd) (combine rs rt)

/-- An instruction with an immediate operand and without exceptions. -/
def immediate (instr : Instruction) (combine : Word → Word) :
    MachineProgram Executed := do
  let rs ← readGp instr.rs
  compute (gp instr.rt) (combine rs)

def flag (condition : Bool) : Word := if condition then 1#32 else 0#32

/-- `J`, and `JAL` after it has set the link register. -/
def jump (extra : Word) : MachineProgram Executed := do
  let nextPC ← readRegister nextPCReg
  return advance (((nextPC + 4#32) &&& 0xf0000000#32) ||| indexToAddr extra)

/-- `JR`, and `JALR` after it has set the link register. -/
def jumpRegister (rs : Fin numGPRegs) : MachineProgram Executed := do
  let target ← readGp rs
  return advance target

/-- A branch on the value of `rs`. -/
def branchOn (instr : Instruction) (condition : Word → Bool) :
    MachineProgram Executed := do
  let rs ← readGp instr.rs
  branchIf (condition rs) instr.extra

/-- A branch on the values of `rs` and `rt`. -/
def compareBranch (instr : Instruction) (condition : Word → Word → Bool) :
    MachineProgram Executed := do
  let rs ← readGp instr.rs
  let rt ← readGp instr.rt
  branchIf (condition rs rt) instr.extra

/-- The `switch` of `OneInstruction`. -/
def execute (instr : Instruction) : MachineProgram Executed :=
  match instr.opCode with
  | .ADD => do
    let rs ← readGp instr.rs
    let rt ← readGp instr.rt
    let sum := rs + rt
    checked ((rs ^^^ rt) &&& signBit = 0#32 ∧ (rs ^^^ sum) &&& signBit ≠ 0#32) instr.rd sum
  | .ADDI => do
    let rs ← readGp instr.rs
    let sum := rs + instr.extra
    checked ((rs ^^^ instr.extra) &&& signBit = 0#32 ∧
      (instr.extra ^^^ sum) &&& signBit ≠ 0#32) instr.rt sum
  | .ADDIU => immediate instr fun rs => rs + instr.extra
  | .ADDU => arith instr fun rs rt => rs + rt
  | .AND => arith instr fun rs rt => rs &&& rt
  | .ANDI => immediate instr fun rs => rs &&& (instr.extra &&& 0xffff#32)
  | .BEQ => compareBranch instr fun rs rt => rs = rt
  | .BGEZAL => do
    link retAddrReg
    branchOn instr fun rs => rs &&& signBit = 0#32
  | .BGEZ => branchOn instr fun rs => rs &&& signBit = 0#32
  | .BGTZ => branchOn instr fun rs => (0#32).slt rs
  | .BLEZ => branchOn instr fun rs => rs.sle 0#32
  | .BLTZAL => do
    link retAddrReg
    branchOn instr fun rs => rs &&& signBit ≠ 0#32
  | .BLTZ => branchOn instr fun rs => rs &&& signBit ≠ 0#32
  | .BNE => compareBranch instr fun rs rt => rs ≠ rt
  | .DIV => do
    let rs ← readGp instr.rs
    let rt ← readGp instr.rt
    divide rs rt
  | .DIVU => do
    let rs ← readGp instr.rs
    let rt ← readGp instr.rt
    divideUnsigned rs rt
  | .JAL => do
    link retAddrReg
    jump instr.extra
  | .J => jump instr.extra
  | .JALR => do
    link (gp instr.rd)
    jumpRegister instr.rs
  | .JR => jumpRegister instr.rs
  | .LB => loadByte instr true
  | .LBU => loadByte instr false
  | .LH => loadHalf instr true
  | .LHU => loadHalf instr false
  | .LUI => compute (gp instr.rt) (instr.extra <<< 16)
  | .LW => loadWord instr
  | .LWL => partialLoad instr lwlValue
  | .LWR => partialLoad instr lwrValue
  | .MFHI => do
    let hi ← readRegister hiReg
    compute (gp instr.rd) hi
  | .MFLO => do
    let lo ← readRegister loReg
    compute (gp instr.rd) lo
  | .MTHI => do
    let rs ← readGp instr.rs
    compute hiReg rs
  | .MTLO => do
    let rs ← readGp instr.rs
    compute loReg rs
  | .MULT => do
    let rs ← readGp instr.rs
    let rt ← readGp instr.rt
    writeRegister hiReg (mult rs rt true).1
    compute loReg (mult rs rt true).2
  | .MULTU => do
    let rs ← readGp instr.rs
    let rt ← readGp instr.rt
    writeRegister hiReg (mult rs rt false).1
    compute loReg (mult rs rt false).2
  | .NOR => arith instr fun rs rt => ~~~(rs ||| rt)
  | .OR => arith instr fun rs _ => rs ||| rs
  | .ORI => immediate instr fun rs => rs ||| (instr.extra &&& 0xffff#32)
  | .SB => store instr 1
  | .SH => store instr 2
  | .SLL => arith instr fun _ rt => rt <<< instr.extra.toNat
  | .SLLV => arith instr fun rs rt => rt <<< (rs &&& 0x1f#32).toNat
  | .SLT => arith instr fun rs rt => flag (rs.slt rt)
  | .SLTI => immediate instr fun rs => flag (rs.slt instr.extra)
  | .SLTIU => immediate instr fun rs => flag (rs.ult instr.extra)
  | .SLTU => arith instr fun rs rt => flag (rs.ult rt)
  | .SRA => arith instr fun _ rt => rt.sshiftRight instr.extra.toNat
  | .SRAV => arith instr fun rs rt => rt.sshiftRight (rs &&& 0x1f#32).toNat
  | .SRL => arith instr fun _ rt => rt.sshiftRight instr.extra.toNat
  | .SRLV => arith instr fun rs rt => rt.sshiftRight (rs &&& 0x1f#32).toNat
  | .SUB => do
    let rs ← readGp instr.rs
    let rt ← readGp instr.rt
    let diff := rs - rt
    checked ((rs ^^^ rt) &&& signBit ≠ 0#32 ∧ (rs ^^^ diff) &&& signBit ≠ 0#32) instr.rd diff
  | .SUBU => arith instr fun rs rt => rs - rt
  | .SW => store instr 4
  | .SWL => partialStore instr swlValue
  | .SWR => partialStore instr swrValue
  | .SYSCALL => raise .syscallException 0#32
  | .XOR => arith instr fun rs rt => rs ^^^ rt
  | .XORI => immediate instr fun rs => rs ^^^ (instr.extra &&& 0xffff#32)
  | .RES => raise .illegalInstrException 0#32
  | .UNIMP => raise .illegalInstrException 0#32
  | .RFE => fail .assertion

/-- `Machine::OneInstruction`. -/
def oneInstruction : MachineProgram Unit := do
  let pc ← readRegister pcReg
  let raw ← readMem pc 4
  let executed ← execute (Instruction.decode raw)
  delayedLoad executed.nextLoadReg executed.nextLoadValue
  let pc ← readRegister pcReg
  writeRegister prevPCReg pc
  let nextPC ← readRegister nextPCReg
  writeRegister pcReg nextPC
  writeRegister nextPCReg executed.pcAfter

end Cpu

/-- One instruction on a machine. -/
def Machine.oneInstruction (machine : Machine) : Except Stop Machine :=
  match Cpu.oneInstruction.run Machine.answer machine with
  | .ok ((), machine) => .ok machine
  | .error stop => .error stop

end Nachos
