import Nachos.Machine.Memory
import Nachos.Lib.Program

/-!
# The user CPU

The state of the simulated processor and the operations on it which both the
instruction interpreter and the kernel use.  An operation either completes,
raises an exception, in which case the state is the one the kernel finds, or
meets a fault of the host.
-/

open Words Memory Calls

namespace Nachos

def numGPRegs : Nat := 32

def numTotalRegs : Nat := 40

abbrev Register := Fin numTotalRegs

abbrev Registers := Register → Word

namespace Register

def gp (index : Fin numGPRegs) : Register := index.castLE (by decide)

def zeroReg : Register := ⟨0, by decide⟩
def stackReg : Register := ⟨29, by decide⟩
def retAddrReg : Register := ⟨31, by decide⟩
def hiReg : Register := ⟨32, by decide⟩
def loReg : Register := ⟨33, by decide⟩
def pcReg : Register := ⟨34, by decide⟩
def nextPCReg : Register := ⟨35, by decide⟩
def prevPCReg : Register := ⟨36, by decide⟩
def loadReg : Register := ⟨37, by decide⟩
def loadValueReg : Register := ⟨38, by decide⟩
def badVAddrReg : Register := ⟨39, by decide⟩

end Register

open Register

structure Machine where
  registers : Registers
  mainMemory : Nat → Byte
  mmu : Mmu

/-- Why execution of user code stops: the kernel is entered with the machine
in the given state, or the host fails. -/
inductive Stop where
  | raised (which : ExceptionType) (machine : Machine)
  | fault (reason : Fault)

namespace Machine

def writeRegister (machine : Machine) (num : Register) (value : Word) :
    Machine :=
  { machine with registers := Function.update machine.registers num value }

/-- `registers[index] = value` for an index which is itself a machine
value. -/
def writeIndexed (machine : Machine) (index value : Word) :
    Result Machine :=
  if inside : index.toNat < numTotalRegs then
    .ok (machine.writeRegister ⟨index.toNat, inside⟩ value)
  else .error .bounds

/-- `Machine::DelayedLoad`. -/
def delayedLoad (machine : Machine) (nextReg nextValue : Word) :
    Result Machine := do
  let machine ← machine.writeIndexed (machine.registers loadReg) (machine.registers loadValueReg)
  let machine := machine.writeRegister loadReg nextReg
  let machine := machine.writeRegister loadValueReg nextValue
  return machine.writeRegister zeroReg 0#32

/-- `Machine::RaiseException` up to the call of `ExceptionHandler`. -/
def raiseException (machine : Machine) (which : ExceptionType) (badVAddr : Word) : Stop :=
  match (machine.writeRegister badVAddrReg badVAddr).delayedLoad 0#32 0#32 with
  | .ok machine => .raised which machine
  | .error reason => .fault reason

/-- The translation step of `ReadMem` and `WriteMem`. -/
def translate (machine : Machine) (addr : Word) (size : Nat)
    (writing : Bool) : Except Stop (Nat × Machine) :=
  match machine.mmu.translate addr size writing with
  | .ok (physicalAddress, mmu) =>
    .ok (physicalAddress, { machine with mmu := mmu })
  | .error (.exception which) => .error (machine.raiseException which addr)
  | .error (.fault reason) => .error (.fault reason)

/-- The value at a physical address; a single byte is a signed `char`. -/
def load (memory : Nat → Byte) (address : Nat) : Nat → Option Word
  | 1 => some ((memory address).signExtend 32)
  | 2 => some ((memory (address + 1) ++ memory address).setWidth 32)
  | 4 => some (wordAt memory address)
  | _ => none

/-- The bytes stored for a value. -/
def storedBytes (value : Word) : Nat → Option (List Byte)
  | 1 => some [byteOf value 0]
  | 2 => some [byteOf value 0, byteOf value 1]
  | 4 => some [byteOf value 0, byteOf value 1, byteOf value 2, byteOf value 3]
  | _ => none

/-- `Machine::ReadMem`. -/
def readMem (machine : Machine) (addr : Word) (size : Nat) : Except Stop (Word × Machine) := do
  let (physicalAddress, machine) ← machine.translate addr size false
  match load machine.mainMemory physicalAddress size with
  | some value => .ok (value, machine)
  | none => .error (.fault .assertion)

/-- `Machine::WriteMem`. -/
def writeMem (machine : Machine) (addr : Word) (size : Nat) (value : Word) :
    Except Stop (Unit × Machine) := do
  let (physicalAddress, machine) ← machine.translate addr size true
  match storedBytes value size with
  | some bytes =>
    .ok ((), { machine with
      mainMemory := splice machine.mainMemory physicalAddress bytes })
  | none => .error (.fault .assertion)

end Machine

/-- What an instruction, or the kernel on behalf of one, asks of the
machine. -/
inductive MachineCall where
  | readRegister (num : Register)
  | writeRegister (num : Register) (value : Word)
  | readMem (addr : Word) (size : Nat)
  | writeMem (addr : Word) (size : Nat) (value : Word)
  | delayedLoad (nextReg nextValue : Word)
  | raise (which : ExceptionType) (badVAddr : Word)
  | fail (reason : Fault)

def MachineCall.Reply : MachineCall → Type
  | .readRegister _ => Word
  | .writeRegister _ _ => Unit
  | .readMem _ _ => Word
  | .writeMem _ _ _ => Unit
  | .delayedLoad _ _ => Unit
  | .raise _ _ => Empty
  | .fail _ => Empty

abbrev MachineProgram := Program MachineCall MachineCall.Reply

/-- How the machine answers one call. -/
def Machine.answer : Program.Interpreter MachineCall MachineCall.Reply Machine Stop
  | .readRegister num, machine => .ok (machine.registers num, machine)
  | .writeRegister num value, machine =>
    .ok ((), machine.writeRegister num value)
  | .readMem addr size, machine => machine.readMem addr size
  | .writeMem addr size value, machine => machine.writeMem addr size value
  | .delayedLoad nextReg nextValue, machine =>
    match machine.delayedLoad nextReg nextValue with
    | .ok machine => .ok ((), machine)
    | .error reason => .error (.fault reason)
  | .raise which badVAddr, machine =>
    .error (machine.raiseException which badVAddr)
  | .fail reason, _ => .error (.fault reason)

namespace Cpu

def readRegister (num : Register) : MachineProgram Word :=
  Program.perform (MachineCall.readRegister num)

def writeRegister (num : Register) (value : Word) : MachineProgram Unit :=
  Program.perform (MachineCall.writeRegister num value)

def readMem (addr : Word) (size : Nat) : MachineProgram Word :=
  Program.perform (MachineCall.readMem addr size)

def writeMem (addr : Word) (size : Nat) (value : Word) :
    MachineProgram Unit :=
  Program.perform (MachineCall.writeMem addr size value)

def delayedLoad (nextReg nextValue : Word) : MachineProgram Unit :=
  Program.perform (MachineCall.delayedLoad nextReg nextValue)

def raise {α : Type} (which : ExceptionType) (badVAddr : Word) :
    MachineProgram α :=
  .call (.raise which badVAddr) fun impossible => nomatch impossible

def fail {α : Type} (reason : Fault) : MachineProgram α :=
  .call (.fail reason) fun impossible => nomatch impossible

/-- `ASSERT(condition)` in the simulator. -/
def assert (condition : Bool) : MachineProgram Unit :=
  if condition then pure () else fail .assertion

end Cpu

end Nachos
