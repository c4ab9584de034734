import Nachos.Machine.Cpu
import Nachos.Userprog.STable

/-!
# What a system call works with

The handlers of `exception.cc` read and write the registers and the memory
of the calling program, the table of open files and the semaphore table.
Everything else, the UNIX files behind the stub file system, the console and
the process table, is reached through `HostCall`.  Such a call may give up
the processor.  Other threads then run and change whatever they can reach,
but `SaveUserState` and `RestoreUserState` keep the registers of the caller.
-/

open Words Memory Calls

namespace Nachos

def maxOpenFiles : Nat := 15

/-- An `OpenFile` of the stub file system: a UNIX file descriptor. -/
structure StubFile where
  type : Word
  file : Word
  currentOffset : Word

/-- What a handler asks of the rest of the kernel and of UNIX.  `getChar` is
the loop `do … while (ch == EOF)` of `SynchConsole::Read`. -/
inductive HostCall where
  | newChars (size : Nat)
  | openForWrite (name : CString)
  | openForReadWrite (name : CString)
  | close (file : Word)
  | lseek (file offset : Word)
  | readPartial (file nBytes : Word)
  | writeFile (file : Word) (buffer : List Byte) (nBytes : Word)
  | tell (file : Word)
  | waitForLine
  | getChar
  | putChar (character : Byte)
  | execUpdate (filename : CString)
  | joinUpdate (pid : Word)
  | exitUpdate (exitcode : Word)
  | sleep
  | garbage

/-- `new` gives `NULL` or a block with some contents, a partial read gives
the count it returns and the bytes it has stored, and `garbage` is the value
of a variable which is not set. -/
def HostCall.Reply : HostCall → Type
  | .newChars _ => Option (Nat → Byte)
  | .openForWrite _ => Word
  | .openForReadWrite _ => Word
  | .close _ => Unit
  | .lseek _ _ => Unit
  | .readPartial _ _ => Word × List Byte
  | .writeFile _ _ _ => Unit
  | .tell _ => Word
  | .waitForLine => Unit
  | .getChar => Byte
  | .putChar _ => Unit
  | .execUpdate _ => Word
  | .joinUpdate _ => Word
  | .exitUpdate _ => Word
  | .sleep => Unit
  | .garbage => Byte

/-- How a handler ends without returning to the user program. -/
inductive Departure where
  | halted
  | finished
  | blocked
  | fault (reason : Fault)
  deriving DecidableEq

/-- What other threads can change while a system call is under way. -/
structure Shared (σ : Type) where
  mainMemory : Nat → Byte
  mmu : Mmu
  openf : Fin maxOpenFiles → Option StubFile
  semTab : STable
  rest : σ

structure Kernel (σ : Type) where
  registers : Registers
  shared : Shared σ

/-- The rest of the system: UNIX, the devices and the other threads. -/
abbrev Environment (σ : Type) :=
  Program.Interpreter HostCall HostCall.Reply (Shared σ) Departure

inductive KernelCall where
  | readRegister (num : Register)
  | writeRegister (num : Register) (value : Word)
  | readMem (addr : Word) (size : Nat)
  | writeMem (addr : Word) (size : Nat) (value : Word)
  | readOpenf (index : Fin maxOpenFiles)
  | writeOpenf (index : Fin maxOpenFiles) (file : Option StubFile)
  | readSemTab
  | writeSemTab (table : STable)
  | host (call : HostCall)
  | depart (reason : Departure)

def KernelCall.Reply : KernelCall → Type
  | .readRegister _ => Word
  | .writeRegister _ _ => Unit
  | .readMem _ _ => Word
  | .writeMem _ _ _ => Unit
  | .readOpenf _ => Option StubFile
  | .writeOpenf _ _ => Unit
  | .readSemTab => STable
  | .writeSemTab _ => Unit
  | .host call => call.Reply
  | .depart _ => Empty

abbrev KernelProgram := Program KernelCall KernelCall.Reply

namespace Kernel

variable {σ : Type}

def machine (kernel : Kernel σ) : Machine where
  registers := kernel.registers
  mainMemory := kernel.shared.mainMemory
  mmu := kernel.shared.mmu

def withMachine (kernel : Kernel σ) (machine : Machine) : Kernel σ where
  registers := machine.registers
  shared := { kernel.shared with
    mainMemory := machine.mainMemory
    mmu := machine.mmu }

/-- A memory access of the kernel to user memory.  The exceptions it can
raise enter `ExceptionHandler` once more, which halts the machine. -/
def access {α : Type} (kernel : Kernel σ) (outcome : Except Stop (α × Machine)) :
    Except Departure (α × Kernel σ) :=
  match outcome with
  | .ok (value, machine) => .ok (value, kernel.withMachine machine)
  | .error (.raised _ _) => .error .halted
  | .error (.fault reason) => .error (.fault reason)

/-- How the kernel answers one call of a handler. -/
def answer (environment : Environment σ) :
    Program.Interpreter KernelCall KernelCall.Reply (Kernel σ) Departure
  | .readRegister num, kernel => .ok (kernel.registers num, kernel)
  | .writeRegister num value, kernel =>
    .ok ((), { kernel with
      registers := Function.update kernel.registers num value })
  | .readMem addr size, kernel =>
    kernel.access (kernel.machine.readMem addr size)
  | .writeMem addr size value, kernel =>
    kernel.access (kernel.machine.writeMem addr size value)
  | .readOpenf index, kernel => .ok (kernel.shared.openf index, kernel)
  | .writeOpenf index file, kernel =>
    .ok ((), { kernel with
      shared := { kernel.shared with
        openf := Function.update kernel.shared.openf index file } })
  | .readSemTab, kernel => .ok (kernel.shared.semTab, kernel)
  | .writeSemTab table, kernel =>
    .ok ((), { kernel with
      shared := { kernel.shared with semTab := table } })
  | .host call, kernel =>
    match environment call kernel.shared with
    | .ok (reply, shared) => .ok (reply, { kernel with shared := shared })
    | .error reason => .error reason
  | .depart reason, _ => .error reason

end Kernel

namespace Handler

def readRegister (num : Register) : KernelProgram Word :=
  Program.perform (KernelCall.readRegister num)

def writeRegister (num : Register) (value : Word) : KernelProgram Unit :=
  Program.perform (KernelCall.writeRegister num value)

def readMem (addr : Word) (size : Nat) : KernelProgram Word :=
  Program.perform (KernelCall.readMem addr size)

def writeMem (addr : Word) (size : Nat) (value : Word) :
    KernelProgram Unit :=
  Program.perform (KernelCall.writeMem addr size value)

def readOpenf (index : Fin maxOpenFiles) : KernelProgram (Option StubFile) :=
  Program.perform (KernelCall.readOpenf index)

def writeOpenf (index : Fin maxOpenFiles) (file : Option StubFile) :
    KernelProgram Unit :=
  Program.perform (KernelCall.writeOpenf index file)

def readSemTab : KernelProgram STable :=
  Program.perform KernelCall.readSemTab

def writeSemTab (table : STable) : KernelProgram Unit :=
  Program.perform (KernelCall.writeSemTab table)

def host (call : HostCall) : KernelProgram call.Reply :=
  Program.perform (KernelCall.host call)

/-- Leave the handler for good. -/
def depart {α : Type} (reason : Departure) : KernelProgram α := do
  let never ← Program.perform (KernelCall.depart reason)
  nomatch never

def halt {α : Type} : KernelProgram α := depart .halted

def fail {α : Type} (reason : Fault) : KernelProgram α :=
  depart (.fault reason)

/-- A kernel computation which can fail. -/
def lift {α : Type} : Result α → KernelProgram α
  | .ok value => pure value
  | .error reason => fail reason

end Handler

end Nachos
