import Nachos.Userprog.Kernel

/-!
# The exception handler

`ExceptionHandler` dispatches on the system call code in register 2.  Every
case ends in `break`, halts the machine or finishes the thread; after the
dispatch the program counters are advanced.  `SC_Write` can fall through to
`SC_ReadInt`, and the semaphore calls advance the program counters
themselves.
-/

open Words Memory Calls

namespace Nachos

/-- The system calls which have a case of their own. -/
inductive Syscall where
  | halt
  | exit
  | exec
  | join
  | create
  | open
  | read
  | write
  | close
  | readInt
  | printInt
  | readChar
  | printChar
  | readString
  | printString
  | createSemaphore
  | signal
  | wait
  deriving DecidableEq

/-- The `SC_` codes of `syscall.h`; `SC_Fork` and `SC_Yield` have no case. -/
def Syscall.ofCode (code : Word) : Option Syscall :=
  match code.toNat with
  | 0 => some .halt
  | 1 => some .exit
  | 2 => some .exec
  | 3 => some .join
  | 4 => some .create
  | 5 => some .open
  | 6 => some .read
  | 7 => some .write
  | 8 => some .close
  | 11 => some .readInt
  | 12 => some .printInt
  | 13 => some .readChar
  | 14 => some .printChar
  | 15 => some .readString
  | 16 => some .printString
  | 17 => some .createSemaphore
  | 18 => some .signal
  | 19 => some .wait
  | _ => none

namespace Handler

def r2 : Register := Register.gp ⟨2, by decide⟩
def r4 : Register := Register.gp ⟨4, by decide⟩
def r5 : Register := Register.gp ⟨5, by decide⟩
def r6 : Register := Register.gp ⟨6, by decide⟩

def maxNameLength : Word := 32#32

/-- `AdvanceProgramCounter`. -/
def advanceProgramCounter : KernelProgram Unit := do
  let pc ← readRegister .pcReg
  writeRegister .prevPCReg pc
  let nextPC ← readRegister .nextPCReg
  writeRegister .pcReg nextPC
  writeRegister .nextPCReg (nextPC + 4#32)

/-! ## Kernel buffers -/

def charAt (buffer : List Byte) (index : Nat) : KernelProgram Byte :=
  lift (inBounds buffer[index]?)

def setChar (buffer : List Byte) (index : Nat) (character : Byte) : KernelProgram (List Byte) :=
  if index < buffer.length then pure (buffer.set index character)
  else fail .bounds

/-- `new char[size]`: `none` is `NULL`. -/
def newBuffer (size : Word) : KernelProgram (Option (List Byte)) :=
  if size.toInt < 0 then fail .allocation
  else do
    let fresh ← host (.newChars size.toNat)
    return fresh.map fun contents => (List.range size.toNat).map contents

/-- The use of a pointer which the source does not test for `NULL`. -/
def nonNull {α : Type} (pointer : Option α) : KernelProgram α :=
  lift (inBounds pointer)

/-- The C string at the start of a buffer. -/
def cString (buffer : List Byte) : CString :=
  buffer.takeWhile (· ≠ 0#8)

/-- The loop of `UserToSystem`, with the number of characters left. -/
def readChars (virtAddr : Word) : Nat → Nat → List Byte → KernelProgram (List Byte)
  | 0, _, kernelBuf => pure kernelBuf
  | left + 1, i, kernelBuf => do
    let oneChar ← readMem (virtAddr + BitVec.ofNat 32 i) 1
    let kernelBuf ← setChar kernelBuf i (oneChar.setWidth 8)
    if oneChar = 0#32 then return kernelBuf
    else readChars virtAddr left (i + 1) kernelBuf

/-- `UserToSystem`. -/
def userToSystem (virtAddr limit : Word) : KernelProgram (Option (List Byte)) := do
  match ← newBuffer (limit + 1#32) with
  | none => return none
  | some block =>
    let kernelBuf := List.replicate block.length 0#8
    let kernelBuf ← readChars virtAddr limit.toInt.toNat 0 kernelBuf
    return some kernelBuf

/-- The `do` loop of `SystemToUser`, with the number of rounds left. -/
def writeChars (virtAddr : Word) (buffer : List Byte) : Nat → Nat → KernelProgram Word
  | 0, i => pure (BitVec.ofNat 32 i)
  | left + 1, i => do
    let oneChar ← charAt buffer i
    writeMem (virtAddr + BitVec.ofNat 32 i) 1 (oneChar.signExtend 32)
    if oneChar = 0#8 then return BitVec.ofNat 32 (i + 1)
    else writeChars virtAddr buffer left (i + 1)

/-- `SystemToUser`. -/
def systemToUser (virtAddr len : Word) (buffer : List Byte) :
    KernelProgram Word :=
  if len.toInt < 0 then return -1#32
  else if len = 0#32 then return len
  else writeChars virtAddr buffer len.toNat 0

/-! ## The console -/

/-- The loop of `SynchConsole::Write`. -/
def putChars (buffer : List Byte) : Nat → Nat → KernelProgram Unit
  | 0, _ => pure ()
  | left + 1, loop => do
    let character ← charAt buffer loop
    host (.putChar character)
    putChars buffer left (loop + 1)

/-- `gSynchConsole->Write(from + start, numBytes)`. -/
def consoleWrite (buffer : List Byte) (start : Nat) (numBytes : Word) :
    KernelProgram Unit := do
  host .waitForLine
  putChars buffer numBytes.toInt.toNat start

/-- The outer loop of `SynchConsole::Read`, with the number of characters left
and the last character; the result is the buffer, the number of characters and
the last character.  The inner loop, which skips `EOF`, is the host's. -/
def getChars : Nat → Nat → Byte → List Byte → KernelProgram (List Byte × Nat × Byte)
  | 0, loop, ch, buffer => pure (buffer, loop, ch)
  | left + 1, loop, _, buffer => do
    let ch : Byte ← host .getChar
    if ch = 10#8 ∨ ch = 1#8 then return (buffer, loop, ch)
    else
      let buffer ← setChar buffer loop ch
      getChars left (loop + 1) ch buffer

/-- `gSynchConsole->Read(into, numBytes)`: the result is `-1` if the last
character is CTRL-A, which is not set if `numBytes` is not positive. -/
def consoleRead (buffer : List Byte) (numBytes : Word) : KernelProgram (Word × List Byte) :=
  let count := numBytes.toInt.toNat
  if buffer.length < count then fail .bounds
  else do
    let cleared := List.replicate count 0#8 ++ buffer.drop count
    host .waitForLine
    let unset ← host .garbage
    let (buffer, loop, ch) ← getChars count 0 unset cleared
    if ch = 1#8 then return (-1#32, buffer)
    else return (BitVec.ofNat 32 loop, buffer)

/-! ## Open files -/

/-- `FindFreeSlot`, over the slots which are left. -/
def findFreeSlotFrom : List (Fin maxOpenFiles) → KernelProgram (Option (Fin maxOpenFiles))
  | [] => pure none
  | index :: rest => do
    match ← readOpenf index with
    | none => return some index
    | some _ => findFreeSlotFrom rest

/-- `FindFreeSlot`; slots 0 and 1 are for the console. -/
def findFreeSlot : KernelProgram (Option (Fin maxOpenFiles)) :=
  findFreeSlotFrom ((List.finRange maxOpenFiles).drop 2)

/-- `FileSystem::Create` of the stub. -/
def createFile (name : CString) : KernelProgram Bool := do
  let fileDescriptor : Word ← host (.openForWrite name)
  if fileDescriptor = -1#32 then return false
  else
    host (.close fileDescriptor)
    return true

/-- `FileSystem::Open` of the stub. -/
def openFile (name : CString) (type : Word) : KernelProgram (Option StubFile) := do
  let fileDescriptor : Word ← host (.openForReadWrite name)
  if fileDescriptor = -1#32 then return none
  else return some ⟨type, fileDescriptor, 0#32⟩

/-- The `OpenFile` in a slot which has been tested before. -/
def openFileAt (id : Fin maxOpenFiles) : KernelProgram StubFile := do
  nonNull (← readOpenf id)

/-- `OpenFile::GetCurrentPos` of the stub, which also sets the offset. -/
def getCurrentPos (id : Fin maxOpenFiles) : KernelProgram Word := do
  let file ← openFileAt id
  let position ← host (.tell file.file)
  writeOpenf id (some { file with currentOffset := position })
  return position

/-- `OpenFile::Read` of the stub. -/
def readFile (id : Fin maxOpenFiles) (buffer : List Byte)
    (numBytes : Word) : KernelProgram (Word × List Byte) := do
  let file ← openFileAt id
  host (.lseek file.file file.currentOffset)
  let (numRead, bytes) ← host (.readPartial file.file numBytes)
  if buffer.length < bytes.length then fail .bounds
  else
    writeOpenf id (some { file with
      currentOffset := file.currentOffset + numRead })
    return (numRead, bytes ++ buffer.drop bytes.length)

/-- `OpenFile::Write` of the stub. -/
def writeFile (id : Fin maxOpenFiles) (buffer : List Byte)
    (numBytes : Word) : KernelProgram Word := do
  let file ← openFileAt id
  host (.lseek file.file file.currentOffset)
  host (.writeFile file.file buffer numBytes)
  writeOpenf id (some { file with
    currentOffset := file.currentOffset + numBytes })
  return numBytes

/-- The index a file id names, if it is between 0 and 14. -/
def fileIndex (id : Word) : Option (Fin maxOpenFiles) :=
  if inside : 0 ≤ id.toInt ∧ id.toInt.toNat < maxOpenFiles then
    some ⟨id.toInt.toNat, inside.2⟩
  else none

/-! ## Numerals -/

/-- The digits which `SC_PrintInt` counts in a positive number. -/
def numberOfDigits (temp : Nat) : Nat :=
  if temp = 0 then 0 else numberOfDigits (temp / 10) + 1

/-- The loop of `SC_PrintInt` which stores the digits from the last one. -/
def storeDigits : Nat → Int → List Byte → KernelProgram (List Byte)
  | 0, _, buffer => pure buffer
  | i + 1, number, buffer => do
    let digit := BitVec.ofInt 8 (number.tmod 10 + 48)
    let buffer ← setChar buffer i digit
    storeDigits i (number.tdiv 10) buffer

def isDigit (character : Byte) : Bool := 48#8 ≤ character ∧ character ≤ 57#8

def isSpace (character : Byte) : Bool :=
  character = 32#8 ∨ 9#8 ≤ character ∧ character ≤ 13#8

/-- `atoi`, which must find a character that ends the numeral. -/
def atoi (buffer : List Byte) : KernelProgram Word :=
  let text := buffer.dropWhile isSpace
  let unsigned :=
    if text.head? = some 45#8 ∨ text.head? = some 43#8 then text.tail
    else text
  let digits := unsigned.takeWhile isDigit
  let magnitude : Int := digits.foldl (fun number digit => number * 10 + (digit.toNat - 48 : Nat)) 0
  let number := if text.head? = some 45#8 then -magnitude else magnitude
  if digits.length = unsigned.length then fail .bounds
  else return BitVec.ofInt 32 (max (-2147483648) (min 2147483647 number))

/-! ## The cases of the dispatch -/

def scExec : KernelProgram Unit := do
  let virtAddr ← readRegister r4
  match ← userToSystem virtAddr (32#32 + 1#32) with
  | none => writeRegister r2 (-1#32)
  | some filename =>
    let pid ← host (.execUpdate (cString filename))
    writeRegister r2 pid

def scJoin : KernelProgram Unit := do
  let pid ← readRegister r4
  let exitcode ← host (.joinUpdate pid)
  writeRegister r2 exitcode

/-- Only the exit status 0 ends the process. -/
def scExit : KernelProgram Unit := do
  let exitstatus ← readRegister r4
  if exitstatus ≠ 0#32 then return ()
  else
    let _ ← host (.exitUpdate exitstatus)
    writeRegister r2 exitstatus
    depart .finished

def scCreateSemaphore : KernelProgram Unit := do
  let virtAddr ← readRegister r4
  let initVal ← readRegister r5
  let name ← nonNull (← userToSystem virtAddr (maxNameLength + 1#32))
  let table ← readSemTab
  let (index, table) ← lift (table.create (cString name) initVal)
  writeSemTab table
  writeRegister r2 (BitVec.ofInt 32 index)
  advanceProgramCounter

/-- The call of `semTab->Signal` in `SC_Signal`. -/
def semSignal (name : CString) : KernelProgram Word := do
  let table ← readSemTab
  let (result, table) ← lift (table.signal name)
  writeSemTab table
  return BitVec.ofInt 32 result

/-- The call of `semTab->Wait` in `SC_Wait`.  A thread which sleeps in
`Semaphore::P` comes back when it finds the semaphore available, or never. -/
def semWait (name : CString) : KernelProgram Word := do
  let table ← readSemTab
  let index ← lift (table.isExist name)
  if index = -1 then return -1#32
  else
    match ← lift (table.take index) with
    | some table =>
      writeSemTab table
      return 0#32
    | none =>
      host .sleep
      let table ← readSemTab
      match ← lift (table.take index) with
      | some table =>
        writeSemTab table
        return 0#32
      | none => depart .blocked

/-- What `SC_Signal` and `SC_Wait` share: the test which takes slot 0 for a
missing semaphore, and the program counters. -/
def semaphoreCall (operation : CString → KernelProgram Word) :
    KernelProgram Unit := do
  let virtAddr ← readRegister r4
  let name ← nonNull (← userToSystem virtAddr (maxNameLength + 1#32))
  let table ← readSemTab
  let _ ← lift (table.getValue (cString name))
  let found ← lift (table.isExist (cString name))
  if found = 0 then
    writeRegister r2 (-1#32)
    advanceProgramCounter
  else
    let result ← operation (cString name)
    writeRegister r2 result
    advanceProgramCounter

def scSignal : KernelProgram Unit := semaphoreCall semSignal

def scWait : KernelProgram Unit := semaphoreCall semWait

def scCreate : KernelProgram Unit := do
  let virtAddr ← readRegister r4
  match ← userToSystem virtAddr (maxNameLength + 1#32) with
  | none => writeRegister r2 (-1#32)
  | some fileName =>
    if ← createFile (cString fileName) then writeRegister r2 0#32
    else writeRegister r2 (-1#32)

/-- A file which does not open leaves register 2 as it is. -/
def scOpen : KernelProgram Unit := do
  let virtAddr ← readRegister r4
  let type ← readRegister r5
  let filename ← userToSystem virtAddr maxNameLength
  match ← findFreeSlot with
  | none => writeRegister r2 (-1#32)
  | some freeSlot =>
    if type = 0#32 ∨ type = 1#32 then
      let filename ← nonNull filename
      let file ← openFile (cString filename) type
      writeOpenf freeSlot file
      if file.isSome then
        writeRegister r2 (BitVec.ofNat 32 freeSlot.val)
      else return ()
    else if type = 2#32 then writeRegister r2 0#32
    else writeRegister r2 1#32

def scClose : KernelProgram Unit := do
  let fid ← readRegister r4
  match fileIndex fid with
  | none => writeRegister r2 (-1#32)
  | some fid =>
    match ← readOpenf fid with
    | none => writeRegister r2 (-1#32)
    | some file =>
      host (.close file.file)
      writeOpenf fid none
      writeRegister r2 0#32

def scRead : KernelProgram Unit := do
  let virtAddr ← readRegister r4
  let charcount ← readRegister r5
  let id ← readRegister r6
  match fileIndex id with
  | none => writeRegister r2 (-1#32)
  | some id =>
    match ← readOpenf id with
    | none => writeRegister r2 (-1#32)
    | some file =>
      if file.type = 3#32 then writeRegister r2 (-1#32)
      else
        let oldPos ← getCurrentPos id
        let buf ← nonNull (← userToSystem virtAddr charcount)
        let file ← openFileAt id
        if file.type = 2#32 then
          let (size, buf) ← consoleRead buf charcount
          let _ ← systemToUser virtAddr size buf
          writeRegister r2 size
        else
          let (numRead, buf) ← readFile id buf charcount
          if 0 < numRead.toInt then
            let newPos ← getCurrentPos id
            let _ ← systemToUser virtAddr (newPos - oldPos) buf
            writeRegister r2 (newPos - oldPos)
          else writeRegister r2 (-2#32)

/-- The loop of `SC_Write` which prints up to the end of a line. -/
def writeLine (buf : List Byte) : Nat → Nat → KernelProgram Nat
  | 0, _ => fail .bounds
  | left + 1, i => do
    let character ← charAt buf i
    if character = 0#8 ∨ character = 10#8 then return i
    else
      consoleWrite buf i 1#32
      writeLine buf left (i + 1)

/-- The case of `SC_Write` up to its end; the result says whether it left
the dispatch by `break`. -/
def scWriteBody : KernelProgram Bool := do
  let virtAddr ← readRegister r4
  let charcount ← readRegister r5
  let id ← readRegister r6
  match fileIndex id with
  | none =>
    writeRegister r2 (-1#32)
    return true
  | some id =>
    match ← readOpenf id with
    | none =>
      writeRegister r2 (-1#32)
      return true
    | some file =>
      if file.type = 1#32 ∨ file.type = 2#32 then
        writeRegister r2 (-1#32)
        return true
      else
        let oldPos ← getCurrentPos id
        let buf ← nonNull (← userToSystem virtAddr charcount)
        let file ← openFileAt id
        if file.type = 0#32 then
          let numWritten ← writeFile id buf charcount
          if 0 < numWritten.toInt then
            let newPos ← getCurrentPos id
            writeRegister r2 (newPos - oldPos)
            return true
          else return false
        else if file.type = 3#32 then
          let i ← writeLine buf (buf.length + 1) 0
          let buf ← setChar buf i 10#8
          consoleWrite buf i 1#32
          writeRegister r2 (BitVec.ofNat 32 i - 1#32)
          return true
        else return false

def scReadInt : KernelProgram Unit := do
  let buffer ← nonNull (← newBuffer 100#32)
  let (length, buffer) ← consoleRead buffer 100#32
  if (buffer.take length.toInt.toNat).all isDigit then
    let number ← atoi buffer
    writeRegister r2 number
  else return ()

/-- Without a `break` the case goes on with `SC_ReadInt`. -/
def scWrite : KernelProgram Unit := do
  if ← scWriteBody then return ()
  else scReadInt

def scPrintInt : KernelProgram Unit := do
  let number ← readRegister r4
  let buffer ← nonNull (← newBuffer 100#32)
  let digits := numberOfDigits number.toInt.toNat
  let buffer ← storeDigits digits number.toInt buffer
  consoleWrite buffer 0 (BitVec.ofNat 32 digits)

def scReadChar : KernelProgram Unit := do
  let character ← nonNull (← newBuffer 255#32)
  let (_, character) ← consoleRead character 255#32
  let first ← charAt character 0
  writeRegister r2 (first.signExtend 32)

def scPrintChar : KernelProgram Unit := do
  let value ← readRegister r4
  consoleWrite [value.setWidth 8] 0 1#32

def scReadString : KernelProgram Unit := do
  let virtAddr ← readRegister r4
  let bufferSize ← readRegister r5
  let buffer ← nonNull (← newBuffer bufferSize)
  let (length, buffer) ← consoleRead buffer bufferSize
  let _ ← systemToUser virtAddr length buffer

def scPrintString : KernelProgram Unit := do
  let virtAddr ← readRegister r4
  let buffer ← nonNull (← userToSystem virtAddr (255#32 + 1#32))
  consoleWrite buffer 0 255#32

def syscallCase : Syscall → KernelProgram Unit
  | .halt => halt
  | .exit => scExit
  | .exec => scExec
  | .join => scJoin
  | .create => scCreate
  | .open => scOpen
  | .read => scRead
  | .write => scWrite
  | .close => scClose
  | .readInt => scReadInt
  | .printInt => scPrintInt
  | .readChar => scReadChar
  | .printChar => scPrintChar
  | .readString => scReadString
  | .printString => scPrintString
  | .createSemaphore => scCreateSemaphore
  | .signal => scSignal
  | .wait => scWait

/-- `ExceptionHandler`. -/
def exceptionHandler (which : ExceptionType) : KernelProgram Unit := do
  let type ← readRegister r2
  match which with
  | .noException => return ()
  | .syscallException =>
    match Syscall.ofCode type with
    | some call =>
      syscallCase call
      advanceProgramCounter
    | none => halt
  | _ => halt

end Handler

end Nachos
