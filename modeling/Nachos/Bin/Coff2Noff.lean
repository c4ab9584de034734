import Nachos.Bin.HostFile
import Nachos.Lib.Fold
import Nachos.Userprog.AddrSpace

/-!
# The converter `coff2noff`

`coff2noff` reads the headers of a COFF file, copies its sections one after
the other behind the place of the NOFF header, and writes that header last.
`int` and `long` have 32 bits, so the file header of the input has 20 bytes,
the system header 56 and each section header 40.
-/

open Words Memory Transition

namespace Nachos

namespace Coff2Noff

/-- Why the program stops, with what it prints. -/
inductive Refusal where
  | tooShort
  | notWritten
  | notMipsel
  | notOmagic
  | bothData
  | bothBss
  | unknownSegment (sName : List Byte)
deriving DecidableEq, Repr

def Refusal.message : Refusal → String
  | .tooShort => "File is too short\n"
  | .notWritten => "Unable to write file\n"
  | .notMipsel => "File is not a MIPSEL COFF file\n"
  | .notOmagic => "File is not a OMAGIC file\n"
  | .bothData => "Can't handle both data and rdata\n"
  | .bothBss => "Can't handle both bss and sbss\n"
  | .unknownSegment sName => "Unknown segment type: " ++
      String.ofList ((sName.takeWhile (· ≠ 0#8)).map fun byte =>
        Char.ofNat byte.toNat) ++ "\n"

/-! ## The headers -/

def mipselMagic : BitVec 16 := 0x0162#16

/-- The octal number `0407`. -/
def omagic : BitVec 16 := 0x0107#16

def filehdrSize : Nat := 20

def aouthdrSize : Nat := 56

def scnhdrSize : Nat := 40

def noffHeaderSize : Word := 40#32

/-- The short word at an offset. -/
def shortAt (bytes : Nat → Byte) (offset : Nat) : BitVec 16 :=
  bytes (offset + 1) ++ bytes offset

/-- The fields of a section header which the program uses. -/
structure Scnhdr where
  sName : List Byte
  sPaddr : Word
  sSize : Word
  sScnptr : Word
deriving DecidableEq, Repr

def scnhdrAt (bytes : Nat → Byte) (offset : Nat) : Scnhdr where
  sName := slice bytes offset 8
  sPaddr := wordAt bytes (offset + 8)
  sSize := wordAt bytes (offset + 16)
  sScnptr := wordAt bytes (offset + 20)

def scnhdrs (bytes : Nat → Byte) (numsections : Nat) : List Scnhdr :=
  (List.range numsections).map fun index =>
    scnhdrAt bytes (scnhdrSize * index)

/-- What the loop does with a section. -/
inductive Kind where
  | empty
  | text
  | initialised
  | uninitialised
  | unknown
deriving DecidableEq, Repr

/-- `!strcmp(s_name, literal)`. -/
def Scnhdr.named (scnhdr : Scnhdr) (literal : String) : Bool :=
  let name : CString := literal.toList.map fun char =>
    BitVec.ofNat 8 char.toNat
  strncmpEqual (CString.at scnhdr.sName) name.at (name.length + 1) 0

def Scnhdr.kind (scnhdr : Scnhdr) : Kind :=
  if scnhdr.sSize = 0#32 then .empty
  else if scnhdr.named ".text" then .text
  else if scnhdr.named ".data" || scnhdr.named ".rdata" then .initialised
  else if scnhdr.named ".bss" || scnhdr.named ".sbss" then .uninitialised
  else .unknown

end Coff2Noff

/-- The words of the header as it lies in memory. -/
def NoffHeader.words (header : NoffHeader) : List Word :=
  [header.noffMagic,
    header.code.virtualAddr, header.code.inFileAddr, header.code.size,
    header.initData.virtualAddr, header.initData.inFileAddr,
    header.initData.size,
    header.uninitData.virtualAddr, header.uninitData.inFileAddr,
    header.uninitData.size]

def NoffHeader.bytes (header : NoffHeader) : List Byte :=
  slice (wordsToBytes fun index => header.words.getD index 0#32) 0 40

namespace Coff2Noff

/-! ## The program -/

/-- `Read`, which stops the program when it does not get all the bytes. -/
def read (fd : HostFile) (nBytes : Word) : Except Refusal (List Byte × HostFile) :=
  let ((count, buf), fd) := fd.read nBytes
  if count ≠ nBytes then .error .tooShort else .ok (buf, fd)

def write (fd : HostFile) (buf : List Byte) (nBytes : Word) :
    Except Refusal HostFile :=
  let (count, fd) := fd.write buf nBytes
  if count ≠ nBytes then .error .notWritten else .ok fd

/-- The variables of the loop over the sections. -/
structure Conversion where
  noffH : NoffHeader
  inNoffFile : Word
  fdIn : HostFile
  fdOut : HostFile

/-- Copy the bytes of a section to the end of the output, and return its
segment. -/
def copyIn (state : Conversion) (scnhdr : Scnhdr) : Except Refusal (Segment × Conversion) := do
  let (buffer, fdIn) ←
    read (state.fdIn.lseek scnhdr.sScnptr) scnhdr.sSize
  let fdOut ← write state.fdOut buffer scnhdr.sSize
  return (⟨scnhdr.sPaddr, state.inNoffFile, scnhdr.sSize⟩, { state with
      inNoffFile := state.inNoffFile + scnhdr.sSize
      fdIn := fdIn
      fdOut := fdOut })

/-- The segment after one more section without bytes in the file. -/
def gather (collected : Segment) (scnhdr : Scnhdr) : Segment :=
  if collected.size ≠ 0#32 then
    { collected with size := collected.size + scnhdr.sSize }
  else { collected with virtualAddr := scnhdr.sPaddr, size := scnhdr.sSize }

/-- The body of the loop. -/
def loadSection (state : Conversion) (scnhdr : Scnhdr) :
    Except Refusal Conversion :=
  match scnhdr.kind with
  | .empty => .ok state
  | .text => do
    let (segment, state) ← copyIn state scnhdr
    return { state with noffH := { state.noffH with code := segment } }
  | .initialised =>
    if state.noffH.initData.size ≠ 0#32 then .error .bothData
    else do
      let (segment, state) ← copyIn state scnhdr
      return { state with
        noffH := { state.noffH with initData := segment } }
  | .uninitialised =>
    let uninitData := state.noffH.uninitData
    if uninitData.size ≠ 0#32 ∧ scnhdr.sPaddr = uninitData.virtualAddr + uninitData.size then
      .error .bothBss
    else .ok { state with noffH := { state.noffH with
      uninitData := gather uninitData scnhdr } }
  | .unknown => .error (.unknownSegment scnhdr.sName)

/-- The section headers of the input, and the file behind them. -/
def readHeaders (fdIn : HostFile) : Except Refusal (List Scnhdr × HostFile) := do
  let (fileh, fdIn) ← read fdIn (BitVec.ofNat 32 filehdrSize)
  if shortAt (CString.at fileh) 0 ≠ mipselMagic then .error .notMipsel
  else do
    let (systemh, fdIn) ← read fdIn (BitVec.ofNat 32 aouthdrSize)
    if shortAt (CString.at systemh) 0 ≠ omagic then .error .notOmagic
    else do
      let numsections := (shortAt (CString.at fileh) 2).toNat
      let (sections, fdIn) ←
        read fdIn (BitVec.ofNat 32 (numsections * scnhdrSize))
      return (scnhdrs (CString.at sections) numsections, fdIn)

/-- The variables before the loop.  The header is a local variable, and the
assignments leave part of what is `fresh` on the stack. -/
def start (fresh : NoffHeader) (fdIn : HostFile) : Conversion where
  noffH := {
    noffMagic := Executable.noffMagic
    code := { fresh.code with size := 0#32 }
    initData := { fresh.initData with size := 0#32 }
    uninitData := { fresh.uninitData with size := 0#32 } }
  inNoffFile := noffHeaderSize
  fdIn := fdIn
  fdOut := HostFile.lseek ⟨[], 0⟩ noffHeaderSize

/-- The bytes of the output for the bytes of the input. -/
def coff2noff (coff : List Byte) (fresh : NoffHeader) : Except Refusal (List Byte) := do
  let (sections, fdIn) ← readHeaders ⟨coff, 0⟩
  let state ← sections.foldlM loadSection (start fresh fdIn)
  let fdOut ← write (state.fdOut.lseek 0#32) state.noffH.bytes noffHeaderSize
  return fdOut.contents

/-- The sections of a COFF file, as the program reads them. -/
def sectionsOf (coff : List Byte) : List Scnhdr :=
  match readHeaders ⟨coff, 0⟩ with
  | .ok (sections, _) => sections
  | .error _ => []

end Coff2Noff

end Nachos
