import Nachos.FileSys.Disk

/-!
# User memory and address translation

The simulated machine sees memory through a linear page table or a TLB.
Translation checks alignment, validity, permission and the frame number, and
sets the use and dirty bits of the entry it went through.
-/

open Words Memory

namespace Nachos

def pageSize : Nat := sectorSize

theorem pageSize_eq : (pageSize : Int) = 512 := rfl

def numPhysPages : Nat := 128

def memorySize : Nat := numPhysPages * pageSize

def tlbSize : Nat := 4

inductive ExceptionType where
  | noException
  | syscallException
  | pageFaultException
  | readOnlyException
  | busErrorException
  | addressErrorException
  | overflowException
  | illegalInstrException
  | numExceptionTypes
  deriving DecidableEq

structure TranslationEntry where
  virtualPage : Word
  physicalPage : Word
  valid : Bool
  readOnly : Bool
  use : Bool
  dirty : Bool
  deriving DecidableEq

/-- Why a translation gives no address. -/
inductive Refusal where
  | exception (which : ExceptionType)
  | fault (reason : Fault)

/-- The parts of the machine which translation works on.  `pageTableSize` is
the length of the table. -/
structure Mmu where
  pageTable : Option (List TranslationEntry)
  tlb : Option (Fin tlbSize → TranslationEntry)

namespace Mmu

/-- The checks of `Translate` on the entry it has found. -/
def translateEntry (entry : TranslationEntry) (offset size : Nat)
    (writing : Bool) : Except Refusal (Nat × TranslationEntry) :=
  if entry.readOnly && writing then
    .error (.exception .readOnlyException)
  else
    let pageFrame := entry.physicalPage.toNat
    if pageFrame ≥ numPhysPages then
      .error (.exception .busErrorException)
    else
      let physAddr := pageFrame * pageSize + offset
      if physAddr + size ≤ memorySize then
        .ok (physAddr, { entry with use := true, dirty := entry.dirty || writing })
      else .error (.fault .assertion)

/-- `size == 4 && (virtAddr & 0x3)`, and the same for half words. -/
def misaligned (virtAddr : Word) (size : Nat) : Bool :=
  (size == 4 && virtAddr &&& 3#32 != 0#32) || (size == 2 && virtAddr &&& 1#32 != 0#32)

/-- The TLB entry which translates a virtual page. -/
def tlbIndex (tlb : Fin tlbSize → TranslationEntry) (vpn : Nat) : Option (Fin tlbSize) :=
  (List.finRange tlbSize).find? fun index =>
    (tlb index).valid && (tlb index).virtualPage.toNat == vpn

/-- `Machine::Translate`. -/
def translate (mmu : Mmu) (virtAddr : Word) (size : Nat)
    (writing : Bool) : Except Refusal (Nat × Mmu) :=
  if misaligned virtAddr size then
    .error (.exception .addressErrorException)
  else
    let vpn := virtAddr.toNat / pageSize
    let offset := virtAddr.toNat % pageSize
    match mmu.pageTable, mmu.tlb with
    | some table, none =>
      match table[vpn]? with
      | none => .error (.exception .addressErrorException)
      | some entry =>
        if !entry.valid then .error (.exception .pageFaultException)
        else do
          let (physAddr, entry) ←
            translateEntry entry offset size writing
          return (physAddr, { mmu with pageTable := some (table.set vpn entry) })
    | none, some tlb =>
      match tlbIndex tlb vpn with
      | none => .error (.exception .pageFaultException)
      | some index => do
        let (physAddr, entry) ←
          translateEntry (tlb index) offset size writing
        return (physAddr, { mmu with tlb := some (Function.update tlb index entry) })
    | _, _ => .error (.fault .assertion)

end Mmu

end Nachos
