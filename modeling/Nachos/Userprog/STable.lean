import Nachos.BitMap

/-!
# The table of named semaphores

`STable` gives user programs semaphores by name.  The constructor does not
set the slots, so a fresh slot holds whatever the allocated memory held: it
can be `NULL`, but also a wild pointer.
-/

open Words

namespace Nachos

def maxSemaphore : Nat := 10

/-- A `Sem` object with the value of its semaphore. -/
structure Sem where
  name : CString
  value : Word
  deriving DecidableEq

/-- `Sem::Sem`.  `strcpy` needs room for the name and its NUL in `name[50]`. -/
def Sem.new (name : CString) (initVal : Word) : Result Sem :=
  if name.length < 50 then .ok ⟨name, initVal⟩ else .error .bounds

/-- A slot of `semTab`. -/
inductive SemSlot where
  | null
  | wild
  | sem (object : Sem)
  deriving DecidableEq

structure STable where
  bm : BitMap maxSemaphore
  semTab : Fin maxSemaphore → SemSlot

namespace STable

/-- `STable::STable`. -/
def new (freshWords : Fin (numWords maxSemaphore) → Word)
    (freshSlots : Fin maxSemaphore → SemSlot) : STable where
  bm := BitMap.new freshWords
  semTab := freshSlots

/-- The loop of `IsExist`, over the slots which are left. -/
def isExistFrom (table : STable) (name : CString) : List (Fin maxSemaphore) → Result Int
  | [] => .ok (-1)
  | index :: rest =>
    match table.semTab index with
    | .null => table.isExistFrom name rest
    | .wild => .error .bounds
    | .sem object =>
      if object.name = name then .ok index.val
      else table.isExistFrom name rest

def isExist (table : STable) (name : CString) : Result Int :=
  table.isExistFrom name (List.finRange maxSemaphore)

/-- The object in slot `index`. -/
def deref (table : STable) (index : Int) : Result (Fin maxSemaphore × Sem) :=
  if inside : 0 ≤ index ∧ index.toNat < maxSemaphore then
    match table.semTab ⟨index.toNat, inside.2⟩ with
    | .sem object => .ok (⟨index.toNat, inside.2⟩, object)
    | _ => .error .bounds
  else .error .bounds

def setSlot (table : STable) (index : Fin maxSemaphore) (object : Sem) :
    STable :=
  { table with
    semTab := Function.update table.semTab index (.sem object) }

/-- `STable::Create`; the first test asks for a name in slot 0. -/
def create (table : STable) (name : CString) (init : Word) : Result (Int × STable) := do
  let found ← table.isExist name
  if found = 0 then return (-1, table)
  let (index, bm) := table.bm.find
  if inside : 0 ≤ index ∧ index.toNat < maxSemaphore then
    let object ← Sem.new name init
    return (index, { table with bm := bm }.setSlot ⟨index.toNat, inside.2⟩ object)
  else return (-1, table)

def getValue (table : STable) (name : CString) : Result Word := do
  let index ← table.isExist name
  if index = -1 then return 32767#32
  let (_, object) ← table.deref index
  return object.value

/-- `STable::Signal` with the increment of `Semaphore::V`. -/
def signal (table : STable) (name : CString) : Result (Int × STable) := do
  let index ← table.isExist name
  if index = -1 then return (-1, table)
  let (slot, object) ← table.deref index
  return (0, table.setSlot slot { object with value := object.value + 1 })

/-- The test and the decrement of `Semaphore::P` on the semaphore in a slot;
`none` means that the caller has to sleep. -/
def take (table : STable) (index : Int) : Result (Option STable) := do
  let (slot, object) ← table.deref index
  if object.value = 0#32 then return none
  return some (table.setSlot slot { object with value := object.value - 1 })

end STable

end Nachos
