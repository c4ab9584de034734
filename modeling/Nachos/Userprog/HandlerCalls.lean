import Nachos.Userprog.Exception

/-!
# The calls which the parts of a handler make

Every property of the calls which holds for those a part of a handler makes
holds along the whole part, whatever the replies are.
-/

open Words Memory Calls Program

namespace Nachos

namespace Handler

variable {α : Type} {allowed : KernelCall → Prop}

theorem onlyCalls_findFreeSlot (looks : ∀ index, allowed (.readOpenf index)) :
    findFreeSlot.OnlyCalls allowed := by
  unfold findFreeSlot
  induction (List.finRange maxOpenFiles).drop 2 with
  | nil => exact .pure _
  | cons index rest induction =>
    refine .call (looks _) fun file => ?_
    cases file with
    | none => exact .pure _
    | some file => exact induction

theorem onlyCalls_createFile (name : CString) (hosts : ∀ call, allowed (.host call)) :
    (createFile name).OnlyCalls allowed :=
  .call (hosts _) fun _ =>
    .ite (.pure _) (.call (hosts _) fun _ => .pure _)

theorem onlyCalls_openFile (name : CString) (type : Word) (hosts : ∀ call, allowed (.host call)) :
    (openFile name type).OnlyCalls allowed :=
  .call (hosts _) fun _ => .ite (.pure _) (.pure _)

section Departing

variable {virtAddr size numBytes : Word} {buffer : List Byte} {left i : Nat} {character : Byte}
  (departs : ∀ reason, allowed (.depart reason))

include departs

theorem onlyCalls_depart {reason : Departure} :
    (depart reason : KernelProgram α).OnlyCalls allowed :=
  .call (departs reason) nofun

theorem onlyCalls_lift {result : Result α} : (lift result).OnlyCalls allowed := by
  cases result with
  | ok value => exact .pure value
  | error reason => exact onlyCalls_depart departs

/-! ## Kernel buffers -/

theorem onlyCalls_setChar : (setChar buffer i character).OnlyCalls allowed :=
  .ite (.pure _) (onlyCalls_depart departs)

theorem onlyCalls_newBuffer (allocates : ∀ size, allowed (.host (.newChars size))) :
    (newBuffer size).OnlyCalls allowed :=
  .ite (onlyCalls_depart departs) (.call (allocates _) fun _ => .pure _)

theorem onlyCalls_readChars (reads : ∀ addr size, allowed (.readMem addr size)) :
    (readChars virtAddr left i buffer).OnlyCalls allowed := by
  induction left generalizing i buffer with
  | zero => exact .pure _
  | succ left induction =>
    exact .call (reads _ _) fun _ =>
      .bind (onlyCalls_setChar departs) fun _ => .ite (.pure _) induction

theorem onlyCalls_userToSystem (allocates : ∀ size, allowed (.host (.newChars size)))
    (reads : ∀ addr size, allowed (.readMem addr size)) :
    (userToSystem virtAddr size).OnlyCalls allowed := by
  refine .bind (onlyCalls_newBuffer departs allocates) fun block => ?_
  cases block with
  | none => exact .pure _
  | some block => exact .bind (onlyCalls_readChars departs reads) fun _ => .pure _

theorem onlyCalls_writeChars (writes : ∀ addr size value, allowed (.writeMem addr size value)) :
    (writeChars virtAddr buffer left i).OnlyCalls allowed := by
  induction left generalizing i with
  | zero => exact .pure _
  | succ left induction =>
    exact .bind (onlyCalls_lift departs) fun _ =>
      .call (writes _ _ _) fun _ => .ite (.pure _) induction

theorem onlyCalls_systemToUser (writes : ∀ addr size value, allowed (.writeMem addr size value)) :
    (systemToUser virtAddr size buffer).OnlyCalls allowed :=
  .ite (.pure _) (.ite (.pure _) (onlyCalls_writeChars departs writes))

/-! ## The console -/

theorem onlyCalls_putChars (puts : ∀ character, allowed (.host (.putChar character))) :
    (putChars buffer left i).OnlyCalls allowed := by
  induction left generalizing i with
  | zero => exact .pure _
  | succ left induction =>
    exact .bind (onlyCalls_lift departs) fun _ => .call (puts _) fun _ => induction

theorem onlyCalls_consoleWrite (waits : allowed (.host .waitForLine))
    (puts : ∀ character, allowed (.host (.putChar character))) :
    (consoleWrite buffer i numBytes).OnlyCalls allowed :=
  .call waits fun _ => onlyCalls_putChars departs puts

theorem onlyCalls_getChars (gets : allowed (.host .getChar)) :
    (getChars left i character buffer).OnlyCalls allowed := by
  induction left generalizing i character buffer with
  | zero => exact .pure _
  | succ left induction =>
    exact .call gets fun _ =>
      .ite (.pure _) (.bind (onlyCalls_setChar departs) fun _ => induction)

theorem onlyCalls_consoleRead (waits : allowed (.host .waitForLine))
    (unset : allowed (.host .garbage)) (gets : allowed (.host .getChar)) :
    (consoleRead buffer numBytes).OnlyCalls allowed :=
  .ite (onlyCalls_depart departs)
    (.call waits fun _ => .call unset fun _ =>
      .bind (onlyCalls_getChars departs gets) fun _ => .ite (.pure _) (.pure _))

theorem onlyCalls_writeLine (waits : allowed (.host .waitForLine))
    (puts : ∀ character, allowed (.host (.putChar character))) :
    (writeLine buffer left i).OnlyCalls allowed := by
  induction left generalizing i with
  | zero => exact onlyCalls_depart departs
  | succ left induction =>
    exact .bind (onlyCalls_lift departs) fun _ =>
      .ite (.pure _) (.bind (onlyCalls_consoleWrite departs waits puts) fun _ => induction)

/-! ## Numerals -/

theorem onlyCalls_storeDigits {number : Int} : (storeDigits i number buffer).OnlyCalls allowed := by
  induction i generalizing number buffer with
  | zero => exact .pure _
  | succ i induction => exact .bind (onlyCalls_setChar departs) fun _ => induction

theorem onlyCalls_atoi : (atoi buffer).OnlyCalls allowed :=
  .ite (onlyCalls_depart departs) (.pure _)

/-! ## Open files -/

variable (looks : ∀ index, allowed (.readOpenf index))

include looks

theorem onlyCalls_openFileAt {id : Fin maxOpenFiles} : (openFileAt id).OnlyCalls allowed :=
  .call (looks _) fun _ => onlyCalls_lift departs

variable {id : Fin maxOpenFiles} (moves : ∀ file, allowed (.writeOpenf id (some file)))

include moves

theorem onlyCalls_getCurrentPos (tells : ∀ file, allowed (.host (.tell file))) :
    (getCurrentPos id).OnlyCalls allowed :=
  .bind (onlyCalls_openFileAt departs looks) fun _ =>
    .call (tells _) fun _ => .call (moves _) fun _ => .pure _

variable (seeks : ∀ file offset, allowed (.host (.lseek file offset)))

include seeks

theorem onlyCalls_readFile (reads : ∀ file nBytes, allowed (.host (.readPartial file nBytes))) :
    (readFile id buffer numBytes).OnlyCalls allowed :=
  .bind (onlyCalls_openFileAt departs looks) fun _ =>
    .call (seeks _ _) fun _ => .call (reads _ _) fun _ =>
      .ite (onlyCalls_depart departs) (.call (moves _) fun _ => .pure _)

theorem onlyCalls_writeFile
    (writes : ∀ file bytes nBytes, allowed (.host (.writeFile file bytes nBytes))) :
    (writeFile id buffer numBytes).OnlyCalls allowed :=
  .bind (onlyCalls_openFileAt departs looks) fun _ =>
    .call (seeks _ _) fun _ => .call (writes _ _ _) fun _ =>
      .call (moves _) fun _ => .pure _

end Departing

/-! ## Handlers which open and close no file -/

/-- Calls which change neither the registers nor the table of open files. -/
def Watches : KernelCall → Prop
  | .writeRegister _ _ => False
  | .writeOpenf _ _ => False
  | _ => True

/-- A part of a handler which writes no register but the result, and of the
open files only their positions. -/
inductive Modest : {α : Type} → KernelProgram α → Prop where
  | watch {α : Type} {program : KernelProgram α} (only : program.OnlyCalls Watches) :
      Modest program
  | writeResult (value : Word) : Modest (writeRegister r2 value)
  | getCurrentPos (id : Fin maxOpenFiles) : Modest (getCurrentPos id)
  | readFile (id : Fin maxOpenFiles) (buffer : List Byte) (numBytes : Word) :
      Modest (readFile id buffer numBytes)
  | writeFile (id : Fin maxOpenFiles) (buffer : List Byte) (numBytes : Word) :
      Modest (writeFile id buffer numBytes)
  | bind {α β : Type} {program : KernelProgram α} {continuation : α → KernelProgram β}
      (first : Modest program) (rest : ∀ value, Modest (continuation value)) :
      Modest (program >>= continuation)

theorem Modest.pure (value : α) : Modest (Pure.pure value) := .watch (.pure value)

theorem Modest.ite {condition : Prop} [Decidable condition]
    {yes no : KernelProgram α} (first : Modest yes) (second : Modest no) :
    Modest (if condition then yes else no) := by
  split
  · exact first
  · exact second

theorem Modest.perform {call : KernelCall} (watches : Watches call) :
    Modest (Program.perform call) :=
  .watch (.perform watches)

theorem Modest.depart (reason : Departure) : Modest (depart reason : KernelProgram α) :=
  .watch (onlyCalls_depart fun _ => trivial)

theorem Modest.lift (result : Result α) : Modest (lift result) :=
  .watch (onlyCalls_lift fun _ => trivial)

theorem modest_newBuffer (size : Word) : Modest (newBuffer size) :=
  .watch (onlyCalls_newBuffer (fun _ => trivial) fun _ => trivial)

theorem modest_userToSystem (virtAddr limit : Word) : Modest (userToSystem virtAddr limit) :=
  .watch (onlyCalls_userToSystem (fun _ => trivial) (fun _ => trivial) fun _ _ => trivial)

theorem modest_systemToUser (virtAddr len : Word) (buffer : List Byte) :
    Modest (systemToUser virtAddr len buffer) :=
  .watch (onlyCalls_systemToUser (fun _ => trivial) fun _ _ _ => trivial)

theorem modest_consoleRead (buffer : List Byte) (numBytes : Word) :
    Modest (consoleRead buffer numBytes) :=
  .watch (onlyCalls_consoleRead (fun _ => trivial) trivial trivial trivial)

theorem modest_consoleWrite (buffer : List Byte) (start : Nat)
    (numBytes : Word) : Modest (consoleWrite buffer start numBytes) :=
  .watch (onlyCalls_consoleWrite (fun _ => trivial) trivial fun _ => trivial)

theorem modest_openFileAt (id : Fin maxOpenFiles) : Modest (openFileAt id) :=
  .watch (onlyCalls_openFileAt (fun _ => trivial) fun _ => trivial)

theorem modest_scExec : Modest scExec := by
  refine .bind (.perform trivial) fun _ => .bind (modest_userToSystem _ _) fun filename => ?_
  cases filename with
  | none => exact .writeResult _
  | some filename => exact .bind (.perform trivial) fun _ => .writeResult _

theorem modest_scJoin : Modest scJoin :=
  .bind (.perform trivial) fun _ => .bind (.perform trivial) fun _ => .writeResult _

theorem modest_scExit : Modest scExit :=
  .bind (.perform trivial) fun _ =>
    .ite (.pure _) (.bind (.perform trivial) fun _ =>
      .bind (.writeResult _) fun _ => .depart _)

theorem modest_scCreate : Modest scCreate := by
  refine .bind (.perform trivial) fun _ => .bind (modest_userToSystem _ _) fun fileName => ?_
  cases fileName with
  | none => exact .writeResult _
  | some fileName =>
    exact .bind (.watch (onlyCalls_createFile _ fun _ => trivial))
      fun _ => .ite (.writeResult _) (.writeResult _)

theorem modest_scRead : Modest scRead := by
  refine .bind (.perform trivial) fun _ => .bind (.perform trivial) fun _ =>
    .bind (.perform trivial) fun id => ?_
  cases fileIndex id with
  | none => exact .writeResult _
  | some id =>
    refine .bind (.perform trivial) fun file => ?_
    cases file with
    | none => exact .writeResult _
    | some file =>
      refine .ite (.writeResult _)
        (.bind (.getCurrentPos _) fun _ => .bind (modest_userToSystem _ _) fun _ =>
          .bind (.lift _) fun _ => .bind (modest_openFileAt _) fun _ => .ite ?_ ?_)
      · exact .bind (modest_consoleRead _ _) fun _ =>
          .bind (modest_systemToUser _ _ _) fun _ => .writeResult _
      · exact .bind (.readFile _ _ _) fun _ =>
          .ite
            (.bind (.getCurrentPos _) fun _ =>
              .bind (modest_systemToUser _ _ _) fun _ => .writeResult _)
            (.writeResult _)

theorem modest_scWriteBody : Modest scWriteBody := by
  have refused : ∀ code : Word, Modest (do
      writeRegister r2 code
      return true) :=
    fun code => .bind (.writeResult code) fun _ => .pure _
  refine .bind (.perform trivial) fun _ => .bind (.perform trivial) fun _ =>
    .bind (.perform trivial) fun id => ?_
  cases fileIndex id with
  | none => exact refused _
  | some id =>
    refine .bind (.perform trivial) fun file => ?_
    cases file with
    | none => exact refused _
    | some file =>
      refine .ite (refused _)
        (.bind (.getCurrentPos _) fun _ => .bind (modest_userToSystem _ _) fun _ =>
          .bind (.lift _) fun _ => .bind (modest_openFileAt _) fun _ =>
            .ite ?_ (.ite ?_ (.pure _)))
      · exact .bind (.writeFile _ _ _) fun _ =>
          .ite (.bind (.getCurrentPos _) fun _ => refused _) (.pure _)
      · exact .bind
            (.watch (onlyCalls_writeLine (fun _ => trivial) trivial fun _ => trivial)) fun _ =>
          .bind (.watch (onlyCalls_setChar fun _ => trivial)) fun _ =>
            .bind (modest_consoleWrite _ _ _) fun _ => refused _

theorem modest_scReadInt : Modest scReadInt :=
  .bind (modest_newBuffer _) fun _ => .bind (.lift _) fun _ =>
    .bind (modest_consoleRead _ _) fun _ =>
      .ite (.bind (.watch (onlyCalls_atoi fun _ => trivial)) fun _ => .writeResult _) (.pure _)

theorem modest_scWrite : Modest scWrite :=
  .bind modest_scWriteBody fun _ => .ite (.pure _) modest_scReadInt

theorem modest_scPrintInt : Modest scPrintInt :=
  .bind (.perform trivial) fun _ => .bind (modest_newBuffer _) fun _ => .bind (.lift _) fun _ =>
    .bind (.watch (onlyCalls_storeDigits fun _ => trivial)) fun _ =>
      modest_consoleWrite _ _ _

theorem modest_scReadChar : Modest scReadChar :=
  .bind (modest_newBuffer _) fun _ => .bind (.lift _) fun _ =>
    .bind (modest_consoleRead _ _) fun _ => .bind (.lift _) fun _ => .writeResult _

theorem modest_scPrintChar : Modest scPrintChar :=
  .bind (.perform trivial) fun _ => modest_consoleWrite _ _ _

theorem modest_scReadString : Modest scReadString :=
  .bind (.perform trivial) fun _ => .bind (.perform trivial) fun _ =>
    .bind (modest_newBuffer _) fun _ => .bind (.lift _) fun _ =>
      .bind (modest_consoleRead _ _) fun _ => .bind (modest_systemToUser _ _ _) fun _ => .pure _

theorem modest_scPrintString : Modest scPrintString :=
  .bind (.perform trivial) fun _ => .bind (modest_userToSystem _ _) fun _ =>
    .bind (.lift _) fun _ => modest_consoleWrite _ _ _

/-! ## The dispatch -/

/-- `ExceptionHandler` for a system call, when it has read the code. -/
def dispatch (type : Word) : KernelProgram Unit :=
  match Syscall.ofCode type with
  | some request => do
    syscallCase request
    advanceProgramCounter
  | none => halt

theorem exceptionHandler_eq :
    exceptionHandler .syscallException = readRegister r2 >>= dispatch := rfl

theorem dispatch_some {type : Word} {request : Syscall}
    (code : Syscall.ofCode type = some request) :
    dispatch type = (do
      syscallCase request
      advanceProgramCounter) := by
  simp only [dispatch, code]

theorem dispatch_none {type : Word} (code : Syscall.ofCode type = none) : dispatch type = halt := by
  simp only [dispatch, code]

end Handler

end Nachos
