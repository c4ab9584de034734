import Nachos.Lib.Transition
import Nachos.Lib.Weakest
import Nachos.Userprog.ProgramCounter

/-!
# The table of open files

The five file system calls share the table `openf`.  The console files are
ordinary entries of it, and `Close` takes every index, so a program can
close the console.  As long as nobody does, the console files stay in the
slots 0 and 1, and `Open` and `Close` change just the slot they are about.
-/

open Words Memory Calls Program Transition Function

namespace Nachos

abbrev OpenFiles := Fin maxOpenFiles → Option StubFile

/-- The registers of the caller, the table of open files, and what the host
answers when it is asked to open a file. -/
structure FileView where
  registers : Registers
  openf : OpenFiles
  descriptor : Word

def Kernel.fileView {σ : Type} (descriptor : Word) (kernel : Kernel σ) : FileView :=
  ⟨kernel.registers, kernel.shared.openf, descriptor⟩

/-- What a file object is apart from its position. -/
def StubFile.object (file : StubFile) : Word × Word :=
  (file.type, file.file)

/-- The objects in the table. -/
def fileObjects (openf : OpenFiles) (index : Fin maxOpenFiles) : Option (Word × Word) :=
  (openf index).map StubFile.object

/-- A step in which every slot keeps its object. -/
def SameObjects (before after : FileView) : Prop :=
  fileObjects after.openf = fileObjects before.openf

theorem fileObjects_update {openf : OpenFiles} {index : Fin maxOpenFiles}
    {file changed : StubFile} (found : openf index = some file)
    (same : changed.object = file.object) :
    fileObjects (update openf index (some changed)) =
      fileObjects openf := by
  funext other
  by_cases here : other = index
  · subst here
    simp only [fileObjects, update_self, found, Option.map_some, same]
  · simp only [fileObjects, update_of_ne here]

/-- The host leaves the table of open files alone. -/
def KeepsFiles {σ : Type} (environment : Environment σ) : Prop :=
  ∀ call shared reply after,
    environment call shared = .ok (reply, after) →
    after.openf = shared.openf

/-- A request to open a file gets this descriptor, and other requests get
any answer. -/
def HostCall.Answers (descriptor : Word) : (call : HostCall) → call.Reply → Prop
  | .openForReadWrite _, reply => reply = descriptor
  | _, _ => True

/-- The host answers every request to open a file with the descriptor, which
is -1 if the file does not open. -/
def OpensAs {σ : Type} (environment : Environment σ) (descriptor : Word) : Prop :=
  ∀ call shared reply after,
    environment call shared = .ok (reply, after) → call.Answers descriptor reply

/-- What the calls of a handler do to the registers and the table. -/
def fileSpec : OperationSpec KernelCall KernelCall.Reply FileView
  | .readRegister num, view, post => post (view.registers num) view
  | .writeRegister num value, view, post =>
    post () { view with
      registers := update view.registers num value }
  | .readOpenf index, view, post => post (view.openf index) view
  | .writeOpenf index file, view, post =>
    post () { view with openf := update view.openf index file }
  | .depart _, _, _ => True
  | .readMem _ _, view, post => ∀ reply, post reply view
  | .writeMem _ _ _, view, post => ∀ reply, post reply view
  | .readSemTab, view, post => ∀ reply, post reply view
  | .writeSemTab _, view, post => ∀ reply, post reply view
  | .host request, view, post =>
    ∀ reply, request.Answers view.descriptor reply → post reply view

theorem Kernel.SameBesidesMemory.fileView {σ : Type}
    {before after : Kernel σ} (same : before.SameBesidesMemory after) (descriptor : Word) :
    after.fileView descriptor = before.fileView descriptor := by
  simp only [Kernel.fileView, same.registers, same.openf]

theorem meets_fileSpec {σ : Type} {environment : Environment σ} {descriptor : Word}
    (keeps : KeepsFiles environment) (opens : OpensAs environment descriptor) :
    Meets (Kernel.answer environment) (Kernel.fileView descriptor) fileSpec := by
  intro call kernel reply after post success established
  cases call with
  | readRegister num | writeRegister num value | readOpenf index | writeOpenf index file =>
    cases success
    exact established
  | readMem addr size =>
    rw [(Kernel.answer_readMem success).fileView]
    exact established reply
  | writeMem addr size value =>
    rw [(Kernel.answer_writeMem success).fileView]
    exact established reply
  | readSemTab | writeSemTab table =>
    cases success
    exact established _
  | host call =>
    simp only [Kernel.answer] at success
    split at success
    · rename_i found shared answered
      cases success
      have same : Kernel.fileView descriptor ⟨kernel.registers, shared⟩ =
          kernel.fileView descriptor := by
        simp only [Kernel.fileView, keeps _ _ _ _ answered]
      rw [same]
      exact established reply (opens _ _ _ _ answered)
    · cases success
  | depart reason => cases success

namespace Handler

variable {α β : Type}

theorem monotone_fileSpec : Monotone fileSpec := by
  intro call view post weaker implied established
  cases call with
  | depart _ => trivial
  | readRegister _ | writeRegister _ _ | readOpenf _ | writeOpenf _ _ =>
    exact implied _ _ established
  | readMem _ _ | writeMem _ _ _ | readSemTab | writeSemTab _ =>
    exact fun reply => implied _ _ (established reply)
  | host _ => exact fun reply answers => implied _ _ (established reply answers)

theorem keeps_of_watches (call : KernelCall) (watches : Watches call) :
    Keeps fileSpec call := by
  intro view post established
  cases call with
  | writeRegister _ _ | writeOpenf _ _ => exact watches.elim
  | depart _ => trivial
  | readRegister _ | readOpenf _ => exact established _
  | readMem _ _ | writeMem _ _ _ | readSemTab | writeSemTab _ => exact established
  | host _ => exact fun reply _ => established reply

/-- Programs which keep the object in every slot. -/
def Steady (program : KernelProgram α) : Prop :=
  ∀ view, program.wp fileSpec view fun _ after => SameObjects view after

variable {program : KernelProgram α}

theorem Steady.watch (only : program.OnlyCalls Watches) : Steady program :=
  fun _ => (only.mono keeps_of_watches).wp_keep fun _ => rfl

theorem Steady.bind {continuation : α → KernelProgram β}
    (first : Steady program) (rest : ∀ value, Steady (continuation value)) :
    Steady (program >>= continuation) := by
  intro view
  rw [wp_bind]
  refine monotone_fileSpec.wp ?_ (first view)
  intro value middle same
  refine monotone_fileSpec.wp ?_ (rest value middle)
  intro _ after same'
  exact same'.trans same

/-! ## Positions -/

variable {view : FileView}

theorem wp_openFileAt {id : Fin maxOpenFiles} {post : StubFile → FileView → Prop}
    (established : ∀ file, view.openf id = some file → post file view) :
    (openFileAt id).wp fileSpec view post := by
  change (nonNull (view.openf id)).wp fileSpec view post
  cases found : view.openf id with
  | none => trivial
  | some file => exact established file found

theorem steady_getCurrentPos (id : Fin maxOpenFiles) : Steady (getCurrentPos id) := by
  intro view
  refine wp_bind.mpr (wp_openFileAt fun file found => ?_)
  intro position _
  exact fileObjects_update found rfl

theorem steady_readFile (id : Fin maxOpenFiles) (buffer : List Byte)
    (numBytes : Word) : Steady (readFile id buffer numBytes) := by
  intro view
  refine wp_bind.mpr (wp_openFileAt fun file found => ?_)
  rintro - - ⟨numRead, bytes⟩ -
  change Program.wp fileSpec (if buffer.length < bytes.length then fail .bounds else _) view _
  split
  · trivial
  · exact fileObjects_update found rfl

theorem steady_writeFile (id : Fin maxOpenFiles) (buffer : List Byte)
    (numBytes : Word) : Steady (writeFile id buffer numBytes) := by
  intro view
  refine wp_bind.mpr (wp_openFileAt fun file found => ?_)
  rintro - - - -
  exact fileObjects_update found rfl

theorem Modest.steady (modest : Modest program) : Steady program := by
  induction modest with
  | watch only => exact .watch only
  | writeResult value => exact fun _ => rfl
  | getCurrentPos id => exact steady_getCurrentPos id
  | readFile id buffer numBytes => exact steady_readFile id buffer numBytes
  | writeFile id buffer numBytes => exact steady_writeFile id buffer numBytes
  | bind _ _ first rest => exact first.bind rest

/-! ## `Open` and `Close` -/

theorem wp_readRegister {num : Register} {post : Word → FileView → Prop}
    (established : post (view.registers num) view) :
    (readRegister num).wp fileSpec view post :=
  established

variable {post : α → FileView → Prop}

theorem wp_watch (only : program.OnlyCalls Watches) (established : ∀ value, post value view) :
    program.wp fileSpec view post :=
  (only.mono keeps_of_watches).wp_keep established

theorem wp_readOpenf {index : Fin maxOpenFiles} {entry : Option StubFile}
    {next : Option StubFile → KernelProgram α}
    (held : view.openf index = entry)
    (rest : (next entry).wp fileSpec view post) :
    (readOpenf index >>= next).wp fileSpec view post := by
  subst held
  exact wp_bind.mpr rest

theorem wp_findFreeSlotFrom (slots : List (Fin maxOpenFiles))
    {post : Option (Fin maxOpenFiles) → FileView → Prop}
    (full : (∀ slot ∈ slots, view.openf slot ≠ none) → post none view)
    (found : ∀ slot ∈ slots, view.openf slot = none → post (some slot) view) :
    (findFreeSlotFrom slots).wp fileSpec view post := by
  induction slots with
  | nil => exact full (List.forall_mem_nil _)
  | cons index rest induction =>
    unfold findFreeSlotFrom
    cases entry : view.openf index with
    | none =>
      exact wp_readOpenf entry (found index List.mem_cons_self entry)
    | some file =>
      refine wp_readOpenf entry (induction ?_ fun slot member =>
        found slot (List.mem_cons_of_mem _ member))
      intro occupied
      refine full fun slot member => ?_
      rcases List.mem_cons.mp member with rfl | later
      · rw [entry]
        exact Option.some_ne_none file
      · exact occupied slot later

theorem mem_fileSlots (slot : Fin maxOpenFiles) :
    slot ∈ (List.finRange maxOpenFiles).drop 2 ↔ 2 ≤ slot.val := by
  revert slot
  decide

end Handler

open Handler

/-- Register 2 gets a value. -/
def FileView.answer (view : FileView) (value : Word) : FileView :=
  { view with registers := update view.registers r2 value }

/-- What an `Open` of type 0 or 1 can do: there is no free slot, the host
does not open the file, or the file goes into an empty slot. -/
inductive OpenOutcome (type : Word) (before : FileView) :
    FileView → Prop where
  | full :
      (∀ slot : Fin maxOpenFiles, 2 ≤ slot.val →
        before.openf slot ≠ none) →
      OpenOutcome type before (before.answer (-1#32))
  | refused {slot : Fin maxOpenFiles} :
      2 ≤ slot.val →
      before.openf slot = none →
      before.descriptor = -1#32 →
      OpenOutcome type before before
  | opened {slot : Fin maxOpenFiles} :
      2 ≤ slot.val →
      before.openf slot = none →
      before.descriptor ≠ -1#32 →
      OpenOutcome type before { before.answer (BitVec.ofNat 32 slot.val) with
          openf := update before.openf slot
            (some ⟨type, before.descriptor, 0#32⟩) }

/-- What a `Close` does: the slot becomes empty, or nothing was there. -/
inductive CloseOutcome (id : Word) (before : FileView) :
    FileView → Prop where
  | outside :
      fileIndex id = none →
      CloseOutcome id before (before.answer (-1#32))
  | empty {slot : Fin maxOpenFiles} :
      fileIndex id = some slot →
      before.openf slot = none →
      CloseOutcome id before (before.answer (-1#32))
  | closed {slot : Fin maxOpenFiles} :
      fileIndex id = some slot →
      before.openf slot ≠ none →
      CloseOutcome id before { before.answer 0#32 with
          openf := update before.openf slot none }

namespace Handler

theorem wp_scOpen (view : FileView) :
    scOpen.wp fileSpec view fun _ after =>
      (view.registers r5 = 0#32 ∨ view.registers r5 = 1#32 →
        OpenOutcome (view.registers r5) view after) ∧
      (¬(view.registers r5 = 0#32 ∨ view.registers r5 = 1#32) → after.openf = view.openf) := by
  refine wp_bind.mpr (wp_readRegister (wp_bind.mpr (wp_readRegister
    (wp_bind.mpr (wp_watch (onlyCalls_userToSystem (fun _ => trivial)
      (fun _ => trivial) fun _ _ => trivial) fun filename =>
        wp_bind.mpr (wp_findFreeSlotFrom _ ?_ ?_))))))
  · intro occupied
    refine ⟨fun _ => .full fun slot later => ?_, fun _ => rfl⟩
    exact occupied slot ((mem_fileSlots slot).mpr later)
  · intro slot member empty
    have later := (mem_fileSlots slot).mp member
    change Program.wp fileSpec (if view.registers r5 = 0#32 ∨ view.registers r5 = 1#32 then _
        else _) view _
    split
    · rename_i typed
      refine wp_bind.mpr (wp_watch (onlyCalls_lift fun _ => trivial) fun name => wp_bind.mpr ?_)
      rintro - rfl
      change Program.wp fileSpec (if view.descriptor = -1#32 then _ else _) view _
      split
      · rename_i failed
        have same : ({ view with
            openf := update view.openf slot none } : FileView) =
              view := by
          rw [← empty, update_eq_self]
        exact ⟨fun _ => same.symm ▸ .refused later empty failed, fun untyped =>
          absurd typed untyped⟩
      · rename_i success
        exact ⟨fun _ => .opened later empty success, fun untyped =>
          absurd typed untyped⟩
    · rename_i untyped
      split
      all_goals exact ⟨fun typed => absurd typed untyped, fun _ => rfl⟩

theorem wp_scClose (view : FileView) :
    scClose.wp fileSpec view fun _ after =>
      CloseOutcome (view.registers r4) view after := by
  refine wp_bind.mpr (wp_readRegister ?_)
  cases index : fileIndex (view.registers r4) with
  | none => exact .outside index
  | some slot =>
    cases entry : view.openf slot with
    | none => exact wp_readOpenf entry (.empty index entry)
    | some file =>
      refine wp_readOpenf entry fun _ _ => .closed index ?_
      rw [entry]
      exact Option.some_ne_none file

end Handler

/-! ## Sequences of calls -/

def Syscall.IsFileCall : Syscall → Prop
  | .create | .open | .close | .read | .write => True
  | _ => False

/-- A file system call: the registers before it, the answer of the host if
it is asked to open a file, and register 2 after the call. -/
structure FileEvent where
  registers : Registers
  descriptor : Word
  result : Word

def FileEvent.call (event : FileEvent) : Option Syscall :=
  Syscall.ofCode (event.registers r2)

/-- A file system call of any program, with any other replies of the host. -/
def FileStep (before : OpenFiles) (event : FileEvent) (after : OpenFiles) : Prop :=
  ∃ (σ : Type) (environment : Environment σ) (kernel final : Kernel σ)
    (call : Syscall),
    KeepsFiles environment ∧ OpensAs environment event.descriptor ∧
    kernel.registers = event.registers ∧ kernel.shared.openf = before ∧
    event.call = some call ∧ call.IsFileCall ∧
    (exceptionHandler .syscallException).run (Kernel.answer environment)
      kernel = .ok ((), final) ∧
    final.shared.openf = after ∧ final.registers r2 = event.result

/-- What a file system call does, with the result in register 2. -/
def FileOutcome (call : Syscall) (before : FileView) (after : FileView) : Prop :=
  match call with
  | .open =>
    (before.registers r5 = 0#32 ∨ before.registers r5 = 1#32 →
      OpenOutcome (before.registers r5) before after) ∧
    (¬(before.registers r5 = 0#32 ∨ before.registers r5 = 1#32) → after.openf = before.openf)
  | .close => CloseOutcome (before.registers r4) before after
  | _ => SameObjects before after

theorem wp_fileCall {call : Syscall} (isFileCall : call.IsFileCall) (view : FileView) :
    (syscallCase call).wp fileSpec view fun _ after =>
      FileOutcome call view after := by
  cases call with
  | create => exact modest_scCreate.steady view
  | «open» => exact wp_scOpen view
  | close => exact wp_scClose view
  | read => exact modest_scRead.steady view
  | write => exact modest_scWrite.steady view
  | halt | exit | exec | join | readInt | printInt | readChar | printChar
  | readString | printString | createSemaphore | signal | wait =>
    exact isFileCall.elim

theorem wp_fileHandler {view : FileView} {call : Syscall}
    (code : Syscall.ofCode (view.registers r2) = some call)
    (isFileCall : call.IsFileCall) :
    (exceptionHandler .syscallException).wp fileSpec view fun _ after =>
      ∃ middle, FileOutcome call view middle ∧
        after.openf = middle.openf ∧
        after.registers r2 = middle.registers r2 := by
  change (dispatch (view.registers r2)).wp fileSpec view _
  rw [dispatch_some code]
  refine wp_bind.mpr (monotone_fileSpec.wp ?_ (wp_fileCall isFileCall view))
  intro _ middle outcome
  exact ⟨middle, outcome, rfl, rfl⟩

theorem FileStep.inv {before after : OpenFiles} {event : FileEvent}
    (taken : FileStep before event after) :
    ∃ call final, event.call = some call ∧ call.IsFileCall ∧
      FileOutcome call ⟨event.registers, before, event.descriptor⟩ final ∧
      final.openf = after ∧ final.registers r2 = event.result := by
  obtain ⟨σ, environment, kernel, final, call, keeps, opens, registers, rfl, code,
    isFileCall, success, rfl, result⟩ := taken
  have handled : (exceptionHandler .syscallException).wp fileSpec
      (kernel.fileView event.descriptor) _ :=
    wp_fileHandler (by rw [Kernel.fileView, registers]; exact code) isFileCall
  obtain ⟨middle, outcome, openf, answer⟩ :=
    (meets_fileSpec keeps opens).run success handled
  rw [Kernel.fileView, registers] at outcome
  exact ⟨call, middle, code, isFileCall, outcome, openf.symm, answer.symm.trans result⟩

/-- The event does not close the console. -/
def SparesConsole (event : FileEvent) : Prop :=
  event.call = some .close → event.registers r4 ≠ 0#32 ∧ event.registers r4 ≠ 1#32

def SparingStep (before : OpenFiles) (event : FileEvent) (after : OpenFiles) : Prop :=
  FileStep before event after ∧ SparesConsole event

/-- The console files are in their slots. -/
def HasConsole (stdin stdout : Word) (openf : OpenFiles) : Prop :=
  fileObjects openf ⟨0, by decide⟩ = some (2#32, stdin) ∧
    fileObjects openf ⟨1, by decide⟩ = some (3#32, stdout)

theorem HasConsole.update {stdin stdout : Word} {openf : OpenFiles}
    (console : HasConsole stdin stdout openf) {slot : Fin maxOpenFiles}
    (later : 2 ≤ slot.val) (file : Option StubFile) :
    HasConsole stdin stdout (Function.update openf slot file) := by
  have first : (⟨0, by decide⟩ : Fin maxOpenFiles) ≠ slot := by
    rintro rfl
    exact absurd later (by decide)
  have second : (⟨1, by decide⟩ : Fin maxOpenFiles) ≠ slot := by
    rintro rfl
    exact absurd later (by decide)
  simp only [HasConsole, fileObjects, update_of_ne first, update_of_ne second]
  exact console

theorem fileIndex_val {id : Word} {slot : Fin maxOpenFiles} (index : fileIndex id = some slot) :
    id = BitVec.ofNat 32 slot.val := by
  unfold fileIndex at index
  split_ifs at index with inside
  cases index
  change id = BitVec.ofNat 32 id.toInt.toNat
  rw [toInt_eq_toNat inside.1, Int.toNat_natCast, BitVec.ofNat_toNat, BitVec.setWidth_eq]

theorem HasConsole.step {stdin stdout : Word} {before after : OpenFiles}
    {event : FileEvent} (console : HasConsole stdin stdout before)
    (taken : SparingStep before event after) :
    HasConsole stdin stdout after := by
  obtain ⟨step, spares⟩ := taken
  obtain ⟨call, final, code, isFileCall, outcome, rfl, -⟩ := step.inv
  have steady : SameObjects ⟨event.registers, before, event.descriptor⟩ final →
      HasConsole stdin stdout final.openf := by
    intro same
    simp only [HasConsole]
    rw [same]
    exact console
  cases call with
  | create | read | write => exact steady outcome
  | «open» =>
    by_cases typed : event.registers r5 = 0#32 ∨ event.registers r5 = 1#32
    · cases outcome.1 typed with
      | full _ | refused _ _ _ => exact console
      | opened later _ _ => exact console.update later _
    · rw [outcome.2 typed]
      exact console
  | close =>
    obtain ⟨notFirst, notSecond⟩ := spares code
    cases outcome with
    | outside _ | empty _ _ => exact console
    | @closed slot index _ =>
      have id : event.registers r4 = BitVec.ofNat 32 slot.val :=
        fileIndex_val index
      refine console.update ?_ _
      by_contra early
      have cases : slot.val = 0 ∨ slot.val = 1 := by omega
      rcases cases with zero | one
      · rw [zero] at id
        exact notFirst id
      · rw [one] at id
        exact notSecond id
  | halt | exit | exec | join | readInt | printInt | readChar | printChar
  | readString | printString | createSemaphore | signal | wait =>
    exact isFileCall.elim

/-- What an `Open` of type 0 or 1 does to the table: if the host opens the
file and a slot is free, an empty slot gets the file and is the result of the
call, and otherwise nothing changes. -/
structure Opens (event : FileEvent) (before after : OpenFiles) : Prop where
  opened : event.descriptor ≠ -1#32 → (∃ slot, 2 ≤ slot.val ∧ before slot = none) →
    ∃ slot, (2 ≤ slot.val ∧ slot.val ≤ 14) ∧ before slot = none ∧
      event.result = BitVec.ofNat 32 slot.val ∧
      after = update before slot (some ⟨event.registers r5, event.descriptor, 0#32⟩)
  full : (∀ slot : Fin maxOpenFiles, 2 ≤ slot.val → before slot ≠ none) →
    event.result = -1#32 ∧ after = before
  refused : event.descriptor = -1#32 → after = before

theorem OpenOutcome.opens {event : FileEvent} {before : OpenFiles} {after : FileView}
    (outcome : OpenOutcome (event.registers r5) ⟨event.registers, before, event.descriptor⟩ after)
    (result : after.registers r2 = event.result) :
    Opens event before after.openf := by
  cases outcome with
  | full occupied =>
    refine ⟨?_, fun _ => ⟨result.symm, rfl⟩, fun _ => rfl⟩
    rintro - ⟨slot, later, empty⟩
    exact absurd empty (occupied slot later)
  | refused later empty failed =>
    exact ⟨fun success => absurd failed success, fun occupied => absurd empty (occupied _ later),
      fun _ => rfl⟩
  | @opened slot later empty success =>
    refine ⟨fun _ _ => ?_, fun occupied => absurd empty (occupied _ later),
      fun failed => absurd failed success⟩
    exact ⟨slot, ⟨later, Nat.lt_succ_iff.mp slot.isLt⟩, empty, result.symm, rfl⟩

theorem CloseOutcome.change {id : Word} {before after : FileView}
    (outcome : CloseOutcome id before after) :
    after.openf = match fileIndex id with
      | some slot => update before.openf slot none
      | none => before.openf := by
  cases outcome with
  | outside index =>
    rw [index]
    rfl
  | empty index entry =>
    rw [index, ← entry]
    exact (update_eq_self ..).symm
  | closed index _ => rw [index]

instance : DecidablePred Syscall.IsFileCall
  | .create | .open | .close | .read | .write => .isTrue trivial
  | .halt | .exit | .exec | .join | .readInt | .printInt | .readChar
  | .printChar | .readString | .printString | .createSemaphore | .signal
  | .wait => .isFalse id

instance : DecidablePred SparesConsole := fun event =>
  inferInstanceAs (Decidable (event.call = some .close →
    event.registers r4 ≠ 0#32 ∧ event.registers r4 ≠ 1#32))

end Nachos
