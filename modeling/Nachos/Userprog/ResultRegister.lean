import Nachos.Lib.Path
import Nachos.Userprog.HandlerCalls

/-!
# The result of a system call

A system call returns its result in register 2, where the program has put
the system call code.  All handlers write the register on every path on which
they return, except for an `Open` whose file does not open and a `ReadInt`
whose line is not a numeral.
-/

open Words Memory Calls Program

namespace Nachos

/-- A call of a handler with the reply of the kernel. -/
abbrev KernelExchange := Exchange KernelCall KernelCall.Reply

/-- The system calls which `syscall.h` declares with a result. -/
def Syscall.HasResult : Syscall → Prop
  | .exec | .join | .create | .open | .read | .close | .readInt
  | .readChar | .createSemaphore | .signal | .wait => True
  | _ => False

namespace Handler

variable {α β : Type}

def WritesResult (exchange : KernelExchange) : Prop :=
  ∃ value, exchange.1 = .writeRegister r2 value

/-- Programs which write register 2 whenever they return. -/
def Answers (program : KernelProgram α) : Prop :=
  program.Marks WritesResult

theorem Answers.writeResult (value : Word) : Answers (writeRegister r2 value) :=
  .perform fun _ => ⟨value, rfl⟩

theorem Answers.ite {condition : Prop} [Decidable condition]
    {yes no : KernelProgram α} (first : Answers yes)
    (second : Answers no) : Answers (if condition then yes else no) :=
  Marks.ite first second

variable {continuation : α → KernelProgram β} {program : KernelProgram α}

theorem Answers.later (rest : ∀ value, Answers (continuation value)) :
    Answers (program >>= continuation) :=
  Marks.bind_right rest

theorem Answers.now (first : Answers program) : Answers (program >>= continuation) :=
  Marks.bind_left first

theorem answers_scExec : Answers scExec := by
  refine .later fun _ => .later fun filename => ?_
  cases filename with
  | none => exact .writeResult _
  | some filename => exact .later fun _ => .writeResult _

theorem answers_scJoin : Answers scJoin :=
  .later fun _ => .later fun _ => .writeResult _

theorem answers_scCreate : Answers scCreate := by
  refine .later fun _ => .later fun fileName => ?_
  cases fileName with
  | none => exact .writeResult _
  | some fileName =>
    exact .later fun _ => .ite (.writeResult _) (.writeResult _)

theorem answers_scClose : Answers scClose := by
  refine .later fun fid => ?_
  cases fileIndex fid with
  | none => exact .writeResult _
  | some fid =>
    refine .later fun file => ?_
    cases file with
    | none => exact .writeResult _
    | some file => exact .later fun _ => .later fun _ => .writeResult _

theorem answers_scRead : Answers scRead := by
  refine .later fun _ => .later fun _ => .later fun id => ?_
  cases fileIndex id with
  | none => exact .writeResult _
  | some id =>
    refine .later fun file => ?_
    cases file with
    | none => exact .writeResult _
    | some file =>
      refine .ite (.writeResult _) (.later fun _ => .later fun _ =>
        .later fun _ => .later fun _ => .ite ?_ ?_)
      · exact .later fun _ => .later fun _ => .writeResult _
      · exact .later fun _ => .ite (.later fun _ => .later fun _ => .writeResult _) (.writeResult _)

theorem answers_scReadChar : Answers scReadChar :=
  .later fun _ => .later fun _ => .later fun _ => .later fun _ =>
    .writeResult _

theorem answers_scCreateSemaphore : Answers scCreateSemaphore :=
  .later fun _ => .later fun _ => .later fun _ => .later fun _ =>
    .later fun _ => .later fun _ => .later fun _ => .now (.writeResult _)

theorem answers_semaphoreCall (operation : CString → KernelProgram Word) :
    Answers (semaphoreCall operation) :=
  .later fun _ => .later fun _ => .later fun _ => .later fun _ =>
    .later fun _ => .later fun _ => .ite (.now (.writeResult _))
      (.later fun _ => .now (.writeResult _))

/-! ## Calls without a result -/

/-- Calls which neither write register 2 nor learn what the file or the line
is like. -/
def Preparing : KernelCall → Prop
  | .writeRegister num _ => num ≠ r2
  | .host (.openForReadWrite _) => False
  | .host .getChar => False
  | _ => True

/-- Register 2 has been written. -/
def Written (trace : List KernelExchange) : Prop :=
  ∃ exchange ∈ trace, WritesResult exchange

def Inert (trace : List KernelExchange) : Prop :=
  ∀ exchange ∈ trace, Preparing exchange.1

def typedCharacter : KernelExchange → Option Byte
  | ⟨.host .getChar, character⟩ => some character
  | _ => none

/-- The characters which the console has given. -/
def typedCharacters (trace : List KernelExchange) : List Byte :=
  trace.filterMap typedCharacter

/-- A file has not been opened. -/
def OpenRefused (trace : List KernelExchange) : Prop :=
  ∃ name, (⟨.host (.openForReadWrite name), (-1#32 : Word)⟩ : KernelExchange) ∈ trace

/-- The line has another character than digits, and was not ended by
CTRL-A. -/
def LineRefused (trace : List KernelExchange) : Prop :=
  1#8 ∉ typedCharacters trace ∧
    ∃ character ∈ typedCharacters trace, character ≠ 10#8 ∧ isDigit character = false

variable {trace : List KernelExchange}

theorem Inert.not_writes (inert : Inert trace) : ¬Written trace := by
  rintro ⟨exchange, member, value, writes⟩
  have preparing := inert exchange member
  rw [writes] at preparing
  exact preparing rfl

theorem Inert.not_openRefused (inert : Inert trace) : ¬OpenRefused trace := by
  rintro ⟨name, member⟩
  exact inert _ member

theorem typedCharacters_append (first second : List KernelExchange) :
    typedCharacters (first ++ second) = typedCharacters first ++ typedCharacters second :=
  List.filterMap_append ..

theorem typedCharacters_eq_nil (silent : ∀ exchange ∈ trace, exchange.1 ≠ .host .getChar) :
    typedCharacters trace = [] := by
  rw [typedCharacters, List.filterMap_eq_nil_iff]
  intro exchange member
  have other := silent exchange member
  unfold typedCharacter
  split
  · exact absurd rfl other
  · rfl

theorem Inert.typedCharacters_eq (inert : Inert trace) : typedCharacters trace = [] := by
  refine typedCharacters_eq_nil fun exchange member asks => ?_
  have preparing := inert exchange member
  rw [asks] at preparing
  exact preparing

theorem inert_of_path (only : program.OnlyCalls Preparing) {value : α}
    (path : Path program trace value) : Inert trace :=
  only.of_path path

/-- A property of traces which inert parts at the ends do not change. -/
def Ignores (Refused : List KernelExchange → Prop) : Prop :=
  ∀ before trace after, Inert before → Inert after →
    (Refused (before ++ trace ++ after) ↔ Refused trace)

theorem openRefused_append (first second : List KernelExchange) :
    OpenRefused (first ++ second) ↔ OpenRefused first ∨ OpenRefused second := by
  simp only [OpenRefused, List.mem_append, exists_or]

theorem ignores_openRefused : Ignores OpenRefused := by
  intro before trace after first last
  rw [openRefused_append, openRefused_append, or_iff_left last.not_openRefused,
    or_iff_right first.not_openRefused]

theorem ignores_lineRefused : Ignores LineRefused := by
  intro before trace after first last
  simp only [LineRefused, typedCharacters_append, first.typedCharacters_eq,
    last.typedCharacters_eq, List.nil_append, List.append_nil]

theorem written_append (first second : List KernelExchange) :
    Written (first ++ second) ↔ Written first ∨ Written second := by
  simp only [Written, List.mem_append, or_and_right, exists_or]

theorem ignores_written : Ignores Written := by
  intro before trace after first last
  rw [written_append, written_append, or_iff_left last.not_writes, or_iff_right first.not_writes]

/-- The register is written on the paths which are not refused. -/
def Settles (Refused : List KernelExchange → Prop) (program : KernelProgram α) : Prop :=
  ∀ trace value, Path program trace value → (Written trace ↔ ¬Refused trace)

theorem Settles.prepare {Refused : List KernelExchange → Prop}
    (ignores : Ignores Refused) (only : program.OnlyCalls Preparing)
    (rest : ∀ value, Settles Refused (continuation value)) :
    Settles Refused (program >>= continuation) := by
  intro trace value path
  obtain ⟨before, middle, after, rfl, first, second⟩ := path.bind_inv
  have inert := inert_of_path only first
  have written := ignores_written before after [] inert nofun
  have refused := ignores before after [] inert nofun
  rw [List.append_nil] at written refused
  rw [written, refused]
  exact rest middle after value second

theorem Answers.settles {Refused : List KernelExchange → Prop} (answers : Answers program)
    (accepted : ∀ trace value, Path program trace value → ¬Refused trace) :
    Settles Refused program := by
  intro trace value path
  exact iff_of_true (answers trace value path) (accepted trace value path)

theorem settles_writeOpenResult (value : Word) : Settles OpenRefused (writeRegister r2 value) := by
  refine (Answers.writeResult value).settles ?_
  rintro trace result path ⟨name, member⟩
  rw [path.perform_inv, List.mem_singleton] at member
  cases member

theorem settles_openAndStore (name : CString) (type : Word) (freeSlot : Fin maxOpenFiles) :
    Settles OpenRefused (do
      let file ← openFile name type
      writeOpenf freeSlot file
      if file.isSome then
        writeRegister r2 (BitVec.ofNat 32 freeSlot.val)
      else return ()) := by
  intro trace value path
  obtain ⟨opening, file, storing, rfl, opened, path⟩ := path.bind_inv
  obtain ⟨stored, done, answering, rfl, store, answer⟩ := path.bind_inv
  obtain ⟨asking, fileDescriptor, building, rfl, asked, built⟩ :=
    opened.bind_inv
  cases asked.perform_inv
  cases store.perform_inv
  by_cases refused : fileDescriptor = -1#32
  · subst refused
    rw [if_pos rfl] at built
    obtain ⟨rfl, rfl⟩ := built.pure_inv
    obtain ⟨rfl, -⟩ := answer.pure_inv
    refine iff_of_false ?_ (not_not.mpr ⟨name, List.mem_cons_self⟩)
    rintro ⟨exchange, member, result, writes⟩
    simp only [List.append_nil, List.singleton_append, List.mem_cons,
      List.not_mem_nil, or_false] at member
    rcases member with rfl | rfl <;> cases writes
  · rw [if_neg refused] at built
    obtain ⟨rfl, rfl⟩ := built.pure_inv
    cases answer.perform_inv
    refine iff_of_true ?_ ?_
    · refine ⟨_, List.mem_append_right _ (List.mem_append_right _
        (List.mem_singleton_self _)), _, rfl⟩
    · rintro ⟨other, member⟩
      simp only [List.append_nil, List.singleton_append, List.mem_cons,
        List.not_mem_nil, or_false] at member
      rcases member with same | same | same
      · cases same
        exact refused rfl
      · cases same
      · cases same

theorem settles_scOpen : Settles OpenRefused scOpen := by
  have ignores := ignores_openRefused
  refine .prepare ignores (.perform trivial) fun _ =>
    .prepare ignores (.perform trivial) fun type =>
      .prepare ignores (onlyCalls_userToSystem (fun _ => trivial)
        (fun _ => trivial) fun _ _ => trivial) fun filename =>
          .prepare ignores (onlyCalls_findFreeSlot fun _ => trivial) fun slot => ?_
  cases slot with
  | none => exact settles_writeOpenResult _
  | some freeSlot =>
    dsimp only
    split
    · exact .prepare ignores (onlyCalls_lift fun _ => trivial)
        fun filename => settles_openAndStore _ _ _
    · split
      · exact settles_writeOpenResult _
      · exact settles_writeOpenResult _

/-! ## Lines of digits -/

theorem not_path_depart {reason : Departure} {value : α} :
    ¬Path (depart reason : KernelProgram α) trace value := by
  intro path
  obtain ⟨-, never, -⟩ := path.bind_inv
  nomatch never

theorem setChar_path {buffer stored : List Byte} {index : Nat} {character : Byte}
    (path : Path (setChar buffer index character) trace stored) :
    trace = [] ∧ index < buffer.length ∧ stored = buffer.set index character := by
  unfold setChar at path
  split_ifs at path with inside
  · obtain ⟨rfl, rfl⟩ := path.pure_inv
    exact ⟨rfl, inside, rfl⟩
  · exact absurd path not_path_depart

/-- What the loop of `SynchConsole::Read` has read: a line, and the
character which ended it if there was room for more. -/
theorem getChars_path (left loop : Nat) (ch : Byte) (buffer : List Byte)
    {result : List Byte × Nat × Byte}
    (path : Path (getChars left loop ch buffer) trace result)
    (inside : loop ≤ buffer.length) :
    ∃ line : List Byte, result.2.1 = loop + line.length ∧
      result.1.take result.2.1 = buffer.take loop ++ line ∧
      line.length ≤ left ∧
      (∀ character ∈ line, character ≠ 10#8 ∧ character ≠ 1#8) ∧
      (typedCharacters trace = line ++ [result.2.2] ∧
          (result.2.2 = 10#8 ∨ result.2.2 = 1#8) ∨
        typedCharacters trace = line ∧ line.length = left ∧
          (result.2.2 ∈ line ∨ result.2.2 = ch ∧ left = 0)) := by
  induction left generalizing loop ch buffer trace with
  | zero =>
    obtain ⟨rfl, rfl⟩ := path.pure_inv
    exact ⟨[], rfl, (List.append_nil _).symm, Nat.le_refl _, nofun,
      .inr ⟨rfl, rfl, .inr ⟨rfl, rfl⟩⟩⟩
  | succ left induction =>
    obtain ⟨asking, character, rest, rfl, asked, tested⟩ := path.bind_inv
    cases asked.perform_inv
    have typed : typedCharacters ([⟨.host .getChar, character⟩] ++ rest) =
        character :: typedCharacters rest := rfl
    rw [typed]
    split_ifs at tested with ends
    · obtain ⟨rfl, rfl⟩ := tested.pure_inv
      exact ⟨[], rfl, (List.append_nil _).symm, Nat.zero_le _, nofun, .inl ⟨rfl, ends⟩⟩
    · obtain ⟨setting, stored, reading, rfl, set, later⟩ :=
        tested.bind_inv
      obtain ⟨rfl, room, rfl⟩ := setChar_path set
      have inside' : loop + 1 ≤ (buffer.set loop character).length := by
        rw [List.length_set]
        exact room
      obtain ⟨line, count, stored, short, plain, outcome⟩ :=
        induction (loop + 1) character _ later inside'
      rw [not_or] at ends
      refine ⟨character :: line, ?_, ?_, Nat.succ_le_succ short, ?_, ?_⟩
      · rw [count, List.length_cons]
        omega
      · rw [stored, List.take_succ_eq_append_getElem inside',
          List.take_set_of_le (Nat.le_refl _), List.getElem_set_self,
          List.append_assoc, List.singleton_append]
      · intro other member
        rcases List.mem_cons.mp member with rfl | later
        · exact ends
        · exact plain other later
      · rw [List.nil_append]
        rcases outcome with ⟨typed, ended⟩ | ⟨typed, full, last⟩
        · exact .inl ⟨by rw [typed, List.cons_append], ended⟩
        · refine .inr ⟨by rw [typed], by rw [List.length_cons, full], .inl ?_⟩
          rcases last with member | ⟨same, -⟩
          · exact List.mem_cons_of_mem _ member
          · rw [same]
            exact List.mem_cons_self

/-- What `SC_ReadInt` finds in its buffer: nothing to test after CTRL-A, and
otherwise the line. -/
theorem consoleRead_path {buffer : List Byte} {result : Word × List Byte}
    (path : Path (consoleRead buffer 100#32) trace result) :
    1#8 ∈ typedCharacters trace ∧ result.1 = -1#32 ∨
      1#8 ∉ typedCharacters trace ∧
        ∀ character,
          character ∈ result.2.take result.1.toInt.toNat ↔
            character ∈ typedCharacters trace ∧ character ≠ 10#8 := by
  have count : (100#32).toInt.toNat = 100 := by decide
  simp only [consoleRead, count] at path
  split_ifs at path with small
  · exact absurd path not_path_depart
  obtain ⟨waiting, _, later, whole, waited, afterWait⟩ := path.bind_inv
  obtain ⟨unset, ch, last, parts, fresh, afterUnset⟩ := afterWait.bind_inv
  obtain ⟨reading, read, ending, ends, got, ended⟩ := afterUnset.bind_inv
  have typed (silent : ending = []) : typedCharacters trace = typedCharacters reading := by
    rw [whole, parts, ends, silent, waited.perform_inv, fresh.perform_inv, List.append_nil]
    rfl
  obtain ⟨line, length, stored, short, plain, outcome⟩ :=
    getChars_path _ _ _ _ got (Nat.zero_le _)
  rw [List.take_zero, List.nil_append] at stored
  rw [Nat.zero_add] at length
  split_ifs at ended with ctrlA
  · obtain ⟨silent, rfl⟩ := ended.pure_inv
    rw [typed silent]
    refine .inl ⟨?_, rfl⟩
    rcases outcome with ⟨typed, -⟩ | ⟨-, -, last | ⟨-, full⟩⟩
    · rw [typed, ctrlA]
      exact List.mem_append_right _ (List.mem_singleton_self _)
    · exact absurd ctrlA (plain _ last).2
    · cases full
  · obtain ⟨silent, rfl⟩ := ended.pure_inv
    have small : read.2.1 ≤ 100 := length ▸ short
    have value : (BitVec.ofNat 32 read.2.1).toInt.toNat = read.2.1 := by
      rw [toInt_ofNat_eq (by omega), Int.toNat_natCast]
    rw [typed silent]
    refine .inr ?_
    simp only [value, stored]
    rcases outcome with ⟨typed, newline | other⟩ | ⟨typed, -, -⟩
    · rw [typed, newline]
      refine ⟨?_, fun character => ⟨?_, ?_⟩⟩
      · intro one
        rcases List.mem_append.mp one with member | ended
        · exact (plain _ member).2 rfl
        · exact absurd (List.mem_singleton.mp ended) (by decide)
      · intro member
        exact ⟨List.mem_append_left _ member, (plain _ member).1⟩
      · rintro ⟨member, notNewline⟩
        rcases List.mem_append.mp member with member | ended
        · exact member
        · exact absurd (List.mem_singleton.mp ended) notNewline
    · exact absurd other ctrlA
    · rw [typed]
      exact ⟨fun one => (plain _ one).2 rfl, fun character =>
        ⟨fun member => ⟨member, (plain _ member).1⟩, And.left⟩⟩

theorem settles_scReadInt : Settles LineRefused scReadInt := by
  have ignores := ignores_lineRefused
  refine .prepare ignores (onlyCalls_newBuffer (fun _ => trivial)
    fun _ => trivial) fun _ =>
      .prepare ignores (onlyCalls_lift fun _ => trivial) fun buffer => ?_
  intro trace value path
  obtain ⟨reading, result, answering, rfl, read, answer⟩ := path.bind_inv
  obtain ⟨length, line⟩ := result
  have unwritten : ¬Written reading := by
    rintro ⟨exchange, member, value, writes⟩
    have only : (consoleRead buffer 100#32).OnlyCalls (· ≠ .writeRegister r2 value) :=
      onlyCalls_consoleRead nofun nofun nofun nofun
    exact only.of_path read exchange member writes
  have found := consoleRead_path read
  dsimp only at answer found
  split_ifs at answer with digits
  · have answers : Answers (do
        let number ← atoi line
        writeRegister r2 number) := .later fun _ => .writeResult _
    have quiet : (do
        let number ← atoi line
        writeRegister r2 number : KernelProgram Unit).OnlyCalls (· ≠ .host .getChar) :=
      .bind (onlyCalls_atoi (by rintro _ ⟨⟩)) fun _ => .perform nofun
    have silent := typedCharacters_eq_nil (quiet.of_path answer)
    obtain ⟨exchange, member, writes⟩ := answers _ _ answer
    refine iff_of_true ⟨exchange, List.mem_append_right _ member, writes⟩ ?_
    rw [LineRefused, typedCharacters_append, silent, List.append_nil]
    rintro ⟨noCtrlA, character, typed, notNewline, notDigit⟩
    rcases found with ⟨ctrlA, -⟩ | ⟨-, same⟩
    · exact noCtrlA ctrlA
    · have digit := List.all_eq_true.mp digits character ((same character).mpr ⟨typed, notNewline⟩)
      rw [notDigit] at digit
      cases digit
  · obtain ⟨rfl, -⟩ := answer.pure_inv
    rw [List.append_nil]
    refine iff_of_false unwritten (not_not.mpr ?_)
    rcases found with ⟨-, ended⟩ | ⟨noCtrlA, same⟩
    · rw [ended] at digits
      exact absurd rfl digits
    · refine ⟨noCtrlA, ?_⟩
      obtain ⟨character, member, notDigit⟩ :=
        List.all_eq_false.mp (Bool.eq_false_of_not_eq_true digits)
      obtain ⟨typed, notNewline⟩ := (same character).mp member
      exact ⟨character, typed, notNewline, Bool.eq_false_of_not_eq_true notDigit⟩

/-! ## The dispatch -/

end Handler

/-- What makes the handler of a system call return without a result. -/
def Syscall.Refused : Syscall → List KernelExchange → Prop
  | .open => Handler.OpenRefused
  | .readInt => Handler.LineRefused
  | _ => fun _ => False

namespace Handler

theorem settles_syscallCase {call : Syscall} (result : call.HasResult) :
    Settles call.Refused (syscallCase call) := by
  cases call with
  | halt | exit | write | printInt | printChar | readString
  | printString => exact result.elim
  | «open» => exact settles_scOpen
  | readInt => exact settles_scReadInt
  | exec => exact answers_scExec.settles fun _ _ _ => id
  | join => exact answers_scJoin.settles fun _ _ _ => id
  | create => exact answers_scCreate.settles fun _ _ _ => id
  | read => exact answers_scRead.settles fun _ _ _ => id
  | close => exact answers_scClose.settles fun _ _ _ => id
  | readChar => exact answers_scReadChar.settles fun _ _ _ => id
  | createSemaphore =>
    exact answers_scCreateSemaphore.settles fun _ _ _ => id
  | signal | wait => exact (answers_semaphoreCall _).settles fun _ _ _ => id

theorem onlyCalls_advance :
    advanceProgramCounter.OnlyCalls Preparing :=
  .call trivial fun _ =>
    .call (show Register.prevPCReg ≠ r2 by decide) fun _ =>
      .call trivial fun _ =>
        .call (show Register.pcReg ≠ r2 by decide) fun _ =>
          .perform (show Register.nextPCReg ≠ r2 by decide)

theorem ignores_refused (call : Syscall) : Ignores call.Refused := by
  cases call
  case «open» => exact ignores_openRefused
  case readInt => exact ignores_lineRefused
  all_goals exact fun _ _ _ _ _ => Iff.rfl

/-- A system call with a result which returns has written register 2 unless
a file or a line has been refused. -/
theorem result_written_iff {σ : Type} (environment : Environment σ)
    {kernel after : Kernel σ} {call : Syscall}
    {trace : List KernelExchange}
    (code : Syscall.ofCode (kernel.registers r2) = some call)
    (result : call.HasResult)
    (returned : (exceptionHandler .syscallException).run
      (recorded (Kernel.answer environment)) (kernel, []) = .ok ((), after, trace)) :
    (∃ exchange ∈ trace, WritesResult exchange) ↔ ¬call.Refused trace := by
  have dispatched : (dispatch (kernel.registers r2)).run (recorded (Kernel.answer environment))
      (kernel, [⟨.readRegister r2, kernel.registers r2⟩]) = .ok ((), after, trace) := returned
  rw [dispatch_some code] at dispatched
  obtain ⟨new, rfl, path⟩ := path_of_run dispatched
  obtain ⟨before, _, tail, rfl, first, last⟩ := path.bind_inv
  have inertTail : Inert tail := inert_of_path onlyCalls_advance last
  have inertHead : Inert [⟨.readRegister r2, kernel.registers r2⟩] := by
    intro exchange member
    rw [List.mem_singleton.mp member]
    trivial
  rw [← List.append_assoc, ignores_refused call _ before tail inertHead inertTail]
  exact (ignores_written _ before tail inertHead inertTail).trans
    (settles_syscallCase result before _ first)

/-- A host which opens no file, with the characters which are going to be
typed as its state. -/
def bareHost : Environment (List Byte)
  | .newChars _, shared => .ok (some fun _ => 0#8, shared)
  | .openForReadWrite _, shared => .ok (-1#32, shared)
  | .waitForLine, shared => .ok ((), shared)
  | .garbage, shared => .ok (0#8, shared)
  | .getChar, shared =>
    match shared.rest with
    | character :: rest => .ok (character, { shared with rest := rest })
    | [] => .error .blocked
  | _, _ => .error .halted

/-- A program with one page of zeros which has made a system call. -/
def calling (code : Word) (typed : List Byte) : Kernel (List Byte) where
  registers := Function.update (fun _ => 0#32) r2 code
  shared :=
    { mainMemory := fun _ => 0#8
      mmu := ⟨some [⟨0#32, 0#32, true, false, false, false⟩], none⟩
      openf := fun _ => none
      semTab := .new (fun _ => 0#32) fun _ => .null
      rest := typed }

def writesResult : KernelExchange → Bool
  | ⟨.writeRegister num _, _⟩ => num = r2
  | _ => false

theorem result_written_iff_close : ∃ after trace, (exceptionHandler .syscallException).run
        (recorded (Kernel.answer bareHost)) (calling 8#32 [], []) =
          .ok ((), after, trace) ∧
      ∃ exchange ∈ trace, WritesResult exchange := by
  have code : Syscall.ofCode ((calling 8#32 []).registers r2) = some .close := rfl
  exact ⟨_, _, rfl, (result_written_iff bareHost code trivial rfl).mpr id⟩

/-- The run returns without a write to register 2, which has this value. -/
def leavesResult (code : Word) (result : Except Departure
      (Unit × Kernel (List Byte) × List KernelExchange)) : Bool :=
  match result with
  | .ok (_, after, trace) =>
    trace.all (!writesResult ·) && after.registers r2 == code
  | .error _ => false

theorem unwritten_of_leavesResult {code : Word} {result : Except Departure
      (Unit × Kernel (List Byte) × List KernelExchange)}
    (leaves : leavesResult code result = true) :
    ∃ after trace, result = .ok ((), after, trace) ∧
      (¬∃ exchange ∈ trace, WritesResult exchange) ∧
      after.registers r2 = code := by
  unfold leavesResult at leaves
  split at leaves
  · rename_i after trace
    rw [Bool.and_eq_true, List.all_eq_true] at leaves
    refine ⟨after, trace, rfl, ?_, eq_of_beq leaves.2⟩
    rintro ⟨⟨call, reply⟩, member, value, writes⟩
    have unwritten := leaves.1 _ member
    subst writes
    simp only [writesResult, decide_true, Bool.not_true, Bool.false_eq_true] at unwritten
  · cases leaves

/-- An `Open` of a file which the host does not open returns its own code 5,
and a `ReadInt` of the line `x` returns its own code 11. -/
theorem refused_file_and_line_leave_code : (∃ after trace, (exceptionHandler .syscallException).run
        (recorded (Kernel.answer bareHost)) (calling 5#32 [], []) =
          .ok ((), after, trace) ∧
      (¬∃ exchange ∈ trace, WritesResult exchange) ∧
      after.registers r2 = 5#32) ∧
    ∃ after trace, (exceptionHandler .syscallException).run (recorded (Kernel.answer bareHost))
        (calling 11#32 [120#8, 10#8], []) = .ok ((), after, trace) ∧
      (¬∃ exchange ∈ trace, WritesResult exchange) ∧
      after.registers r2 = 11#32 :=
  ⟨unwritten_of_leavesResult (by decide +kernel), unwritten_of_leavesResult (by decide +kernel)⟩

end Handler

end Nachos
