import Nachos.Lib.Fold
import Nachos.Machine.Confinement

/-!
# Precise exceptions

An instruction makes all checks which can raise an exception before it
changes a register or memory, so the kernel finds the state from before the
instruction, with the pending load done.
-/

open Words Memory Calls Transition Function

namespace Nachos

open Register

namespace MachineCall

/-- Reads, which can raise an exception and change only use bits. -/
def Reads : MachineCall → Prop
  | .readRegister _ => True
  | .readMem _ _ => True
  | _ => False

/-- Operations on general registers, `Hi` and `Lo`. -/
def Local : MachineCall → Prop
  | .readRegister _ => True
  | .writeRegister num _ => num.val < pcReg.val
  | _ => False

/-- Calls which cannot raise an exception. -/
def Silent : MachineCall → Prop
  | .readRegister _ => True
  | .writeRegister _ _ => True
  | .delayedLoad _ _ => True
  | .fail _ => True
  | _ => False

theorem Local.silent {call : MachineCall} (isLocal : call.Local) :
    call.Silent := by
  cases call <;> trivial

end MachineCall

open MachineCall

theorem gp_lt_pcReg (num : Fin numGPRegs) : (gp num).val < pcReg.val := by
  have small : num.val < 32 := num.isLt
  exact small.trans (by decide)

theorem gp_ne {special : Register} (above : numGPRegs ≤ special.val)
    (num : Fin numGPRegs) : gp num ≠ special := by
  rintro rfl
  exact absurd num.isLt (Nat.not_lt.mpr above)

namespace Cpu

/-! ## Every instruction commits once -/

/-- Reads up to a point, and nothing behind it which can raise an
exception. -/
abbrev Precise {α : Type} (program : MachineProgram α) : Prop :=
  program.Commits Reads Silent

variable {α : Type} {next : Word → MachineProgram α}

theorem precise_readRegister_bind {num : Register} (rest : ∀ value, Precise (next value)) :
    Precise (readRegister num >>= next) :=
  .of_early_bind (.perform trivial) rest

theorem precise_readMem_bind {addr : Word} {size : Nat} (rest : ∀ value, Precise (next value)) :
    Precise (readMem addr size >>= next) :=
  .of_early_bind (.perform trivial) rest

theorem precise_raise (which : ExceptionType) (addr : Word) :
    Precise (raise which addr : MachineProgram α) :=
  .inr fun reply => nomatch reply

theorem precise_assert_bind {condition : Bool} {next : Unit → MachineProgram α}
    (rest : Precise (next ())) :
    Precise (assert condition >>= next) := by
  unfold assert
  split
  · exact rest
  · exact .inr fun reply => nomatch reply

theorem local_branchIf (condition : Bool) (extra : Word) :
    (branchIf condition extra).OnlyCalls Local :=
  .call trivial fun _ => .pure _

theorem local_compute {target : Register} (value : Word) (general : target.val < pcReg.val) :
    (compute target value).OnlyCalls Local :=
  .call general fun _ => local_branchIf _ _

theorem local_computeGp (target : Fin numGPRegs) (value : Word) :
    (compute (gp target) value).OnlyCalls Local :=
  local_compute value (gp_lt_pcReg target)

variable {program : MachineProgram α}

theorem local_link_bind {num : Register} (general : num.val < pcReg.val)
    (rest : program.OnlyCalls Local) :
    (link num >>= fun _ => program).OnlyCalls Local :=
  .bind (.call trivial fun _ => .perform general) fun _ => rest

theorem local_jump (extra : Word) : (jump extra).OnlyCalls Local :=
  .call trivial fun _ => .pure _

theorem local_jumpRegister (rs : Fin numGPRegs) : (jumpRegister rs).OnlyCalls Local :=
  .call trivial fun _ => .pure _

theorem local_branchOn (instr : Instruction) (condition : Word → Bool) :
    (branchOn instr condition).OnlyCalls Local :=
  .call trivial fun _ => local_branchIf _ _

theorem local_compareBranch (instr : Instruction) (condition : Word → Word → Bool) :
    (compareBranch instr condition).OnlyCalls Local :=
  .call trivial fun _ => .call trivial fun _ =>
    local_branchIf _ _

theorem local_arith (instr : Instruction) (combine : Word → Word → Word) :
    (arith instr combine).OnlyCalls Local :=
  .call trivial fun _ => .call trivial fun _ =>
    local_computeGp _ _

theorem local_immediate (instr : Instruction) (combine : Word → Word) :
    (immediate instr combine).OnlyCalls Local :=
  .call trivial fun _ => local_computeGp _ _

theorem local_loadLater (rt : Fin numGPRegs) (value : Word) :
    (loadLater rt value).OnlyCalls Local :=
  .call trivial fun _ => .pure _

theorem local_hiLo {first second : Register} (high low : Word)
    (general : first.val < pcReg.val) (general' : second.val < pcReg.val) :
    (writeRegister first high >>= fun _ => compute second low).OnlyCalls
      Local :=
  .call general fun _ => local_compute low general'

theorem local_divideUnsigned (rs rt : Word) : (divideUnsigned rs rt).OnlyCalls Local :=
  .ite (local_hiLo _ _ (by decide) (by decide)) (local_hiLo _ _ (by decide) (by decide))

theorem silent_divide (rs rt : Word) : (divide rs rt).OnlyCalls Silent :=
  .ite ((local_hiLo _ _ (by decide) (by decide)).mono fun _ => Local.silent)
    (.ite ⟨trivial, fun reply => nomatch reply⟩
      ((local_hiLo _ _ (by decide) (by decide)).mono fun _ =>
        Local.silent))

theorem local_partialTarget (rt : Fin numGPRegs) : (partialTarget rt).OnlyCalls Local :=
  .bind (.perform trivial) fun _ =>
    .ite (.perform trivial) (.perform trivial)

theorem precise_of_local (only : program.OnlyCalls Local) : Precise program :=
  .of_late (only.mono fun _ => Local.silent)

theorem precise_checked (overflow : Bool) (target : Fin numGPRegs)
    (value : Word) : Precise (checked overflow target value) :=
  .ite (precise_raise _ _) (precise_of_local (local_computeGp _ _))

section

variable (instr : Instruction)
include instr

theorem precise_store (size : Nat) : Precise (store instr size) :=
  precise_readRegister_bind fun _ => precise_readRegister_bind fun _ =>
    .inr fun _ => (local_branchIf _ _).mono fun _ => Local.silent

theorem precise_loadByte (signed : Bool) : Precise (loadByte instr signed) :=
  precise_readRegister_bind fun _ => precise_readMem_bind fun _ =>
    precise_of_local (local_loadLater _ _)

theorem precise_loadHalf (signed : Bool) : Precise (loadHalf instr signed) :=
  precise_readRegister_bind fun _ => .ite (precise_raise _ _)
    (precise_readMem_bind fun _ => precise_of_local (local_loadLater _ _))

theorem precise_loadWord : Precise (loadWord instr) :=
  precise_readRegister_bind fun _ => .ite (precise_raise _ _)
    (precise_readMem_bind fun _ => precise_of_local (local_loadLater _ _))

theorem precise_partialLoad (merge : Word → Word → Word → Word) :
    Precise (partialLoad instr merge) :=
  precise_readRegister_bind fun _ => precise_assert_bind
    (precise_readMem_bind fun _ => precise_of_local
      (.bind (local_partialTarget _) fun _ => local_loadLater _ _))

/-- The read and the write of a partial store are on the same address; the
write is the last thing which can raise an exception. -/
theorem precise_partialStore (merge : Word → Word → Word → Word) :
    Precise (partialStore instr merge) :=
  precise_readRegister_bind fun _ => precise_assert_bind
    (precise_readMem_bind fun _ => precise_readRegister_bind fun _ =>
      .inr fun _ => (local_branchIf _ _).mono fun _ => Local.silent)

end

/-- The operations which do more than to compute and to branch. -/
def trappingOpCodes : List OpCode :=
  [.ADD, .ADDI, .SUB, .DIV, .LB, .LBU, .LH, .LHU, .LW, .LWL, .LWR, .SB, .SH,
    .SW, .SWL, .SWR, .SYSCALL, .RES, .UNIMP, .RFE]

theorem local_execute {instr : Instruction} (plain : instr.opCode ∉ trappingOpCodes) :
    (execute instr).OnlyCalls Local := by
  unfold execute
  cases code : instr.opCode <;> simp only
  case ADDU | AND | NOR | OR | SLL | SLLV | SLT | SLTU | SRA | SRAV | SRL | SRLV | SUBU | XOR =>
    exact local_arith _ _
  case ADDIU | ANDI | ORI | SLTI | SLTIU | XORI => exact local_immediate _ _
  case BEQ | BNE => exact local_compareBranch _ _
  case BGEZ | BGTZ | BLEZ | BLTZ => exact local_branchOn _ _
  case BGEZAL | BLTZAL =>
    exact local_link_bind (by decide) (local_branchOn _ _)
  case J => exact local_jump _
  case JAL => exact local_link_bind (by decide) (local_jump _)
  case JR => exact local_jumpRegister _
  case JALR => exact local_link_bind (gp_lt_pcReg _) (local_jumpRegister _)
  case DIVU =>
    exact .call trivial fun _ => .call trivial fun _ =>
      local_divideUnsigned _ _
  case MULT | MULTU =>
    exact .call trivial fun _ => .call trivial fun _ =>
      local_hiLo _ _ (by decide) (by decide)
  case MFHI | MFLO => exact .call trivial fun _ => local_computeGp _ _
  case MTHI | MTLO =>
    exact .call trivial fun _ => local_compute _ (by decide)
  case LUI => exact local_computeGp _ _
  all_goals
    rw [code] at plain
    exact absurd (by decide) plain

theorem precise_execute (instr : Instruction) : Precise (execute instr) := by
  by_cases plain : instr.opCode ∈ trappingOpCodes
  · unfold execute
    cases code : instr.opCode <;> simp only
    case ADD | SUB =>
      exact precise_readRegister_bind fun _ =>
        precise_readRegister_bind fun _ => precise_checked _ _ _
    case ADDI =>
      exact precise_readRegister_bind fun _ => precise_checked _ _ _
    case DIV =>
      exact precise_readRegister_bind fun _ => precise_readRegister_bind
        fun _ => .of_late (silent_divide _ _)
    case LB | LBU => exact precise_loadByte _ _
    case LH | LHU => exact precise_loadHalf _ _
    case LW => exact precise_loadWord _
    case LWL | LWR => exact precise_partialLoad _ _
    case SB | SH | SW => exact precise_store _ _
    case SWL | SWR => exact precise_partialStore _ _
    case SYSCALL | RES | UNIMP => exact precise_raise _ _
    case RFE => exact .inr fun reply => nomatch reply
    all_goals
      rw [code] at plain
      exact absurd plain (by decide)
  · exact precise_of_local (local_execute plain)

/-- The end of `OneInstruction`. -/
def finish (executed : Executed) : MachineProgram Unit := do
  delayedLoad executed.nextLoadReg executed.nextLoadValue
  let pc ← readRegister pcReg
  writeRegister prevPCReg pc
  let nextPC ← readRegister nextPCReg
  writeRegister pcReg nextPC
  writeRegister nextPCReg executed.pcAfter

theorem silent_finish (executed : Executed) : (finish executed).OnlyCalls Silent :=
  .call trivial fun _ => .call trivial fun _ =>
    .call trivial fun _ => .call trivial fun _ =>
      .call trivial fun _ => .perform trivial

theorem precise_oneInstruction : Precise oneInstruction :=
  precise_readRegister_bind fun _ => precise_readMem_bind fun _ =>
    (precise_execute _).bind_late silent_finish

end Cpu

namespace Machine

/-! ## Precise exceptions -/

/-- Registers and memory are the same. -/
def SameState (before after : Machine) : Prop :=
  after.registers = before.registers ∧ after.mainMemory = before.mainMemory

theorem SameState.refl (machine : Machine) : SameState machine machine :=
  ⟨rfl, rfl⟩

theorem SameState.trans {first second third : Machine}
    (before : SameState first second) (after : SameState second third) :
    SameState first third :=
  ⟨after.1.trans before.1, after.2.trans before.2⟩

variable {machine : Machine} {after : Machine} {call : MachineCall}

theorem answer_reads {reply : call.Reply} (reads : call.Reads)
    (success : answer call machine = .ok (reply, after)) :
    SameState machine after := by
  cases call with
  | readRegister num =>
    cases success
    exact ⟨rfl, rfl⟩
  | readMem addr size =>
    obtain ⟨physicalAddress, mmu, -, -, rfl⟩ := readMem_inv success
    exact ⟨rfl, rfl⟩
  | _ => exact reads.elim

/-- A call which raises an exception does so in the state in which it is
made. -/
def RaisedIn (machine : Machine) (stop : Stop) : Prop :=
  ∀ which after, stop = .raised which after →
    ∃ badVAddr, machine.raiseException which badVAddr = .raised which after

theorem raisedIn_raiseException (machine : Machine) (which : ExceptionType) (badVAddr : Word) :
    RaisedIn machine (machine.raiseException which badVAddr) := by
  intro found after same
  refine ⟨badVAddr, ?_⟩
  have kind : found = which := by
    unfold raiseException at same
    split at same
    · cases same
      rfl
    · cases same
  rw [kind] at same ⊢
  exact same

theorem raisedIn_fault (machine : Machine) (reason : Fault) : RaisedIn machine (.fault reason) := by
  rintro which after ⟨⟩

variable {stop : Stop}

theorem raisedIn_translate {addr : Word} {size : Nat} {writing : Bool}
    (failed : machine.translate addr size writing = .error stop) :
    RaisedIn machine stop := by
  unfold translate at failed
  split at failed
  · cases failed
  · cases failed
    exact raisedIn_raiseException _ _ _
  · cases failed
    exact raisedIn_fault _ _

theorem answer_raisedIn (failed : answer call machine = .error stop) :
    RaisedIn machine stop := by
  cases call with
  | readRegister num | writeRegister num value => cases failed
  | readMem addr size | writeMem addr size value =>
    rcases error_of_bind failed with refused | ⟨_, -, failed⟩
    · exact raisedIn_translate refused
    · dsimp only at failed
      split at failed <;> cases failed
      exact raisedIn_fault _ _
  | delayedLoad nextReg nextValue =>
    simp only [answer] at failed
    split at failed
    · cases failed
    · cases failed
      exact raisedIn_fault _ _
  | raise which badVAddr =>
    cases failed
    exact raisedIn_raiseException _ _ _
  | fail reason =>
    cases failed
    exact raisedIn_fault _ _

theorem answer_silent (silent : call.Silent) (failed : answer call machine = .error stop) :
    ∃ reason, stop = .fault reason := by
  cases call with
  | readRegister num | writeRegister num value => cases failed
  | delayedLoad nextReg nextValue =>
    simp only [answer] at failed
    split at failed
    · cases failed
    · cases failed
      exact ⟨_, rfl⟩
  | fail reason =>
    cases failed
    exact ⟨reason, rfl⟩
  | _ => exact silent.elim

theorem oneInstruction_eq_error (failed : machine.oneInstruction = .error stop) :
    Cpu.oneInstruction.run answer machine = .error stop := by
  unfold oneInstruction at failed
  split at failed
  · cases failed
  · rename_i found ran
    cases failed
    exact ran

/-- An exception is raised in the registers and the memory from before the
instruction. -/
theorem raised_inv {which : ExceptionType}
    (raised : machine.oneInstruction = .error (.raised which after)) :
    ∃ middle badVAddr, SameState machine middle ∧
      middle.raiseException which badVAddr = .raised which after := by
  have ended := Cpu.precise_oneInstruction.run_error SameState.refl (fun _ _ _ => SameState.trans)
    (fun _ _ _ _ => answer_reads) (fun _ _ _ => answer_raisedIn)
    (fun _ _ _ => answer_silent) (oneInstruction_eq_error raised)
  rcases ended with ⟨middle, same, raisedIn⟩ | ⟨reason, fault⟩
  · obtain ⟨badVAddr, shape⟩ := raisedIn which after rfl
    exact ⟨middle, badVAddr, same, shape⟩
  · cases fault

/-- `R0` is zero, and a load is pending for a general register. -/
structure WellFormed (machine : Machine) : Prop where
  zero : machine.registers zeroReg = 0#32
  pending : (machine.registers loadReg).toNat < numGPRegs

/-- The general register which a pending load is for. -/
def WellFormed.target {machine : Machine} (wellFormed : WellFormed machine) :
    Fin numGPRegs :=
  ⟨(machine.registers loadReg).toNat, wellFormed.pending⟩

/-- The registers after `DelayedLoad`. -/
def loaded (registers : Registers) (target : Register) (nextReg nextValue : Word) : Registers :=
  update (update (update (update registers target (registers loadValueReg)) loadReg nextReg)
    loadValueReg nextValue) zeroReg 0#32

theorem delayedLoad_eq {target : Register}
    (pending : (machine.registers loadReg).toNat = target.val)
    (nextReg nextValue : Word) :
    machine.delayedLoad nextReg nextValue = .ok { machine with
      registers := loaded machine.registers target nextReg nextValue } := by
  have inside : (machine.registers loadReg).toNat < numTotalRegs := by
    rw [pending]
    exact target.isLt
  have same : (⟨(machine.registers loadReg).toNat, inside⟩ : Register) =
      target := Fin.ext pending
  unfold delayedLoad writeIndexed
  rw [dif_pos inside, ok_bind, same]
  rfl

/-- `PrevPCReg`, `PCReg` and `NextPCReg` move on. -/
def advanced (registers : Registers) (pcAfter : Word) : Registers :=
  update (update (update registers prevPCReg
    (registers pcReg)) pcReg (registers nextPCReg)) nextPCReg pcAfter

theorem run_delayedLoad (machine : Machine) (nextReg nextValue : Word) :
    (Cpu.delayedLoad nextReg nextValue).run answer machine =
      match machine.delayedLoad nextReg nextValue with
      | .ok machine => .ok ((), machine)
      | .error reason => .error (.fault reason) :=
  Program.run_perform _ _

theorem run_readMem (machine : Machine) (addr : Word) (size : Nat) :
    (Cpu.readMem addr size).run answer machine = machine.readMem addr size :=
  Program.run_perform _ _

theorem run_oneInstruction (machine : Machine) :
    Cpu.oneInstruction.run answer machine = match machine.readMem (machine.registers pcReg) 4 with
      | .ok (raw, fetched) =>
        (Cpu.execute (Instruction.decode raw) >>= Cpu.finish).run answer fetched
      | .error stop => .error stop := by
  have same : Cpu.oneInstruction.run answer machine =
      (Cpu.readMem (machine.registers pcReg) 4 >>= fun raw =>
        Cpu.execute (Instruction.decode raw) >>= Cpu.finish).run answer
        machine := rfl
  rw [same, Program.run_bind, run_readMem]
  cases machine.readMem (machine.registers pcReg) 4 with
  | ok result | error stop => rfl

theorem run_finish {target : Register} (pending : (machine.registers loadReg).toNat = target.val)
    (executed : Executed) :
    (Cpu.finish executed).run answer machine = .ok ((), { machine with
      registers := advanced (loaded machine.registers target
        executed.nextLoadReg executed.nextLoadValue) executed.pcAfter }) := by
  unfold Cpu.finish
  rw [Program.run_bind, run_delayedLoad, delayedLoad_eq pending]
  rfl

theorem loaded_general (registers : Registers) (load : Register)
    (num : Fin numGPRegs) (nextReg nextValue : Word) :
    loaded registers load nextReg nextValue (gp num) = if num.val = 0 then 0#32
      else if gp num = load then registers loadValueReg
      else registers (gp num) := by
  have notLoad : gp num ≠ loadReg := gp_ne (by decide) num
  have notValue : gp num ≠ loadValueReg := gp_ne (by decide) num
  have isZero : gp num = zeroReg ↔ num.val = 0 := Fin.ext_iff
  simp only [loaded, update_apply, isZero, if_neg notLoad, if_neg notValue]

theorem loaded_gp (registers : Registers) (target num : Fin numGPRegs) (nextReg nextValue : Word) :
    loaded registers (gp target) nextReg nextValue (gp num) = if num.val = 0 then 0#32
      else if num = target then registers loadValueReg
      else registers (gp num) := by
  have isTarget : gp num = gp target ↔ num = target := by
    rw [Fin.ext_iff, Fin.ext_iff]
    rfl
  rw [loaded_general]
  simp only [isTarget]

theorem loaded_special (registers : Registers) (target : Fin numGPRegs)
    (nextReg nextValue : Word) {num : Register} (above : 32 ≤ num.val)
    (notLoad : num ≠ loadReg) (notValue : num ≠ loadValueReg) :
    loaded registers (gp target) nextReg nextValue num =
      registers num := by
  have notTarget : num ≠ gp target := (gp_ne above target).symm
  have notZero : num ≠ zeroReg := by
    rintro rfl
    exact absurd above (by decide)
  simp only [loaded, update_apply, if_neg notZero,
    if_neg notLoad, if_neg notValue, if_neg notTarget]

theorem raiseException_inv {which : ExceptionType} {badVAddr : Word}
    (wellFormed : WellFormed machine)
    (raised : machine.raiseException which badVAddr = .raised which after) :
    after = { machine with
      registers := loaded (update machine.registers badVAddrReg
        badVAddr) (gp wellFormed.target) 0#32 0#32 } := by
  have pending : ((machine.writeRegister badVAddrReg badVAddr).registers
      loadReg).toNat = (gp wellFormed.target).val := rfl
  unfold raiseException at raised
  rw [delayedLoad_eq pending] at raised
  cases raised
  rfl

/-- If an instruction raises an exception, the kernel finds memory, the
program counters, `Hi` and `Lo` as before, and the general registers as
before with the pending load done. -/
theorem exceptions_precise (machine after : Machine)
    (which : ExceptionType) (wellFormed : WellFormed machine)
    (raised : machine.oneInstruction = .error (.raised which after)) :
    after.mainMemory = machine.mainMemory ∧
    (∀ num ∈ [pcReg, nextPCReg, prevPCReg, hiReg, loReg],
      after.registers num = machine.registers num) ∧
    (∀ num : Fin numGPRegs, after.registers (gp num) =
      if num.val ≠ 0 ∧ (machine.registers loadReg).toNat = num.val then
        machine.registers loadValueReg
      else machine.registers (gp num)) ∧
    after.registers loadReg = 0#32 := by
  obtain ⟨middle, badVAddr, ⟨registers, memory⟩, shape⟩ := raised_inv raised
  have middleFormed : WellFormed middle := by
    refine ⟨?_, ?_⟩
    · rw [registers]
      exact wellFormed.zero
    · rw [registers]
      exact wellFormed.pending
  have final := raiseException_inv middleFormed shape
  have target : middleFormed.target = wellFormed.target := by
    apply Fin.ext
    simp only [WellFormed.target, registers]
  rw [target, registers] at final
  subst final
  refine ⟨memory, ?_, ?_, rfl⟩
  · intro num member
    have special : 32 ≤ num.val ∧ num ≠ loadReg ∧ num ≠ loadValueReg ∧ num ≠ badVAddrReg := by
      revert num
      decide
    obtain ⟨above, notLoad, notValue, notBad⟩ := special
    simp only
    rw [loaded_special _ _ _ _ above notLoad notValue, update_of_ne notBad]
  · intro num
    have notBad : gp num ≠ badVAddrReg := gp_ne (by decide) num
    have value : loadValueReg ≠ badVAddrReg := by decide
    have isTarget : num = wellFormed.target ↔ (machine.registers loadReg).toNat = num.val := by
      rw [Fin.ext_iff, eq_comm]
      rfl
    simp only
    rw [loaded_gp, update_of_ne notBad, update_of_ne value]
    simp only [isTarget]
    by_cases zero : num.val = 0
    · have isZero : gp num = zeroReg := Fin.ext zero
      rw [if_pos zero, if_neg (fun both => both.1 zero), isZero, wellFormed.zero]
    · rw [if_neg zero]
      simp only [ne_eq, zero, not_false_eq_true, true_and]

/-- One page with one word of code, in frame 0. -/
def oneWord (code : Word) (registers : Registers) : Machine where
  registers := registers
  mainMemory := fun address => byteOf code address
  mmu := ⟨some [⟨0#32, 0#32, true, false, false, false⟩], none⟩

/-- A machine with a load pending for `r4`. -/
def loadPending (code : Word) : Machine :=
  oneWord code fun num => if num = loadReg then 4#32
    else if num = loadValueReg then 5#32 else 0#32

/-- `lw r3, 2(r1)`, which is misaligned. -/
theorem exceptions_precise_of_misaligned :
    ∃ after, (loadPending 0x8c230002#32).oneInstruction =
        .error (.raised .addressErrorException after) ∧
      after.registers (gp ⟨4, by decide⟩) = 5#32 := by
  refine ⟨_, rfl, ?_⟩
  exact (exceptions_precise (loadPending 0x8c230002#32) _ _
    ⟨rfl, by decide⟩ rfl).2.2.1 ⟨4, by decide⟩

end Machine

end Nachos
