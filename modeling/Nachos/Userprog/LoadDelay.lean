import Nachos.Machine.Faults

/-!
# Interrupts in the load delay slot

A load takes effect after the next instruction, and `CheckIfDue` finishes it
with `DelayedLoad(0, 0)` if an interrupt comes first.  A program which does
not use the register in the delay slot cannot tell the difference, unless the
instruction in the slot writes that register: without an interrupt the load
overwrites what the instruction has computed, with one it does not.
-/

open Words Memory Calls Function

namespace Nachos

open Register

namespace Instruction

/-- The general registers which an instruction works on.  `OR` uses `rs`
twice; a partial load merges into its target. -/
def operands (instr : Instruction) : List (Fin numGPRegs) :=
  match instr.opCode with
  | .ADD | .ADDU | .AND | .BEQ | .BNE | .DIV | .DIVU | .LWL | .LWR | .MULT
  | .MULTU | .NOR | .SB | .SH | .SLLV | .SLT | .SLTU | .SRAV | .SRLV | .SUB
  | .SUBU | .SW | .SWL | .SWR | .XOR => [instr.rs, instr.rt]
  | .ADDI | .ADDIU | .ANDI | .BGEZ | .BGEZAL | .BGTZ | .BLEZ | .BLTZ
  | .BLTZAL | .JALR | .JR | .LB | .LBU | .LH | .LHU | .LW | .MTHI | .MTLO
  | .OR | .ORI | .SLTI | .SLTIU | .XORI => [instr.rs]
  | .SLL | .SRA | .SRL => [instr.rt]
  | .J | .JAL | .LUI | .MFHI | .MFLO | .RFE | .SYSCALL | .UNIMP | .RES => []

/-- The instruction adds or subtracts and traps on overflow. -/
def overflows (instr : Instruction) (registers : Registers) : Bool :=
  let rs := registers (gp instr.rs)
  let rt := registers (gp instr.rt)
  match instr.opCode with
  | .ADD => (rs ^^^ rt) &&& signBit = 0#32 ∧
      (rs ^^^ (rs + rt)) &&& signBit ≠ 0#32
  | .ADDI => (rs ^^^ instr.extra) &&& signBit = 0#32 ∧
      (instr.extra ^^^ (rs + instr.extra)) &&& signBit ≠ 0#32
  | .SUB => (rs ^^^ rt) &&& signBit ≠ 0#32 ∧
      (rs ^^^ (rs - rt)) &&& signBit ≠ 0#32
  | _ => false

/-- The general register which an instruction writes at once. -/
def destination (instr : Instruction) (registers : Registers) : Option (Fin numGPRegs) :=
  match instr.opCode with
  | .ADD | .SUB =>
    if instr.overflows registers then none else some instr.rd
  | .ADDI => if instr.overflows registers then none else some instr.rt
  | .ADDU | .AND | .JALR | .MFHI | .MFLO | .NOR | .OR | .SLL | .SLLV | .SLT
  | .SLTU | .SRA | .SRAV | .SRL | .SRLV | .SUBU | .XOR => some instr.rd
  | .ADDIU | .ANDI | .LUI | .ORI | .SLTI | .SLTIU | .XORI => some instr.rt
  | .BGEZAL | .BLTZAL | .JAL => some ⟨31, by decide⟩
  | _ => none

/-- Registers which look the same to an instruction. -/
structure AgreeOn (instr : Instruction) (left right : Registers) :
    Prop where
  operands : ∀ num ∈ instr.operands, left (gp num) = right (gp num)
  special : ∀ num ∈ [hiReg, loReg, nextPCReg], left num = right num

theorem AgreeOn.trans {instr : Instruction}
    {first second third : Registers} (before : instr.AgreeOn first second)
    (after : instr.AgreeOn second third) : instr.AgreeOn first third where
  operands num member :=
    (before.operands num member).trans (after.operands num member)
  special num member :=
    (before.special num member).trans (after.special num member)

end Instruction

/-! ## What the instructions return -/

namespace Executed

/-- A load is scheduled for a general register. -/
def Proper (executed : Executed) : Prop :=
  executed.nextLoadReg.toNat < numGPRegs

theorem proper_advance (pcAfter : Word) : (advance pcAfter).Proper := by
  show (0#32).toNat < numGPRegs
  decide

theorem proper_loading (target : Fin numGPRegs) (value pcAfter : Word) :
    (loading target value pcAfter).Proper := by
  have small : target.val < 32 := target.isLt
  show (BitVec.ofNat 32 target.val).toNat < numGPRegs
  rw [BitVec.toNat_ofNat, Nat.mod_eq_of_lt (by omega)]
  exact target.isLt

end Executed

namespace Cpu

open Executed

theorem returns_branchIf (condition : Bool) (extra : Word) :
    (branchIf condition extra).Returns Proper :=
  .bind fun _ => proper_advance _

theorem returns_compute (target : Register) (value : Word) :
    (compute target value).Returns Proper :=
  .bind fun _ => returns_branchIf _ _

theorem returns_checked (overflow : Bool) (target : Fin numGPRegs)
    (value : Word) : (checked overflow target value).Returns Proper :=
  .ite (fun reply => nomatch reply) (returns_compute _ _)

theorem returns_loadLater (rt : Fin numGPRegs) (value : Word) :
    (loadLater rt value).Returns Proper :=
  .bind fun _ => proper_loading _ _ _

theorem returns_divide (rs rt : Word) : (divide rs rt).Returns Proper :=
  .ite (.bind fun _ => returns_compute _ _) (.ite (fun reply => nomatch reply)
      (.bind fun _ => returns_compute _ _))

theorem returns_divideUnsigned (rs rt : Word) : (divideUnsigned rs rt).Returns Proper :=
  .ite (.bind fun _ => returns_compute _ _) (.bind fun _ => returns_compute _ _)

theorem returns_execute (instr : Instruction) : (execute instr).Returns Proper := by
  unfold execute
  cases instr.opCode <;> simp only
  case ADD | SUB =>
    exact .bind fun _ => .bind fun _ => returns_checked _ _ _
  case ADDI => exact .bind fun _ => returns_checked _ _ _
  case ADDU | AND | NOR | OR | SLL | SLLV | SLT | SLTU | SRA | SRAV | SRL | SRLV | SUBU | XOR =>
    exact .bind fun _ => .bind fun _ => returns_compute _ _
  case MULT | MULTU =>
    exact .bind fun _ => .bind fun _ => .bind fun _ => returns_compute _ _
  case ADDIU | ANDI | ORI | SLTI | SLTIU | XORI | MFHI | MFLO | MTHI | MTLO =>
    exact .bind fun _ => returns_compute _ _
  case LUI => exact returns_compute _ _
  case BEQ | BNE | BGEZAL | BLTZAL =>
    exact .bind fun _ => .bind fun _ => returns_branchIf _ _
  case BGEZ | BGTZ | BLEZ | BLTZ => exact .bind fun _ => returns_branchIf _ _
  case J | JR => exact .bind fun _ => proper_advance _
  case JAL | JALR => exact .bind fun _ => .bind fun _ => proper_advance _
  case DIV => exact .bind fun _ => .bind fun _ => returns_divide _ _
  case DIVU => exact .bind fun _ => .bind fun _ => returns_divideUnsigned _ _
  case LB | LBU => exact .bind fun _ => .bind fun _ => returns_loadLater _ _
  case LH | LHU | LW =>
    exact .bind fun _ => .ite (fun reply => nomatch reply) (.bind fun _ => returns_loadLater _ _)
  case LWL | LWR =>
    exact .bind fun _ => .bind fun _ => .bind fun _ => .bind fun _ =>
      returns_loadLater _ _
  case SB | SH | SW =>
    exact .bind fun _ => .bind fun _ => .bind fun _ => returns_branchIf _ _
  case SWL | SWR =>
    exact .bind fun _ => .bind fun _ => .bind fun _ => .bind fun _ =>
      .bind fun _ => returns_branchIf _ _
  case SYSCALL | RES | UNIMP | RFE => exact fun reply => nomatch reply

end Cpu

/-! ## Finishing a load early -/

theorem gp_injective : Function.Injective gp :=
  Fin.castLE_injective (by decide)

namespace Machine

/-- A load is pending for the given register. -/
structure Pending (target : Fin numGPRegs) (machine : Machine) : Prop where
  zero : machine.registers zeroReg = 0#32
  load : (machine.registers loadReg).toNat = target.val

/-- The machine after the pending load has been done. -/
def commit (target : Fin numGPRegs) (machine : Machine) : Machine :=
  { machine with
    registers := update (update (update
      machine.registers (gp target) (machine.registers loadValueReg))
      loadReg 0#32) loadValueReg 0#32 }

section

variable {target : Fin numGPRegs} {machine : Machine} {num : Register}

theorem commit_registers (other : num ≠ gp target) (notLoad : num ≠ loadReg)
    (notValue : num ≠ loadValueReg) :
    (machine.commit target).registers num = machine.registers num := by
  simp only [commit, update_of_ne notValue, update_of_ne notLoad, update_of_ne other]

theorem commit_gp {num : Fin numGPRegs} (other : num ≠ target) :
    (machine.commit target).registers (gp num) = machine.registers (gp num) := by
  apply commit_registers
  · intro same
    exact other (gp_injective same)
  · exact gp_ne (by decide) num
  · exact gp_ne (by decide) num

theorem commit_special (above : numGPRegs ≤ num.val) (notLoad : num ≠ loadReg)
    (notValue : num ≠ loadValueReg) :
    (machine.commit target).registers num = machine.registers num :=
  commit_registers (gp_ne above target).symm notLoad notValue

theorem commit_writeRegister (other : num ≠ gp target)
    (notLoad : num ≠ loadReg) (notValue : num ≠ loadValueReg) (value : Word) :
    (machine.writeRegister num value).commit target =
      (machine.commit target).writeRegister num value := by
  simp only [commit, writeRegister, update_of_ne notValue.symm]
  rw [update_comm other, update_comm notLoad, update_comm notValue]

theorem writeRegister_gp_load (value : Word) :
    (machine.writeRegister (gp target) value).registers loadReg =
      machine.registers loadReg :=
  update_of_ne (gp_ne (by decide) target).symm ..

theorem loaded_commit (nextReg nextValue : Word) :
    loaded (machine.commit target).registers zeroReg nextReg nextValue =
      loaded machine.registers (gp target) nextReg nextValue := by
  funext num
  simp only [loaded, commit, update_apply]
  split_ifs <;> rfl

theorem commit_load : ((machine.commit target).registers loadReg).toNat = zeroReg.val := rfl

theorem delayedLoad_eq_commit (pending : Pending target machine) (nonzero : target.val ≠ 0) :
    machine.delayedLoad 0#32 0#32 = .ok (machine.commit target) := by
  have notZero : zeroReg ≠ gp target := by
    intro same
    exact nonzero (congrArg Fin.val same).symm
  have zero : (machine.commit target).registers zeroReg = 0#32 := by
    rw [commit_registers notZero (by decide) (by decide), pending.zero]
  have same : loaded machine.registers (gp target) 0#32 0#32 =
      (machine.commit target).registers := by
    calc
      loaded machine.registers (gp target) 0#32 0#32
          = update (machine.commit target).registers zeroReg 0#32 :=
            rfl
      _ = (machine.commit target).registers := by
            rw [← zero, update_eq_self]
  have load : (machine.registers loadReg).toNat = (gp target).val :=
    pending.load
  rw [delayedLoad_eq load, same]
  rfl

variable (load : (machine.registers loadReg).toNat = target.val)
include load

theorem raiseException_commit (which : ExceptionType) (badVAddr : Word) :
    (machine.commit target).raiseException which badVAddr =
      machine.raiseException which badVAddr := by
  have kept : ((machine.writeRegister badVAddrReg badVAddr).registers
      loadReg).toNat = (gp target).val := load
  unfold raiseException
  rw [← commit_writeRegister (gp_ne (by decide) target).symm (by decide)
    (by decide), delayedLoad_eq commit_load, delayedLoad_eq kept,
    loaded_commit]
  rfl

theorem translate_commit (addr : Word) (size : Nat) (writing : Bool) :
    (machine.commit target).translate addr size writing =
      (machine.translate addr size writing).map (Prod.map id (commit target)) := by
  unfold Machine.translate
  rw [show (machine.commit target).mmu = machine.mmu from rfl]
  cases machine.mmu.translate addr size writing with
  | ok result => rfl
  | error refusal =>
    cases refusal with
    | exception which =>
      simp only [raiseException_commit load]
      rfl
    | fault reason => rfl

theorem readMem_commit (addr : Word) (size : Nat) :
    (machine.commit target).readMem addr size =
      (machine.readMem addr size).map (Prod.map id (commit target)) := by
  unfold readMem
  rw [translate_commit load]
  cases machine.translate addr size false with
  | error stop => rfl
  | ok result =>
    obtain ⟨physicalAddress, after⟩ := result
    simp only [Except.map, ok_bind, Prod.map, id]
    rw [show (after.commit target).mainMemory = after.mainMemory from rfl]
    cases Machine.load after.mainMemory physicalAddress size with
    | none | some value => rfl

theorem writeMem_commit (addr : Word) (size : Nat) (value : Word) :
    (machine.commit target).writeMem addr size value =
      (machine.writeMem addr size value).map (Prod.map id (commit target)) := by
  unfold writeMem
  rw [translate_commit load]
  cases machine.translate addr size true with
  | error stop => rfl
  | ok result =>
    obtain ⟨physicalAddress, after⟩ := result
    simp only [Except.map, ok_bind, Prod.map, id]
    cases storedBytes value size with
    | none | some bytes => rfl

theorem run_finish_commit (executed : Executed) :
    (Cpu.finish executed).run answer (machine.commit target) =
      (Cpu.finish executed).run answer machine := by
  have kept : (machine.registers loadReg).toNat = (gp target).val := load
  rw [run_finish commit_load, run_finish kept, loaded_commit]
  rfl

end

end Machine

/-! ## Instructions which write a general register -/

namespace Cpu

open Machine Executed

theorem run_compute (target : Fin numGPRegs) (value : Word) (machine : Machine) :
    (compute (gp target) value).run answer machine =
      .ok (advance (machine.registers nextPCReg + 4#32),
        machine.writeRegister (gp target) value) := by
  have kept : (machine.writeRegister (gp target) value).registers nextPCReg =
      machine.registers nextPCReg :=
    update_of_ne (gp_ne (by decide) target).symm ..
  rw [← kept]
  rfl

variable {instr : Instruction}

theorem overflows_congr {left right : Registers} (agree : instr.AgreeOn left right) :
    instr.overflows left = instr.overflows right := by
  obtain ⟨opCode, rs, rt, rd, extra⟩ := instr
  cases opCode
  case ADD | SUB =>
    simp only [Instruction.overflows,
      agree.operands rs (by simp [Instruction.operands]),
      agree.operands rt (by simp [Instruction.operands])]
  case ADDI =>
    simp only [Instruction.overflows, agree.operands rs (by simp [Instruction.operands])]
  all_goals rfl

/-- The program writes the register, and what it writes and where it goes on
depends only on what the instruction works on. -/
def Writes (instr : Instruction) (registers : Registers)
    (target : Fin numGPRegs) (program : MachineProgram Executed) : Prop :=
  ∃ value pcAfter, ∀ machine : Machine,
    instr.AgreeOn machine.registers registers →
    program.run answer machine = .ok (advance pcAfter, machine.writeRegister (gp target) value)

section

variable {instr : Instruction} {registers : Registers}
  {program : MachineProgram Executed} {target : Fin numGPRegs}

theorem writes_compute (value : Registers → Word)
    (shape : ∀ machine : Machine,
      instr.AgreeOn machine.registers registers →
      program.run answer machine =
        (compute (gp target) (value machine.registers)).run answer machine)
    (same : ∀ left, instr.AgreeOn left registers → value left = value registers) :
    Writes instr registers target program := by
  refine ⟨value registers, registers nextPCReg + 4#32, ?_⟩
  intro machine agree
  rw [shape machine agree, run_compute, same _ agree, agree.special nextPCReg (by simp)]

theorem writes_arith {combine : Word → Word → Word}
    (same : ∀ left, instr.AgreeOn left registers →
      combine (left (gp instr.rs)) (left (gp instr.rt)) =
        combine (registers (gp instr.rs)) (registers (gp instr.rt))) :
    Writes instr registers instr.rd (arith instr combine) :=
  writes_compute (fun registers => combine (registers (gp instr.rs))
    (registers (gp instr.rt))) (fun _ _ => rfl) same

theorem writes_immediate {combine : Word → Word} (used : instr.rs ∈ instr.operands) :
    Writes instr registers instr.rt (immediate instr combine) :=
  writes_compute (fun registers => combine (registers (gp instr.rs)))
    (fun _ _ => rfl) fun _ agree => by rw [agree.operands _ used]

theorem run_checked (overflow : Bool) (target : Fin numGPRegs) (value : Word) (machine : Machine) :
    (checked overflow target value).run answer machine = if overflow then
        .error (machine.raiseException .overflowException 0#32)
      else (compute (gp target) value).run answer machine := by
  cases overflow <;> rfl

theorem writes_checked (value : Registers → Word)
    (shape : ∀ machine : Machine, program.run answer machine =
      (checked (instr.overflows machine.registers) target
        (value machine.registers)).run answer machine)
    (same : ∀ left, instr.AgreeOn left registers →
      value left = value registers) (calm : ¬instr.overflows registers) :
    Writes instr registers target program := by
  refine writes_compute value ?_ same
  intro machine agree
  rw [shape, run_checked, overflows_congr agree, if_neg calm]

/-- The registers after a link. -/
def linked (registers : Registers) (target : Fin numGPRegs) : Registers :=
  update registers (gp target) (registers nextPCReg + 4#32)

theorem linked_congr {left right : Registers} (target : Fin numGPRegs)
    {num : Register} (next : left nextPCReg = right nextPCReg)
    (same : left num = right num) :
    linked left target num = linked right target num := by
  simp only [linked, update_apply, next, same]

theorem writes_link (after : Registers → Word)
    (shape : ∀ machine : Machine, program.run answer machine =
      .ok (advance (after (linked machine.registers target)),
        { machine with registers := linked machine.registers target }))
    (same : ∀ left, instr.AgreeOn left registers →
      after (linked left target) = after (linked registers target)) :
    Writes instr registers target program := by
  refine ⟨registers nextPCReg + 4#32, after (linked registers target), ?_⟩
  intro machine agree
  rw [shape, same _ agree]
  unfold linked Machine.writeRegister
  rw [agree.special nextPCReg (by simp)]

theorem run_link_branchOn {num : Fin numGPRegs} (condition : Word → Bool) (machine : Machine) : (do
      link (gp num)
      branchOn instr condition).run answer machine =
      .ok (advance (if condition (linked machine.registers num (gp instr.rs)) then
          linked machine.registers num nextPCReg + indexToAddr instr.extra
        else linked machine.registers num nextPCReg + 4#32),
        { machine with registers := linked machine.registers num }) := rfl

theorem writes_link_branchOn {num : Fin numGPRegs}
    (condition : Word → Bool) (used : instr.rs ∈ instr.operands) :
    Writes instr registers num (do
      link (gp num)
      branchOn instr condition) := by
  refine writes_link (fun after =>
    if condition (after (gp instr.rs)) then
      after nextPCReg + indexToAddr instr.extra
    else after nextPCReg + 4#32) (run_link_branchOn condition) ?_
  intro left agree
  have next := agree.special nextPCReg (by simp)
  rw [linked_congr num next (agree.operands _ used), linked_congr num next next]

end

/-- Such an instruction depends on its operands, `Hi`, `Lo` and
`NextPC` only. -/
theorem writes_execute {registers : Registers} {target : Fin numGPRegs}
    (writes : instr.destination registers = some target) :
    Writes instr registers target (execute instr) := by
  obtain ⟨opCode, rs, rt, rd, extra⟩ := instr
  cases opCode
  case ADDU | AND | NOR | SLLV | SLT | SLTU | SRAV | SRLV | SUBU | XOR =>
    cases writes
    apply writes_arith
    intro left agree
    rw [agree.operands rs (by simp [Instruction.operands]),
      agree.operands rt (by simp [Instruction.operands])]
  case OR =>
    cases writes
    apply writes_arith
    intro left agree
    simp only [agree.operands rs (by simp [Instruction.operands])]
  case SLL | SRA | SRL =>
    cases writes
    apply writes_arith
    intro left agree
    simp only [agree.operands rt (by simp [Instruction.operands])]
  case ADDIU | ANDI | ORI | SLTI | SLTIU | XORI =>
    cases writes
    exact writes_immediate (by simp [Instruction.operands])
  case LUI =>
    cases writes
    exact writes_compute (fun _ => extra <<< 16) (fun _ _ => rfl) fun _ _ => rfl
  case MFHI =>
    cases writes
    exact writes_compute (fun registers => registers hiReg)
      (fun _ _ => rfl) fun _ agree => agree.special hiReg (by simp)
  case MFLO =>
    cases writes
    exact writes_compute (fun registers => registers loReg)
      (fun _ _ => rfl) fun _ agree => agree.special loReg (by simp)
  case BGEZAL | BLTZAL =>
    cases writes
    exact writes_link_branchOn _ (by simp [Instruction.operands])
  case JAL =>
    cases writes
    refine writes_link (fun after => ((after nextPCReg + 4#32) &&&
      0xf0000000#32) ||| indexToAddr extra) (fun _ => rfl) ?_
    intro left agree
    have next := agree.special nextPCReg (by simp)
    rw [linked_congr _ next next]
  case JALR =>
    cases writes
    refine writes_link (fun after => after (gp rs)) (fun _ => rfl) ?_
    intro left agree
    exact linked_congr rd (agree.special nextPCReg (by simp))
      (agree.operands rs (by simp [Instruction.operands]))
  case ADD =>
    obtain ⟨calm, written⟩ := (Option.ite_none_left_eq_some ..).mp writes
    cases written
    refine writes_checked (fun registers => registers (gp rs) +
      registers (gp rt)) (fun _ => rfl) ?_ calm
    intro left agree
    rw [agree.operands rs (by simp [Instruction.operands]),
      agree.operands rt (by simp [Instruction.operands])]
  case SUB =>
    obtain ⟨calm, written⟩ := (Option.ite_none_left_eq_some ..).mp writes
    cases written
    refine writes_checked (fun registers => registers (gp rs) -
      registers (gp rt)) (fun _ => rfl) ?_ calm
    intro left agree
    rw [agree.operands rs (by simp [Instruction.operands]),
      agree.operands rt (by simp [Instruction.operands])]
  case ADDI =>
    obtain ⟨calm, written⟩ := (Option.ite_none_left_eq_some ..).mp writes
    cases written
    refine writes_checked (fun registers => registers (gp rs) + extra) (fun _ => rfl) ?_ calm
    intro left agree
    rw [agree.operands rs (by simp [Instruction.operands])]
  all_goals cases writes

theorem destination_congr {left right : Registers} (agree : instr.AgreeOn left right) :
    instr.destination left = instr.destination right := by
  simp only [Instruction.destination, overflows_congr agree]

end Cpu

/-! ## Instructions which write no general register -/

/-- Calls which neither use nor change a load pending for the register. -/
def MachineCall.Avoids (target : Fin numGPRegs) : MachineCall → Prop
  | .readRegister num =>
    num ≠ gp target ∧ num ≠ loadReg ∧ num ≠ loadValueReg
  | .writeRegister num _ => num = hiReg ∨ num = loReg
  | .delayedLoad _ _ => False
  | _ => True

open MachineCall

theorem MachineCall.avoids_gp {target num : Fin numGPRegs}
    (other : num ≠ target) : Avoids target (.readRegister (gp num)) :=
  ⟨fun same => other (gp_injective same), gp_ne (by decide) num, gp_ne (by decide) num⟩

theorem MachineCall.avoids_special (target : Fin numGPRegs)
    {num : Register} (member : num ∈ [hiReg, loReg, nextPCReg]) :
    Avoids target (.readRegister num) := by
  simp only [List.mem_cons, List.not_mem_nil, or_false] at member
  rcases member with rfl | rfl | rfl
  all_goals exact ⟨(gp_ne (by decide) target).symm, by decide, by decide⟩

namespace Machine

theorem commutes_call {target : Fin numGPRegs} {call : MachineCall} (avoids : Avoids target call) :
    (Program.perform call : MachineProgram _).Commutes answer (Pending target) (commit target) := by
  intro machine pending
  rw [Program.run_perform, Program.run_perform]
  cases call with
  | readRegister num =>
    obtain ⟨other, notLoad, notValue⟩ := avoids
    refine ⟨?_, ?_⟩
    · simp only [answer, commit_registers other notLoad notValue]
      rfl
    · intro reply after success
      cases success
      exact pending
  | writeRegister num value =>
    have special : numGPRegs ≤ num.val ∧ num ≠ loadReg ∧ num ≠ loadValueReg ∧ num ≠ zeroReg := by
      rcases avoids with rfl | rfl <;> decide
    obtain ⟨above, notLoad, notValue, notZero⟩ := special
    refine ⟨?_, ?_⟩
    · simp only [answer, Except.map, Prod.map, id, commit_writeRegister
        (gp_ne above target).symm notLoad notValue]
    · intro reply after success
      cases success
      refine ⟨?_, ?_⟩
      · exact (update_of_ne notZero.symm ..).trans pending.zero
      · exact (congrArg BitVec.toNat (update_of_ne notLoad.symm ..)).trans pending.load
  | readMem addr size =>
    refine ⟨readMem_commit pending.load addr size, ?_⟩
    intro reply after success
    obtain ⟨physicalAddress, mmu, -, -, rfl⟩ := readMem_inv success
    exact ⟨pending.zero, pending.load⟩
  | writeMem addr size value =>
    refine ⟨writeMem_commit pending.load addr size value, ?_⟩
    intro reply after success
    obtain ⟨physicalAddress, mmu, bytes, -, -, rfl⟩ :=
      writeMem_inv success
    exact ⟨pending.zero, pending.load⟩
  | delayedLoad nextReg nextValue => exact avoids.elim
  | raise which badVAddr =>
    refine ⟨?_, by rintro _ _ ⟨⟩⟩
    simp only [answer, raiseException_commit pending.load]
    rfl
  | fail reason => exact ⟨rfl, by rintro _ _ ⟨⟩⟩

end Machine

namespace Cpu

open Machine

section

variable {target : Fin numGPRegs} {instr : Instruction}

/-- The program can be run before or after the load is finished. -/
abbrev Unaffected {α : Type} (target : Fin numGPRegs) (program : MachineProgram α) : Prop :=
  program.Commutes answer (Pending target) (commit target)

theorem unaffected_of_avoids {α : Type} {program : MachineProgram α}
    (only : program.OnlyCalls (Avoids target)) :
    Unaffected target program :=
  only.commutes fun _ => commutes_call

theorem avoids_readGp {num : Fin numGPRegs} (other : num ≠ target) :
    (readGp num).OnlyCalls (Avoids target) :=
  .perform (avoids_gp other)

theorem avoids_readMem (addr : Word) (size : Nat) : (readMem addr size).OnlyCalls (Avoids target) :=
  .perform trivial

theorem avoids_branchIf (condition : Bool) (extra : Word) :
    (branchIf condition extra).OnlyCalls (Avoids target) :=
  .call (avoids_special target (by simp)) fun _ => .pure _

theorem avoids_loadLater (rt : Fin numGPRegs) (value : Word) :
    (loadLater rt value).OnlyCalls (Avoids target) :=
  .call (avoids_special target (by simp)) fun _ => .pure _

theorem avoids_raise {α : Type} (which : ExceptionType) (addr : Word) :
    (raise which addr : MachineProgram α).OnlyCalls (Avoids target) :=
  ⟨trivial, fun reply => nomatch reply⟩

theorem avoids_assert (condition : Bool) : (assert condition).OnlyCalls (Avoids target) :=
  .ite (.pure ()) ⟨trivial, fun reply => nomatch reply⟩

theorem avoids_hiLo {first second : Register} (high low : Word)
    (isHalf : first = hiReg ∨ first = loReg)
    (isHalf' : second = hiReg ∨ second = loReg) :
    (writeRegister first high >>= fun _ => compute second low).OnlyCalls (Avoids target) :=
  .call isHalf fun _ => .call isHalf' fun _ =>
    avoids_branchIf _ _

theorem avoids_divide (rs rt : Word) : (divide rs rt).OnlyCalls (Avoids target) :=
  .ite (avoids_hiLo _ _ (.inr rfl) (.inl rfl)) (.ite ⟨trivial, fun reply => nomatch reply⟩
      (avoids_hiLo _ _ (.inr rfl) (.inl rfl)))

theorem avoids_divideUnsigned (rs rt : Word) : (divideUnsigned rs rt).OnlyCalls (Avoids target) :=
  .ite (avoids_hiLo _ _ (.inr rfl) (.inl rfl)) (avoids_hiLo _ _ (.inr rfl) (.inl rfl))

/-- With no load pending for it, the target of a partial load is read from
the registers; `R0`, for which a load is pending after an interrupt, is
zero. -/
theorem unaffected_partialTarget {rt : Fin numGPRegs}
    (other : rt ≠ target) : Unaffected target (partialTarget rt) := by
  intro machine pending
  have word : ∀ (value : Word) (num : Fin numGPRegs),
      value = BitVec.ofNat 32 num.val ↔ value.toNat = num.val := by
    intro value num
    rw [← BitVec.toNat_inj, toNat_ofNat_index (by decide) num]
  have direct : (partialTarget rt).run answer machine =
      .ok (machine.registers (gp rt), machine) := by
    have different : ¬machine.registers loadReg = BitVec.ofNat 32 rt.val := by
      rw [word, pending.load]
      exact fun same => other (Fin.ext same.symm)
    have step : (partialTarget rt).run answer machine =
        (if machine.registers loadReg = BitVec.ofNat 32 rt.val then
          readRegister loadValueReg else readGp rt).run answer machine := rfl
    rw [step, if_neg different]
    rfl
  have late : (partialTarget rt).run answer (machine.commit target) =
      .ok (machine.registers (gp rt), machine.commit target) := by
    have step : (partialTarget rt).run answer (machine.commit target) =
        (if 0#32 = BitVec.ofNat 32 rt.val then
          readRegister loadValueReg
        else readGp rt).run answer (machine.commit target) := rfl
    rw [step]
    split
    · rename_i zero
      have isZero : gp rt = zeroReg := Fin.ext ((word _ _).mp zero).symm
      rw [isZero, pending.zero]
      rfl
    · rw [← commit_gp other]
      rfl
  rw [direct, late]
  refine ⟨rfl, ?_⟩
  intro value after success
  cases success
  exact pending

variable {merge : Word → Word → Word → Word}

theorem unaffected_partialLoad (first : instr.rs ≠ target) (second : instr.rt ≠ target) :
    Unaffected target (partialLoad instr merge) :=
  (unaffected_of_avoids (avoids_readGp first)).bind fun _ =>
    (unaffected_of_avoids (avoids_assert _)).bind fun _ =>
      (unaffected_of_avoids (avoids_readMem _ _)).bind fun _ =>
        (unaffected_partialTarget second).bind fun _ =>
          unaffected_of_avoids (avoids_loadLater _ _)

theorem avoids_partialStore (first : instr.rs ≠ target) (second : instr.rt ≠ target) :
    (partialStore instr merge).OnlyCalls (Avoids target) :=
  .bind (avoids_readGp first) fun _ => .bind (avoids_assert _) fun _ =>
    .call trivial fun _ => .bind (avoids_readGp second) fun _ =>
      .call trivial fun _ => avoids_branchIf _ _

theorem ne_of_unused {first second : Fin numGPRegs} (unused : target ∉ [first, second]) :
    first ≠ target ∧ second ≠ target := by
  simpa [eq_comm] using unused

theorem unaffected_operands {rs rt : Fin numGPRegs} (unused : target ∉ [rs, rt])
    {next : Word → Word → MachineProgram Executed}
    (rest : ∀ left right, (next left right).OnlyCalls (Avoids target)) :
    Unaffected target (do
      let left ← readGp rs
      let right ← readGp rt
      next left right) := by
  obtain ⟨first, second⟩ := ne_of_unused unused
  exact unaffected_of_avoids (.bind (avoids_readGp first) fun left =>
    .bind (avoids_readGp second) fun right => rest left right)

theorem unaffected_operand {rs : Fin numGPRegs} (unused : target ∉ [rs])
    {next : Word → MachineProgram Executed}
    (rest : ∀ value, (next value).OnlyCalls (Avoids target)) :
    Unaffected target (readGp rs >>= next) :=
  unaffected_of_avoids (.bind (avoids_readGp fun same => unused (by simp [same])) rest)

theorem unaffected_execute {registers : Registers} (unused : target ∉ instr.operands)
    (nowhere : instr.destination registers = none)
    (calm : instr.overflows registers = false) :
    Unaffected target (execute instr) := by
  obtain ⟨opCode, rs, rt, rd, extra⟩ := instr
  cases opCode
  case ADD | SUB | ADDI => simp [Instruction.destination, calm] at nowhere
  case BEQ | BNE =>
    exact unaffected_operands unused fun _ _ => avoids_branchIf _ _
  case DIV => exact unaffected_operands unused fun _ _ => avoids_divide _ _
  case DIVU =>
    exact unaffected_operands unused fun _ _ => avoids_divideUnsigned _ _
  case MULT | MULTU =>
    exact unaffected_operands unused fun _ _ =>
      avoids_hiLo _ _ (.inl rfl) (.inr rfl)
  case SB | SH | SW =>
    exact unaffected_operands unused fun _ _ =>
      .call trivial fun _ => avoids_branchIf _ _
  case SWL | SWR =>
    obtain ⟨first, second⟩ := ne_of_unused unused
    exact unaffected_of_avoids (avoids_partialStore first second)
  case LWL | LWR =>
    obtain ⟨first, second⟩ := ne_of_unused unused
    exact unaffected_partialLoad first second
  case BGEZ | BGTZ | BLEZ | BLTZ =>
    exact unaffected_operand unused fun _ => avoids_branchIf _ _
  case JR => exact unaffected_operand unused fun _ => .pure _
  case MTHI =>
    exact unaffected_operand unused fun _ =>
      .call (.inl rfl) fun _ => avoids_branchIf _ _
  case MTLO =>
    exact unaffected_operand unused fun _ =>
      .call (.inr rfl) fun _ => avoids_branchIf _ _
  case LB | LBU =>
    exact unaffected_operand unused fun _ =>
      .bind (avoids_readMem _ _) fun _ => avoids_loadLater _ _
  case LH | LHU | LW =>
    exact unaffected_operand unused fun _ => .ite (avoids_raise _ _)
      (.bind (avoids_readMem _ _) fun _ => avoids_loadLater _ _)
  case J =>
    exact unaffected_of_avoids (.call (avoids_special target (by simp)) fun _ => .pure _)
  case SYSCALL | RES | UNIMP => exact unaffected_of_avoids (avoids_raise _ _)
  case RFE =>
    exact unaffected_of_avoids ⟨trivial, fun reply => nomatch reply⟩
  all_goals cases nowhere

theorem run_execute_of_overflows {machine : Machine}
    (overflow : instr.overflows machine.registers = true) :
    (execute instr).run answer machine =
      .error (machine.raiseException .overflowException 0#32) := by
  obtain ⟨opCode, rs, rt, rd, extra⟩ := instr
  cases opCode
  case ADD | SUB | ADDI =>
    exact (run_checked _ _ _ machine).trans (if_pos overflow)
  all_goals cases overflow

theorem agreeOn_commit (unused : target ∉ instr.operands) (machine : Machine) :
    instr.AgreeOn (machine.commit target).registers machine.registers := by
  refine ⟨?_, ?_⟩
  · intro num member
    exact commit_gp fun same => unused (same ▸ member)
  · intro num member
    simp only [List.mem_cons, List.not_mem_nil, or_false] at member
    rcases member with rfl | rfl | rfl
    all_goals exact commit_special (by decide) (by decide) (by decide)

/-- An instruction which neither uses nor writes the register does the same
before and after the load is finished. -/
theorem run_execute_commit {machine : Machine}
    (pending : Pending target machine) (unused : target ∉ instr.operands)
    (elsewhere : instr.destination machine.registers ≠ some target) :
    (execute instr).run answer (machine.commit target) =
      ((execute instr).run answer machine).map (Prod.map id (commit target)) := by
  have agree := agreeOn_commit unused machine
  cases written : instr.destination machine.registers with
  | some num =>
    have other : gp num ≠ gp target := by
      intro same
      exact elsewhere (written.trans (congrArg some (gp_injective same)))
    obtain ⟨value, pcAfter, runs⟩ := writes_execute written
    rw [runs _ agree, runs machine ⟨fun _ _ => rfl, fun _ _ => rfl⟩,
      ← commit_writeRegister other (gp_ne (by decide) num) (gp_ne (by decide) num)]
    rfl
  | none =>
    cases overflow : instr.overflows machine.registers with
    | false =>
      exact (unaffected_execute unused written overflow machine pending).1
    | true =>
      rw [run_execute_of_overflows overflow, run_execute_of_overflows
        ((overflows_congr agree).trans overflow),
        raiseException_commit pending.load]
      rfl

end

end Cpu

/-! ## Reachable states -/

/-- `AddrSpace::InitRegisters`. -/
def AddrSpace.initRegisters (numPages : Nat) : Registers := fun num =>
  if num = nextPCReg then 4#32
  else if num = stackReg then BitVec.ofNat 32 (numPages * pageSize) - 16#32
  else 0#32

namespace Machine

/-- What happens to the registers of a program: an instruction completes, an
interrupt comes between two instructions, or the kernel serves an exception,
in which it writes results and program counters.  Memory and page tables are
left open where other programs and the kernel can run. -/
inductive UserStep (before : Machine) : Machine → Prop where
  | instruction {after : Machine}
      (completed : before.oneInstruction = .ok after) : UserStep before after
  | interrupt {committed : Machine} (memory : Nat → Byte) (mmu : Mmu)
      (due : before.delayedLoad 0#32 0#32 = .ok committed) :
      UserStep before { committed with mainMemory := memory, mmu := mmu }
  | exception {which : ExceptionType} {entered after : Machine}
      (raised : before.oneInstruction = .error (.raised which entered))
      (kept : ∀ num ∈ [zeroReg, loadReg, loadValueReg],
        after.registers num = entered.registers num) :
      UserStep before after

/-- The states of a program from `InitRegisters` on. -/
inductive Reachable : Machine → Prop where
  | init (numPages : Nat) (memory : Nat → Byte) (mmu : Mmu) :
      Reachable ⟨AddrSpace.initRegisters numPages, memory, mmu⟩
  | step {before after : Machine} (reached : Reachable before)
      (taken : UserStep before after) : Reachable after

private theorem none_small : (0#32).toNat < numGPRegs := by decide

variable {after before : Machine}

section

variable (wellFormed : WellFormed before)
include wellFormed

theorem WellFormed.oneInstruction (completed : before.oneInstruction = .ok after) :
    WellFormed after := by
  obtain ⟨physicalAddress, mmu, executed, middle, -, ran, rest⟩ :=
    oneInstruction_inv completed
  have kept : SamePending { before with mmu := mmu } middle :=
    execute_pending ran
  have load : (middle.registers loadReg).toNat = (gp wellFormed.target).val := by
    rw [show middle.registers loadReg = before.registers loadReg from kept]
    rfl
  rw [run_finish load] at rest
  cases rest
  exact ⟨rfl, (Cpu.returns_execute _).run ran⟩

theorem WellFormed.delayedLoad (due : before.delayedLoad 0#32 0#32 = .ok after) :
    WellFormed after := by
  have load : (before.registers loadReg).toNat = (gp wellFormed.target).val := rfl
  rw [delayedLoad_eq load] at due
  cases due
  exact ⟨rfl, none_small⟩

theorem WellFormed.raiseException {which : ExceptionType} {badVAddr : Word}
    (raised : before.raiseException which badVAddr = .raised which after) :
    WellFormed after := by
  rw [raiseException_inv wellFormed raised]
  exact ⟨rfl, none_small⟩

theorem WellFormed.raised {which : ExceptionType}
    (raised : before.oneInstruction = .error (.raised which after)) :
    WellFormed after := by
  obtain ⟨middle, badVAddr, ⟨registers, -⟩, shape⟩ := raised_inv raised
  have middleFormed : WellFormed middle := by
    refine ⟨?_, ?_⟩
    · rw [registers]
      exact wellFormed.zero
    · rw [registers]
      exact wellFormed.pending
  exact middleFormed.raiseException shape

end

theorem UserStep.wellFormed (taken : UserStep before after) (wellFormed : WellFormed before) :
    WellFormed after := by
  cases taken with
  | instruction completed => exact wellFormed.oneInstruction completed
  | interrupt memory mmu due =>
    have committed := wellFormed.delayedLoad due
    exact ⟨committed.zero, committed.pending⟩
  | exception raised kept =>
    have entered := wellFormed.raised raised
    refine ⟨?_, ?_⟩
    · rw [kept zeroReg (by simp)]
      exact entered.zero
    · rw [kept loadReg (by simp)]
      exact entered.pending

variable {machine : Machine}

theorem Reachable.wellFormed (reachable : Reachable machine) :
    WellFormed machine := by
  induction reachable with
  | init numPages memory mmu => exact ⟨rfl, none_small⟩
  | step reached taken induction => exact taken.wellFormed induction

/-! ## When an interrupt is invisible -/

/-- The instruction at `PC`. -/
def Fetches (machine : Machine) (instr : Instruction) : Prop :=
  ∃ physicalAddress mmu,
    machine.mmu.translate (machine.registers pcReg) 4 false =
      .ok (physicalAddress, mmu) ∧
    instr = Instruction.decode (wordAt machine.mainMemory physicalAddress)

/-- One instruction after an interrupt. -/
def interruptedInstruction (machine : Machine) : Except Stop Machine :=
  match machine.delayedLoad 0#32 0#32 with
  | .ok committed => committed.oneInstruction
  | .error reason => .error (.fault reason)

section

variable {target : Fin numGPRegs} {machine : Machine}

theorem run_oneInstruction_commit (pending : Pending target machine)
    (unused : ∀ instr, machine.Fetches instr → target ∉ instr.operands)
    (elsewhere : ∀ instr, machine.Fetches instr →
      instr.destination machine.registers ≠ some target) :
    Cpu.oneInstruction.run answer (machine.commit target) =
      Cpu.oneInstruction.run answer machine := by
  rw [run_oneInstruction, run_oneInstruction,
    commit_special (by decide) (by decide) (by decide),
    readMem_commit pending.load]
  cases read : machine.readMem (machine.registers pcReg) 4 with
  | error stop => rfl
  | ok result =>
    obtain ⟨raw, fetched⟩ := result
    obtain ⟨physicalAddress, mmu, translated, rfl, rfl⟩ := fetch_inv read
    have fetches : machine.Fetches _ :=
      ⟨physicalAddress, mmu, translated, rfl⟩
    have later : Pending target { machine with mmu := mmu } :=
      ⟨pending.zero, pending.load⟩
    have execution := Cpu.run_execute_commit later (unused _ fetches) (elsewhere _ fetches)
    simp only [Except.map, Prod.map, id, Program.run_bind] at execution ⊢
    rw [execution]
    cases ran : (Cpu.execute (Instruction.decode (wordAt
        machine.mainMemory physicalAddress))).run answer
        { machine with mmu := mmu } with
    | error stop => rfl
    | ok result =>
      obtain ⟨executed, middle⟩ := result
      have kept : SamePending { machine with mmu := mmu } middle :=
        execute_pending ran
      have load : (middle.registers loadReg).toNat = target.val := by
        rw [show middle.registers loadReg = machine.registers loadReg from kept]
        exact pending.load
      exact run_finish_commit load executed

theorem oneInstruction_eq {middle : Machine} {physicalAddress : Nat}
    {mmu : Mmu} {executed : Executed} {load : Register}
    (translated : machine.mmu.translate (machine.registers pcReg) 4 false =
      .ok (physicalAddress, mmu))
    (ran : (Cpu.execute (Instruction.decode (wordAt machine.mainMemory physicalAddress))).run answer
      { machine with mmu := mmu } = .ok (executed, middle))
    (pending : (middle.registers loadReg).toNat = load.val) :
    machine.oneInstruction = .ok { middle with
      registers := advanced (loaded middle.registers load
        executed.nextLoadReg executed.nextLoadValue) executed.pcAfter } := by
  unfold oneInstruction
  rw [run_oneInstruction, fetch_eq translated]
  simp only [Program.run_bind, ran, run_finish pending]

theorem advanced_gp (registers : Registers) (pcAfter : Word) (num : Fin numGPRegs) :
    advanced registers pcAfter (gp num) = registers (gp num) := by
  have next : gp num ≠ nextPCReg := gp_ne (by decide) num
  have pc : gp num ≠ pcReg := gp_ne (by decide) num
  have previous : gp num ≠ prevPCReg := gp_ne (by decide) num
  simp only [advanced, update_of_ne next, update_of_ne pc, update_of_ne previous]

end

/-- The value of the pending load. -/
def withLoad (machine : Machine) (value : Word) : Machine :=
  machine.writeRegister loadValueReg value

theorem agreeOn_withLoad (instr : Instruction) (machine : Machine) (value : Word) :
    instr.AgreeOn (machine.withLoad value).registers machine.registers := by
  refine ⟨?_, ?_⟩
  · intro num member
    exact update_of_ne (gp_ne (by decide) num) ..
  · intro num member
    simp only [List.mem_cons, List.not_mem_nil, or_false] at member
    rcases member with rfl | rfl | rfl <;> rfl

variable {target : Fin numGPRegs}

theorem Pending.withLoad (pending : Pending target machine) (value : Word) :
    Pending target (machine.withLoad value) :=
  ⟨pending.zero, pending.load⟩

/-- Without an interrupt the load overwrites the result. -/
theorem overwritten_of_direct {physicalAddress : Nat} {mmu : Mmu}
    {value loading pcAfter : Word} (nonzero : target.val ≠ 0)
    (pending : (machine.registers loadReg).toNat = target.val)
    (translated : machine.mmu.translate (machine.registers pcReg) 4 false =
      .ok (physicalAddress, mmu))
    (ran : (Cpu.execute (Instruction.decode (wordAt machine.mainMemory physicalAddress))).run answer
      { machine.withLoad loading with mmu := mmu } =
        .ok (Executed.advance pcAfter, ({ machine.withLoad loading with
          mmu := mmu } : Machine).writeRegister (gp target) value)) :
    ∃ after, (machine.withLoad loading).oneInstruction = .ok after ∧
      after.registers (gp target) = loading := by
  have load : ((({ machine.withLoad loading with mmu := mmu } :
      Machine).writeRegister (gp target) value).registers loadReg).toNat = (gp target).val := by
    rw [writeRegister_gp_load]
    exact pending
  refine ⟨_, oneInstruction_eq translated ran load, ?_⟩
  have other : loadValueReg ≠ gp target := (gp_ne (by decide) target).symm
  simp only [advanced_gp, loaded_gp, if_neg nonzero, writeRegister, update_of_ne other, if_true]
  rfl

/-- After an interrupt the result stays. -/
theorem kept_of_interrupted {physicalAddress : Nat} {mmu : Mmu}
    {value pcAfter : Word} (nonzero : target.val ≠ 0)
    (pending : Pending target machine)
    (translated : machine.mmu.translate (machine.registers pcReg) 4 false =
      .ok (physicalAddress, mmu))
    (ran : (Cpu.execute (Instruction.decode (wordAt machine.mainMemory physicalAddress))).run answer
      { machine.commit target with mmu := mmu } =
        .ok (Executed.advance pcAfter, ({ machine.commit target with
          mmu := mmu } : Machine).writeRegister (gp target) value)) :
    ∃ after, machine.interruptedInstruction = .ok after ∧ after.registers (gp target) = value := by
  have same : (machine.commit target).registers pcReg =
      machine.registers pcReg :=
    commit_special (by decide) (by decide) (by decide)
  have load : ((({ machine.commit target with mmu := mmu } :
      Machine).writeRegister (gp target) value).registers loadReg).toNat =
        (gp ⟨0, by decide⟩).val := by
    rw [writeRegister_gp_load]
    rfl
  have completed : (machine.commit target).oneInstruction = .ok _ :=
    oneInstruction_eq (by rw [same]; exact translated) ran load
  unfold interruptedInstruction
  rw [delayedLoad_eq_commit pending nonzero]
  refine ⟨_, completed, ?_⟩
  have different : target ≠ ⟨0, by decide⟩ := fun isZero =>
    nonzero (congrArg Fin.val isZero)
  simp only [advanced_gp, loaded_gp, if_neg nonzero, if_neg different, writeRegister, update_self]

/-- Let a load be pending for a register which the next instruction does not
use.  Whatever the loaded value is, an interrupt before the instruction
makes no difference, if and only if the instruction does not write the
register. -/
theorem interrupt_invisible_iff (machine : Machine)
    (target : Fin numGPRegs) (reachable : Reachable machine)
    (pending : (machine.registers loadReg).toNat = target.val)
    (nonzero : target.val ≠ 0)
    (unused : ∀ instr, machine.Fetches instr → target ∉ instr.operands) :
    (∀ value, (machine.withLoad value).interruptedInstruction =
      (machine.withLoad value).oneInstruction) ↔
    ∀ instr, machine.Fetches instr → instr.destination machine.registers ≠ some target := by
  have waiting : Pending target machine :=
    ⟨reachable.wellFormed.zero, pending⟩
  constructor
  · rintro invisible instr ⟨physicalAddress, mmu, translated, rfl⟩ written
    obtain ⟨value, pcAfter, runs⟩ := Cpu.writes_execute written
    have unusedHere := unused _ ⟨physicalAddress, mmu, translated, rfl⟩
    have agree := agreeOn_withLoad (Instruction.decode
      (wordAt machine.mainMemory physicalAddress)) machine (value + 1#32)
    have direct := overwritten_of_direct nonzero pending translated
      (runs { machine.withLoad (value + 1#32) with mmu := mmu } agree)
    have late := kept_of_interrupted nonzero (waiting.withLoad (value + 1#32)) translated
      (runs { (machine.withLoad (value + 1#32)).commit target with
        mmu := mmu } ((Cpu.agreeOn_commit unusedHere _).trans agree))
    obtain ⟨after, completed, loads⟩ := direct
    obtain ⟨after', completed', keeps⟩ := late
    have same := invisible (value + 1#32)
    rw [completed, completed'] at same
    cases same
    rw [loads] at keeps
    bv_omega
  · intro elsewhere value
    have later := waiting.withLoad value
    unfold interruptedInstruction
    rw [delayedLoad_eq_commit later nonzero]
    unfold oneInstruction
    simp only
    rw [run_oneInstruction_commit later unused ?_]
    intro instr fetches
    rw [Cpu.destination_congr (agreeOn_withLoad instr machine value)]
    exact elsewhere instr fetches

/-- `lw r3, 0(r0)` and then the given instruction. -/
def afterLoad (code : Word) : Machine where
  registers := AddrSpace.initRegisters 1
  mainMemory := fun address =>
    if address < 4 then byteOf 0x8c030000#32 address
    else byteOf code (address - 4)
  mmu := ⟨some [⟨0#32, 0#32, true, false, false, false⟩], none⟩

/-- `addiu r3, r0, 1` in the delay slot of a load into `r3`. -/
theorem interrupt_changes_result :
    ∃ machine direct late : Machine, Reachable machine ∧
      machine.registers loadReg = 3#32 ∧
      machine.Fetches (Instruction.decode 0x24030001#32) ∧
      ⟨3, by decide⟩ ∉ (Instruction.decode 0x24030001#32).operands ∧
      machine.oneInstruction = .ok direct ∧
      machine.interruptedInstruction = .ok late ∧
      direct.registers (gp ⟨3, by decide⟩) = 0x8c030000#32 ∧
      late.registers (gp ⟨3, by decide⟩) = 1#32 := by
  refine ⟨_, _, _, .step (.init 1 _ _) (.instruction
    (show (afterLoad 0x24030001#32).oneInstruction = .ok _ from rfl)),
    rfl, ⟨4, _, rfl, rfl⟩, by decide, rfl, rfl, rfl, rfl⟩

/-- `addiu r4, r0, 1` in the delay slot. -/
theorem interrupt_invisible_iff_other :
    ∃ machine, (afterLoad 0x24040001#32).oneInstruction = .ok machine ∧
      machine.registers loadReg = 3#32 ∧
      machine.registers loadValueReg = 0x8c030000#32 ∧
      machine.Fetches (Instruction.decode 0x24040001#32) ∧
      ∀ value, (machine.withLoad value).interruptedInstruction =
        (machine.withLoad value).oneInstruction := by
  have loaded : ∃ machine, (afterLoad 0x24040001#32).oneInstruction = .ok machine ∧
      machine.registers loadReg = 3#32 ∧ machine.registers loadValueReg = 0x8c030000#32 ∧
      machine.Fetches (Instruction.decode 0x24040001#32) :=
    ⟨_, rfl, rfl, rfl, 4, _, rfl, rfl⟩
  obtain ⟨machine, executed, pending, value, fetched⟩ := loaded
  have only : ∀ instr, machine.Fetches instr → instr = Instruction.decode 0x24040001#32 := by
    obtain ⟨physicalAddress, mmu, translated, code⟩ := fetched
    rintro _ ⟨physicalAddress', mmu', translated', rfl⟩
    cases Except.ok.inj (translated.symm.trans translated')
    exact code.symm
  refine ⟨machine, executed, pending, value, fetched,
    (interrupt_invisible_iff machine ⟨3, by decide⟩ (.step (.init 1 _ _) (.instruction executed))
      (by rw [pending]; rfl) (by decide) ?_).mpr ?_⟩
  · intro instr fetches
    rw [only instr fetches]
    decide
  · intro instr fetches
    rw [only instr fetches]
    exact fun same => absurd (Option.some.inj same) (by decide)

end Machine

end Nachos
