import Nachos.Machine.Traps

/-!
# Faults of the host

The host fails in an instruction only if a partial load or store, which
`ASSERT`s that its address is aligned, has another address, or if the
quotient of a signed division does not fit.  All other instructions complete
or raise an exception, whatever the registers, the tables and memory hold.
-/

open Words Memory Calls

namespace Nachos

open Register

/-! ## Translation -/

namespace Mmu

/-- There is either a page table or a TLB. -/
def Configured (mmu : Mmu) : Prop :=
  mmu.pageTable.isSome = !mmu.tlb.isSome

theorem translateEntry_cases (entry : TranslationEntry)
    {offset size : Nat} (writing : Bool) (fits : offset + size ≤ pageSize) :
    (∃ which, translateEntry entry offset size writing =
      .error (.exception which)) ∨
    ∃ result, translateEntry entry offset size writing = .ok result := by
  unfold translateEntry
  split
  · exact .inl ⟨_, rfl⟩
  · simp only
    split
    · exact .inl ⟨_, rfl⟩
    · rename_i inside
      have bound : entry.physicalPage.toNat * pageSize + offset + size ≤
          memorySize := by
        rw [show pageSize = 512 from rfl] at fits ⊢
        rw [show memorySize = 65536 from rfl]
        rw [show numPhysPages = 128 from rfl] at inside
        omega
      rw [if_pos bound]
      exact .inr ⟨_, rfl⟩

theorem offset_fits {virtAddr : Word} {size : Nat} (aligned : misaligned virtAddr size = false)
    (proper : size = 1 ∨ size = 2 ∨ size = 4) :
    virtAddr.toNat % pageSize + size ≤ pageSize := by
  obtain ⟨word, half⟩ := mod_of_aligned aligned
  rw [show pageSize = 512 from rfl]
  rcases proper with rfl | rfl | rfl
  · omega
  · have even := half rfl
    omega
  · have quarter := word rfl
    omega

theorem translate_cases {mmu : Mmu} (configured : mmu.Configured)
    (virtAddr : Word) {size : Nat} (writing : Bool)
    (proper : size = 1 ∨ size = 2 ∨ size = 4) :
    (∃ which, mmu.translate virtAddr size writing =
      .error (.exception which)) ∨
    ∃ physAddr changed, mmu.translate virtAddr size writing =
      .ok (physAddr, changed) ∧ changed.Configured := by
  obtain ⟨pageTable, tlb⟩ := mmu
  unfold translate
  split
  · exact .inl ⟨_, rfl⟩
  · rename_i aligned
    have fits := offset_fits (by simpa using aligned) proper
    cases pageTable with
    | some table =>
      cases tlb with
      | some tlb => cases configured
      | none =>
        simp only
        split
        · exact .inl ⟨_, rfl⟩
        · rename_i entry found
          split
          · exact .inl ⟨_, rfl⟩
          · rcases translateEntry_cases entry writing fits with
              ⟨which, refused⟩ | ⟨⟨physAddr, changed⟩, translated⟩
            · rw [refused]
              exact .inl ⟨which, rfl⟩
            · rw [translated]
              exact .inr ⟨physAddr, _, rfl, rfl⟩
    | none =>
      cases tlb with
      | none => cases configured
      | some tlb =>
        simp only
        split
        · exact .inl ⟨_, rfl⟩
        · rename_i index found
          rcases translateEntry_cases (tlb index) writing fits with
            ⟨which, refused⟩ | ⟨⟨physAddr, changed⟩, translated⟩
          · rw [refused]
            exact .inl ⟨which, rfl⟩
          · rw [translated]
            exact .inr ⟨physAddr, _, rfl, rfl⟩

end Mmu

/-- Calls which leave the pending load as it is, and make the host fail only
if the instruction is `guarded` by a check. -/
def MachineCall.Tame (guarded : Prop) : MachineCall → Prop
  | .readRegister _ => True
  | .writeRegister num _ => num ≠ loadReg
  | .readMem _ size => size = 1 ∨ size = 2 ∨ size = 4
  | .writeMem _ size _ => size = 1 ∨ size = 2 ∨ size = 4
  | .raise _ _ => True
  | .delayedLoad _ _ => False
  | .fail _ => guarded

theorem MachineCall.Local.tame {call : MachineCall} (isLocal : call.Local) (guarded : Prop) :
    call.Tame guarded := by
  cases call with
  | readRegister num => trivial
  | writeRegister num value =>
    rintro rfl
    have below : loadReg.val < pcReg.val := isLocal
    exact absurd below (by decide)
  | _ => exact isLocal.elim

theorem MachineCall.Tame.weaken {guarded : Prop} {call : MachineCall} (tame : call.Tame guarded) :
    call.Tame True := by
  cases call with
  | fail reason => trivial
  | _ => exact tame

open MachineCall

namespace Cpu

/-! ## The calls of an instruction -/

variable {guarded : Prop}

theorem tame_of_local {α : Type} {program : MachineProgram α}
    (only : program.OnlyCalls Local) : program.OnlyCalls (Tame guarded) :=
  only.mono fun _ isLocal => isLocal.tame guarded

theorem tame_raise {α : Type} (which : ExceptionType) (addr : Word) :
    (raise which addr : MachineProgram α).OnlyCalls (Tame guarded) :=
  ⟨trivial, fun reply => nomatch reply⟩

theorem tame_checked (overflow : Bool) (target : Fin numGPRegs)
    (value : Word) : (checked overflow target value).OnlyCalls (Tame guarded) :=
  .ite (tame_raise _ _) (tame_of_local (local_computeGp _ _))

section

variable (instr : Instruction)
include instr

theorem tame_store {size : Nat} (proper : size = 1 ∨ size = 2 ∨ size = 4) :
    (store instr size).OnlyCalls (Tame guarded) :=
  .call trivial fun _ => .call trivial fun _ =>
    .call proper fun _ => tame_of_local (local_branchIf _ _)

theorem tame_loadByte (signed : Bool) : (loadByte instr signed).OnlyCalls (Tame guarded) :=
  .call trivial fun _ => .call (.inl rfl) fun _ =>
    tame_of_local (local_loadLater _ _)

theorem tame_loadHalf (signed : Bool) : (loadHalf instr signed).OnlyCalls (Tame guarded) :=
  .call trivial fun _ => .ite (tame_raise _ _)
    (.call (.inr (.inl rfl)) fun _ =>
      tame_of_local (local_loadLater _ _))

theorem tame_loadWord : (loadWord instr).OnlyCalls (Tame guarded) :=
  .call trivial fun _ => .ite (tame_raise _ _)
    (.call (.inr (.inr rfl)) fun _ =>
      tame_of_local (local_loadLater _ _))

theorem tame_partialLoad_rest (tmp : Word) (merge : Word → Word → Word) : (do
      let value ← readMem tmp 4
      let old ← partialTarget instr.rt
      loadLater instr.rt (merge old value)).OnlyCalls (Tame guarded) :=
  .call (.inr (.inr rfl)) fun _ =>
    .bind (tame_of_local (local_partialTarget _)) fun _ =>
      tame_of_local (local_loadLater _ _)

theorem tame_partialStore_rest (tmp : Word) (merge : Word → Word → Word) : (do
      let old ← readMem tmp 4
      let rt ← readGp instr.rt
      writeMem tmp 4 (merge old rt)
      branchIf false 0#32).OnlyCalls (Tame guarded) :=
  .call (.inr (.inr rfl)) fun _ => .call trivial
    fun _ => .call (.inr (.inr rfl)) fun _ =>
      tame_of_local (local_branchIf _ _)

end

/-- The operations which can make the host fail. -/
def guardedOpCodes : List OpCode := [.LWL, .LWR, .SWL, .SWR, .DIV, .RFE]

theorem tame_assert (checks : guarded) (condition : Bool) :
    (assert condition).OnlyCalls (Tame guarded) :=
  .ite (.pure ()) ⟨checks, fun reply => nomatch reply⟩

theorem tame_divide (checks : guarded) (rs rt : Word) : (divide rs rt).OnlyCalls (Tame guarded) :=
  .ite (tame_of_local (local_hiLo _ _ (by decide) (by decide)))
    (.ite ⟨checks, fun reply => nomatch reply⟩
      (tame_of_local (local_hiLo _ _ (by decide) (by decide))))

theorem tame_execute (instr : Instruction) :
    (execute instr).OnlyCalls (Tame (instr.opCode ∈ guardedOpCodes)) := by
  by_cases trapping : instr.opCode ∈ trappingOpCodes
  · unfold execute
    cases code : instr.opCode <;> simp only
    case ADD | SUB =>
      exact .call trivial fun _ => .call trivial fun _ => tame_checked _ _ _
    case ADDI => exact .call trivial fun _ => tame_checked _ _ _
    case LB | LBU => exact tame_loadByte _ _
    case LH | LHU => exact tame_loadHalf _ _
    case LW => exact tame_loadWord _
    case SB => exact tame_store _ (.inl rfl)
    case SH => exact tame_store _ (.inr (.inl rfl))
    case SW => exact tame_store _ (.inr (.inr rfl))
    case SYSCALL | RES | UNIMP => exact tame_raise _ _
    case LWL | LWR =>
      exact .call trivial fun _ => .bind (tame_assert (by decide) _) fun _ =>
        tame_partialLoad_rest _ _ _
    case SWL | SWR =>
      exact .call trivial fun _ => .bind (tame_assert (by decide) _) fun _ =>
        tame_partialStore_rest _ _ _
    case DIV =>
      exact .call trivial fun _ => .call trivial fun _ => tame_divide (by decide) _ _
    case RFE =>
      exact ⟨show OpCode.RFE ∈ guardedOpCodes by decide, fun reply => nomatch reply⟩
    all_goals
      rw [code] at trapping
      exact absurd trapping (by decide)
  · exact tame_of_local (local_execute trapping)

end Cpu

/-! ## Decoding -/

theorem Instruction.decode_ne_rfe (value : Word) : (decode value).opCode ≠ .RFE := by
  have operations : ∀ index, (opTable.getD index (.op .RES, .IFMT)).1 ≠ .op .RFE := by
    intro index
    rw [List.getD_eq_getElem?_getD]
    cases found : opTable[index]? with
    | none => decide
    | some entry =>
      have all : ∀ entry ∈ opTable, entry.1 ≠ .op .RFE := by decide
      exact all entry (List.mem_of_getElem? found)
  have specials : ∀ index, specialTable.getD index .RES ≠ .RFE := by
    intro index
    rw [List.getD_eq_getElem?_getD]
    cases found : specialTable[index]? with
    | none => decide
    | some opCode =>
      have all : ∀ opCode ∈ specialTable, opCode ≠ .RFE := by decide
      exact all opCode (List.mem_of_getElem? found)
  have entry := operations (value.extractLsb' 26 6).toNat
  unfold decode
  generalize opTable.getD (value.extractLsb' 26 6).toNat (.op .RES, .IFMT) = found at entry
  obtain ⟨info, format⟩ := found
  simp only
  split
  · intro same
    exact entry (congrArg OpInfo.op same)
  · exact specials _
  · unfold branchCondition
    simp only
    split_ifs <;> decide

namespace Machine

/-! ## When the host fails -/

/-- Nothing in the state itself makes the host fail. -/
structure Ready (machine : Machine) : Prop where
  configured : machine.mmu.Configured
  pending : (machine.registers loadReg).toNat < numTotalRegs

/-- A program which does not make the host fail, and after which nothing
makes it fail, either. -/
def Safe {α : Type} (program : MachineProgram α) (machine : Machine) :
    Prop :=
  (∀ value after, program.run answer machine = .ok (value, after) →
    Ready after) ∧
  ∀ reason, program.run answer machine ≠ .error (.fault reason)

variable {machine : Machine}

theorem raiseException_eq (pending : (machine.registers loadReg).toNat < numTotalRegs)
    (which : ExceptionType) (badVAddr : Word) :
    ∃ after, machine.raiseException which badVAddr =
      .raised which after := by
  have kept : ((machine.writeRegister badVAddrReg badVAddr).registers
      loadReg).toNat =
      (⟨(machine.registers loadReg).toNat, pending⟩ : Register).val := rfl
  unfold raiseException
  rw [delayedLoad_eq kept]
  exact ⟨_, rfl⟩

theorem load_proper (memory : Nat → Byte) (address : Nat) {size : Nat}
    (proper : size = 1 ∨ size = 2 ∨ size = 4) :
    ∃ value, load memory address size = some value := by
  rcases proper with rfl | rfl | rfl <;> exact ⟨_, rfl⟩

theorem storedBytes_proper (value : Word) {size : Nat} (proper : size = 1 ∨ size = 2 ∨ size = 4) :
    ∃ bytes, storedBytes value size = some bytes := by
  rcases proper with rfl | rfl | rfl <;> exact ⟨_, rfl⟩

theorem Ready.translate (ready : Ready machine) (addr : Word) {size : Nat}
    (writing : Bool) (proper : size = 1 ∨ size = 2 ∨ size = 4) :
    (∃ which after, machine.translate addr size writing =
      .error (.raised which after)) ∨
    ∃ physicalAddress after, machine.translate addr size writing =
      .ok (physicalAddress, after) ∧ Ready after := by
  unfold Machine.translate
  rcases Mmu.translate_cases ready.configured addr writing proper with
    ⟨which, refused⟩ | ⟨physicalAddress, mmu, translated, configured⟩
  · obtain ⟨after, raised⟩ := raiseException_eq ready.pending which addr
    rw [refused]
    exact .inl ⟨which, after, congrArg Except.error raised⟩
  · rw [translated]
    exact .inr ⟨physicalAddress, _, rfl, configured, ready.pending⟩

theorem safe_perform {call : MachineCall} (tame : call.Tame False) (ready : Ready machine) :
    (∀ reply after, answer call machine = .ok (reply, after) →
      Ready after) ∧
    ∀ reason, answer call machine ≠ .error (.fault reason) := by
  cases call with
  | readRegister num =>
    refine ⟨?_, by rintro _ ⟨⟩⟩
    intro reply after success
    cases success
    exact ready
  | writeRegister num value =>
    refine ⟨?_, by rintro _ ⟨⟩⟩
    intro reply after success
    cases success
    refine ⟨ready.configured, ?_⟩
    simp only [writeRegister, Function.update_of_ne (Ne.symm tame)]
    exact ready.pending
  | readMem addr size =>
    simp only [answer, readMem]
    rcases ready.translate addr false tame with
      ⟨which, stopped, raised⟩ | ⟨physicalAddress, after, done, later⟩
    · rw [raised]
      exact ⟨by rintro _ _ ⟨⟩, by rintro _ ⟨⟩⟩
    · obtain ⟨value, loaded⟩ :=
        load_proper after.mainMemory physicalAddress tame
      rw [done, ok_bind]
      simp only [loaded]
      refine ⟨?_, by rintro _ ⟨⟩⟩
      intro reply final success
      cases success
      exact later
  | writeMem addr size value =>
    simp only [answer, writeMem]
    rcases ready.translate addr true tame with
      ⟨which, stopped, raised⟩ | ⟨physicalAddress, after, done, later⟩
    · rw [raised]
      exact ⟨by rintro _ _ ⟨⟩, by rintro _ ⟨⟩⟩
    · obtain ⟨bytes, stored⟩ := storedBytes_proper value tame
      rw [done, ok_bind]
      simp only [stored]
      refine ⟨?_, by rintro _ ⟨⟩⟩
      intro reply final success
      cases success
      exact ⟨later.configured, later.pending⟩
  | raise which badVAddr =>
    obtain ⟨after, raised⟩ :=
      raiseException_eq ready.pending which badVAddr
    simp only [answer, raised]
    exact ⟨by rintro _ _ ⟨⟩, by rintro _ ⟨⟩⟩
  | _ => exact tame.elim

theorem safe_of_tame {α : Type} {program : MachineProgram α}
    (only : program.OnlyCalls (Tame False)) (ready : Ready machine) :
    Safe program machine := by
  obtain ⟨kept, safe⟩ := only.run_safe Ready (fun stop => ∃ reason, stop = .fault reason)
    (fun _ _ reply after tame ready ran =>
      (safe_perform tame ready).1 reply after ran)
    (by
      rintro call machine stop tame ready ran ⟨reason, rfl⟩
      exact (safe_perform tame ready).2 reason ran)
    ready
  exact ⟨kept, fun reason failed => safe _ failed ⟨reason, rfl⟩⟩

theorem run_readGp_bind {α : Type} (num : Fin numGPRegs)
    (next : Word → MachineProgram α) (machine : Machine) :
    (Cpu.readGp num >>= next).run answer machine =
      (next (machine.registers (gp num))).run answer machine := rfl

theorem run_assert_bind {α : Type} (condition : Bool)
    (next : Unit → MachineProgram α) (machine : Machine) :
    (Cpu.assert condition >>= next).run answer machine =
      if condition then (next ()).run answer machine
      else .error (.fault .assertion) := by
  unfold Cpu.assert
  split <;> rfl

/-- The operands with which an instruction makes the host fail. -/
def Stumbles (instr : Instruction) (registers : Registers) : Prop :=
  instr.opCode ∈ [OpCode.LWL, .LWR, .SWL, .SWR] ∧
      (registers (gp instr.rs) + instr.extra) &&& 3#32 ≠ 0#32 ∨
    instr.opCode = .DIV ∧ registers (gp instr.rs) = signBit ∧ registers (gp instr.rt) = -1#32

instance (instr : Instruction) (registers : Registers) : Decidable (Stumbles instr registers) :=
  inferInstanceAs (Decidable (_ ∨ _))

section

variable {machine : Machine} {instr : Instruction}

theorem run_partialLoad (merge : Word → Word → Word → Word) :
    (Cpu.partialLoad instr merge).run answer machine =
      let tmp := machine.registers (gp instr.rs) + instr.extra
      if tmp &&& 3#32 = 0#32 then
        (do
          let value ← Cpu.readMem tmp 4
          let old ← Cpu.partialTarget instr.rt
          Cpu.loadLater instr.rt (merge (tmp &&& 3#32) old value)).run answer machine
      else .error (.fault .assertion) := by
  unfold Cpu.partialLoad
  rw [run_readGp_bind]
  simp only [run_assert_bind, decide_eq_true_eq]

theorem run_partialStore (merge : Word → Word → Word → Word) :
    (Cpu.partialStore instr merge).run answer machine =
      let tmp := machine.registers (gp instr.rs) + instr.extra
      if tmp &&& 3#32 = 0#32 then
        (do
          let old ← Cpu.readMem (tmp &&& ~~~3#32) 4
          let rt ← Cpu.readGp instr.rt
          Cpu.writeMem (tmp &&& ~~~3#32) 4 (merge (tmp &&& 3#32) old rt)
          Cpu.branchIf false 0#32).run answer machine
      else .error (.fault .assertion) := by
  unfold Cpu.partialStore
  rw [run_readGp_bind]
  simp only [run_assert_bind, decide_eq_true_eq]

section

variable (ready : Ready machine) (merge : Word → Word → Word → Word)
  (aligned : (machine.registers (gp instr.rs) + instr.extra) &&& 3#32 = 0#32)
include ready merge aligned

theorem safe_partialLoad : Safe (Cpu.partialLoad instr merge) machine := by
  unfold Safe
  simp only [run_partialLoad, if_pos aligned]
  exact safe_of_tame (Cpu.tame_partialLoad_rest _ _ _) ready

theorem safe_partialStore : Safe (Cpu.partialStore instr merge) machine := by
  unfold Safe
  simp only [run_partialStore, if_pos aligned]
  exact safe_of_tame (Cpu.tame_partialStore_rest _ _ _) ready

end

theorem safe_divide (ready : Ready machine) {rs rt : Word} (fits : ¬(rs = signBit ∧ rt = -1#32)) :
    Safe (Cpu.divide rs rt) machine := by
  apply safe_of_tame _ ready
  unfold Cpu.divide
  rw [if_neg fits]
  exact .ite (Cpu.tame_of_local (Cpu.local_hiLo _ _ (by decide) (by decide)))
    (Cpu.tame_of_local (Cpu.local_hiLo _ _ (by decide) (by decide)))

theorem safe_execute (ready : Ready machine) (notRfe : instr.opCode ≠ .RFE)
    (fine : ¬Stumbles instr machine.registers) :
    Safe (Cpu.execute instr) machine := by
  have aligned : instr.opCode ∈ [OpCode.LWL, .LWR, .SWL, .SWR] →
      (machine.registers (gp instr.rs) + instr.extra) &&& 3#32 = 0#32 := by
    intro isPartial
    by_contra odd
    exact fine (.inl ⟨isPartial, odd⟩)
  by_cases guarded : instr.opCode ∈ Cpu.guardedOpCodes
  · simp only [Cpu.guardedOpCodes, List.mem_cons, List.not_mem_nil, or_false] at guarded
    unfold Cpu.execute
    rcases guarded with code | code | code | code | code | code
    · rw [code] at aligned ⊢
      exact safe_partialLoad ready _ (aligned (by decide))
    · rw [code] at aligned ⊢
      exact safe_partialLoad ready _ (aligned (by decide))
    · rw [code] at aligned ⊢
      exact safe_partialStore ready _ (aligned (by decide))
    · rw [code] at aligned ⊢
      exact safe_partialStore ready _ (aligned (by decide))
    · rw [code]
      have fits : ¬(machine.registers (gp instr.rs) = signBit ∧
          machine.registers (gp instr.rt) = -1#32) := fun overflow =>
        fine (.inr ⟨code, overflow⟩)
      exact safe_divide ready fits
    · exact absurd code notRfe
  · exact safe_of_tame (eq_false guarded ▸ Cpu.tame_execute instr) ready

theorem execute_of_stumbles (stumbles : Stumbles instr machine.registers) :
    ∃ reason, (Cpu.execute instr).run answer machine = .error (.fault reason) := by
  rcases stumbles with ⟨isPartial, odd⟩ | ⟨code, overflow⟩
  · refine ⟨.assertion, ?_⟩
    simp only [List.mem_cons, List.not_mem_nil, or_false] at isPartial
    unfold Cpu.execute
    rcases isPartial with code | code | code | code <;> rw [code]
    · exact (run_partialLoad _).trans (if_neg odd)
    · exact (run_partialLoad _).trans (if_neg odd)
    · exact (run_partialStore _).trans (if_neg odd)
    · exact (run_partialStore _).trans (if_neg odd)
  · refine ⟨.division, ?_⟩
    have nonzero : machine.registers (gp instr.rt) ≠ 0#32 := by
      rw [overflow.2]
      decide
    have same : (Cpu.execute instr).run answer machine =
        (Cpu.divide (machine.registers (gp instr.rs))
          (machine.registers (gp instr.rt))).run answer machine := by
      unfold Cpu.execute
      rw [code]
      rfl
    rw [same, Cpu.divide, if_neg nonzero, if_pos overflow]
    rfl

end

theorem oneInstruction_fault_iff {reason : Fault} :
    machine.oneInstruction = .error (.fault reason) ↔
      Cpu.oneInstruction.run answer machine = .error (.fault reason) := by
  refine ⟨oneInstruction_eq_error, ?_⟩
  intro failed
  unfold oneInstruction
  rw [failed]

variable {after : Machine}

theorem fetch_inv {raw : Word}
    (fetched : machine.readMem (machine.registers pcReg) 4 = .ok (raw, after)) :
    ∃ physicalAddress mmu,
      machine.mmu.translate (machine.registers pcReg) 4 false =
        .ok (physicalAddress, mmu) ∧
      raw = wordAt machine.mainMemory physicalAddress ∧
      after = { machine with mmu := mmu } := by
  obtain ⟨physicalAddress, mmu, translated, value, rfl⟩ :=
    readMem_inv fetched
  exact ⟨physicalAddress, mmu, translated, (Option.some.inj value).symm, rfl⟩

theorem fetch_eq {physicalAddress : Nat} {mmu : Mmu}
    (translated : machine.mmu.translate (machine.registers pcReg) 4 false =
      .ok (physicalAddress, mmu)) :
    machine.readMem (machine.registers pcReg) 4 =
      .ok (wordAt machine.mainMemory physicalAddress, { machine with mmu := mmu }) := by
  unfold readMem Machine.translate
  rw [translated]
  rfl

def SamePending (before after : Machine) : Prop :=
  after.registers loadReg = before.registers loadReg

theorem answer_tame {guarded : Prop} {call : MachineCall} {reply : call.Reply}
    (tame : call.Tame guarded)
    (success : answer call machine = .ok (reply, after)) :
    SamePending machine after := by
  cases call with
  | readRegister num =>
    cases success
    rfl
  | writeRegister num value =>
    cases success
    exact Function.update_of_ne (Ne.symm tame) ..
  | readMem addr size =>
    obtain ⟨physicalAddress, mmu, -, -, rfl⟩ := readMem_inv success
    rfl
  | writeMem addr size value =>
    obtain ⟨physicalAddress, mmu, bytes, -, -, rfl⟩ :=
      writeMem_inv success
    rfl
  | delayedLoad nextReg nextValue => exact tame.elim
  | raise which badVAddr | fail reason => cases success

theorem execute_pending {instr : Instruction} {middle : Machine} {executed : Executed}
    (ran : (Cpu.execute instr).run answer machine = .ok (executed, middle)) :
    SamePending machine middle := by
  refine Program.OnlyCalls.run_preserves ?_ ?_ ?_ (Cpu.tame_execute _) ran
  · exact fun _ => rfl
  · exact fun _ _ _ first second => Eq.trans second first
  · exact fun _ _ _ _ => answer_tame

theorem oneInstruction_inv (success : machine.oneInstruction = .ok after) :
    ∃ physicalAddress mmu executed middle,
      machine.mmu.translate (machine.registers pcReg) 4 false =
        .ok (physicalAddress, mmu) ∧
      (Cpu.execute (Instruction.decode (wordAt machine.mainMemory physicalAddress))).run answer
        { machine with mmu := mmu } = .ok (executed, middle) ∧
      (Cpu.finish executed).run answer middle = .ok ((), after) := by
  unfold oneInstruction at success
  split at success
  · rename_i done ran
    cases success
    rw [run_oneInstruction] at ran
    split at ran
    · rename_i raw fetched read
      obtain ⟨physicalAddress, mmu, translated, rfl, rfl⟩ := fetch_inv read
      obtain ⟨executed, middle, ran, rest⟩ := Program.run_bind_inv ran
      exact ⟨physicalAddress, mmu, executed, middle, translated, ran, rest⟩
    · cases ran
  · cases success

theorem pending_of_ok (success : machine.oneInstruction = .ok after) :
    (machine.registers loadReg).toNat < numTotalRegs := by
  obtain ⟨physicalAddress, mmu, executed, middle, -, ran, rest⟩ :=
    oneInstruction_inv success
  have kept : SamePending { machine with mmu := mmu } middle :=
    execute_pending ran
  obtain ⟨_, final, loadedRun, -⟩ := Program.run_bind_inv rest
  by_contra outside
  have failed : middle.delayedLoad executed.nextLoadReg
      executed.nextLoadValue = .error .bounds := by
    unfold delayedLoad writeIndexed
    rw [show middle.registers loadReg = machine.registers loadReg from kept, dif_neg outside]
    rfl
  rw [run_delayedLoad, failed] at loadedRun
  cases loadedRun

theorem pending_of_raised {which : ExceptionType}
    (raised : machine.oneInstruction = .error (.raised which after)) :
    (machine.registers loadReg).toNat < numTotalRegs := by
  obtain ⟨middle, badVAddr, ⟨registers, -⟩, shape⟩ := raised_inv raised
  by_contra outside
  have failed : (middle.writeRegister badVAddrReg badVAddr).delayedLoad
      0#32 0#32 = .error .bounds := by
    have kept : (middle.writeRegister badVAddrReg badVAddr).registers
        loadReg = machine.registers loadReg := by
      rw [← registers]
      rfl
    unfold delayedLoad writeIndexed
    rw [kept, dif_neg outside]
    rfl
  unfold raiseException at shape
  rw [failed] at shape
  cases shape

/-- An instruction completes or raises an exception if and only if the
pending load is for a register and the instruction at `PC`, if it can be
fetched, is neither a partial load or store of a misaligned word nor a
division of the least integer by `-1`. -/
theorem host_survives_iff (machine : Machine) (configured : machine.mmu.Configured) :
    (∀ reason, machine.oneInstruction ≠ .error (.fault reason)) ↔
      (machine.registers loadReg).toNat < numTotalRegs ∧
      ∀ physicalAddress mmu,
        machine.mmu.translate (machine.registers pcReg) 4 false =
          .ok (physicalAddress, mmu) →
        ¬Stumbles (Instruction.decode (wordAt machine.mainMemory physicalAddress))
          machine.registers := by
  constructor
  · intro survives
    refine ⟨?_, ?_⟩
    · cases result : machine.oneInstruction with
      | ok after => exact pending_of_ok result
      | error stop =>
        cases stop with
        | raised which after => exact pending_of_raised result
        | fault reason => exact absurd result (survives reason)
    · intro physicalAddress mmu translated stumbles
      obtain ⟨reason, failed⟩ :=
        @execute_of_stumbles { machine with mmu := mmu } _ stumbles
      apply survives reason
      rw [oneInstruction_fault_iff, run_oneInstruction, fetch_eq translated]
      simp only [Program.run_bind, failed]
  · rintro ⟨pending, fine⟩ reason failed
    rw [oneInstruction_fault_iff] at failed
    have ready : Ready machine := ⟨configured, pending⟩
    rw [run_oneInstruction] at failed
    have fetch : Safe (Cpu.readMem (machine.registers pcReg) 4) machine := by
      apply safe_of_tame _ ready
      exact .perform (.inr (.inr rfl))
    cases read : machine.readMem (machine.registers pcReg) 4 with
    | error stop =>
      rw [read] at failed
      cases failed
      exact fetch.2 reason ((run_readMem _ _ _).trans read)
    | ok result =>
      obtain ⟨raw, fetched⟩ := result
      have later := fetch.1 raw fetched ((run_readMem _ _ _).trans read)
      rw [read] at failed
      obtain ⟨physicalAddress, mmu, translated, rfl, rfl⟩ := fetch_inv read
      have safe := safe_execute later (Instruction.decode_ne_rfe _)
        (fine physicalAddress mmu translated)
      simp only [Program.run_bind] at failed
      split at failed
      · rename_i executed middle ran
        have ready := safe.1 executed middle ran
        have target : (middle.registers loadReg).toNat =
            (⟨(middle.registers loadReg).toNat, ready.pending⟩ : Register).val := rfl
        rw [run_finish target] at failed
        cases failed
      · rename_i stop ran
        cases failed
        exact safe.2 reason ran

theorem two_lt_numGPRegs : 2 < numGPRegs := by decide

/-- `div r1, r2` with the least integer and `-1`. -/
def leastByMinusOne : Machine :=
  oneWord 0x0022001a#32 fun num =>
    if num = gp ⟨1, by decide⟩ then signBit
    else if num = gp ⟨2, two_lt_numGPRegs⟩ then -1#32 else 0#32

/-- A division and, with all registers zero, `lwl r3, 1(r1)`. -/
theorem division_and_partial_load_fail :
    leastByMinusOne.oneInstruction = .error (.fault .division) ∧
    (oneWord 0x88230001#32 fun _ => 0#32).oneInstruction = .error (.fault .assertion) := by
  exact ⟨rfl, rfl⟩

/-- `lw r3, 0(r1)`. -/
theorem host_survives_iff_load :
    (oneWord 0x8c230000#32 fun _ => 0#32).mmu.Configured ∧
      ∀ reason, (oneWord 0x8c230000#32 fun _ => 0#32).oneInstruction ≠ .error (.fault reason) := by
  have configured : (oneWord 0x8c230000#32 fun _ => 0#32).mmu.Configured :=
    rfl
  refine ⟨configured, (host_survives_iff _ configured).mpr ⟨by decide, ?_⟩⟩
  intro physicalAddress mmu translated
  have found : physicalAddress = 0 :=
    (congrArg Prod.fst (Except.ok.inj translated)).symm
  subst found
  decide

end Machine

end Nachos
