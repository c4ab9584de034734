import Nachos.Bin.NoffLayout

/-!
# The uninitialised sections

The test for sections which are not contiguous is the wrong way round: it
refuses a section which starts where the collected segment ends, and adds the
size of any other one to the segment.
-/

open Words Transition

namespace Nachos

namespace Coff2Noff

def bssOf (coff : List Byte) : List Scnhdr :=
  ofKind .uninitialised (sectionsOf coff)

/-- The segment before the loop. -/
def uncollected (fresh : NoffHeader) : Segment :=
  { fresh.uninitData with size := 0#32 }

/-- The section starts at the end of the segment. -/
def Adjacent (collected : Segment) (scnhdr : Scnhdr) : Prop :=
  scnhdr.sPaddr = collected.virtualAddr + collected.size

/-- The program lets the section pass. -/
def Passes (collected : Segment) (scnhdr : Scnhdr) : Prop :=
  ¬(collected.size ≠ 0#32 ∧ Adjacent collected scnhdr)

/-- Each section has a property together with the segment which is collected
from the sections before it. -/
def Gathers (property : Segment → Scnhdr → Prop) : Segment → List Scnhdr → Prop
  | _, [] => True
  | collected, scnhdr :: rest => property collected scnhdr ∧
      Gathers property (gather collected scnhdr) rest

/-- Each section after the first one starts at the end of the segment. -/
def Contiguous (collected : Segment) : List Scnhdr → Prop
  | [] => True
  | first :: rest => Gathers Adjacent (gather collected first) rest

/-- What the program should do with the uninitialised sections. -/
structure Collects (coff : List Byte) (fresh : NoffHeader) : Prop where
  accepts : (∃ output, coff2noff coff fresh = .ok output) ↔
    Contiguous (uncollected fresh) (bssOf coff)
  covers : ∀ output stack, coff2noff coff fresh = .ok output →
    let segment := (Executable.mk output stack).header.uninitData
    range segment.virtualAddr segment.size = ⋃ scnhdr ∈ bssOf coff, range scnhdr.sPaddr scnhdr.sSize

theorem gathers_append (property : Segment → Scnhdr → Prop)
    (collected : Segment) (past rest : List Scnhdr) :
    Gathers property collected (past ++ rest) ↔
      Gathers property collected past ∧ Gathers property (past.foldl gather collected) rest := by
  induction past generalizing collected with
  | nil => simp [Gathers]
  | cons scnhdr past induction =>
    simp [Gathers, induction, and_assoc]

variable {coff output : List Byte} {fresh : NoffHeader} {fdIn : HostFile}
  {past : List Scnhdr} {scnhdr : Scnhdr} {state after : Conversion}

theorem copyIn_noffH {segment : Segment} (copied : copyIn state scnhdr = .ok (segment, after)) :
    after.noffH = state.noffH := by
  obtain ⟨-, -, -, -, -, -, -, same⟩ := copyIn_inv copied
  exact same

theorem collected_of_run (run : Run (Turn loadSection) (start fresh fdIn) past state) :
    state.noffH.uninitData =
        (ofKind .uninitialised past).foldl gather (uncollected fresh) ∧
      Gathers Passes (uncollected fresh) (ofKind .uninitialised past) := by
  refine run.history (fun past state => state.noffH.uninitData =
      (ofKind .uninitialised past).foldl gather (uncollected fresh) ∧
    Gathers Passes (uncollected fresh) (ofKind .uninitialised past))
    ⟨rfl, trivial⟩ ?_
  rintro past before scnhdr after ⟨segment, accepted⟩ turn
  cases loads_of_turn turn with
  | empty kind =>
    rw [ofKind_snoc_of_ne past (by simp [kind])]
    exact ⟨segment, accepted⟩
  | text kind copied | initialised kind _ copied =>
    rw [ofKind_snoc_of_ne past (by simp [kind])]
    exact ⟨(congrArg _ (copyIn_noffH copied)).trans segment, accepted⟩
  | uninitialised kind apart =>
    rw [ofKind_snoc past kind, gathers_append, List.foldl_append, ← segment]
    exact ⟨rfl, accepted, apart, trivial⟩

theorem read_error {fd : HostFile} {nBytes : Word} {stop : Refusal}
    (failed : read fd nBytes = .error stop) : stop = .tooShort := by
  unfold read at failed
  dsimp only at failed
  split at failed <;> cases failed
  rfl

theorem write_error {fd : HostFile} {buf : List Byte} {nBytes : Word}
    {stop : Refusal} (failed : write fd buf nBytes = .error stop) :
    stop = .notWritten := by
  unfold write at failed
  dsimp only at failed
  split at failed <;> cases failed
  rfl

theorem copyIn_error {stop : Refusal}
    (failed : copyIn state scnhdr = .error stop) : stop ≠ .bothBss := by
  rcases error_of_bind failed with readIn | ⟨_, -, failed⟩
  · simp [read_error readIn]
  · rcases error_of_bind failed with written | ⟨_, -, failed⟩
    · simp [write_error written]
    · cases failed

theorem readHeaders_error {stop : Refusal}
    (failed : readHeaders fdIn = .error stop) : stop ≠ .bothBss := by
  rcases error_of_bind failed with first | ⟨_, -, failed⟩
  · simp [read_error first]
  · dsimp only at failed
    split at failed
    · cases failed
      decide
    · rcases error_of_bind failed with second | ⟨_, -, failed⟩
      · simp [read_error second]
      · split at failed
        · cases failed
          decide
        · rcases error_of_bind failed with third | ⟨_, -, failed⟩
          · simp [read_error third]
          · cases failed

/-- Only an uninitialised section which does not pass stops a turn with
this message. -/
theorem refused_of_turn (failed : loadSection state scnhdr = .error .bothBss) :
    scnhdr.kind = .uninitialised ∧ ¬Passes state.noffH.uninitData scnhdr := by
  unfold loadSection at failed
  cases kind : scnhdr.kind <;> simp only [kind] at failed
  case empty | unknown => cases failed
  case text =>
    rcases error_of_bind failed with copied | ⟨_, -, failed⟩
    · exact absurd rfl (copyIn_error copied)
    · cases failed
  case initialised =>
    split at failed
    · cases failed
    · rcases error_of_bind failed with copied | ⟨_, -, failed⟩
      · exact absurd rfl (copyIn_error copied)
      · cases failed
  case uninitialised =>
    split at failed
    · rename_i refused
      exact ⟨rfl, not_not_intro refused⟩
    · cases failed

theorem refused_of_error (failed : coff2noff coff fresh = .error .bothBss) :
    ¬Gathers Passes (uncollected fresh) (bssOf coff) := by
  rcases error_of_bind failed with headers | ⟨⟨sections, fdIn⟩, headers, failed⟩
  · exact absurd rfl (readHeaders_error headers)
  · rcases error_of_bind failed with loop | ⟨state, -, failed⟩
    · obtain ⟨past, scnhdr, rest, middle, rfl, run, stopped⟩ :=
        run_of_foldlM_error loop
      obtain ⟨kind, refused⟩ := refused_of_turn stopped
      rw [(collected_of_run run).1] at refused
      intro gathers
      have split : bssOf coff = ofKind .uninitialised past ++
          scnhdr :: ofKind .uninitialised rest := by
        simp [bssOf, sectionsOf, headers, ofKind, kind]
      rw [split, gathers_append] at gathers
      exact refused gathers.2.1
    · rcases error_of_bind failed with written | ⟨_, -, failed⟩
      · cases write_error written
      · cases failed

theorem accepted_iff (only : ∀ stop, coff2noff coff fresh = .error stop → stop = .bothBss) :
    (∃ output, coff2noff coff fresh = .ok output) ↔
      Gathers Passes (uncollected fresh) (bssOf coff) := by
  constructor
  · rintro ⟨output, accepted⟩
    obtain ⟨fdIn, state, -, run, -⟩ := coff2noff_inv accepted
    exact (collected_of_run run).2
  · intro gathers
    cases outcome : coff2noff coff fresh with
    | ok output => exact ⟨output, rfl⟩
    | error stop =>
      cases only stop outcome
      exact absurd gathers (refused_of_error outcome)

theorem passes_of_few (collected : Segment) {bss : List Scnhdr}
    (zero : collected.size = 0#32) (few : bss.length ≤ 1) :
    Gathers Passes collected bss ∧ Contiguous collected bss := by
  rcases bss with _ | ⟨first, _ | ⟨second, rest⟩⟩
  · exact ⟨trivial, trivial⟩
  · exact ⟨⟨fun refused => refused.1 zero, trivial⟩, trivial⟩
  · simp at few

theorem covers_of_few (few : (bssOf coff).length ≤ 1)
    (accepted : coff2noff coff fresh = .ok output) (stack : Nat → Byte) :
    let segment := (Executable.mk output stack).header.uninitData
    range segment.virtualAddr segment.size =
      ⋃ scnhdr ∈ bssOf coff, range scnhdr.sPaddr scnhdr.sSize := by
  obtain ⟨fdIn, state, -, run, rfl⟩ := coff2noff_inv accepted
  dsimp only
  rw [header_overwrite, (collected_of_run run).1, ← bssOf]
  generalize bssOf coff = bss at few ⊢
  rcases bss with _ | ⟨first, _ | ⟨second, rest⟩⟩
  · simp [uncollected, range]
  · simp [gather, uncollected]
  · simp at few

/-- Of two sections the second one passes only if it is not adjacent. -/
theorem not_contiguous_of_passes (collected : Segment) {first second : Scnhdr} {rest : List Scnhdr}
    (nonempty : first.sSize ≠ 0#32) (zero : collected.size = 0#32)
    (passes : Gathers Passes collected (first :: second :: rest)) :
    ¬Contiguous collected (first :: second :: rest) := by
  intro contiguous
  refine passes.2.1 ⟨?_, contiguous.1⟩
  simpa [gather, zero] using nonempty

/-- The program does what it should with the uninitialised sections, in an
input which it does not refuse for anything else, exactly when there is one
of them at most, or when one starts at the end of the collected segment and
another one does not. -/
theorem collects_iff (only : ∀ stop, coff2noff coff fresh = .error stop → stop = .bothBss) :
    Collects coff fresh ↔ (bssOf coff).length ≤ 1 ∨
      ¬Gathers Passes (uncollected fresh) (bssOf coff) ∧
      ¬Contiguous (uncollected fresh) (bssOf coff) := by
  have accepted := accepted_iff only
  constructor
  · intro collects
    have agree := accepted.symm.trans collects.accepts
    have nonempty : ∀ scnhdr ∈ bssOf coff, scnhdr.sSize ≠ 0#32 :=
      fun scnhdr member => size_ne_zero member (by simp)
    generalize bssOf coff = bss at agree nonempty ⊢
    rcases bss with _ | ⟨first, _ | ⟨second, rest⟩⟩
    · exact .inl (Nat.zero_le 1)
    · exact .inl (le_refl 1)
    · have refused := fun passes => not_contiguous_of_passes _
        (nonempty first (by simp)) rfl passes (agree.mp passes)
      exact .inr ⟨refused, mt agree.mpr refused⟩
  · rintro (few | ⟨refused, apart⟩)
    · obtain ⟨passes, contiguous⟩ :=
        passes_of_few (uncollected fresh) rfl few
      exact ⟨iff_of_true (accepted.mpr passes) contiguous,
        fun output stack success => covers_of_few few success stack⟩
    · exact ⟨iff_of_false (mt accepted.mp refused) apart, fun output stack success =>
          absurd (accepted.mp ⟨output, success⟩) refused⟩

/-- The section header of `.bss`, of four bytes. -/
def bssAt (sPaddr : Word) : Scnhdr :=
  ⟨[0x2e, 0x62, 0x73, 0x73, 0, 0, 0, 0], sPaddr, 4#32, 0#32⟩

/-- The section header of `.sbss`, of four bytes. -/
def sbssAt (sPaddr : Word) : Scnhdr :=
  ⟨[0x2e, 0x73, 0x62, 0x73, 0x73, 0, 0, 0], sPaddr, 4#32, 0#32⟩

/-- One section is collected.  Of three sections the third one starts at the
end of the collected segment, and is refused as it should be. -/
theorem collects_iff_third_refused :
    (∃ output, coff2noff (coffFile [bssAt 0x100#32] []) blank = .ok output ∧
      Collects (coffFile [bssAt 0x100#32] []) blank) ∧
    coff2noff (coffFile [bssAt 0x100#32, sbssAt 0x200#32, bssAt 0x108#32] []) blank =
        .error .bothBss ∧
      Collects (coffFile [bssAt 0x100#32, sbssAt 0x200#32, bssAt 0x108#32] []) blank := by
  have accepted : ∃ output, coff2noff (coffFile [bssAt 0x100#32] []) blank = .ok output := ⟨_, rfl⟩
  obtain ⟨output, accepted⟩ := accepted
  have refused : coff2noff (coffFile [bssAt 0x100#32, sbssAt 0x200#32, bssAt 0x108#32] []) blank =
      .error .bothBss := by decide +kernel
  have bss : bssOf (coffFile [bssAt 0x100#32, sbssAt 0x200#32, bssAt 0x108#32] []) =
      [bssAt 0x100#32, sbssAt 0x200#32, bssAt 0x108#32] := by decide +kernel
  refine ⟨⟨output, accepted, (collects_iff ?_).mpr (.inl (by decide +kernel))⟩, refused,
    (collects_iff ?_).mpr (.inr ⟨?_, ?_⟩)⟩
  · intro stop failed
    rw [accepted] at failed
    cases failed
  · intro stop failed
    rw [refused] at failed
    exact (Except.error.inj failed).symm
  · rw [bss]
    exact fun passes => passes.2.2.1 ⟨by decide, by rfl⟩
  · rw [bss]
    rintro ⟨adjacent, -⟩
    exact absurd (show 0x200#32 = 0x104#32 from adjacent) (by decide)

/-- Two sections which are contiguous are refused, and two with a gap
between them are taken for one of eight bytes. -/
theorem contiguous_bss_refused :
    coff2noff (coffFile [bssAt 0x100#32, sbssAt 0x104#32] []) blank =
        .error .bothBss ∧
      Contiguous (uncollected blank)
        (bssOf (coffFile [bssAt 0x100#32, sbssAt 0x104#32] [])) ∧
      ¬Collects (coffFile [bssAt 0x100#32, sbssAt 0x104#32] []) blank ∧
      ∃ output, coff2noff (coffFile [bssAt 0x100#32, sbssAt 0x200#32] [])
          blank = .ok output ∧
        (Executable.mk output fun _ => 0#8).header.uninitData = ⟨0x100#32, 0#32, 8#32⟩ := by
  have refused : coff2noff (coffFile [bssAt 0x100#32, sbssAt 0x104#32] [])
      blank = .error .bothBss := by rfl
  have bss : bssOf (coffFile [bssAt 0x100#32, sbssAt 0x104#32] []) =
      [bssAt 0x100#32, sbssAt 0x104#32] := by rfl
  have contiguous : Contiguous (uncollected blank)
      (bssOf (coffFile [bssAt 0x100#32, sbssAt 0x104#32] [])) := by
    rw [bss]
    exact ⟨by rfl, trivial⟩
  refine ⟨refused, contiguous, ?_, _, rfl, by rfl⟩
  intro collects
  obtain ⟨output, accepted⟩ := collects.accepts.mpr contiguous
  rw [refused] at accepted
  cases accepted

end Coff2Noff

end Nachos
