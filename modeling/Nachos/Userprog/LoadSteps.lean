import Nachos.Userprog.AddrSpace

/-!
# Steps of the constructor

What an event does to the threads which construct address spaces, one case
for each program point and outcome.
-/

open Words Memory Semaphores Transition

namespace Nachos

def frameWord (frame : Fin numPhysPages) : Word :=
  BitVec.ofNat 32 frame.val

theorem frameWord_toNat (frame : Fin numPhysPages) : (frameWord frame).toNat = frame.val :=
  toNat_ofNat_index (by decide) frame

theorem frameWord_injective : Function.Injective frameWord :=
  ofNat_index_injective (by decide)

namespace Loading

variable {ι : Type} [DecidableEq ι]

/-- The state after a round of the loop which takes a frame. -/
def taken (state : Loading ι) (thread : ι) (file : Executable)
    (pageTable : List TranslationEntry) (frame : Fin numPhysPages) :
    Loading ι :=
  { state with
    gPhysPageBitMap := state.gPhysPageBitMap.mark frame
    mainMemory := splice state.mainMemory (frame.val * pageSize) (List.replicate pageSize 0#8)
    points := Function.update state.points thread (.allocating file
        (pageTable ++ [AddrSpace.entry pageTable.length frame.val])) }

inductive Moves (state : Loading ι) : LoadEvent ι → Loading ι → Prop where
  | unopened {thread : ι} :
      state.points thread = .absent →
      Moves state (.start thread none) (state.setPoint thread (.ready none))
  | begin {thread : ι} {file : Executable} :
      state.points thread = .absent →
      file.header.noffMagic = Executable.noffMagic →
      Moves state (.start thread (some file)) (state.setPoint thread (.acquiring file))
  | enter {thread : ι} {file : Executable} {lock : Semaphore ι} :
      thread ∉ state.addrLock.queue →
      state.points thread = .acquiring file →
      state.addrLock.take = some lock →
      Moves state (.run thread) { state.setPoint thread (.checking file) with addrLock := lock }
  | sleep {thread : ι} {file : Executable} :
      thread ∉ state.addrLock.queue →
      state.points thread = .acquiring file →
      state.addrLock.take = none →
      Moves state (.run thread) { state with addrLock := state.addrLock.sleep thread }
  | refuse {thread : ι} {file : Executable} :
      thread ∉ state.addrLock.queue →
      state.points thread = .checking file →
      state.gPhysPageBitMap.numClear < AddrSpace.numPages file.header →
      Moves state (.run thread) (state.setPoint thread .refusing)
  | grant {thread : ι} {file : Executable} :
      thread ∉ state.addrLock.queue →
      state.points thread = .checking file →
      AddrSpace.numPages file.header ≤ state.gPhysPageBitMap.numClear →
      Moves state (.run thread) (state.setPoint thread (.allocating file []))
  | refused {thread : ι} :
      thread ∉ state.addrLock.queue →
      state.points thread = .refusing →
      Moves state (.run thread) (state.release thread (.ready none))
  | take {thread : ι} {file : Executable}
      {pageTable : List TranslationEntry} {frame : Fin numPhysPages} :
      thread ∉ state.addrLock.queue →
      state.points thread = .allocating file pageTable →
      pageTable.length < AddrSpace.numPages file.header →
      state.gPhysPageBitMap.test frame = false →
      (∀ other, other < frame → state.gPhysPageBitMap.test other = true) →
      Moves state (.run thread) (state.taken thread file pageTable frame)
  | leave {thread : ι} {file : Executable}
      {pageTable : List TranslationEntry} :
      thread ∉ state.addrLock.queue →
      state.points thread = .allocating file pageTable →
      AddrSpace.numPages file.header ≤ pageTable.length →
      Moves state (.run thread) (state.release thread (.loading file pageTable))
  | loaded {thread : ι} {file : Executable}
      {pageTable : List TranslationEntry} {mainMemory : Nat → Byte} :
      thread ∉ state.addrLock.queue →
      state.points thread = .loading file pageTable →
      AddrSpace.load file pageTable state.mainMemory = .ok mainMemory →
      Moves state (.run thread) { state.setPoint thread (.ready (some pageTable)) with
          mainMemory := mainMemory }
  | destroyed {thread : ι} {pageTable : Option (List TranslationEntry)} :
      state.points thread = .ready pageTable →
      Moves state (.destroy thread) (state.setPoint thread .absent)

theorem allocate_inv {state after : Loading ι} {thread : ι}
    {file : Executable} {pageTable : List TranslationEntry}
    (success : state.allocate thread file pageTable = some after) :
    ∃ frame, state.gPhysPageBitMap.test frame = false ∧
      (∀ other, other < frame →
        state.gPhysPageBitMap.test other = true) ∧
      after = state.taken thread file pageTable frame := by
  unfold allocate at success
  generalize found : state.gPhysPageBitMap.find = result at success
  obtain ⟨value, bits⟩ := result
  obtain ⟨nonnegative, shape⟩ := Option.ite_none_right_eq_some.mp success
  obtain ⟨frame, rfl, rfl, unset, below⟩ := BitMap.find_inv found nonnegative
  exact ⟨frame, unset, below, (Option.some.inj shape).symm⟩

theorem run_moves {state after : Loading ι} {thread : ι} (awake : thread ∉ state.addrLock.queue)
    (success : state.run thread = some after) :
    Moves state (.run thread) after := by
  unfold Loading.run at success
  split at success
  · rename_i file acquiring
    rw [← Option.some.inj success]
    unfold Loading.acquire
    split
    · rename_i lock available
      exact .enter awake acquiring available
    · rename_i unavailable
      exact .sleep awake acquiring unavailable
  · rename_i file checking
    rw [← Option.some.inj success]
    unfold Loading.check
    split
    · rename_i tooLarge
      exact .refuse awake checking tooLarge
    · rename_i fits
      exact .grant awake checking (Nat.not_lt.mp fits)
  · rename_i refusing
    cases success
    exact .refused awake refusing
  · rename_i file pageTable allocating
    split at success
    · rename_i more
      obtain ⟨frame, unset, below, rfl⟩ := allocate_inv success
      exact .take awake allocating more unset below
    · rename_i done
      cases success
      exact .leave awake allocating (Nat.not_lt.mp done)
  · rename_i file pageTable loading
    split at success
    · rename_i mainMemory copied
      cases success
      exact .loaded awake loading copied
    · cases success
  · cases success
  · cases success

theorem Step.moves {state after : Loading ι} {event : LoadEvent ι}
    (step : Step state event after) : Moves state event after := by
  unfold Step Loading.next at step
  cases event with
  | start thread file =>
    simp only at step
    split at step
    · rename_i absent
      unfold Loading.start at step
      split at step
      · cases step
        exact .unopened absent
      · split at step
        · rename_i valid
          cases step
          exact .begin absent valid
        · cases step
    · cases step
  | run thread =>
    simp only at step
    split at step
    · cases step
    · rename_i awake
      exact run_moves awake step
  | destroy thread =>
    simp only at step
    split at step
    · rename_i pageTable ready
      cases step
      exact .destroyed ready
    · cases step

end Loading

end Nachos
