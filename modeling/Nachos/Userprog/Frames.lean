import Nachos.Userprog.LoadSteps

/-!
# Frames of address spaces

The lock makes the test for enough frames and the loop which takes them one
action for all other threads.  So no frame is given out twice, the loop
never runs out of frames, and every thread which holds the lock gives it
back.  The destructor does not give frames back, so the bitmap describes the
live page tables only as long as no address space with frames is destroyed.
-/

open Words Memory Semaphores Transition Function

namespace Nachos

/-- The page table as far as it has been filled. -/
def LoadPoint.pageTable : LoadPoint → List TranslationEntry
  | .allocating _ pageTable => pageTable
  | .loading _ pageTable => pageTable
  | .ready (some pageTable) => pageTable
  | _ => []

def LoadPoint.frames (point : LoadPoint) : List Word :=
  point.pageTable.map TranslationEntry.physicalPage

/-- Between `P` and `V` of `addrLock`. -/
def LoadPoint.Inside : LoadPoint → Prop
  | .checking _ => True
  | .refusing => True
  | .allocating _ _ => True
  | _ => False

instance : DecidablePred LoadPoint.Inside
  | .absent => isFalse id
  | .acquiring _ => isFalse id
  | .checking _ => isTrue trivial
  | .refusing => isTrue trivial
  | .allocating _ _ => isTrue trivial
  | .loading _ _ => isFalse id
  | .ready _ => isFalse id

namespace Loading

variable {ι : Type}

/-- What holds between any two steps of the threads. -/
structure Sound (state : Loading ι) : Prop where
  exclusive : Exclusive state.addrLock LoadPoint.Inside state.points
  waiting : ∀ thread ∈ state.addrLock.queue, ∃ file, state.points thread = .acquiring file
  marked : ∀ thread, ∀ page ∈ (state.points thread).frames,
    ∃ frame, page = frameWord frame ∧ state.gPhysPageBitMap.test frame = true
  distinct : ∀ thread, (state.points thread).frames.Nodup
  disjoint : ∀ thread other, thread ≠ other →
    (state.points thread).frames.Disjoint (state.points other).frames
  enough : ∀ thread file pageTable,
    state.points thread = .allocating file pageTable →
    AddrSpace.numPages file.header ≤ pageTable.length + state.gPhysPageBitMap.numClear

/-- Nobody has or constructs an address space.  The bitmap and main memory
are as they are. -/
def idle (gPhysPageBitMap : BitMap numPhysPages) (mainMemory : Nat → Byte) : Loading ι where
  gPhysPageBitMap := gPhysPageBitMap
  addrLock := Semaphore.new 1
  mainMemory := mainMemory
  points := fun _ => .absent

theorem idle_sound (gPhysPageBitMap : BitMap numPhysPages) (mainMemory : Nat → Byte) :
    Sound (idle gPhysPageBitMap mainMemory : Loading ι) where
  exclusive := .initial fun _ => id
  waiting := nofun
  marked := nofun
  distinct := fun _ => List.nodup_nil
  disjoint := fun _ _ _ => List.disjoint_nil_left _
  enough := nofun

theorem boot_sound (freshWords : Fin (numWords numPhysPages) → Word) (mainMemory : Nat → Byte) :
    Sound (boot freshWords mainMemory : Loading ι) :=
  idle_sound _ _

variable {state : Loading ι} {thread : ι}

variable (sound : Sound state)
include sound

theorem Sound.awake (elsewhere : ∀ file, state.points thread ≠ .acquiring file) :
    thread ∉ state.addrLock.queue := by
  intro asleep
  obtain ⟨file, waiting⟩ := sound.waiting thread asleep
  exact elsewhere file waiting

variable {file : Executable} {pageTable : List TranslationEntry}

/-- One round of the loop finds a frame which no page table has. -/
theorem Sound.find_frame (allocating : state.points thread = .allocating file pageTable)
    (more : pageTable.length < AddrSpace.numPages file.header) :
    ∃ frame : Fin numPhysPages,
      state.gPhysPageBitMap.test frame = false ∧
      state.gPhysPageBitMap.find = ((frame.val : Int), state.gPhysPageBitMap.mark frame) := by
  apply BitMap.find_of_clear
  have enough := sound.enough thread file pageTable allocating
  omega

theorem Sound.frame_unused {frame : Fin numPhysPages}
    (unset : state.gPhysPageBitMap.test frame = false) (thread : ι) :
    frameWord frame ∉ (state.points thread).frames := by
  intro used
  obtain ⟨other, same, set⟩ := sound.marked thread _ used
  rw [← frameWord_injective same, unset] at set
  cases set

variable [DecidableEq ι] {mainMemory : Nat → Byte} {point : LoadPoint}

/-- A thread which takes no new frame keeps the invariant if the lock fits
its new point. -/
theorem Sound.move {lock : Semaphore ι} (kept : point.frames.Sublist (state.points thread).frames)
    (exclusive : Exclusive lock LoadPoint.Inside (update state.points thread point))
    (awake : thread ∉ state.addrLock.queue)
    (queue : ∀ other ∈ lock.queue, other ∈ state.addrLock.queue)
    (enough : ∀ file pageTable, point = .allocating file pageTable →
      AddrSpace.numPages file.header ≤ pageTable.length + state.gPhysPageBitMap.numClear) :
    Sound { state with
      addrLock := lock
      mainMemory := mainMemory
      points := update state.points thread point } := by
  have subset : ∀ other, (update state.points thread point other).frames.Sublist
        (state.points other).frames :=
    update_cases kept fun _ _ => .refl _
  refine ⟨exclusive, ?_, ?_, ?_, ?_, ?_⟩ <;> dsimp only
  · intro other member
    have asleep := queue other member
    have different : other ≠ thread := by
      intro same
      exact awake (same ▸ asleep)
    rw [update_of_ne different]
    exact sound.waiting other asleep
  · intro other page member
    exact sound.marked other page ((subset other).subset member)
  · intro other
    exact (sound.distinct other).sublist (subset other)
  · intro first second different page left right
    exact sound.disjoint first second different
      ((subset first).subset left) ((subset second).subset right)
  · exact update_cases enough fun other _ => sound.enough other

omit sound in
theorem allocate_eq {frame : Fin numPhysPages}
    (found : state.gPhysPageBitMap.find = ((frame.val : Int), state.gPhysPageBitMap.mark frame)) :
    state.allocate thread file pageTable = some { state with
        gPhysPageBitMap := state.gPhysPageBitMap.mark frame
        mainMemory := splice state.mainMemory (frame.val * pageSize) (List.replicate pageSize 0#8)
        points := update state.points thread (.allocating file
            (pageTable ++ [AddrSpace.entry pageTable.length frame])) } := by
  simp [allocate, found]

omit sound in
theorem frames_append (file : Executable)
    (pageTable : List TranslationEntry) (frame : Fin numPhysPages) :
    (LoadPoint.allocating file
      (pageTable ++ [AddrSpace.entry pageTable.length frame])).frames =
      (LoadPoint.allocating file pageTable).frames ++ [frameWord frame] := by
  simp [LoadPoint.frames, LoadPoint.pageTable, AddrSpace.entry, frameWord]

theorem Sound.allocate {frame : Fin numPhysPages}
    (allocating : state.points thread = .allocating file pageTable)
    (unset : state.gPhysPageBitMap.test frame = false) :
    Sound { state with
      gPhysPageBitMap := state.gPhysPageBitMap.mark frame
      mainMemory := mainMemory
      points := update state.points thread (.allocating file
          (pageTable ++ [AddrSpace.entry pageTable.length frame])) } := by
  have inside : (state.points thread).Inside := by
    rw [allocating]
    trivial
  have members : ∀ other page, page ∈ (update state.points thread (.allocating file
        (pageTable ++ [AddrSpace.entry pageTable.length frame]))
          other).frames ↔
      page ∈ (state.points other).frames ∨ other = thread ∧ page = frameWord frame := by
    refine update_cases (fun page => ?_) fun other moved page => by simp [moved]
    rw [frames_append, allocating]
    simp
  have fresh := sound.frame_unused unset
  have awake : thread ∉ state.addrLock.queue := by
    apply sound.awake
    rw [allocating]
    nofun
  refine ⟨sound.exclusive.stay ⟨fun _ => inside, fun _ => trivial⟩, ?_, ?_, ?_, ?_, ?_⟩ <;>
    dsimp only
  · intro other asleep
    have different : other ≠ thread := by
      intro same
      exact awake (same ▸ asleep)
    simp only [update_of_ne different]
    exact sound.waiting other asleep
  · intro other page member
    simp only [BitMap.test_mark]
    rcases (members other page).mp member with old | ⟨-, rfl⟩
    · obtain ⟨used, same, set⟩ := sound.marked other page old
      exact ⟨used, same, by simp [set]⟩
    · exact ⟨frame, rfl, by simp⟩
  · refine update_cases ?_ fun other _ => sound.distinct other
    rw [frames_append, ← allocating, ← List.concat_eq_append]
    exact (sound.distinct thread).concat (fresh thread)
  · intro first second different page left right
    rcases (members first page).mp left with old | ⟨rfl, rfl⟩
    · rcases (members second page).mp right with old' | ⟨rfl, rfl⟩
      · exact sound.disjoint first second different old old'
      · exact fresh first old
    · rcases (members second _).mp right with old' | ⟨rfl, -⟩
      · exact fresh second old'
      · exact different rfl
  · have counted := BitMap.numClear_mark unset
    refine update_cases ?_ fun other moved file' pageTable' found => ?_
    · rintro _ _ ⟨⟩
      have enough := sound.enough thread file pageTable allocating
      simp only [List.length_append, List.length_singleton]
      omega
    · have entered : (state.points other).Inside := by
        rw [found]
        trivial
      exact absurd (sound.exclusive.unique inside entered) moved

theorem Sound.release (awake : thread ∉ state.addrLock.queue)
    (inside : (state.points thread).Inside) (outside : ¬point.Inside)
    (kept : point.frames.Sublist (state.points thread).frames) :
    Sound (state.release thread point) := by
  refine sound.move kept (sound.exclusive.leave inside outside) awake
    (fun _ => Semaphore.mem_of_mem_release) ?_
  intro file pageTable same
  subst same
  exact (outside trivial).elim

theorem Sound.stay (awake : thread ∉ state.addrLock.queue)
    (same : point.Inside ↔ (state.points thread).Inside)
    (kept : point.frames.Sublist (state.points thread).frames)
    (enough : ∀ file pageTable, point = .allocating file pageTable →
      AddrSpace.numPages file.header ≤ pageTable.length + state.gPhysPageBitMap.numClear) :
    Sound { state with
      mainMemory := mainMemory
      points := update state.points thread point } :=
  sound.move kept (sound.exclusive.stay same) awake (fun _ => id) enough

variable {after : Loading ι} {event : LoadEvent ι}

theorem Sound.next (step : Step state event after) :
    Sound after := by
  cases step.moves with
  | unopened point | begin point _ | destroyed point =>
    refine sound.stay (sound.awake ?_) ?_ (List.nil_sublist _) nofun
    · rw [point]
      nofun
    · rw [point]
      exact Iff.rfl
  | enter awake acquiring available =>
    have queue := (Semaphore.take_inv available).2
    exact sound.move (List.nil_sublist _) (sound.exclusive.enter available trivial) awake
      (fun other member => queue ▸ member) nofun
  | sleep awake acquiring unavailable =>
    refine ⟨sound.exclusive.of_value_eq rfl, ?_, sound.marked,
      sound.distinct, sound.disjoint, sound.enough⟩
    intro other member
    rcases List.mem_append.mp member with asleep | new
    · exact sound.waiting other asleep
    · rw [List.mem_singleton.mp new]
      exact ⟨_, acquiring⟩
  | refuse awake checking tooLarge =>
    refine sound.stay awake ?_ (List.nil_sublist _) nofun
    rw [checking]
    exact Iff.rfl
  | grant awake checking fits =>
    refine sound.stay awake ?_ (List.nil_sublist _) ?_
    · rw [checking]
      exact Iff.rfl
    · intro file pageTable same
      cases same
      simp only [List.length_nil]
      omega
  | refused awake refusing =>
    refine sound.release awake ?_ id (List.nil_sublist _)
    rw [refusing]
    trivial
  | take awake allocating more unset below =>
    exact sound.allocate allocating unset
  | leave awake allocating done =>
    refine sound.release awake ?_ id ?_
    · rw [allocating]
      trivial
    · rw [allocating]
      exact List.Sublist.refl _
  | loaded awake loading copied =>
    refine sound.stay awake ?_ ?_ nofun
    · rw [loading]
      exact Iff.rfl
    · rw [loading]
      exact List.Sublist.refl _

omit sound in
theorem sound_of_run {freshWords : Fin (numWords numPhysPages) → Word} {events : List (LoadEvent ι)}
    (run : Run Step (boot freshWords mainMemory) events state) :
    Sound state :=
  run.invariant Sound (fun _ _ => trivial) (boot_sound _ _)
    fun _ _ _ sound _ step => sound.next step

/-! ## The lock is given back -/

/-- The thread, if it runs, leaves the critical section and frees the
lock. -/
def Releases (state : Loading ι) (thread : ι) : Prop :=
  ∃ count final,
    replay next state (List.replicate count (.run thread)) = some final ∧
    ¬(final.points thread).Inside ∧ final.addrLock.value = 1

omit sound in
theorem Releases.of_step {middle : Loading ι}
    (step : Step state (.run thread) middle) (later : Releases middle thread) :
    Releases state thread := by
  obtain ⟨count, final, replayed, outside, free⟩ := later
  exact ⟨count + 1, final, replay_replicate_succ.mpr ⟨middle, step, replayed⟩, outside, free⟩

theorem Sound.next_run (inside : (state.points thread).Inside) :
    state.next (.run thread) = state.run thread := by
  have awake : thread ∉ state.addrLock.queue := by
    apply sound.awake
    intro file acquiring
    rw [acquiring] at inside
    exact inside
  simp only [Loading.next, if_neg awake]

theorem Sound.releases_now (point : LoadPoint)
    (inside : (state.points thread).Inside) (outside : ¬point.Inside)
    (step : state.run thread = some (state.release thread point)) :
    Releases state thread := by
  refine .of_step ((sound.next_run inside).trans step) ⟨0, _, rfl, ?_, ?_⟩
  · simp only [Loading.release, Loading.setPoint, update_self]
    exact outside
  · simp only [Loading.release, Semaphore.release, sound.exclusive.value_eq_zero inside]

/-- The loop ends after as many rounds as there are pages left. -/
theorem Sound.releases_allocating (allocating : state.points thread = .allocating file pageTable) :
    Releases state thread := by
  induction left : AddrSpace.numPages file.header - pageTable.length
    generalizing state pageTable with
  | zero =>
    have done : ¬pageTable.length < AddrSpace.numPages file.header := by
      omega
    refine sound.releases_now (.loading file pageTable) (by rw [allocating]; trivial) id ?_
    simp only [Loading.run, allocating, if_neg done]
  | succ left induction =>
    have more : pageTable.length < AddrSpace.numPages file.header := by
      omega
    obtain ⟨frame, unset, found⟩ := sound.find_frame allocating more
    have taken : state.run thread =
        state.allocate thread file pageTable := by
      simp only [Loading.run, allocating, if_pos more]
    rw [allocate_eq found] at taken
    have inside : (state.points thread).Inside := by
      rw [allocating]
      trivial
    refine .of_step ((sound.next_run inside).trans taken) ?_
    apply induction (sound.allocate allocating unset) (update_self ..)
    simp only [List.length_append, List.length_singleton]
    omega

theorem Sound.releases (inside : (state.points thread).Inside) :
    Releases state thread := by
  cases point : state.points thread with
  | checking file =>
    have taken : state.run thread = some (state.check thread file) := by
      simp only [Loading.run, point]
    have step := (sound.next_run inside).trans taken
    have after := sound.next step
    refine .of_step step ?_
    by_cases tooBig : AddrSpace.numPages file.header > state.gPhysPageBitMap.numClear
    · have refused : state.check thread file = state.setPoint thread .refusing := by
        simp only [Loading.check, if_pos tooBig]
      rw [refused] at after ⊢
      have refusing : (state.setPoint thread .refusing).points thread =
          .refusing := update_self ..
      refine after.releases_now (.ready none) (by rw [refusing]; trivial) id ?_
      simp only [Loading.run, refusing]
    · have granted : state.check thread file = state.setPoint thread (.allocating file []) := by
        simp only [Loading.check, if_neg tooBig]
      rw [granted] at after ⊢
      exact after.releases_allocating (update_self ..)
  | refusing =>
    refine sound.releases_now (.ready none) inside id ?_
    simp only [Loading.run, point]
  | allocating file pageTable => exact sound.releases_allocating point
  | absent | acquiring file | loading file pageTable | ready pageTable =>
    rw [point] at inside
    exact inside.elim

omit sound

/-- In every run all frame numbers are in range and belong to one entry of
one page table, the loop never gets `-1` from `Find`, and the lock is either
free with nobody inside or held by one thread, which gives it back. -/
theorem address_spaces_share_no_frame (freshWords : Fin (numWords numPhysPages) → Word)
    (mainMemory : Nat → Byte) (events : List (LoadEvent ι))
    (state : Loading ι)
    (run : Run Step (boot freshWords mainMemory) events state) :
    (∀ thread, ∀ page ∈ (state.points thread).frames,
      0 ≤ page.toInt ∧ page.toInt < numPhysPages) ∧
    (∀ thread, (state.points thread).frames.Nodup) ∧
    (∀ thread other, thread ≠ other → (state.points thread).frames.Disjoint
        (state.points other).frames) ∧
    (∀ thread file pageTable,
      state.points thread = .allocating file pageTable →
      pageTable.length < AddrSpace.numPages file.header →
      state.gPhysPageBitMap.find.1 ≠ -1) ∧
    Exclusive state.addrLock LoadPoint.Inside state.points ∧
    ∀ thread, (state.points thread).Inside → Releases state thread := by
  have sound := sound_of_run run
  refine ⟨?_, sound.distinct, sound.disjoint, ?_, sound.exclusive, fun _ => sound.releases⟩
  · intro thread page member
    obtain ⟨frame, rfl, -⟩ := sound.marked thread page member
    have small : frame.val < 128 := frame.isLt
    have value := frameWord_toNat frame
    have signed : (frameWord frame).toInt = frame.val := by
      rw [BitVec.toInt_eq_toNat_of_lt (by omega), value]
    rw [signed]
    exact ⟨Int.natCast_nonneg _, Int.ofNat_lt.mpr frame.isLt⟩
  · intro thread file pageTable allocating more
    obtain ⟨frame, -, found⟩ := sound.find_frame allocating more
    rw [found]
    exact fun negative => by
      have nonnegative := Int.natCast_nonneg frame.val
      simp only at negative
      omega

/-- A program without code and data. -/
def emptyProgram : Executable where
  contents := [0xad#8, 0xdf#8, 0xba#8] ++ List.replicate 37 0#8
  fresh := fun _ => 0#8

/-- Two loaders, the second of which sleeps while the first one takes its
frames. -/
def twoLoaders : List (LoadEvent Bool) :=
  [.start true (some emptyProgram), .start false (some emptyProgram),
    .run true, .run false, .run true, .run true]

theorem twoLoaders_possible : (replay next (boot (fun _ => 0#32) fun _ => 0#8)
      twoLoaders).isSome = true := by
  decide +kernel

theorem address_spaces_share_no_frame_of_two :
    ∃ state, Run Step (boot (fun _ => 0#32) fun _ => 0#8) twoLoaders state ∧
      (state.points true).frames = [0#32] ∧
      state.addrLock.queue = [false] ∧
      Releases state true :=
  ⟨(replay next (boot (fun _ => 0#32) fun _ => 0#8) twoLoaders).get
      twoLoaders_possible,
    run_of_replay (Option.some_get twoLoaders_possible).symm,
    by decide +kernel, by decide +kernel,
    (address_spaces_share_no_frame _ _ _ _ (run_of_replay
      (Option.some_get twoLoaders_possible).symm)).2.2.2.2.2 true (by decide +kernel)⟩

/-! ## Marked frames -/

/-- What a step does to the bitmap and to the frames of the threads: nothing,
one frame more for one thread, or the end of an address space. -/
inductive Effect (state : Loading ι) :
    LoadEvent ι → Loading ι → Prop where
  | keep {event : LoadEvent ι} {after : Loading ι} :
      after.gPhysPageBitMap = state.gPhysPageBitMap →
      (∀ thread, (after.points thread).frames =
        (state.points thread).frames) →
      Effect state event after
  | take {event : LoadEvent ι} {after : Loading ι} {thread : ι}
      {frame : Fin numPhysPages} :
      after.gPhysPageBitMap = state.gPhysPageBitMap.mark frame →
      (after.points thread).frames =
        (state.points thread).frames ++ [frameWord frame] →
      (∀ other, other ≠ thread → after.points other = state.points other) →
      Effect state event after
  | drop {after : Loading ι} {thread : ι} :
      after.gPhysPageBitMap = state.gPhysPageBitMap →
      (∀ other, other ≠ thread → after.points other = state.points other) →
      Effect state (.destroy thread) after

theorem Effect.move (bits : after.gPhysPageBitMap = state.gPhysPageBitMap)
    (points : after.points = update state.points thread point)
    (frames : point.frames = (state.points thread).frames) :
    Effect state event after := by
  refine .keep bits ?_
  rw [points]
  exact update_cases frames fun _ _ => rfl

theorem Step.effect (step : Step state event after) :
    Effect state event after := by
  cases step.moves with
  | unopened point | begin point _ | enter _ point _ | refuse _ point _ | grant _ point _
  | refused _ point | leave _ point _ | loaded _ point _ =>
    exact .move rfl rfl (by rw [point]; rfl)
  | sleep awake acquiring unavailable => exact .keep rfl fun _ => rfl
  | take awake allocating more unset below =>
    refine .take rfl ?_ fun other different =>
      update_of_ne different ..
    simp only [taken, update_self]
    rw [frames_append, allocating]
  | destroyed ready =>
    exact .drop rfl fun other different =>
      update_of_ne different ..

/-- Every marked frame is in a page table. -/
def Accounted (state : Loading ι) : Prop :=
  ∀ frame, state.gPhysPageBitMap.test frame = true →
    ∃ thread, frameWord frame ∈ (state.points thread).frames

/-- No address space which has frames is destroyed. -/
def KeepsFrames (state : Loading ι) : LoadEvent ι → Prop
  | .destroy thread => (state.points thread).frames = []
  | _ => True

/-- A step which destroys no address space that has frames. -/
def KeepingStep (before : Loading ι) (event : LoadEvent ι) (after : Loading ι) : Prop :=
  Step before event after ∧ before.KeepsFrames event

theorem Accounted.next (accounted : Accounted state)
    (keeps : state.KeepsFrames event) (effect : Effect state event after) :
    Accounted after := by
  intro frame set
  cases effect with
  | keep bits frames =>
    rw [bits] at set
    obtain ⟨thread, used⟩ := accounted frame set
    exact ⟨thread, by rw [frames]; exact used⟩
  | @take _ _ taker taken bits frames others =>
    rw [bits, BitMap.test_mark] at set
    by_cases same : frame = taken
    · subst same
      exact ⟨taker, by rw [frames]; simp⟩
    · simp only [same, decide_false, Bool.false_or] at set
      obtain ⟨thread, used⟩ := accounted frame set
      refine ⟨thread, ?_⟩
      by_cases moved : thread = taker
      · subst moved
        rw [frames]
        exact List.mem_append_left _ used
      · rw [others thread moved]
        exact used
  | @drop _ dropped bits others =>
    rw [bits] at set
    obtain ⟨thread, used⟩ := accounted frame set
    have different : thread ≠ dropped := by
      intro same
      rw [same, keeps] at used
      cases used
    exact ⟨thread, by rw [others thread different]; exact used⟩

/-- In every run in which no address space with frames is destroyed, the
marked frames are exactly those of the page tables. -/
theorem marked_frames_of_kept_spaces (freshWords : Fin (numWords numPhysPages) → Word)
    (mainMemory : Nat → Byte) (events : List (LoadEvent ι))
    (state : Loading ι)
    (run : Run KeepingStep (boot freshWords mainMemory) events state)
    (frame : Fin numPhysPages) :
    state.gPhysPageBitMap.test frame = true ↔
      ∃ thread, frameWord frame ∈ (state.points thread).frames := by
  have initial : Accounted (boot freshWords mainMemory : Loading ι) := by
    intro frame set
    rw [boot, BitMap.test_new] at set
    cases set
  have kept : Sound state ∧ Accounted state :=
    run.invariant (fun state => Sound state ∧ Accounted state)
      (fun _ _ => trivial) ⟨boot_sound _ _, initial⟩
      fun _ _ _ before _ step =>
        ⟨before.1.next step.1, before.2.next step.2 (Step.effect step.1)⟩
  constructor
  · exact kept.2 frame
  · rintro ⟨thread, used⟩
    obtain ⟨other, same, set⟩ := kept.1.marked thread _ used
    rw [frameWord_injective same]
    exact set

/-- Two programs are loaded, one after the other. -/
def twoPrograms : List (LoadEvent Bool) :=
  .start true (some emptyProgram) :: List.replicate 6 (.run true) ++
    .start false (some emptyProgram) :: List.replicate 6 (.run false)

theorem twoPrograms_possible :
    (replay next (boot (fun _ => 0#32) fun _ => 0#8) twoPrograms).any (fun state =>
      decide (frameWord ⟨0, by decide⟩ ∈ (state.points true).frames ∧
        frameWord ⟨2, by decide⟩ ∈ (state.points false).frames ∧
        state.gPhysPageBitMap.test ⟨4, by decide⟩ = false)) = true := by
  decide +kernel

theorem marked_frames_of_kept_spaces_two_programs :
    ∃ state, Run KeepingStep (boot (fun _ => 0#32) fun _ => 0#8) twoPrograms state ∧
      (frameWord ⟨0, by decide⟩ ∈ (state.points true).frames ∧
        state.gPhysPageBitMap.test ⟨0, by decide⟩ = true) ∧
      (frameWord ⟨2, by decide⟩ ∈ (state.points false).frames ∧
        state.gPhysPageBitMap.test ⟨2, by decide⟩ = true) ∧
      (¬∃ thread, frameWord ⟨4, by decide⟩ ∈ (state.points thread).frames) ∧
        state.gPhysPageBitMap.test ⟨4, by decide⟩ = false := by
  obtain ⟨state, run, first, second, clear⟩ :=
    exists_run_of_replay (fun _ _ _ taken => taken) twoPrograms_possible
  have keeps : ∀ before event after, event ∈ twoPrograms →
      Step before event after → KeepingStep before event after := by
    intro before event after member step
    refine ⟨step, ?_⟩
    simp only [twoPrograms, List.mem_cons, List.mem_append, List.mem_replicate] at member
    rcases member with (rfl | ⟨-, rfl⟩) | rfl | ⟨-, rfl⟩ <;> trivial
  have kept := run.mono keeps
  have marked := marked_frames_of_kept_spaces _ _ _ _ kept
  refine ⟨state, kept, ⟨first, (marked _).mpr ⟨true, first⟩⟩,
    ⟨second, (marked _).mpr ⟨false, second⟩⟩, ?_, clear⟩
  intro used
  cases clear.symm.trans ((marked _).mpr used)

/-- A program is loaded, runs and is destroyed. -/
def oneProcess : List (LoadEvent Unit) :=
  [.start () (some emptyProgram), .run (), .run (), .run (), .run (), .run (), .run (), .destroy ()]

theorem oneProcess_possible : (replay next (boot (fun _ => 0#32) fun _ => 0#8)
      oneProcess).isSome = true := by
  decide +kernel

theorem destroyed_space_leaves_frames_marked :
    ∃ state, Run Step (boot (fun _ => 0#32) fun _ => 0#8) oneProcess state ∧
      state.gPhysPageBitMap.test ⟨0, by decide⟩ = true ∧
      ¬∃ thread, frameWord ⟨0, by decide⟩ ∈ (state.points thread).frames := by
  refine ⟨_, run_of_replay (Option.some_get oneProcess_possible).symm, by decide +kernel, ?_⟩
  rintro ⟨⟨⟩, used⟩
  revert used
  decide +kernel

end Loading

end Nachos
