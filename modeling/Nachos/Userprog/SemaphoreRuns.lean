import Nachos.Userprog.SemaphoreCalls

/-!
# Sequences of calls on named semaphores

User programs make calls in any order, and a `Wait` which sleeps is under
way while others are made.  On a table of empty slots every call but one
does what it should: `Signal` and `Wait` do not find the semaphore in slot 0.
The value of a semaphore is what the creator passed, a negative number if
that was one, and from then on it counts the calls.
-/

open Words Transition Function

namespace Nachos

open Handler

/-- The table, and the calls which have not returned yet, each with the table
it began with. -/
structure SemaphoreState where
  semTab : STable
  underWay : List (SemaphoreCall × STable)

/-- A call begins, or it returns with a result; `found` is the slot it has
found its name in. -/
inductive SemaphoreEvent where
  | began (call : SemaphoreCall)
  | returned (call : SemaphoreCall) (found : Int) (result : Word)

inductive SemaphoreStep :
    SemaphoreState → SemaphoreEvent → SemaphoreState → Prop where
  | began {state : SemaphoreState} {call : SemaphoreCall} :
      call.IsSemaphoreCall →
      SemaphoreStep state (.began call)
        { state with underWay := (call, state.semTab) :: state.underWay }
  | atOnce {state : SemaphoreState} {call : SemaphoreCall}
      {woken after : STable} {found : Int} {result : Word} :
      call.IsSemaphoreCall →
      state.semTab.isExist call.name = .ok found →
      CallReturns state.semTab woken call false result after →
      SemaphoreStep state (.returned call found result) { state with semTab := after }
  | woken {table began after : STable} {call : SemaphoreCall}
      {front back : List (SemaphoreCall × STable)} {found : Int}
      {result : Word} :
      call.IsSemaphoreCall →
      began.isExist call.name = .ok found →
      CallReturns began table call true result after →
      SemaphoreStep ⟨table, front ++ (call, began) :: back⟩
        (.returned call found result) ⟨after, front ++ back⟩

def SemaphoreState.boot (freshWords : Fin (numWords maxSemaphore) → Word) : SemaphoreState where
  semTab := .new freshWords fun _ => .null
  underWay := []

/-! ## What has been created -/

/-- The name of the semaphore which an event has created. -/
def SemaphoreEvent.created : SemaphoreEvent → Option CString
  | .began _ => none
  | .returned call _ result =>
    if call.code = some .createSemaphore ∧ result ≠ -1#32 then
      some call.name
    else none

/-- The names created so far, in the order of their creation. -/
def created (events : List SemaphoreEvent) : List CString :=
  events.filterMap SemaphoreEvent.created

/-- `Signal` and `Wait` on the semaphore in a slot. -/
def Performs (code : Option Syscall) (slot : Fin maxSemaphore) (before after : STable) : Prop :=
  ∃ object, before.semTab slot = .sem object ∧ ((code = some .signal ∧ after = before.setSlot slot
        { object with value := object.value + 1 }) ∨
      (code = some .wait ∧ object.value ≠ 0#32 ∧ after = before.setSlot slot
          { object with value := object.value - 1 }))

/-- What a call which returns does to the table it finds then. -/
inductive Effect (before : STable) (call : SemaphoreCall) :
    Int → Word → STable → Prop where
  | created {found index : Int} {after : STable} :
      call.code = some .createSemaphore →
      before.create call.name (call.registers r5) = .ok (index, after) →
      Effect before call found (BitVec.ofInt 32 index) after
  | refused : call.IsOperation → Effect before call 0 (-1#32) before
  | missing : call.IsOperation → Effect before call (-1) (-1#32) before
  | performed {slot : Fin maxSemaphore} {after : STable} :
      call.IsOperation → slot.val ≠ 0 →
      Performs call.code slot before after →
      Effect before call slot.val 0#32 after

variable {call : SemaphoreCall} {result : Word}

theorem CallOutcome.effect {began woken after : STable} {found : Int}
    {slept : Bool} (exist : began.isExist call.name = .ok found)
    (outcome : CallOutcome began woken call slept result after) :
    Effect (if slept then woken else began) call found result after := by
  cases outcome with
  | created code success => exact .created code success
  | refused isOperation place =>
    cases exist.symm.trans place
    exact .refused isOperation
  | missing isOperation place =>
    cases exist.symm.trans place
    exact .missing isOperation
  | signalled code place later entry =>
    cases exist.symm.trans place
    exact .performed (.inl code) later ⟨_, entry, .inl ⟨code, rfl⟩⟩
  | took code place later entry available | woke code place later entry available =>
    cases exist.symm.trans place
    exact .performed (.inr code) later ⟨_, entry, .inr ⟨code, available, rfl⟩⟩

variable {state : SemaphoreState}

/-- A call which returns has found its name in the table, or it has slept,
and then it had found its name when it began. -/
theorem SemaphoreStep.effect {after : SemaphoreState} {found : Int}
    (step : SemaphoreStep state (.returned call found result) after) :
    Effect state.semTab call found result after.semTab ∧
      after.underWay ⊆ state.underWay ∧
      (state.semTab.isExist call.name = .ok found ∨
        0 < found ∧ ∃ began, (call, began) ∈ state.underWay ∧
          began.isExist call.name = .ok found) := by
  cases step with
  | atOnce isCall exist returns =>
    exact ⟨(returns.outcome isCall).effect exist, List.Subset.refl _, .inl exist⟩
  | @woken table began after call front back found result isCall exist
      returns =>
      have outcome := returns.outcome isCall
      refine ⟨outcome.effect exist, ?_, .inr ⟨?_, began, by simp, exist⟩⟩
      · intro entry member
        rcases List.mem_append.mp member with first | last
        · exact List.mem_append_left _ first
        · exact List.mem_append_right _ (List.mem_cons_of_mem _ last)
      · cases outcome with
        | woke code place later entry available =>
          cases exist.symm.trans place
          exact Int.natCast_pos.mpr (Nat.pos_of_ne_zero later)

/-! ## The list of created semaphores -/

theorem position_eq_findIdx (objects : List Sem) (name : CString) :
    position objects name = (objects.map Sem.name).findIdx? (· = name) := by
  rw [List.findIdx?_map]
  rfl

theorem position_append {objects : List Sem} {name : CString} {index : Nat}
    (found : position objects name = some index) (object : Sem) :
    position (objects ++ [object]) name = some index := by
  unfold position at found ⊢
  rw [List.findIdx?_append, found]
  rfl

/-- The events have created the semaphores of the list, each at the slot
which is its position. -/
structure Recorded (events : List SemaphoreEvent) (names : List CString) :
    Prop where
  listed : created events = names
  slots : ∀ index name, names[index]? = some name →
    ∃ front back creation found,
      events = front ++ .returned creation found (BitVec.ofNat 32 index) ::
        back ∧
      creation.code = some .createSemaphore ∧ creation.name = name ∧
      created front = names.take index

theorem created_append (events : List SemaphoreEvent) (event : SemaphoreEvent) :
    created (events ++ [event]) = created events ++ event.created.toList := by
  unfold created
  rw [List.filterMap_append]
  cases outcome : event.created <;> simp [outcome]

namespace Recorded

variable {events : List SemaphoreEvent} {names : List CString}

theorem skip (recorded : Recorded events names) {event : SemaphoreEvent}
    (nothing : event.created = none) :
    Recorded (events ++ [event]) names where
  listed := by
    rw [created_append, nothing, recorded.listed]
    exact List.append_nil _
  slots := by
    intro index name entry
    obtain ⟨front, back, creation, found, rfl, rest⟩ :=
      recorded.slots index name entry
    exact ⟨front, back ++ [event], creation, found, List.append_assoc .., rest⟩

theorem push (recorded : Recorded events names) {creation : SemaphoreCall}
    (found : Int) (code : creation.code = some .createSemaphore)
    (small : names.length < maxSemaphore) :
    Recorded (events ++ [.returned creation found (BitVec.ofNat 32 names.length)])
      (names ++ [creation.name]) where
  listed := by
    have positive : BitVec.ofNat 32 names.length ≠ -1#32 := by
      intro same
      have value := congrArg BitVec.toNat same
      rw [BitVec.toNat_ofNat, Nat.mod_eq_of_lt (Nat.lt_trans small (by decide))] at value
      rw [value] at small
      exact absurd small (by decide)
    rw [created_append, recorded.listed, SemaphoreEvent.created, if_pos ⟨code, positive⟩]
    rfl
  slots := by
    intro index name entry
    rcases Nat.lt_or_ge index names.length with below | above
    · rw [List.getElem?_append_left below] at entry
      obtain ⟨front, back, earlier, place, rfl, known, same, before⟩ :=
        recorded.slots index name entry
      refine ⟨front, back ++ [_], earlier, place, List.append_assoc .., known, same, ?_⟩
      rw [before, List.take_append_of_le_length (Nat.le_of_lt below)]
    · obtain ⟨inside, last⟩ := List.getElem?_eq_some_iff.mp entry
      have place : index = names.length := by
        rw [List.length_append] at inside
        exact Nat.le_antisymm (Nat.lt_succ_iff.mp inside) above
      subst place
      rw [List.getElem_concat_length rfl] at last
      refine ⟨events, [], creation, found, rfl, code, last, ?_⟩
      rw [recorded.listed, List.take_left]

end Recorded

/-- The table stands for a list of semaphores, the events have created it,
and a call under way finds its name where it was. -/
structure Kept (events : List SemaphoreEvent) (state : SemaphoreState)
    (objects : List Sem) : Prop where
  represents : state.semTab.Represents objects
  recorded : Recorded events (objects.map Sem.name)
  pending : ∀ call began, (call, began) ∈ state.underWay →
    ∀ name (index : Nat), began.isExist name = .ok (index : Int) →
      position objects name = some index

namespace Kept

variable {events : List SemaphoreEvent} {state after : SemaphoreState}
  {objects : List Sem} {call : SemaphoreCall}

theorem position_of_isExist (kept : Kept events state objects) {name : CString} {index : Nat}
    (exist : state.semTab.isExist name = .ok (index : Int)) :
    position objects name = some index := by
  rw [kept.represents.isExist_eq] at exist
  cases found : position objects name with
  | none =>
    rw [found] at exist
    cases exist
  | some place =>
    rw [found] at exist
    exact congrArg some (Int.ofNat.inj (Except.ok.inj exist))

theorem operate (kept : Kept events state objects) {event : SemaphoreEvent}
    {changed : List Sem} (nothing : event.created = none)
    (fewer : after.underWay ⊆ state.underWay)
    (represents : after.semTab.Represents changed)
    (names : changed.map Sem.name = objects.map Sem.name) :
    Kept (events ++ [event]) after changed where
  represents := represents
  recorded := by
    rw [names]
    exact kept.recorded.skip nothing
  pending := by
    intro call began member name index exist
    rw [position_eq_findIdx, names, ← position_eq_findIdx]
    exact kept.pending call began (fewer member) name index exist

theorem created_eq_none {found : Int} {result : Word} (isOperation : call.IsOperation) :
    (SemaphoreEvent.returned call found result).created = none := by
  unfold SemaphoreEvent.created
  refine if_neg fun both => ?_
  rcases isOperation with code | code <;> simp [code] at both

theorem map_name_set {slot : Nat} {object changed : Sem} (entry : objects[slot]? = some object)
    (same : changed.name = object.name) :
    (objects.set slot changed).map Sem.name = objects.map Sem.name := by
  have inside := (List.getElem?_eq_some_iff.mp entry).1
  refine List.ext_getElem? fun place => ?_
  rw [List.getElem?_map, List.getElem?_map]
  by_cases here : slot = place
  · subst here
    rw [entry, List.getElem?_set_self inside]
    exact congrArg some same
  · rw [List.getElem?_set_ne here]

theorem performs {slot : Fin maxSemaphore} {table : STable}
    (represents : state.semTab.Represents objects)
    (performs : Performs call.code slot state.semTab table) :
    ∃ changed, table.Represents changed ∧ changed.map Sem.name = objects.map Sem.name := by
  obtain ⟨object, entry, effect⟩ := performs
  rw [represents.semTab_eq_sem] at entry
  have inside := (List.getElem?_eq_some_iff.mp entry).1
  rcases effect with ⟨-, rfl⟩ | ⟨-, -, rfl⟩
  all_goals exact ⟨_, represents.setSlot inside, map_name_set entry rfl⟩

theorem create (kept : Kept events state objects) {found index : Int}
    (code : call.code = some .createSemaphore)
    (fewer : after.underWay ⊆ state.underWay)
    (success : state.semTab.create call.name (call.registers r5) = .ok (index, after.semTab)) :
    ∃ objects, Kept (events ++ [.returned call found (BitVec.ofInt 32 index)]) after objects := by
  have fails : index = -1 → after.semTab = state.semTab →
      Kept (events ++ [.returned call found (BitVec.ofInt 32 index)])
        after objects := by
    rintro rfl same
    refine kept.operate (if_neg fun both => both.2 rfl) fewer ?_ rfl
    rw [same]
    exact kept.represents
  by_cases room : objects.length < maxSemaphore
  · by_cases first : position objects call.name = some 0
    · rw [kept.represents.create_of_first first] at success
      obtain ⟨minus, same⟩ := Prod.mk.inj (Except.ok.inj success)
      exact ⟨objects, fails minus.symm same.symm⟩
    · rw [kept.represents.create_of_room first room] at success
      obtain ⟨object, fits, success⟩ := bind_ok_inv success
      obtain ⟨rfl, same⟩ := Prod.mk.inj (Except.ok.inj success)
      cases (Sem.new_inv fits).2
      refine ⟨objects ++ [⟨call.name, call.registers r5⟩], ?_, ?_, ?_⟩
      · rw [← same]
        exact kept.represents.push room _
      · rw [List.map_append]
        have pushed := kept.recorded.push found code (by
          rw [List.length_map]
          exact room)
        rw [List.length_map] at pushed
        exact pushed
      · intro other began member name place exist
        exact position_append (kept.pending other began (fewer member) name place exist) _
  · rw [kept.represents.create_of_full room] at success
    obtain ⟨minus, same⟩ := Prod.mk.inj (Except.ok.inj success)
    exact ⟨objects, fails minus.symm same.symm⟩

theorem step (kept : Kept events state objects) {event : SemaphoreEvent}
    (step : SemaphoreStep state event after) :
    ∃ objects, Kept (events ++ [event]) after objects := by
  cases event with
  | began call =>
    cases step with
    | began isCall =>
      refine ⟨objects, kept.represents, kept.recorded.skip rfl, ?_⟩
      intro other began member name index exist
      rcases List.mem_cons.mp member with same | earlier
      · cases same
        exact kept.position_of_isExist exist
      · exact kept.pending other began earlier name index exist
  | returned call found result =>
    obtain ⟨effect, fewer, -⟩ := step.effect
    obtain ⟨table, underWay⟩ := after
    simp only at effect
    cases effect with
    | created code success => exact kept.create code fewer success
    | refused isOperation | missing isOperation =>
      exact ⟨objects, kept.operate (created_eq_none isOperation) fewer kept.represents rfl⟩
    | performed isOperation later performed =>
      obtain ⟨changed, represents, names⟩ :=
        performs kept.represents performed
      exact ⟨changed, kept.operate (created_eq_none isOperation) fewer represents names⟩

end Kept

theorem Kept.boot (freshWords : Fin (numWords maxSemaphore) → Word) :
    Kept [] (SemaphoreState.boot freshWords) [] where
  represents := STable.represents_new freshWords
  recorded := ⟨rfl, fun _ _ entry => by simp at entry⟩
  pending := nofun

variable {events : List SemaphoreEvent}

theorem Kept.run {freshWords : Fin (numWords maxSemaphore) → Word}
    (run : Run SemaphoreStep (.boot freshWords) events state) :
    ∃ objects, Kept events state objects :=
  run.history (fun events state => ∃ objects, Kept events state objects)
    ⟨[], Kept.boot freshWords⟩ fun _ _ _ _ ⟨_, kept⟩ taken => kept.step taken

/-- A host which gives fresh buffers and nothing else. -/
def bufferHost : Environment Unit
  | .newChars _, shared => .ok (some fun _ => 0#8, shared)
  | _, _ => .error .blocked

theorem wakesWith_bufferHost (woken : STable) : WakesWith bufferHost (fun _ => false) woken where
  stays := by
    intro call shared reply after _ success
    unfold bufferHost at success
    split at success <;> cases success
    exact ⟨rfl, rfl⟩
  wakes := by
    intro call shared reply after sleeps success
    unfold bufferHost at success
    split at success <;> cases success
    cases sleeps

/-- A program with the strings `a` at address 0 and `b` at address 2. -/
def namingCaller (registers : Registers) (semTab : STable) : Kernel Unit where
  registers := registers
  shared :=
    { mainMemory := fun address => [97#8, 0#8, 98#8, 0#8].getD address 0#8
      mmu := ⟨some [⟨0#32, 0#32, true, false, false, false⟩], none⟩
      openf := fun _ => none
      semTab := semTab
      rest := () }

instance : DecidablePred SemaphoreCall.IsSemaphoreCall := fun call =>
  inferInstanceAs (Decidable (call.code = some .createSemaphore ∨
    call.code = some .signal ∨ call.code = some .wait))

def trySemaphoreCall (before : SemaphoreState) : SemaphoreEvent → Option SemaphoreState
  | .began _ => none
  | .returned call found result => do
    let place ← (before.semTab.isExist call.name).toOption
    let kernel := namingCaller call.registers before.semTab
    let (buffer, _) ← ((userToSystem (call.registers r4)
      (maxNameLength + 1#32)).run (Kernel.answer bufferHost) kernel).toOption
    let (_, final) ← ((exceptionHandler .syscallException).run
      (Kernel.answer bufferHost) kernel).toOption
    if call.IsSemaphoreCall ∧ place = found ∧
        buffer.map cString = some call.name ∧
        final.registers r2 = result then
      some { before with semTab := final.shared.semTab }
    else none

theorem semaphoreStep_of_trySemaphoreCall (before : SemaphoreState)
    (event : SemaphoreEvent) (after : SemaphoreState)
    (tried : trySemaphoreCall before event = some after) :
    SemaphoreStep before event after := by
  cases event with
  | began call => cases tried
  | returned call found result =>
    obtain ⟨place, exist, tried⟩ := Option.bind_eq_some_iff.mp tried
    obtain ⟨⟨buffer, read⟩, copied, tried⟩ :=
      Option.bind_eq_some_iff.mp tried
    obtain ⟨⟨_, final⟩, ran, tried⟩ := Option.bind_eq_some_iff.mp tried
    simp only at tried
    split_ifs at tried with accepted
    cases tried
    obtain ⟨isCall, rfl, name, rfl⟩ := accepted
    obtain ⟨buffer, rfl, same⟩ := Option.map_eq_some_iff.mp name
    have returns : CallReturns before.semTab before.semTab call false
        (final.registers r2) final.shared.semTab :=
      ⟨Unit, bufferHost, fun _ => false, _, read, final, buffer,
        wakesWith_bufferHost _, rfl, eq_ok_of_toOption copied, same,
        eq_ok_of_toOption ran, rfl, rfl, rfl⟩
    exact .atOnce isCall (eq_ok_of_toOption exist) returns

/-- A system call with arguments in registers 4 and 5. -/
def namedCall (code address init : Word) (name : CString) :
    SemaphoreCall :=
  ⟨update (update (update (fun _ => 0#32) r2 code) r4 address) r5 init, name⟩

/-- The creations of the semaphores `a` and `b`. -/
def createA : SemaphoreEvent := .returned (namedCall 17#32 0#32 1#32 [97#8]) (-1) 0#32

def createB : SemaphoreEvent := .returned (namedCall 17#32 2#32 1#32 [98#8]) (-1) 1#32

/-- A call of this kind has worked on the semaphore in a slot. -/
def SemaphoreEvent.performs (code : Syscall) (slot : Fin maxSemaphore) : SemaphoreEvent → Bool
  | .began _ => false
  | .returned call found result =>
    call.code = some code ∧ found = slot.val ∧ result = 0#32

def signals (slot : Fin maxSemaphore) (events : List SemaphoreEvent) : Nat :=
  events.countP (SemaphoreEvent.performs .signal slot)

def waits (slot : Fin maxSemaphore) (events : List SemaphoreEvent) : Nat :=
  events.countP (SemaphoreEvent.performs .wait slot)

/-- A step which does not signal a semaphore of the largest value. -/
def BoundedStep (slot : Fin maxSemaphore) (before : SemaphoreState)
    (event : SemaphoreEvent) (after : SemaphoreState) : Prop :=
  SemaphoreStep before event after ∧
    (event.performs .signal slot = true → ∀ object,
      before.semTab.semTab slot = .sem object →
      object.value ≠ 2147483647#32)

/-- The value in a slot counts the calls. -/
structure Counts (slot : Fin maxSemaphore) (init : Int)
    (events : List SemaphoreEvent) (table : STable) (object : Sem) :
    Prop where
  marked : table.bm.test slot = true
  entry : table.semTab slot = .sem object
  value : object.value.toInt = init + signals slot events - waits slot events
  nonnegative : 0 ≤ object.value.toInt

namespace Counts

variable {slot : Fin maxSemaphore} {init : Int} {events : List SemaphoreEvent}
  {table : STable} {object : Sem} {event : SemaphoreEvent}

section

variable (counts : Counts slot init events table object)
include counts

theorem skip (noSignal : event.performs .signal slot = false)
    (noWait : event.performs .wait slot = false) (changed : STable)
    (marked : changed.bm.test slot = true) (entry : changed.semTab slot = table.semTab slot) :
    Counts slot init (events ++ [event]) changed object := by
  refine ⟨marked, entry.trans counts.entry, ?_, counts.nonnegative⟩
  simp only [signals, waits, List.countP_append, List.countP_singleton, noSignal, noWait]
  exact counts.value

theorem signal (isSignal : event.performs .signal slot = true)
    (noWait : event.performs .wait slot = false) (below : object.value ≠ 2147483647#32) :
    Counts slot init (events ++ [event])
      (table.setSlot slot { object with value := object.value + 1 })
      { object with value := object.value + 1 } := by
  have raised := toInt_add_one counts.nonnegative below
  have value := counts.value
  have nonnegative := counts.nonnegative
  refine ⟨counts.marked, update_self .., ?_, ?_⟩
  · simp only [signals, waits, List.countP_append, List.countP_singleton,
      isSignal, noWait, raised, if_true, Bool.false_eq_true,
      if_false] at value ⊢
    omega
  · simp only [raised]
    omega

theorem wait (isWait : event.performs .wait slot = true)
    (noSignal : event.performs .signal slot = false) (available : object.value ≠ 0#32) :
    Counts slot init (events ++ [event])
      (table.setSlot slot { object with value := object.value - 1 })
      { object with value := object.value - 1 } := by
  have lowered := toInt_sub_one counts.nonnegative available
  have value := counts.value
  have nonnegative := counts.nonnegative
  have positive : object.value.toInt ≠ 0 := fun zero =>
    available (BitVec.eq_of_toInt_eq zero)
  refine ⟨counts.marked, update_self .., ?_, ?_⟩
  · simp only [signals, waits, List.countP_append, List.countP_singleton,
      isWait, noSignal, lowered, if_true, Bool.false_eq_true,
      if_false] at value ⊢
    omega
  · simp only [lowered]
    omega

end

theorem step {state after : SemaphoreState} (counts : Counts slot init events state.semTab object)
    (taken : BoundedStep slot state event after) :
    ∃ object, Counts slot init (events ++ [event]) after.semTab object := by
  obtain ⟨taken, bounded⟩ := taken
  cases event with
  | began call =>
    cases taken with
    | began _ => exact ⟨object, counts.skip rfl rfl _ counts.marked rfl⟩
  | returned call found result =>
    obtain ⟨effect, -, -⟩ := taken.effect
    obtain ⟨table, underWay⟩ := after
    simp only at effect ⊢
    cases effect with
    | @created _ index _ code success =>
      have others : ∀ kind, kind ≠ .createSemaphore → (SemaphoreEvent.returned call found
            (BitVec.ofInt 32 index)).performs kind slot = false := by
        intro kind other
        simp [SemaphoreEvent.performs, code, other.symm]
      have skipped := counts.skip (others .signal nofun) (others .wait nofun)
      rcases STable.create_inv success with
        ⟨rfl, rfl⟩ | ⟨fresh, rfl, unset, rfl⟩
      · exact ⟨object, skipped _ counts.marked rfl⟩
      · have apart : slot ≠ fresh := by
          rintro rfl
          rw [counts.marked] at unset
          cases unset
        refine ⟨object, skipped _ ?_ (update_of_ne apart ..)⟩
        change (state.semTab.bm.mark fresh).test slot = true
        rw [BitMap.test_mark, counts.marked, Bool.or_true]
    | refused _ | missing _ =>
      exact ⟨object, counts.skip (by simp [SemaphoreEvent.performs])
        (by simp [SemaphoreEvent.performs]) _ counts.marked rfl⟩
    | @performed place _ isOperation later performed =>
      obtain ⟨held, entry, effect⟩ := performed
      by_cases here : place = slot
      · subst here
        cases counts.entry.symm.trans entry
        rcases effect with ⟨code, rfl⟩ | ⟨code, available, rfl⟩
        · have isSignal : (SemaphoreEvent.returned call place.val
              0#32).performs .signal place = true := by
            simp [SemaphoreEvent.performs, code]
          exact ⟨_, counts.signal isSignal (by simp [SemaphoreEvent.performs, code])
            (bounded isSignal object entry)⟩
        · exact ⟨_, counts.wait (by simp [SemaphoreEvent.performs, code])
            (by simp [SemaphoreEvent.performs, code]) available⟩
      · have elsewhere : ∀ kind, (SemaphoreEvent.returned call place.val
            0#32).performs kind slot = false := by
          intro kind
          have apart : place.val ≠ slot.val := fun same =>
            here (Fin.ext same)
          simp [SemaphoreEvent.performs, apart]
        refine ⟨object, counts.skip (elsewhere _) (elsewhere _) _ ?_ ?_⟩
        · rcases effect with ⟨-, rfl⟩ | ⟨-, -, rfl⟩ <;> exact counts.marked
        · rcases effect with ⟨-, rfl⟩ | ⟨-, -, rfl⟩ <;> exact update_of_ne (Ne.symm here) ..

end Counts

/-- The semaphore of a successful creation is safe, as long as nobody
signals it at the largest value, just if it was created with a value which
is not negative. -/
theorem created_semaphore_safe_iff {before middle : SemaphoreState}
    {call : SemaphoreCall} {found : Int} {result : Word}
    (step : SemaphoreStep before (.returned call found result) middle)
    (code : call.code = some .createSemaphore) (success : result ≠ -1#32) :
    ∃ slot : Fin maxSemaphore, result = BitVec.ofNat 32 slot.val ∧
      ((∀ events after, Run (BoundedStep slot) middle events after →
          ∃ object, after.semTab.semTab slot = .sem object ∧
            0 ≤ object.value.toInt ∧
            (waits slot events : Int) ≤
              (call.registers r5).toInt + signals slot events) ↔
        0 ≤ (call.registers r5).toInt) := by
  obtain ⟨effect, -, -⟩ := step.effect
  obtain ⟨table, underWay⟩ := middle
  simp only at effect
  cases effect with
  | created _ created =>
    rcases STable.create_inv created with
      ⟨rfl, -⟩ | ⟨slot, rfl, unset, rfl⟩
    · exact absurd rfl success
    · refine ⟨slot, rfl, ?_, ?_⟩
      · intro safe
        obtain ⟨object, entry, nonnegative, -⟩ := safe [] _ .refl
        cases (update_self ..).symm.trans entry
        exact nonnegative
      · intro nonnegative events after run
        have initial : Counts slot (call.registers r5).toInt []
            ({ before.semTab with bm := before.semTab.bm.mark slot
              }.setSlot slot ⟨call.name, call.registers r5⟩)
            ⟨call.name, call.registers r5⟩ :=
          ⟨by simp [STable.setSlot], update_self .., by simp [signals, waits], nonnegative⟩
        obtain ⟨object, counts⟩ := run.history (fun events state =>
          ∃ object, Counts slot (call.registers r5).toInt events state.semTab object) ⟨_, initial⟩
          (by rintro _ _ _ _ ⟨_, counts⟩ taken; exact counts.step taken)
        have value := counts.value
        have final := counts.nonnegative
        exact ⟨object, counts.entry, final, by omega⟩
  | refused isOperation | missing isOperation
  | performed isOperation _ _ =>
    rcases isOperation with other | other <;> simp [code] at other

/-- The second semaphore of the table, created with the value 1. -/
theorem created_semaphore_safe_of_one : ∃ before middle, Run SemaphoreStep (.boot fun _ => 0#32)
      [createA] before ∧
    SemaphoreStep before createB middle ∧
    ∃ slot : Fin maxSemaphore, 1#32 = BitVec.ofNat 32 slot.val ∧
      ∀ events after, Run (BoundedStep slot) middle events after →
        ∃ object, after.semTab.semTab slot = .sem object ∧
          0 ≤ object.value.toInt ∧
          (waits slot events : Int) ≤ (1#32 : Word).toInt + signals slot events := by
  obtain ⟨middle, run, -⟩ : ∃ middle, Run SemaphoreStep (.boot fun _ => 0#32)
      ([createA] ++ [createB]) middle ∧ True :=
    exists_run_of_replay semaphoreStep_of_trySemaphoreCall (by decide +kernel)
  obtain ⟨before, first, step⟩ := run.snoc_inv
  obtain ⟨slot, place, safe⟩ :=
    created_semaphore_safe_iff step rfl (by decide)
  exact ⟨before, middle, first, step, slot, place, safe.mpr (by decide)⟩

/-- A semaphore created with the value -1 lets a `Wait` through, and one
created with the largest value gets a negative value by a `Signal`. -/
theorem negative_semaphore_lets_wait_return : (∃ state, Run SemaphoreStep (.boot fun _ => 0#32)
        [createA, .returned (namedCall 17#32 2#32 (-1#32) [98#8]) (-1) 1#32,
          .returned (namedCall 19#32 2#32 0#32 [98#8]) 1 0#32] state ∧
      state.semTab.semTab ⟨1, by decide⟩ = .sem ⟨[98#8], -2#32⟩) ∧
    ∃ state, Run SemaphoreStep (.boot fun _ => 0#32)
        [createA, .returned (namedCall 17#32 2#32 2147483647#32 [98#8]) (-1) 1#32,
          .returned (namedCall 18#32 2#32 0#32 [98#8]) 1 0#32] state ∧
      state.semTab.semTab ⟨1, by decide⟩ = .sem ⟨[98#8], -2147483648#32⟩ :=
  ⟨exists_run_of_replay semaphoreStep_of_trySemaphoreCall
      (by decide +kernel),
    exists_run_of_replay semaphoreStep_of_trySemaphoreCall (by decide +kernel)⟩

end Nachos
