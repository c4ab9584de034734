import Nachos.Lib.Transition
import Nachos.Lib.Update
import Nachos.Userprog.STable

/-!
# The semaphore table as a list

Slots are taken in ascending order and never given back, so a table whose
slots were `NULL` at the start stands for the list of the semaphores created
so far.  `IsExist` searches this list, but `Create` tests its result as a
truth value.  It refuses a name only when the first semaphore has it, and a
name further back in the list can be created again.  A name which does not
fit the array of a `Sem` is not refused either.
-/

open Words Transition Function

namespace Nachos

theorem Sem.new_inv {name : CString} {initVal : Word} {object : Sem}
    (success : Sem.new name initVal = .ok object) :
    name.length < 50 ∧ object = ⟨name, initVal⟩ := by
  unfold Sem.new at success
  split_ifs at success with fits
  exact ⟨fits, (Except.ok.inj success).symm⟩

/-- The slot with this entry of the list. -/
def SemSlot.ofEntry : Option Sem → SemSlot
  | some object => .sem object
  | none => .null

/-- The first semaphores of the table are those of the list, and the rest of
the table is empty. -/
structure STable.Represents (table : STable) (objects : List Sem) :
    Prop where
  fits : objects.length ≤ maxSemaphore
  slots : ∀ index, table.semTab index = .ofEntry objects[index.val]?
  bits : ∀ index, table.bm.test index = true ↔ index.val < objects.length

/-- The position of the first semaphore with a name. -/
def position (objects : List Sem) (name : CString) : Option Nat :=
  objects.findIdx? fun object => object.name = name

theorem position_eq_some {objects : List Sem} {name : CString} {index : Nat} :
    position objects name = some index ↔
      (∃ object, objects[index]? = some object ∧ object.name = name) ∧
      ∀ earlier < index, ∀ object, objects[earlier]? = some object → object.name ≠ name := by
  unfold position
  rw [List.findIdx?_eq_some_iff_getElem]
  constructor
  · rintro ⟨inside, named, first⟩
    refine ⟨⟨objects[index], List.getElem?_eq_getElem inside, of_decide_eq_true named⟩, ?_⟩
    intro earlier before object found
    obtain ⟨within, rfl⟩ := List.getElem?_eq_some_iff.mp found
    simpa using first earlier before
  · rintro ⟨⟨object, found, named⟩, first⟩
    obtain ⟨inside, rfl⟩ := List.getElem?_eq_some_iff.mp found
    refine ⟨inside, decide_eq_true named, ?_⟩
    intro earlier before
    have differs := first earlier before objects[earlier] (List.getElem?_eq_getElem _)
    simpa using differs

theorem position_eq_none {objects : List Sem} {name : CString} :
    position objects name = none ↔ name ∉ objects.map Sem.name := by
  unfold position
  rw [List.findIdx?_eq_none_iff]
  simp

namespace STable

variable {table : STable} {objects : List Sem} {name : CString}

/-- A semaphore with this name is in the slot. -/
def Named (table : STable) (name : CString) (index : Fin maxSemaphore) :
    Prop :=
  ∃ object, table.semTab index = .sem object ∧ object.name = name

/-- `IsExist` on slots of which none is wild, up to the first with the
name. -/
theorem isExistFrom_append {front rest : List (Fin maxSemaphore)}
    (passed : ∀ index ∈ front, table.semTab index ≠ .wild ∧ ¬table.Named name index) :
    table.isExistFrom name (front ++ rest) =
      table.isExistFrom name rest := by
  induction front with
  | nil => rfl
  | cons index front induction =>
    have tail := induction fun later member =>
      passed later (List.mem_cons_of_mem _ member)
    obtain ⟨tame, unnamed⟩ := passed index List.mem_cons_self
    rw [List.cons_append, isExistFrom]
    cases entry : table.semTab index with
    | null => exact tail
    | wild => exact absurd entry tame
    | sem object =>
      have differs : object.name ≠ name :=
        fun same => unnamed ⟨object, entry, same⟩
      simp only [if_neg differs]
      exact tail

theorem finRange_eq_append (index : Fin maxSemaphore) :
    List.finRange maxSemaphore =
      (List.finRange maxSemaphore).take index.val ++
        index :: (List.finRange maxSemaphore).drop (index.val + 1) := by
  have tail := List.drop_eq_getElem_cons
    (l := List.finRange maxSemaphore) (i := index.val) (by simp)
  rw [List.getElem_finRange] at tail
  exact (List.take_append_drop index.val _).symm.trans (congrArg _ tail)

theorem lt_of_mem_take {index earlier : Fin maxSemaphore}
    (member : earlier ∈ (List.finRange maxSemaphore).take index.val) :
    earlier < index := by
  obtain ⟨place, inside, rfl⟩ := List.mem_take_iff_getElem.mp member
  rw [List.getElem_finRange]
  exact (Nat.lt_min.mp inside).1

theorem isExist_of_first {index : Fin maxSemaphore} (named : table.Named name index)
    (passed : ∀ earlier < index, table.semTab earlier ≠ .wild ∧ ¬table.Named name earlier) :
    table.isExist name = .ok index.val := by
  obtain ⟨object, entry, same⟩ := named
  unfold isExist
  rw [finRange_eq_append index, isExistFrom_append fun earlier member =>
    passed earlier (lt_of_mem_take member), isExistFrom, entry]
  exact if_pos same

theorem isExist_of_absent (passed : ∀ index, table.semTab index ≠ .wild ∧ ¬table.Named name index) :
    table.isExist name = .ok (-1) := by
  unfold isExist
  rw [← List.append_nil (List.finRange maxSemaphore),
    isExistFrom_append fun index _ => passed index]
  rfl

namespace Represents

variable (represents : table.Represents objects)
include represents

theorem tame (index : Fin maxSemaphore) : table.semTab index ≠ .wild := by
  rw [represents.slots]
  cases objects[index.val]? <;> nofun

theorem semTab_eq_sem {index : Fin maxSemaphore} {object : Sem} :
    table.semTab index = .sem object ↔ objects[index.val]? = some object := by
  rw [represents.slots]
  cases objects[index.val]? with
  | none => exact ⟨nofun, nofun⟩
  | some entry => simp [SemSlot.ofEntry]

theorem named {index : Fin maxSemaphore} :
    table.Named name index ↔ ∃ object, objects[index.val]? = some object ∧ object.name = name := by
  simp only [Named, represents.semTab_eq_sem]

theorem named_zero : table.Named name ⟨0, by decide⟩ ↔ position objects name = some 0 := by
  rw [represents.named, position_eq_some]
  exact ⟨fun named => ⟨named, nofun⟩, And.left⟩

theorem lt_maxSemaphore {index : Nat} {object : Sem}
    (found : objects[index]? = some object) : index < maxSemaphore :=
  Nat.lt_of_lt_of_le (List.getElem?_eq_some_iff.mp found).1 represents.fits

theorem isExist_eq : table.isExist name = .ok (match position objects name with
      | some index => (index : Int)
      | none => -1) := by
  cases found : position objects name with
  | some index =>
    obtain ⟨⟨object, entry, same⟩, first⟩ := position_eq_some.mp found
    have inside := represents.lt_maxSemaphore entry
    have here : table.Named name ⟨index, inside⟩ :=
      represents.named.mpr ⟨object, entry, same⟩
    refine isExist_of_first here ?_
    intro earlier before
    refine ⟨represents.tame earlier, ?_⟩
    intro earlierNamed
    obtain ⟨other, otherEntry, sameName⟩ :=
      represents.named.mp earlierNamed
    exact first earlier.val before other otherEntry sameName
  | none =>
    refine isExist_of_absent fun index => ⟨represents.tame index, ?_⟩
    intro indexNamed
    obtain ⟨object, entry, same⟩ := represents.named.mp indexNamed
    refine position_eq_none.mp found ?_
    exact List.mem_map.mpr ⟨object, List.mem_of_getElem? entry, same⟩

theorem setSlot {slot : Fin maxSemaphore} {object : Sem} (inside : slot.val < objects.length) :
    (table.setSlot slot object).Represents (objects.set slot.val object) where
  fits := by
    rw [List.length_set]
    exact represents.fits
  slots := by
    simp only [STable.setSlot]
    refine update_cases ?_ fun index here => ?_
    · rw [List.getElem?_set_self inside]
      rfl
    · rw [List.getElem?_set_ne fun same => here (Fin.ext same.symm)]
      exact represents.slots index
  bits := by
    rw [List.length_set]
    exact represents.bits

theorem find_eq (room : objects.length < maxSemaphore) :
    table.bm.find = ((objects.length : Int), table.bm.mark ⟨objects.length, room⟩) := by
  have unset : table.bm.test ⟨objects.length, room⟩ = false := by
    rw [Bool.eq_false_iff, Ne, represents.bits]
    exact Nat.lt_irrefl _
  exact BitMap.find_first unset fun other below =>
    (represents.bits other).mpr below

theorem find_eq_of_full (full : ¬objects.length < maxSemaphore) :
    table.bm.find = (-1, table.bm) := by
  refine BitMap.find_of_full (List.countP_eq_zero.mpr fun index _ => ?_)
  have marked : table.bm.test index = true :=
    (represents.bits index).mpr (Nat.lt_of_lt_of_le index.isLt (Nat.le_of_not_lt full))
  simp [marked]

theorem push (room : objects.length < maxSemaphore) (object : Sem) :
    ({ table with bm := table.bm.mark ⟨objects.length, room⟩ }.setSlot
      ⟨objects.length, room⟩ object).Represents (objects ++ [object]) where
  fits := by
    rw [List.length_append]
    exact room
  slots := by
    simp only [STable.setSlot]
    refine update_cases ?_ fun index here => ?_
    · rw [List.getElem?_concat_length]
      rfl
    · rw [represents.slots]
      rcases Nat.lt_trichotomy index.val objects.length with
        below | same | above
      · rw [List.getElem?_append_left below]
      · exact absurd (Fin.ext same) here
      · rw [List.getElem?_eq_none (Nat.le_of_lt above), List.getElem?_eq_none (by
            rw [List.length_append]
            exact above)]
  bits := by
    intro index
    change (table.bm.mark ⟨objects.length, room⟩).test index = true ↔ _
    rw [BitMap.test_mark, Bool.or_eq_true, represents.bits,
      List.length_append, decide_eq_true_eq, Fin.ext_iff]
    exact ⟨fun either => either.elim Nat.le_of_eq Nat.le_of_lt |>
      Nat.lt_succ_of_le, fun below => (Nat.lt_succ_iff_lt_or_eq.mp below).symm⟩

theorem create_of_first (first : position objects name = some 0)
    (init : Word) : table.create name init = .ok (-1, table) := by
  simp only [create, represents.isExist_eq, first, ok_bind]
  rfl

theorem isExist_ne_zero (other : position objects name ≠ some 0) :
    ∃ found, table.isExist name = .ok found ∧ found ≠ 0 := by
  refine ⟨_, represents.isExist_eq, ?_⟩
  cases found : position objects name with
  | none => decide
  | some index =>
    intro zero
    rw [found, Int.natCast_eq_zero.mp zero] at other
    exact other rfl

theorem create_of_room (other : position objects name ≠ some 0)
    (room : objects.length < maxSemaphore) (init : Word) :
    table.create name init = Sem.new name init >>= fun object =>
      .ok ((objects.length : Int), { table with bm := table.bm.mark ⟨objects.length, room⟩ }.setSlot
          ⟨objects.length, room⟩ object) := by
  obtain ⟨found, exist, nonzero⟩ := represents.isExist_ne_zero other
  simp only [create, exist, ok_bind, if_neg nonzero, represents.find_eq room,
    Int.natCast_nonneg, Int.toNat_natCast, room, and_self, dite_true]
  rfl

theorem create_of_full (full : ¬objects.length < maxSemaphore)
    (init : Word) : table.create name init = .ok (-1, table) := by
  by_cases first : position objects name = some 0
  · exact represents.create_of_first first init
  · obtain ⟨found, exist, nonzero⟩ := represents.isExist_ne_zero first
    simp only [create, exist, ok_bind, if_neg nonzero, represents.find_eq_of_full full]
    rfl

/-- No slot has the name. -/
theorem unnamed_iff : (∀ index, ¬table.Named name index) ↔ position objects name = none := by
  simp only [position_eq_none, represents.named, List.mem_map]
  constructor
  · rintro unnamed ⟨object, member, same⟩
    obtain ⟨index, found⟩ := List.getElem?_of_mem member
    exact unnamed ⟨index, represents.lt_maxSemaphore found⟩ ⟨object, found, same⟩
  · rintro absent index ⟨object, found, same⟩
    exact absent ⟨object, List.mem_of_getElem? found, same⟩

end Represents

theorem represents_new (freshWords : Fin (numWords maxSemaphore) → Word) :
    (STable.new freshWords fun _ => .null).Represents [] where
  fits := Nat.zero_le _
  slots _ := rfl
  bits index := by simp [STable.new]

/-! ## Sequences of creations -/

/-- A call of `Create` with its result. -/
structure Creation where
  name : CString
  init : Word
  result : Int

def CreateStep (before : STable) (creation : Creation) (after : STable) :
    Prop :=
  before.create creation.name creation.init = .ok (creation.result, after)

/-- No slot has the name, and there is a free slot. -/
def Creatable (table : STable) (name : CString) : Prop :=
  (∀ index, ¬table.Named name index) ∧ ∃ index, table.bm.test index = false

/-- `Create` returns a fresh slot with the new semaphore if the name is new
and a slot is free.  Otherwise it returns -1 and keeps the table. -/
def CreateContract (table : STable) (name : CString) (init : Word) :
    Prop :=
  ∃ result after, table.create name init = .ok (result, after) ∧
    (table.Creatable name → ∃ slot : Fin maxSemaphore,
      result = slot.val ∧ table.bm.test slot = false ∧
      after.semTab = update table.semTab slot
        (.sem ⟨name, init⟩) ∧
      ∀ other, after.bm.test other =
        (decide (other = slot) || table.bm.test other)) ∧
    (¬table.Creatable name → result = -1 ∧ after = table)

/-- There is no free slot, or the name is in slot 0, or it is new and fits a
`Sem`. -/
def Proper (table : STable) (name : CString) : Prop :=
  (∃ index, table.bm.test index = false) →
    table.Named name ⟨0, by decide⟩ ∨ (∀ index, ¬table.Named name index) ∧ name.length < 50

def ProperCreate (before : STable) (creation : Creation) (after : STable) : Prop :=
  CreateStep before creation after ∧ before.Proper creation.name

theorem Represents.room_iff (represents : table.Represents objects) :
    (∃ index, table.bm.test index = false) ↔ objects.length < maxSemaphore := by
  simp only [Bool.eq_false_iff, Ne, represents.bits, Nat.not_lt]
  constructor
  · rintro ⟨index, above⟩
    exact Nat.lt_of_le_of_lt above index.isLt
  · intro room
    exact ⟨⟨objects.length, room⟩, Nat.le_refl _⟩

theorem Represents.creatable_iff (represents : table.Represents objects) :
    table.Creatable name ↔ position objects name = none ∧ objects.length < maxSemaphore := by
  rw [Creatable, represents.room_iff, represents.unnamed_iff]

theorem index_eq_of_name_eq {first second : Nat} {object other : Sem}
    (nodup : (objects.map Sem.name).Nodup)
    (firstEntry : objects[first]? = some object)
    (secondEntry : objects[second]? = some other)
    (same : object.name = other.name) : first = second := by
  have inside : first < (objects.map Sem.name).length := by
    rw [List.length_map]
    exact (List.getElem?_eq_some_iff.mp firstEntry).1
  refine (List.getElem?_inj inside nodup).mp ?_
  rw [List.getElem?_map, List.getElem?_map, firstEntry, secondEntry]
  exact congrArg some same

theorem Represents.proper_iff (represents : table.Represents objects) :
    table.Proper name ↔ (objects.length < maxSemaphore →
      position objects name = some 0 ∨ position objects name = none ∧ name.length < 50) := by
  rw [Proper, represents.room_iff, represents.named_zero, represents.unnamed_iff]

/-- What the table is in every run of proper creations. -/
def Distinct (table : STable) : Prop :=
  ∃ objects, table.Represents objects ∧ (objects.map Sem.name).Nodup

theorem Represents.create_new (represents : table.Represents objects)
    (absent : position objects name = none) (fits : name.length < 50)
    (room : objects.length < maxSemaphore) (init : Word) :
    table.create name init = .ok ((objects.length : Int),
      { table with bm := table.bm.mark ⟨objects.length, room⟩ }.setSlot
        ⟨objects.length, room⟩ ⟨name, init⟩) := by
  rw [represents.create_of_room (by rw [absent]; nofun) room, Sem.new, if_pos fits, ok_bind]

theorem Distinct.step {before after : STable} {creation : Creation} (distinct : before.Distinct)
    (taken : ProperCreate before creation after) : after.Distinct := by
  obtain ⟨objects, represents, nodup⟩ := distinct
  obtain ⟨step, proper⟩ := taken
  rw [represents.proper_iff] at proper
  unfold CreateStep at step
  by_cases room : objects.length < maxSemaphore
  · rcases proper room with first | ⟨absent, fits⟩
    · rw [represents.create_of_first first] at step
      obtain ⟨-, rfl⟩ := Prod.mk.inj (Except.ok.inj step)
      exact ⟨objects, represents, nodup⟩
    · rw [represents.create_new absent fits room] at step
      obtain ⟨-, rfl⟩ := Prod.mk.inj (Except.ok.inj step)
      refine ⟨_, represents.push room _, ?_⟩
      rw [List.map_append, List.map_singleton, ← List.concat_eq_append, List.nodup_concat]
      exact ⟨position_eq_none.mp absent, nodup⟩
  · rw [represents.create_of_full room] at step
    obtain ⟨-, rfl⟩ := Prod.mk.inj (Except.ok.inj step)
    exact ⟨objects, represents, nodup⟩

theorem Represents.contract_iff (represents : table.Represents objects) (init : Word) :
    table.CreateContract name init ↔ table.Proper name := by
  rw [represents.proper_iff]
  constructor
  · rintro ⟨result, after, created, -, otherwise⟩ room
    by_cases first : position objects name = some 0
    · exact .inl first
    · rw [represents.create_of_room first room] at created
      obtain ⟨object, fits, created⟩ := bind_ok_inv created
      cases created
      refine .inr ⟨?_, (Sem.new_inv fits).1⟩
      by_contra old
      have uncreatable : ¬table.Creatable name := fun creatable =>
        old (represents.creatable_iff.mp creatable).1
      exact absurd (otherwise uncreatable).1 (by omega)
  · intro proper
    by_cases room : objects.length < maxSemaphore
    · rcases proper room with first | ⟨absent, fits⟩
      · refine ⟨_, _, represents.create_of_first first init, ?_, fun _ => ⟨rfl, rfl⟩⟩
        intro creatable
        rw [represents.creatable_iff, first] at creatable
        cases creatable.1
      · refine ⟨_, _, represents.create_new absent fits room init, fun _ => ?_,
          fun uncreatable => ?_⟩
        · refine ⟨⟨objects.length, room⟩, rfl, ?_, rfl, fun other => ?_⟩
          · rw [Bool.eq_false_iff, Ne, represents.bits]
            exact Nat.lt_irrefl _
          · exact BitMap.test_mark ..
        · exact absurd (represents.creatable_iff.mpr ⟨absent, room⟩) uncreatable
    · refine ⟨_, _, represents.create_of_full room init, ?_, fun _ => ⟨rfl, rfl⟩⟩
      intro creatable
      exact absurd (represents.creatable_iff.mp creatable).2 room

/-- In every run of proper creations on a table of empty slots the bits mark
the semaphores and the names are distinct, and the next creation keeps its
contract just if it is proper, too. -/
theorem created_semaphores_distinct {freshWords : Fin (numWords maxSemaphore) → Word}
    {creations : List Creation} {table : STable}
    (run : Run ProperCreate (STable.new freshWords fun _ => .null) creations table) :
    (∀ index, table.bm.test index = true ↔
      ∃ object, table.semTab index = .sem object) ∧
    (∀ first second object other, table.semTab first = .sem object →
      table.semTab second = .sem other → object.name = other.name →
      first = second) ∧
    ∀ name init, table.CreateContract name init ↔ table.Proper name := by
  obtain ⟨objects, represents, nodup⟩ := run.history (fun _ => Distinct)
    ⟨[], represents_new freshWords, List.nodup_nil⟩
    fun _ _ _ _ distinct taken => distinct.step taken
  refine ⟨?_, ?_, fun _ => represents.contract_iff⟩
  · intro index
    simp only [represents.bits, represents.semTab_eq_sem, List.getElem?_eq_some_iff]
    exact ⟨fun inside => ⟨_, inside, rfl⟩, fun ⟨_, inside, _⟩ => inside⟩
  · intro first second object other firstEntry secondEntry same
    rw [represents.semTab_eq_sem] at firstEntry secondEntry
    exact Fin.ext (index_eq_of_name_eq nodup firstEntry secondEntry same)

instance (index : Fin maxSemaphore) : Decidable (table.Named name index) :=
  match entry : table.semTab index with
  | .sem object =>
    decidable_of_iff (object.name = name) (by simp [Named, entry])
  | .null => .isFalse (by simp [Named, entry])
  | .wild => .isFalse (by simp [Named, entry])

instance : Decidable (table.Proper name) :=
  inferInstanceAs (Decidable ((∃ index, table.bm.test index = false) →
    table.Named name ⟨0, by decide⟩ ∨ (∀ index, ¬table.Named name index) ∧ name.length < 50))

def tryCreate (before : STable) (creation : Creation) : Option STable :=
  match before.create creation.name creation.init with
  | .ok (result, after) =>
    if result = creation.result then some after else none
  | .error _ => none

theorem createStep_of_tryCreate (before : STable) (creation : Creation)
    (after : STable) (tried : tryCreate before creation = some after) :
    CreateStep before creation after := by
  unfold tryCreate at tried
  split at tried
  · rename_i result table created
    split_ifs at tried with same
    cases tried
    rw [same] at created
    exact created
  · cases tried

def tryProperCreate (before : STable) (creation : Creation) :
    Option STable :=
  if before.Proper creation.name then tryCreate before creation else none

theorem properCreate_of_tryProperCreate (before : STable) (creation : Creation) (after : STable)
    (tried : tryProperCreate before creation = some after) :
    ProperCreate before creation after := by
  unfold tryProperCreate at tried
  split_ifs at tried with proper
  exact ⟨createStep_of_tryCreate before creation after tried, proper⟩

theorem created_semaphores_distinct_of_two :
    ∃ table, Run ProperCreate (STable.new (fun _ => 0#32) fun _ => .null)
        [⟨[97#8], 1#32, 0⟩, ⟨[98#8], 1#32, 1⟩] table ∧
      table.CreateContract [99#8] 1#32 := by
  have created : ∃ table, Run ProperCreate (STable.new (fun _ => 0#32) fun _ => .null)
        [⟨[97#8], 1#32, 0⟩, ⟨[98#8], 1#32, 1⟩] table ∧
      table.Proper [99#8] :=
    exists_run_of_replay properCreate_of_tryProperCreate (by decide +kernel)
  obtain ⟨table, run, proper⟩ := created
  exact ⟨table, run, ((created_semaphores_distinct run).2.2 [99#8] 1#32).mpr proper⟩

/-- The name `b` can be created twice after the name `a`; a name of 50 bytes
does not fit; and on a table whose memory was not zero the first creation
follows a wild pointer. -/
theorem second_create_duplicates_name :
    (∃ table, Run CreateStep (STable.new (fun _ => 0#32) fun _ => .null)
        [⟨[97#8], 1#32, 0⟩, ⟨[98#8], 1#32, 1⟩, ⟨[98#8], 1#32, 2⟩] table ∧
      table.Named [98#8] ⟨1, by decide⟩ ∧
      table.Named [98#8] ⟨2, by decide⟩) ∧
    (STable.new (fun _ => 0#32) fun _ => .null).create (List.replicate 50 97#8) 1#32 =
      .error .bounds ∧
    (STable.new (fun _ => 0#32) fun _ => .wild).create [97#8] 1#32 = .error .bounds :=
  ⟨exists_run_of_replay createStep_of_tryCreate (by decide +kernel), rfl, rfl⟩

end STable

end Nachos
