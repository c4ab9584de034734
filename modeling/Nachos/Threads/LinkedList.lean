import Nachos.Utility
import Nachos.Lib.Chain
import Nachos.Lib.Transition

/-!
# Linked lists

`List` keeps its items in cells which it allocates, linked from `first` to
`last`.  Whatever calls are made, and whatever addresses the allocator picks,
the cells spell out a sequence which the calls change as their names say.
-/

open Chain Transition Function

namespace Nachos

/-- An item, which may be `NULL`, with its sort key. -/
structure Keyed (α : Type) where
  key : Int
  item : Option α

/-- The cells have the fields of `ListElement`. -/
abbrev ListElement (ι α : Type) := Cell ι (Keyed α)

structure LinkedList (ι α : Type) where
  heap : Heap ι (Keyed α)
  first : Option ι
  last : Option ι

inductive ListCall (α : Type) where
  | append (item : Option α)
  | prepend (item : Option α)
  | sortedInsert (item : Option α) (sortKey : Int)
  | remove
  | sortedRemove

/-- Whether a call makes a new element. -/
def ListCall.allocates {α : Type} : ListCall α → Bool
  | .append _ => true
  | .prepend _ => true
  | .sortedInsert _ _ => true
  | .remove => false
  | .sortedRemove => false

inductive ListReply (α : Type) where
  | done
  | removed (thing : Option α)
  | sortedRemoved (thing : Option α) (key : Option Int)

/-- Where the walk of `SortedInsert` has come to. -/
inductive Place (ι : Type) where
  | after (ptr : ι)
  | atEnd
  | unfinished

namespace LinkedList

variable {ι α : Type}

/-! ## The operations

The address of a new element is an argument, since the allocator picks it.
-/

section

variable [DecidableEq ι]

/-- `List::List`, in a heap which has other cells as well. -/
def new (heap : Heap ι (Keyed α)) : LinkedList ι α := ⟨heap, none, none⟩

/-- `List::IsEmpty`. -/
def isEmpty (list : LinkedList ι α) : Bool := list.first.isNone

def deref (heap : Heap ι (Keyed α)) (pointer : Option ι) : Result (ListElement ι α) :=
  inBounds (pointer.bind heap)

/-- `new ListElement(item, sortKey)`. -/
def newElement (heap : Heap ι (Keyed α)) (element : ι) (value : Keyed α) : Heap ι (Keyed α) :=
  update heap element (some ⟨none, value⟩)

/-- `pointer->next = next`. -/
def setNext (heap : Heap ι (Keyed α)) (pointer next : Option ι) : Result (Heap ι (Keyed α)) :=
  match pointer with
  | none => .error .bounds
  | some address =>
    match heap address with
    | none => .error .bounds
    | some cell =>
      .ok (update heap address (some { cell with next := next }))

/-- `delete pointer`. -/
def delete (heap : Heap ι (Keyed α)) : Option ι → Heap ι (Keyed α)
  | none => heap
  | some address => update heap address none

/-- `List::Append`. -/
def append (list : LinkedList ι α) (element : ι) (item : Option α) : Result (LinkedList ι α) := do
  let heap := newElement list.heap element ⟨0, item⟩
  if list.isEmpty then
    return ⟨heap, some element, some element⟩
  else
    let heap ← setNext heap list.last (some element)
    return ⟨heap, list.first, some element⟩

/-- `List::Prepend`. -/
def prepend (list : LinkedList ι α) (element : ι) (item : Option α) : Result (LinkedList ι α) := do
  let heap := newElement list.heap element ⟨0, item⟩
  if list.isEmpty then
    return ⟨heap, some element, some element⟩
  else
    let heap ← setNext heap (some element) list.first
    return ⟨heap, some element, list.last⟩

/-- The loop of `List::SortedInsert`, for at most `fuel` iterations. -/
def walk (heap : Heap ι (Keyed α)) (sortKey : Int) : Nat → ι → Result (Place ι)
  | 0, _ => .ok .unfinished
  | fuel + 1, ptr => do
    let cell ← deref heap (some ptr)
    match cell.next with
    | none => return .atEnd
    | some next =>
      let nextCell ← deref heap (some next)
      if sortKey < nextCell.value.key then return .after ptr
      else walk heap sortKey fuel next

/-- `List::SortedInsert`, or `none` when its walk needs more fuel. -/
def sortedInsert (list : LinkedList ι α) (fuel : Nat) (element : ι)
    (item : Option α) (sortKey : Int) :
    Result (Option (LinkedList ι α)) := do
  let heap := newElement list.heap element ⟨sortKey, item⟩
  match list.first with
  | none => return some ⟨heap, some element, some element⟩
  | some first =>
    let firstCell ← deref heap (some first)
    if sortKey < firstCell.value.key then
      let heap ← setNext heap (some element) list.first
      return some ⟨heap, some element, list.last⟩
    else
      match ← walk heap sortKey fuel first with
      | .unfinished => return none
      | .after ptr =>
        let ptrCell ← deref heap (some ptr)
        let heap ← setNext heap (some element) ptrCell.next
        let heap ← setNext heap (some ptr) (some element)
        return some ⟨heap, list.first, list.last⟩
      | .atEnd =>
        let heap ← setNext heap list.last (some element)
        return some ⟨heap, list.first, some element⟩

/-- `List::SortedRemove`: the thing, what is stored through `keyPtr`, and the
list. -/
def sortedRemove (list : LinkedList ι α) : Result (Option α × Option Int × LinkedList ι α) := do
  if list.isEmpty then return (none, none, list)
  else
    let element ← deref list.heap list.first
    let heap := delete list.heap list.first
    if list.first = list.last then
      return (element.value.item, some element.value.key, ⟨heap, none, none⟩)
    else
      return (element.value.item, some element.value.key, ⟨heap, element.next, list.last⟩)

/-- `List::Remove`. -/
def remove (list : LinkedList ι α) : Result (Option α × LinkedList ι α) := do
  let (thing, _, list) ← list.sortedRemove
  return (thing, list)

def perform (list : LinkedList ι α) (fuel : Nat) (element : ι) :
    ListCall α → Result (Option (ListReply α × LinkedList ι α))
  | .append item => do
    let list ← list.append element item
    return some (.done, list)
  | .prepend item => do
    let list ← list.prepend element item
    return some (.done, list)
  | .sortedInsert item sortKey => do
    let list ← list.sortedInsert fuel element item sortKey
    return list.map fun list => (.done, list)
  | .remove => do
    let (thing, list) ← list.remove
    return some (.removed thing, list)
  | .sortedRemove => do
    let (thing, key, list) ← list.sortedRemove
    return some (.sortedRemoved thing key, list)

end

/-! ## The cells of a list -/

/-- The nodes are the cells from `first` to `last`, and all that the list has
changed in the heap it started with. -/
structure Represents (outside : Heap ι (Keyed α)) (list : LinkedList ι α)
    (nodes : List (ι × Keyed α)) : Prop where
  linked : Segment list.heap list.first nodes none
  ends : list.last = nodes.getLast?.map Prod.fst
  owns : Owns outside list.heap (nodes.map Prod.fst)

theorem represents_new (heap : Heap ι (Keyed α)) : Represents heap (new heap) [] where
  linked := rfl
  ends := rfl
  owns := .nil heap

@[simp] theorem deref_eq {heap : Heap ι (Keyed α)} {address : ι}
    {cell : ListElement ι α} (stored : heap address = some cell) :
    deref heap (some address) = .ok cell := by
  simp [deref, stored]

section

variable {outside : Heap ι (Keyed α)} {list : LinkedList ι α}
  {nodes left right : List (ι × Keyed α)} {node : ι × Keyed α}
  {element : ι} {value : Keyed α}

theorem Represents.notMem (represents : Represents outside list nodes)
    (free : list.heap element = none) : element ∉ nodes.map Prod.fst := by
  intro member
  exact represents.linked.ne_none member free

theorem Represents.isEmpty_eq (represents : Represents outside list nodes) :
    list.isEmpty = nodes.isEmpty := by
  rw [Bool.eq_iff_iff, isEmpty, Option.isNone_iff_eq_none, List.isEmpty_iff]
  exact represents.linked.start_eq_none_iff

/-! ## What the walk finds -/

/-- Where a walk which has come to `node` ends, by what is behind it. -/
def placeBehind (node : ι × Keyed α) : List (ι × Keyed α) → Place ι
  | [] => .atEnd
  | _ :: _ => .after node.1

/-- The walk passes the nodes whose keys are not greater, if it is not cut
short. -/
theorem walk_spec {heap : Heap ι (Keyed α)} {sortKey : Int}
    (segment : Segment heap (some node.1) (node :: nodes) none)
    (notFront : ¬sortKey < node.2.key) :
    ∃ left found right, node :: nodes = left ++ found :: right ∧
      (∀ passed ∈ left ++ [found], ¬sortKey < passed.2.key) ∧
      (∀ next ∈ right.head?, sortKey < next.2.key) ∧
      ∀ fuel, walk heap sortKey fuel node.1 =
          .ok (placeBehind found right) ∨
        walk heap sortKey fuel node.1 = .ok .unfinished ∧ fuel ≤ nodes.length := by
  induction nodes generalizing node with
  | nil =>
    obtain ⟨-, next, stored, ends⟩ := segment
    refine ⟨[], node, [], rfl, by simpa using notFront, by simp, ?_⟩
    intro fuel
    cases fuel with
    | zero => exact .inr ⟨rfl, Nat.le_refl 0⟩
    | succ fuel =>
      left
      obtain rfl : next = none := ends
      simp only [walk, deref_eq stored, ok_bind]
      rfl
  | cons behind nodes induction =>
    obtain ⟨-, next, stored, rest⟩ := segment
    obtain rfl : next = some behind.1 := rest.1
    have behindStored := rest.2.choose_spec.1
    by_cases greater : sortKey < behind.2.key
    · refine ⟨[], node, behind :: nodes, rfl, by simpa using notFront, by simpa using greater, ?_⟩
      intro fuel
      cases fuel with
      | zero => exact .inr ⟨rfl, Nat.zero_le _⟩
      | succ fuel =>
        left
        simp only [walk, deref_eq stored, deref_eq behindStored, ok_bind, greater, if_true]
        rfl
    · obtain ⟨left, found, right, split, passed, stops, finds⟩ :=
        induction rest greater
      refine ⟨node :: left, found, right, ?_, ?_, stops, ?_⟩
      · rw [split, List.cons_append]
      · rw [List.cons_append, List.forall_mem_cons]
        exact ⟨notFront, passed⟩
      · intro fuel
        cases fuel with
        | zero => exact .inr ⟨rfl, Nat.zero_le _⟩
        | succ fuel =>
          simp only [walk, deref_eq stored, deref_eq behindStored,
            ok_bind, greater, if_false, List.length_cons,
            Nat.add_le_add_iff_right]
          exact finds fuel

/-! ## Changing the cells -/

variable [DecidableEq ι]

theorem setNext_eq {heap : Heap ι (Keyed α)} {address : ι}
    {cell : ListElement ι α} (stored : heap address = some cell)
    (next : Option ι) :
    setNext heap (some address) next = .ok (update heap address (some ⟨next, cell.value⟩)) := by
  simp [setNext, stored]

theorem newElement_self (heap : Heap ι (Keyed α)) (element : ι) (value : Keyed α) :
    newElement heap element value element = some ⟨none, value⟩ := by
  simp [newElement]

theorem Represents.putFirst (represents : Represents outside list [])
    (free : list.heap element = none) :
    Represents outside ⟨newElement list.heap element value, some element,
      some element⟩ [(element, value)] where
  linked := ⟨rfl, none, newElement_self _ _ _, rfl⟩
  ends := rfl
  owns := by
    apply represents.owns.insert (represents.notMem free) free
    · exact List.Perm.refl _
    · intro other absent
      apply update_of_ne
      simpa using absent

theorem Represents.putFront (represents : Represents outside list (node :: nodes))
    (free : list.heap element = none) :
    ∃ heap, setNext (newElement list.heap element value) (some element)
        list.first = .ok heap ∧
      Represents outside ⟨heap, some element, list.last⟩ ((element, value) :: node :: nodes) := by
  refine ⟨_, setNext_eq (newElement_self _ _ _) _, ?_⟩
  unfold newElement
  rw [update_idem]
  refine ⟨?_, ?_, ?_⟩
  · exact represents.linked.cons (represents.notMem free) value
  · rw [represents.ends, List.getLast?_cons_cons]
  · apply represents.owns.insert (represents.notMem free) free
    · exact List.Perm.refl _
    · intro other absent
      apply update_of_ne
      rintro rfl
      simp at absent

theorem Represents.insert (represents : Represents outside list (left ++ node :: right))
    (free : list.heap element = none) {last : Option ι}
    (ends : last = ((element, value) :: right).getLast?.map Prod.fst) :
    ∃ next, list.heap node.1 = some ⟨next, node.2⟩ ∧ Represents outside ⟨update
        (update list.heap element (some ⟨next, value⟩)) node.1
        (some ⟨some element, node.2⟩), list.first, last⟩
        (left ++ node :: (element, value) :: right) := by
  obtain ⟨next, stored, linked⟩ := represents.linked.insert
    represents.owns.nodup (represents.notMem free) value
  refine ⟨next, stored, linked, ?_, ?_⟩
  · rw [ends, List.getLast?_append_cons, List.getLast?_cons_cons]
  · apply represents.owns.insert (represents.notMem free) free
    · simp only [List.map_append, List.map_cons]
      exact (List.Perm.swap _ _ _).append_left _ |>.trans List.perm_middle
    · intro other absent
      simp only [List.map_append, List.map_cons, List.mem_append, List.mem_cons, not_or] at absent
      dsimp only
      rw [update_of_ne absent.2.1, update_of_ne absent.2.2.1]

theorem Represents.putLast (represents : Represents outside list (left ++ [node]))
    (free : list.heap element = none) :
    ∃ heap, setNext (newElement list.heap element value) list.last
        (some element) = .ok heap ∧
      Represents outside ⟨heap, list.first, some element⟩
        (left ++ [node] ++ [(element, value)]) := by
  have other : node.1 ≠ element := by
    rintro rfl
    exact represents.notMem free (by simp)
  have stored := represents.linked.last_link
  have kept : newElement list.heap element value node.1 = some ⟨none, node.2⟩ := by
    rw [newElement, update_of_ne other, stored]
  have ends : some element = ([(element, value)].getLast?).map Prod.fst := rfl
  obtain ⟨next, same, after⟩ := represents.insert free ends
  obtain rfl : next = none := by
    rw [stored] at same
    simpa using same.symm
  have last : list.last = some node.1 := by
    rw [represents.ends]
    simp
  rw [last, List.append_assoc]
  exact ⟨_, setNext_eq kept _, after⟩

theorem Represents.putBetween {behind : ι × Keyed α}
    (represents : Represents outside list (left ++ node :: behind :: right))
    (free : list.heap element = none) :
    ∃ cell linked heap,
      deref (newElement list.heap element value) (some node.1) =
        .ok cell ∧
      setNext (newElement list.heap element value) (some element)
        cell.next = .ok linked ∧
      setNext linked (some node.1) (some element) = .ok heap ∧
      Represents outside ⟨heap, list.first, list.last⟩
        (left ++ node :: (element, value) :: behind :: right) := by
  have other : node.1 ≠ element := by
    rintro rfl
    exact represents.notMem free (by simp)
  have ends : list.last = ((element, value) :: behind :: right).getLast?.map Prod.fst := by
    rw [represents.ends, List.getLast?_append_cons]
    simp only [List.getLast?_cons_cons]
  obtain ⟨next, stored, after⟩ := represents.insert free ends
  have kept : newElement list.heap element value node.1 = some ⟨next, node.2⟩ := by
    rw [newElement, update_of_ne other, stored]
  refine ⟨_, _, _, deref_eq kept, setNext_eq (newElement_self _ _ _) _, ?_, after⟩
  rw [newElement, update_idem]
  have linked : update list.heap element (some ⟨next, value⟩) node.1 = some ⟨next, node.2⟩ := by
    rw [update_of_ne other, stored]
  exact setNext_eq linked _

/-! ## What the operations do -/

section

variable (represents : Represents outside list nodes) (free : list.heap element = none)
  (item : Option α)
include represents free item

theorem Represents.append :
    ∃ after, list.append element item = .ok after ∧
      Represents outside after (nodes ++ [(element, ⟨0, item⟩)]) := by
  have empty := represents.isEmpty_eq
  unfold LinkedList.append
  rcases List.eq_nil_or_concat' nodes with rfl | ⟨left, node, rfl⟩
  · rw [empty]
    exact ⟨_, rfl, represents.putFirst free⟩
  · obtain ⟨heap, linked, after⟩ := represents.putLast free
    refine ⟨_, ?_, after⟩
    have notEmpty : (left ++ [node]).isEmpty = false := by simp
    simp only [empty, notEmpty, linked, ok_bind]
    rfl

theorem Represents.prepend :
    ∃ after, list.prepend element item = .ok after ∧
      Represents outside after ((element, ⟨0, item⟩) :: nodes) := by
  have empty := represents.isEmpty_eq
  unfold LinkedList.prepend
  cases nodes with
  | nil =>
    rw [empty]
    exact ⟨_, rfl, represents.putFirst free⟩
  | cons node nodes =>
    obtain ⟨heap, linked, after⟩ := represents.putFront free
    refine ⟨_, ?_, after⟩
    simp only [empty, List.isEmpty_cons, linked, ok_bind]
    rfl

/-- `SortedInsert` puts its item behind the keys which are not greater and
in front of the first greater one, once its walk has fuel enough. -/
theorem Represents.sortedInsert (sortKey : Int) :
    ∃ after left right, nodes = left ++ right ∧
      (∀ passed ∈ left, ¬sortKey < passed.2.key) ∧
      (∀ next ∈ right.head?, sortKey < next.2.key) ∧
      Represents outside after
        (left ++ (element, ⟨sortKey, item⟩) :: right) ∧
      ∀ fuel,
        list.sortedInsert fuel element item sortKey = .ok (some after) ∨
        list.sortedInsert fuel element item sortKey = .ok none ∧ fuel ≤ nodes.length := by
  unfold LinkedList.sortedInsert
  cases nodes with
  | nil =>
    have start : list.first = none := represents.linked
    refine ⟨_, [], [], rfl, by simp, by simp, represents.putFirst free, ?_⟩
    intro fuel
    left
    rw [start]
    rfl
  | cons node nodes =>
    have start : list.first = some node.1 := represents.linked.1
    obtain ⟨-, next, stored, -⟩ := represents.linked
    have other : node.1 ≠ element := by
      rintro rfl
      exact represents.notMem free (by simp)
    have kept : newElement list.heap element ⟨sortKey, item⟩ node.1 = some ⟨next, node.2⟩ := by
      rw [newElement, update_of_ne other, stored]
    by_cases front : sortKey < node.2.key
    · obtain ⟨heap, linked, after⟩ := represents.putFront free
      refine ⟨_, [], node :: nodes, rfl, by simp, by simpa using front, after, ?_⟩
      intro fuel
      left
      rw [start] at linked
      simp only [start, deref_eq kept, ok_bind, front, if_true, linked]
      rfl
    · have segment : Segment (newElement list.heap element ⟨sortKey, item⟩) (some node.1)
          (node :: nodes) none := by
        rw [← start]
        exact represents.linked.update (represents.notMem free) _
      obtain ⟨left, found, right, split, passed, stops, finds⟩ :=
        walk_spec segment front
      have length : nodes.length ≤ (node :: nodes).length := by simp
      simp only [start, deref_eq kept, ok_bind, front, if_false]
      rw [split] at represents
      cases right with
      | nil =>
        obtain ⟨heap, linked, after⟩ := represents.putLast free
        refine ⟨_, left ++ [found], [], ?_, passed, by simp, after, ?_⟩
        · rw [split, List.append_nil]
        intro fuel
        rcases finds fuel with ended | ⟨unfinished, short⟩
        · left
          rw [ended]
          simp only [ok_bind, placeBehind, linked, start]
          rfl
        · right
          rw [unfinished]
          exact ⟨rfl, short.trans length⟩
      | cons behind right =>
        obtain ⟨cell, relinked, heap, read, first, second, after⟩ :=
          represents.putBetween free
        rw [List.append_cons] at split after
        refine ⟨_, left ++ [found], behind :: right, split, passed, stops, after, ?_⟩
        intro fuel
        rcases finds fuel with ended | ⟨unfinished, short⟩
        · left
          rw [ended]
          simp only [ok_bind, placeBehind, read, first, second, start]
          rfl
        · right
          rw [unfinished]
          exact ⟨rfl, short.trans length⟩

end

theorem Represents.sortedRemove (represents : Represents outside list nodes) :
    ∃ after, list.sortedRemove =
        .ok (nodes.head?.bind fun node => node.2.item,
          nodes.head?.map fun node => node.2.key, after) ∧
      Represents outside after nodes.tail := by
  have empty := represents.isEmpty_eq
  unfold LinkedList.sortedRemove
  cases nodes with
  | nil =>
    rw [empty]
    exact ⟨list, rfl, represents⟩
  | cons node nodes =>
    obtain ⟨start, next, stored, rest⟩ := represents.linked
    have ends := represents.ends
    have owns := represents.owns
    have outsideRest : node.1 ∉ nodes.map Prod.fst :=
      (List.nodup_cons.mp owns.nodup).1
    have kept : Segment (update list.heap node.1 none) next nodes
        none := rest.update outsideRest _
    simp only [empty, List.isEmpty_cons, start, deref_eq stored, ok_bind, delete]
    cases nodes with
    | nil =>
      have single : some node.1 = list.last := ends.symm
      simp only [single, if_true]
      exact ⟨_, rfl, rfl, rfl, owns.delete⟩
    | cons behind nodes =>
      have several : some node.1 ≠ list.last := by
        intro same
        rw [ends, List.getLast?_cons_cons] at same
        obtain ⟨final, member, equal⟩ :=
          Option.map_eq_some_iff.mp same.symm
        apply outsideRest
        rw [← equal]
        exact List.mem_map_of_mem (List.mem_of_getLast? member)
      simp only [several, if_false]
      refine ⟨_, rfl, kept, ?_, owns.delete⟩
      rw [List.tail_cons]
      exact ends

end

end LinkedList

end Nachos
