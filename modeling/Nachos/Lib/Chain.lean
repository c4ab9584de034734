import Mathlib

/-!
# Chains of linked cells

A heap holds cells with a link to a next cell.  `Segment` says which cells a
walk along the links passes; it is kept by what happens at other addresses,
and a new cell is put into it by setting two links.
-/

namespace Chain

variable {ι : Type*} {ν : Type*}

structure Cell (ι : Type*) (ν : Type*) where
  next : Option ι
  value : ν

abbrev Heap (ι : Type*) (ν : Type*) := ι → Option (Cell ι ν)

/-- The walk from `start` passes the nodes and comes to `stop`. -/
def Segment (heap : Heap ι ν) : Option ι → List (ι × ν) → Option ι → Prop
  | start, [], stop => start = stop
  | start, node :: nodes, stop =>
    start = some node.1 ∧ ∃ next, heap node.1 = some ⟨next, node.2⟩ ∧ Segment heap next nodes stop

variable {heap : Heap ι ν} {start : Option ι} {stop : Option ι}

theorem segment_append {left right : List (ι × ν)} :
    Segment heap start (left ++ right) stop ↔
      ∃ middle, Segment heap start left middle ∧
        Segment heap middle right stop := by
  induction left generalizing start with
  | nil => simp [Segment]
  | cons node left induction =>
    simp only [List.cons_append, Segment, induction]
    constructor
    · rintro ⟨here, next, stored, middle, first, second⟩
      exact ⟨middle, ⟨here, next, stored, first⟩, second⟩
    · rintro ⟨middle, ⟨here, next, stored, first⟩, second⟩
      exact ⟨here, next, stored, middle, first, second⟩

variable {nodes : List (ι × ν)} {address : ι}

theorem Segment.ne_none (segment : Segment heap start nodes stop)
    (member : address ∈ nodes.map Prod.fst) :
    heap address ≠ none := by
  induction nodes generalizing start with
  | nil => simp at member
  | cons node nodes induction =>
    obtain ⟨-, next, stored, rest⟩ := segment
    rcases List.mem_cons.mp member with rfl | later
    · rw [stored]
      simp
    · exact induction rest later

theorem Segment.congr {other : Heap ι ν} (segment : Segment heap start nodes stop)
    (agree : ∀ address ∈ nodes.map Prod.fst, other address = heap address) :
    Segment other start nodes stop := by
  induction nodes generalizing start with
  | nil => exact segment
  | cons node nodes induction =>
    obtain ⟨here, next, stored, rest⟩ := segment
    refine ⟨here, next, ?_, ?_⟩
    · rw [agree node.1 (by simp), stored]
    · apply induction rest
      intro address member
      exact agree address (List.mem_cons_of_mem _ member)

theorem Segment.last_link {node : ι × ν} (segment : Segment heap start (nodes ++ [node]) stop) :
    heap node.1 = some ⟨stop, node.2⟩ := by
  obtain ⟨middle, -, -, next, stored, ends⟩ := segment_append.mp segment
  rw [stored, ends]

/-- A walk which ends has passed no node exactly when it starts nowhere. -/
theorem Segment.start_eq_none_iff (segment : Segment heap start nodes none) :
    start = none ↔ nodes = [] := by
  cases nodes with
  | nil => simpa [Segment] using segment
  | cons node nodes =>
    obtain ⟨here, -⟩ := segment
    simp [here]

section

variable [DecidableEq ι] {heap : Heap ι ν} {start : Option ι} {address : ι} {stop : Option ι}

theorem Segment.update {nodes : List (ι × ν)} (segment : Segment heap start nodes stop)
    (outside : address ∉ nodes.map Prod.fst) (cell : Option (Cell ι ν)) :
    Segment (Function.update heap address cell) start nodes stop := by
  apply segment.congr
  intro other member
  apply Function.update_of_ne
  rintro rfl
  exact outside member

theorem Segment.cons {nodes : List (ι × ν)} (segment : Segment heap start nodes stop)
    (outside : address ∉ nodes.map Prod.fst) (value : ν) :
    Segment (Function.update heap address (some ⟨start, value⟩))
      (some address) ((address, value) :: nodes) stop := by
  refine ⟨rfl, start, ?_, segment.update outside _⟩
  rw [Function.update_self]

/-- A cell of a segment may get another link: the walk then goes on from
there. -/
theorem Segment.relink {nodes rest : List (ι × ν)} {node : ι × ν}
    (segment : Segment heap start (nodes ++ [node]) stop)
    (distinct : node.1 ∉ nodes.map Prod.fst) {next finish : Option ι}
    (following : Segment (Function.update heap node.1 (some ⟨next, node.2⟩)) next rest finish) :
    Segment (Function.update heap node.1 (some ⟨next, node.2⟩)) start
      (nodes ++ node :: rest) finish := by
  obtain ⟨middle, first, here, -⟩ := segment_append.mp segment
  refine segment_append.mpr ⟨middle, first.update distinct _, here, next, ?_, following⟩
  rw [Function.update_self]

/-- A new cell behind one of a segment: its link is taken over, and then
redirected. -/
theorem Segment.insert {left right : List (ι × ν)} {node : ι × ν}
    (segment : Segment heap start (left ++ node :: right) stop)
    (nodup : ((left ++ node :: right).map Prod.fst).Nodup)
    (outside : address ∉ (left ++ node :: right).map Prod.fst) (value : ν) :
    ∃ next, heap node.1 = some ⟨next, node.2⟩ ∧ Segment (Function.update
        (Function.update heap address (some ⟨next, value⟩)) node.1
        (some ⟨some address, node.2⟩)) start
        (left ++ node :: (address, value) :: right) stop := by
  simp only [List.map_append, List.map_cons, List.mem_append, List.mem_cons, not_or] at outside
  obtain ⟨notLeft, notNode, notRight⟩ := outside
  rw [List.map_append, List.map_cons, List.nodup_append] at nodup
  obtain ⟨-, distinctRight, apart⟩ := nodup
  have notInRight := (List.nodup_cons.mp distinctRight).1
  have notInLeft : node.1 ∉ left.map Prod.fst := by
    intro member
    exact apart node.1 member node.1 (by simp) rfl
  obtain ⟨middle, first, here, next, stored, second⟩ :=
    segment_append.mp segment
  refine ⟨next, stored, ?_⟩
  have whole : Segment heap start (left ++ [node]) next :=
    segment_append.mpr ⟨middle, first, here, next, stored, rfl⟩
  have kept : Segment (Function.update heap address (some ⟨next, value⟩))
      start (left ++ [node]) next := by
    apply whole.update
    simp [notLeft, notNode]
  apply kept.relink notInLeft
  apply (second.cons notRight value).update
  simp [Ne.symm notNode, notInRight]

end

/-! ## Ownership -/

/-- The cells at the addresses, which were free before, are all in which a
heap differs from an earlier one. -/
structure Owns (earlier heap : Heap ι ν) (addresses : List ι) : Prop where
  nodup : addresses.Nodup
  frame : ∀ address, address ∉ addresses → heap address = earlier address
  fresh : ∀ address ∈ addresses, earlier address = none

theorem Owns.nil (heap : Heap ι ν) : Owns heap heap [] where
  nodup := List.nodup_nil
  frame _ _ := rfl
  fresh address member := by simp at member

theorem Owns.insert {earlier after : Heap ι ν} {addresses more : List ι}
    (owns : Owns earlier heap addresses) (outside : address ∉ addresses)
    (free : heap address = none) (added : more.Perm (address :: addresses))
    (agree : ∀ other, other ∉ more → after other = heap other) :
    Owns earlier after more where
  nodup := added.nodup_iff.mpr (List.nodup_cons.mpr ⟨outside, owns.nodup⟩)
  frame other absent := by
    rw [agree other absent]
    apply owns.frame
    intro member
    exact absent (added.mem_iff.mpr (List.mem_cons_of_mem _ member))
  fresh other member := by
    rcases List.mem_cons.mp (added.mem_iff.mp member) with rfl | old
    · rw [← owns.frame other outside]
      exact free
    · exact owns.fresh other old

theorem Owns.delete [DecidableEq ι] {earlier : Heap ι ν} {addresses : List ι}
    (owns : Owns earlier heap (address :: addresses)) :
    Owns earlier (Function.update heap address none) addresses where
  nodup := owns.nodup.of_cons
  frame other absent := by
    by_cases here : other = address
    · subst here
      rw [Function.update_self, owns.fresh other (by simp)]
    · rw [Function.update_of_ne here]
      apply owns.frame
      simp [here, absent]
  fresh other member := owns.fresh other (List.mem_cons_of_mem _ member)

end Chain
