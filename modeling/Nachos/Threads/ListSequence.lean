import Nachos.Threads.LinkedList

/-!
# Linked lists as sequences

The calls of a `List` do on its cells what they do on a sequence of keyed
items.  The members of the sequence remember when they were put in, so that
it can be said that equal keys keep their order.
-/

open Chain Transition

namespace Nachos

/-- An entry, with the number of the call which has put it in. -/
structure Stamped (α : Type) where
  entry : Keyed α
  stamp : Nat

/-- The members, and the number of calls so far. -/
structure ItemSequence (α : Type) where
  members : List (Stamped α)
  calls : Nat

namespace ItemSequence

variable {α : Type}

def empty : ItemSequence α := ⟨[], 0⟩

def perform (sequence : ItemSequence α) : ListCall α → ListReply α × ItemSequence α
  | .append item =>
    (.done, ⟨sequence.members ++ [⟨⟨0, item⟩, sequence.calls⟩], sequence.calls + 1⟩)
  | .prepend item =>
    (.done, ⟨⟨⟨0, item⟩, sequence.calls⟩ :: sequence.members, sequence.calls + 1⟩)
  | .sortedInsert item sortKey =>
    (.done, ⟨sequence.members.orderedInsert (fun new old => new.entry.key < old.entry.key)
      ⟨⟨sortKey, item⟩, sequence.calls⟩, sequence.calls + 1⟩)
  | .remove =>
    (.removed (sequence.members.head?.bind fun member =>
      member.entry.item), ⟨sequence.members.tail, sequence.calls + 1⟩)
  | .sortedRemove =>
    (.sortedRemoved (sequence.members.head?.bind fun member => member.entry.item)
      (sequence.members.head?.map fun member => member.entry.key),
      ⟨sequence.members.tail, sequence.calls + 1⟩)

def Step (before : ItemSequence α) (label : ListCall α × ListReply α)
    (after : ItemSequence α) : Prop :=
  before.perform label.1 = (label.2, after)

/-! ## Sorted sequences -/

end ItemSequence

/-- The calls which may be made on a sorted list. -/
def ListCall.keepsOrder {α : Type} : ListCall α → Bool
  | .append _ => false
  | .prepend _ => false
  | .sortedInsert _ _ => true
  | .remove => true
  | .sortedRemove => true

/-- A smaller key, or an equal one which was put in earlier. -/
def Stamped.Precedes {α : Type} (first second : Stamped α) : Prop :=
  first.entry.key < second.entry.key ∨
    first.entry.key = second.entry.key ∧ first.stamp < second.stamp

namespace ItemSequence

variable {α : Type}

structure Ordered (sequence : ItemSequence α) : Prop where
  order : sequence.members.Pairwise Stamped.Precedes
  stamps : ∀ member ∈ sequence.members, member.stamp < sequence.calls

theorem pairwise_orderedInsert {members : List (Stamped α)}
    (order : members.Pairwise Stamped.Precedes) {new : Stamped α}
    (latest : ∀ member ∈ members, member.stamp < new.stamp) :
    (members.orderedInsert (fun new old => new.entry.key < old.entry.key)
      new).Pairwise Stamped.Precedes := by
  induction members with
  | nil => simp
  | cons member members induction =>
    obtain ⟨before, rest⟩ := List.pairwise_cons.mp order
    have later := latest member (by simp)
    rw [List.orderedInsert_cons]
    split
    · rename_i smaller
      refine List.pairwise_cons.mpr ⟨?_, order⟩
      intro other inside
      rcases List.mem_cons.mp inside with rfl | behind
      · exact .inl smaller
      · have follows := before other behind
        unfold Stamped.Precedes at follows ⊢
        omega
    · rename_i notSmaller
      refine List.pairwise_cons.mpr ⟨?_, induction rest ?_⟩
      · intro other inside
        rcases (List.mem_orderedInsert _).mp inside with rfl | behind
        · unfold Stamped.Precedes
          omega
        · exact before other behind
      · intro other inside
        exact latest other (List.mem_cons_of_mem _ inside)

theorem Ordered.tail {sequence : ItemSequence α} (ordered : sequence.Ordered) :
    Ordered ⟨sequence.members.tail, sequence.calls + 1⟩ where
  order := ordered.order.tail
  stamps member inside :=
    Nat.lt_succ_of_lt (ordered.stamps member (List.mem_of_mem_tail inside))

theorem Step.ordered {before after : ItemSequence α}
    {label : ListCall α × ListReply α} (step : Step before label after)
    (keeps : label.1.keepsOrder = true) (ordered : before.Ordered) :
    after.Ordered := by
  obtain ⟨call, reply⟩ := label
  cases call with
  | append item | prepend item => cases keeps
  | sortedInsert item sortKey =>
    cases step
    refine ⟨pairwise_orderedInsert ordered.order ordered.stamps, ?_⟩
    intro member inside
    rcases (List.mem_orderedInsert _).mp inside with rfl | old
    · exact Nat.lt_succ_self _
    · exact Nat.lt_succ_of_lt (ordered.stamps member old)
  | remove | sortedRemove =>
    cases step
    exact ordered.tail

theorem run_ordered {labels : List (ListCall α × ListReply α)}
    {finish : ItemSequence α} (run : Run Step empty labels finish)
    (keeps : ∀ label ∈ labels, label.1.keepsOrder = true) :
    finish.Ordered := by
  refine run.invariant Ordered keeps ⟨List.Pairwise.nil, by simp [empty]⟩ ?_
  intro before label after ordered permitted step
  exact step.ordered permitted ordered

theorem Ordered.head_le {sequence : ItemSequence α} (ordered : sequence.Ordered) {head : Stamped α}
    (first : sequence.members.head? = some head) :
    ∀ member ∈ sequence.members, head.entry.key ≤ member.entry.key := by
  obtain ⟨rest, split⟩ := List.head?_eq_some_iff.mp first
  have order := ordered.order
  rw [split] at order ⊢
  intro member inside
  rcases List.mem_cons.mp inside with rfl | behind
  · exact le_refl _
  · have follows := (List.pairwise_cons.mp order).1 member behind
    unfold Stamped.Precedes at follows
    omega

end ItemSequence

namespace LinkedList

variable {ι α : Type}

/-! ## The refinement -/

/-- The cells of the list hold the entries of the sequence. -/
def Refines (outside : Heap ι (Keyed α)) (list : LinkedList ι α)
    (sequence : ItemSequence α) : Prop :=
  ∃ nodes, Represents outside list nodes ∧ nodes.map Prod.snd = sequence.members.map Stamped.entry

theorem refines_new (heap : Heap ι (Keyed α)) : Refines heap (new heap) .empty :=
  ⟨[], represents_new heap, rfl⟩

variable [DecidableEq ι]

/-- A call, the address which the allocator has for it, and the reply. -/
structure Label (ι α : Type) where
  call : ListCall α
  element : ι
  reply : ListReply α

def Step (before : LinkedList ι α) (label : Label ι α) (after : LinkedList ι α) : Prop :=
  (label.call.allocates = true → before.heap label.element = none) ∧
  ∃ fuel, before.perform fuel label.element label.call = .ok (some (label.reply, after))

/-- Splitting a sorted insertion at the place which the walk finds. -/
theorem orderedInsert_split {left right : List (Keyed α)} {new : Keyed α}
    (passed : ∀ entry ∈ left, ¬new.key < entry.key)
    (stops : ∀ entry ∈ right.head?, new.key < entry.key) :
    (left ++ right).orderedInsert (fun new old => new.key < old.key) new =
      left ++ new :: right := by
  induction left with
  | nil =>
    cases right with
    | nil => rfl
    | cons entry right =>
      have smaller : new.key < entry.key := stops entry (by simp)
      simp [smaller]
  | cons entry left induction =>
    have notSmaller : ¬new.key < entry.key := passed entry (by simp)
    rw [List.cons_append, List.orderedInsert_cons, if_neg notSmaller, induction]
    · rfl
    · intro other inside
      exact passed other (List.mem_cons_of_mem _ inside)

/-- One call does on the cells what it does on the sequence, once it has
fuel enough. -/
theorem Refines.perform {outside : Heap ι (Keyed α)}
    {list : LinkedList ι α} {sequence : ItemSequence α}
    (refines : Refines outside list sequence) {call : ListCall α}
    {element : ι}
    (free : call.allocates = true → list.heap element = none) :
    ∃ after, Refines outside after (sequence.perform call).2 ∧
      ∀ fuel,
        list.perform fuel element call =
          .ok (some ((sequence.perform call).1, after)) ∨
        list.perform fuel element call = .ok none ∧ fuel ≤ sequence.members.length := by
  obtain ⟨nodes, represents, same⟩ := refines
  have length : nodes.length = sequence.members.length := by
    have lengths := congrArg List.length same
    simpa using lengths
  have heads : nodes.head?.map Prod.snd = sequence.members.head?.map Stamped.entry := by
    rw [← List.head?_map, same, List.head?_map]
  have things : (nodes.head?.bind fun node => node.2.item) =
      sequence.members.head?.bind fun member => member.entry.item := by
    have bound := congrArg (Option.bind · Keyed.item) heads
    simpa [Option.bind_map] using bound
  have keys : (nodes.head?.map fun node => node.2.key) =
      sequence.members.head?.map fun member => member.entry.key := by
    have mapped := congrArg (Option.map Keyed.key) heads
    rwa [Option.map_map, Option.map_map] at mapped
  have tails : nodes.tail.map Prod.snd = sequence.members.tail.map Stamped.entry := by
    rw [List.map_tail, same, List.map_tail]
  cases call with
  | append item =>
    obtain ⟨after, result, kept⟩ := represents.append (free rfl) item
    refine ⟨after, ⟨_, kept, ?_⟩, ?_⟩
    · simp [ItemSequence.perform, same]
    · intro fuel
      left
      simp only [LinkedList.perform, result, ok_bind]
      rfl
  | prepend item =>
    obtain ⟨after, result, kept⟩ := represents.prepend (free rfl) item
    refine ⟨after, ⟨_, kept, ?_⟩, ?_⟩
    · simp [ItemSequence.perform, same]
    · intro fuel
      left
      simp only [LinkedList.perform, result, ok_bind]
      rfl
  | sortedInsert item sortKey =>
    obtain ⟨after, left, right, split, passed, stops, kept, finds⟩ :=
      represents.sortedInsert (free rfl) item sortKey
    refine ⟨after, ⟨_, kept, ?_⟩, ?_⟩
    · rw [split, List.map_append] at same
      simp only [ItemSequence.perform]
      rw [List.map_orderedInsert _
        (fun new old : Keyed α => new.key < old.key), ← same,
        orderedInsert_split, List.map_append, List.map_cons]
      · intro entry inside
        obtain ⟨node, member, rfl⟩ := List.mem_map.mp inside
        exact passed node member
      · intro entry inside
        rw [List.head?_map] at inside
        obtain ⟨node, member, rfl⟩ := Option.map_eq_some_iff.mp inside
        exact stops node member
      · intro member _
        exact Iff.rfl
      · intro member _
        exact Iff.rfl
    · intro fuel
      rcases finds fuel with ended | ⟨unfinished, short⟩
      · left
        simp only [LinkedList.perform, ended, ok_bind]
        rfl
      · right
        simp only [LinkedList.perform, unfinished, ok_bind]
        exact ⟨rfl, length ▸ short⟩
  | remove =>
    obtain ⟨after, result, kept⟩ := represents.sortedRemove
    refine ⟨after, ⟨_, kept, tails⟩, ?_⟩
    intro fuel
    left
    simp only [LinkedList.perform, remove, result, things, ok_bind, ItemSequence.perform]
    rfl
  | sortedRemove =>
    obtain ⟨after, result, kept⟩ := represents.sortedRemove
    refine ⟨after, ⟨_, kept, tails⟩, ?_⟩
    intro fuel
    left
    simp only [LinkedList.perform, result, things, keys, ok_bind, ItemSequence.perform]
    rfl

theorem Step.refines {outside : Heap ι (Keyed α)}
    {before after : LinkedList ι α} {label : Label ι α}
    (step : Step before label after) {sequence : ItemSequence α}
    (refines : Refines outside before sequence) :
    ∃ sequence', ItemSequence.Step sequence (label.call, label.reply)
        sequence' ∧ Refines outside after sequence' := by
  obtain ⟨free, fuel, result⟩ := step
  obtain ⟨next, kept, finds⟩ := refines.perform free
  rcases finds fuel with ended | ⟨unfinished, -⟩
  · rw [result] at ended
    obtain ⟨sameReply, rfl⟩ : label.reply = (sequence.perform label.call).1 ∧ after = next := by
      simpa using ended
    refine ⟨(sequence.perform label.call).2, ?_, kept⟩
    unfold ItemSequence.Step
    rw [sameReply]
  · rw [result] at unfinished
    simp at unfinished

/-- Whatever calls have been made on a list, and whatever addresses its
elements have got, the list is a sequence which has answered the calls.  The
next call is answered as the sequence answers it, too.  If only `SortedInsert`
has added items, the sequence is sorted, and equal keys stand in the order in
which they came. -/
theorem refines_item_sequence {outside : Heap ι (Keyed α)}
    {labels : List (Label ι α)} {finish : LinkedList ι α}
    (run : Run Step (new outside) labels finish) :
    ∃ (sequence : ItemSequence α) (nodes : List (ι × Keyed α)), Run ItemSequence.Step .empty
        (labels.map fun label => (label.call, label.reply)) sequence ∧
      nodes.map Prod.snd = sequence.members.map Stamped.entry ∧
      Segment finish.heap finish.first nodes none ∧
      (finish.first = none ↔ sequence.members = []) ∧
      finish.last = nodes.getLast?.map Prod.fst ∧
      (∀ node ∈ nodes.getLast?,
        finish.heap node.1 = some ⟨none, node.2⟩) ∧
      Owns outside finish.heap (nodes.map Prod.fst) ∧
      (∀ (call : ListCall α) (element : ι),
        (call.allocates = true → finish.heap element = none) →
        ∃ after, ∀ fuel, sequence.members.length < fuel →
          finish.perform fuel element call =
            .ok (some ((sequence.perform call).1, after))) ∧
      ((∀ label ∈ labels, label.call.keepsOrder = true) →
        sequence.members.Pairwise Stamped.Precedes ∧
        ∀ head ∈ sequence.members.head?, ∀ member ∈ sequence.members,
          head.entry.key ≤ member.entry.key) := by
  obtain ⟨sequence, specified, refines⟩ :=
    run.simulate (Refines outside) (fun label => (label.call, label.reply))
      (fun _ _ _ _ refines _ step => step.refines refines)
      (fun _ _ => trivial) (refines_new outside)
  have answers := refines
  obtain ⟨nodes, represents, same⟩ := refines
  refine ⟨sequence, nodes, specified, same, represents.linked, ?_,
    represents.ends, ?_, represents.owns, ?_, ?_⟩
  · rw [represents.linked.start_eq_none_iff, ← List.map_eq_nil_iff, same, List.map_eq_nil_iff]
  · intro node final
    obtain ⟨left, rfl⟩ := List.getLast?_eq_some_iff.mp final
    exact represents.linked.last_link
  · intro call element free
    obtain ⟨after, -, finds⟩ := answers.perform free
    refine ⟨after, ?_⟩
    intro fuel enough
    rcases finds fuel with ended | ⟨-, short⟩
    · exact ended
    · omega
  · intro keeps
    have ordered := ItemSequence.run_ordered specified (by
      simpa using keeps)
    exact ⟨ordered.order, fun head first => ordered.head_le first⟩

/-- An item put in with a key and taken out again. -/
theorem refines_item_sequence_pair :
    ∃ (finish : LinkedList Nat Unit) (sequence : ItemSequence Unit), Run Step (new fun _ => none)
        [⟨.sortedInsert (some ()) 3, 0, .done⟩,
          ⟨.sortedRemove, 0, .sortedRemoved (some ()) (some 3)⟩] finish ∧
      Run ItemSequence.Step .empty
        [(.sortedInsert (some ()) 3, .done),
          (.sortedRemove, .sortedRemoved (some ()) (some 3))] sequence := by
  have first : Step (new fun _ => none) ⟨.sortedInsert (some ()) 3, 0, .done⟩
      ⟨newElement (fun _ => none) 0 ⟨3, some ()⟩, some 0, some 0⟩ :=
    ⟨fun _ => rfl, 0, rfl⟩
  have second : Step ⟨newElement (fun _ => none) 0 ⟨3, some ()⟩, some 0, some 0⟩
      ⟨.sortedRemove, 0, .sortedRemoved (some ()) (some 3)⟩
      ⟨delete (newElement (fun _ => none) 0 ⟨3, some ()⟩) (some 0), none, none⟩ := by
    refine ⟨?_, 0, rfl⟩
    intro allocates
    cases allocates
  have run := (Run.single first).append (Run.single second)
  obtain ⟨sequence, -, specified, -⟩ := refines_item_sequence run
  exact ⟨_, sequence, run, specified⟩

end LinkedList

end Nachos
