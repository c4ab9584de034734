import Nachos.Machine.Confinement

/-!
# What a translation depends on

A translation gives an exception or a physical address.  Both depend only on
the entry which is found for the virtual page, without its use and dirty
bits, so a TLB which holds copies of entries of a page table gives what the
table gives, or does not know the page.
-/

open Words Memory

namespace Nachos

/-- The entry without the bits which translation sets. -/
def TranslationEntry.mapping (entry : TranslationEntry) :
    TranslationEntry :=
  { entry with use := false, dirty := false }

namespace Mmu

def mapping (mmu : Mmu) : Mmu where
  pageTable := mmu.pageTable.map (List.map TranslationEntry.mapping)
  tlb := mmu.tlb.map fun tlb index => (tlb index).mapping

/-- The exception or the address which a translation gives. -/
def outcome (mmu : Mmu) (virtAddr : Word) (size : Nat) (writing : Bool) :
    Except Refusal Nat :=
  (mmu.translate virtAddr size writing).map Prod.fst

/-- The exception or the address which an entry gives. -/
def entryOutcome (entry : TranslationEntry) (offset size : Nat)
    (writing : Bool) : Except Refusal Nat :=
  (translateEntry entry offset size writing).map Prod.fst

theorem outcome_ok_iff {mmu : Mmu} {virtAddr : Word} {size physAddr : Nat} {writing : Bool} :
    mmu.outcome virtAddr size writing = .ok physAddr ↔
      ∃ changed, mmu.translate virtAddr size writing = .ok (physAddr, changed) := by
  unfold outcome
  cases mmu.translate virtAddr size writing with
  | error refusal => simp [Except.map]
  | ok result => simp [Except.map, Prod.ext_iff]

private theorem map_bind_fst {α β γ : Type} (result : Except Refusal (α × β)) (rest : α × β → γ) :
    (result >>= fun pair =>
      (pure (pair.1, rest pair) : Except Refusal (α × γ))).map Prod.fst = result.map Prod.fst := by
  cases result with
  | error refusal | ok pair => rfl

/-- The entry which `Translate` finds for a virtual page. -/
def find (mmu : Mmu) (vpn : Nat) : Except Refusal TranslationEntry :=
  match mmu.pageTable, mmu.tlb with
  | some table, none =>
    match table[vpn]? with
    | none => .error (.exception .addressErrorException)
    | some entry =>
      if entry.valid then .ok entry
      else .error (.exception .pageFaultException)
  | none, some tlb =>
    match tlbIndex tlb vpn with
    | none => .error (.exception .pageFaultException)
    | some index => .ok (tlb index)
  | _, _ => .error (.fault .assertion)

theorem outcome_eq (mmu : Mmu) (virtAddr : Word) (size : Nat) (writing : Bool) :
    mmu.outcome virtAddr size writing = if misaligned virtAddr size then
        .error (.exception .addressErrorException)
      else
        mmu.find (virtAddr.toNat / pageSize) >>= fun entry =>
          entryOutcome entry (virtAddr.toNat % pageSize) size writing := by
  unfold outcome translate find
  obtain ⟨table, tlb⟩ := mmu
  split
  · rfl
  · cases table with
    | none =>
      cases tlb with
      | none => rfl
      | some tlb =>
        simp only
        cases tlbIndex tlb (virtAddr.toNat / pageSize) with
        | none => rfl
        | some index =>
          simp only [map_bind_fst, ok_bind]
          rfl
    | some table =>
      cases tlb with
      | some tlb => rfl
      | none =>
        simp only
        cases table[virtAddr.toNat / pageSize]? with
        | none => rfl
        | some entry =>
          cases valid : entry.valid with
          | false =>
            simp only [valid, Bool.not_false, Bool.false_eq_true, if_true, if_false]
            rfl
          | true =>
            simp only [valid, Bool.not_true, Bool.false_eq_true,
              if_false, if_true, map_bind_fst, ok_bind]
            rfl

theorem entryOutcome_eq (entry : TranslationEntry) (offset size : Nat) (writing : Bool) :
    entryOutcome entry offset size writing = if entry.readOnly && writing then
        .error (.exception .readOnlyException)
      else if entry.physicalPage.toNat ≥ numPhysPages then
        .error (.exception .busErrorException)
      else if entry.physicalPage.toNat * pageSize + offset + size ≤ memorySize then
        .ok (entry.physicalPage.toNat * pageSize + offset)
      else .error (.fault .assertion) := by
  unfold entryOutcome translateEntry
  split
  · rfl
  · simp only
    split
    · rfl
    · split
      · rfl
      · rfl

theorem entryOutcome_congr {left right : TranslationEntry}
    (same : left.mapping = right.mapping) (offset size : Nat)
    (writing : Bool) :
    entryOutcome left offset size writing =
      entryOutcome right offset size writing := by
  have readOnly : left.readOnly = right.readOnly :=
    show left.mapping.readOnly = right.mapping.readOnly by rw [same]
  have frame : left.physicalPage = right.physicalPage :=
    show left.mapping.physicalPage = right.mapping.physicalPage by rw [same]
  rw [entryOutcome_eq, entryOutcome_eq, readOnly, frame]

theorem find_mapping (mmu : Mmu) (vpn : Nat) :
    mmu.mapping.find vpn = (mmu.find vpn).map TranslationEntry.mapping := by
  obtain ⟨table, tlb⟩ := mmu
  unfold find mapping
  cases table with
  | none =>
    cases tlb with
    | none => rfl
    | some tlb =>
      have same : tlbIndex (fun index => (tlb index).mapping) vpn =
          tlbIndex tlb vpn := rfl
      simp only [Option.map_some, Option.map_none, same]
      cases tlbIndex tlb vpn with
      | none | some index => rfl
  | some table =>
    cases tlb with
    | some tlb => rfl
    | none =>
      simp only [Option.map_some, Option.map_none, List.getElem?_map]
      cases table[vpn]? with
      | none => rfl
      | some entry =>
        cases valid : entry.valid with
        | false | true => simp [TranslationEntry.mapping, valid, Except.map]

theorem outcome_congr {left right : Mmu}
    (same : left.mapping = right.mapping) (virtAddr : Word) (size : Nat)
    (writing : Bool) :
    left.outcome virtAddr size writing =
      right.outcome virtAddr size writing := by
  have mapped : ∀ mmu : Mmu, mmu.mapping.outcome virtAddr size writing =
      mmu.outcome virtAddr size writing := by
    intro mmu
    rw [outcome_eq, outcome_eq, find_mapping]
    cases mmu.find (virtAddr.toNat / pageSize) with
    | error refusal => rfl
    | ok entry =>
      simp only [Except.map, ok_bind]
      rw [entryOutcome_congr (show entry.mapping.mapping = entry.mapping from rfl)]
  rw [← mapped left, same, mapped]

section

variable {physAddr size : Nat} {writing : Bool}

theorem entryOutcome_ok_iff {entry : TranslationEntry} {offset : Nat} :
    entryOutcome entry offset size writing = .ok physAddr ↔
      (entry.readOnly && writing) = false ∧
      entry.physicalPage.toNat < numPhysPages ∧
      physAddr + size ≤ memorySize ∧
      physAddr = entry.physicalPage.toNat * pageSize + offset := by
  rw [entryOutcome_eq]
  constructor
  · intro success
    split_ifs at success with forbidden high fits
    cases success
    exact ⟨by simpa using forbidden, by omega, fits, rfl⟩
  · rintro ⟨allowed, low, fits, rfl⟩
    rw [allowed, if_neg Bool.false_ne_true, if_neg (by omega), if_pos fits]

variable {virtAddr : Word}

theorem outcome_inv {mmu : Mmu} (success : mmu.outcome virtAddr size writing = .ok physAddr) :
    misaligned virtAddr size = false ∧
      ∃ entry, mmu.find (virtAddr.toNat / pageSize) = .ok entry ∧
        entryOutcome entry (virtAddr.toNat % pageSize) size writing =
          .ok physAddr := by
  rw [outcome_eq] at success
  split at success
  · cases success
  · rename_i aligned
    exact ⟨by simpa using aligned, bind_ok_inv success⟩

theorem outcome_reading {mmu : Mmu} (success : mmu.outcome virtAddr size true = .ok physAddr) :
    mmu.outcome virtAddr size false = .ok physAddr := by
  obtain ⟨aligned, entry, found, checked⟩ := outcome_inv success
  obtain ⟨-, low, fits, place⟩ := entryOutcome_ok_iff.mp checked
  rw [outcome_eq, aligned, if_neg Bool.false_ne_true, found, ok_bind, entryOutcome_ok_iff]
  exact ⟨Bool.and_false _, low, fits, place⟩

end

/-! ## The TLB as a cache of the page table -/

/-- Entry `i` of the table is for virtual page `i`. -/
def Linear (table : List TranslationEntry) : Prop :=
  ∀ (vpn : Nat) (entry : TranslationEntry), table[vpn]? = some entry → entry.virtualPage.toNat = vpn

/-- Every valid entry of the TLB is a copy of a valid entry of the table,
but for the use and dirty bits, which are set in the TLB. -/
def Caches (tlb : Fin tlbSize → TranslationEntry) (table : List TranslationEntry) : Prop :=
  ∀ index, (tlb index).valid = true →
    ∃ entry ∈ table, entry.valid = true ∧ (tlb index).mapping = entry.mapping

theorem tlbIndex_some {tlb : Fin tlbSize → TranslationEntry} {vpn : Nat}
    {index : Fin tlbSize} (found : tlbIndex tlb vpn = some index) :
    (tlb index).valid = true ∧ (tlb index).virtualPage.toNat = vpn := by
  have tested := List.find?_some found
  simpa using tested

theorem tlbIndex_none {tlb : Fin tlbSize → TranslationEntry} {vpn : Nat}
    (missing : tlbIndex tlb vpn = none) (index : Fin tlbSize)
    (valid : (tlb index).valid = true) :
    (tlb index).virtualPage.toNat ≠ vpn := by
  have tested := List.find?_eq_none.mp missing index (List.mem_finRange index)
  simpa [valid] using tested

theorem Caches.original {tlb : Fin tlbSize → TranslationEntry}
    {table : List TranslationEntry} (caches : Caches tlb table)
    (linear : Linear table) {vpn : Nat} {index : Fin tlbSize}
    (found : tlbIndex tlb vpn = some index) :
    ∃ entry, table[vpn]? = some entry ∧ entry.valid = true ∧
      (tlb index).mapping = entry.mapping := by
  obtain ⟨valid, page⟩ := tlbIndex_some found
  obtain ⟨entry, member, entryValid, copy⟩ := caches index valid
  obtain ⟨place, stored⟩ := List.mem_iff_getElem?.mp member
  have samePage : (tlb index).virtualPage = entry.virtualPage :=
    show (tlb index).mapping.virtualPage = entry.mapping.virtualPage by
      rw [copy]
  have here : place = vpn := by
    rw [← linear place entry stored, ← samePage, page]
  rw [← here]
  exact ⟨entry, stored, entryValid, copy⟩

/-- Translation through a TLB which caches a linear page table gives what
translation through the table gives, or a page fault because no valid entry
is for the page. -/
theorem tlb_refines_table (table : List TranslationEntry)
    (tlb : Fin tlbSize → TranslationEntry) (linear : Linear table)
    (caches : Caches tlb table) (virtAddr : Word) (size : Nat)
    (writing : Bool) :
    (outcome ⟨none, some tlb⟩ virtAddr size writing =
        .error (.exception .pageFaultException) ∧
      ∀ index, (tlb index).valid = true →
        (tlb index).virtualPage.toNat ≠ virtAddr.toNat / pageSize) ∨
    outcome ⟨none, some tlb⟩ virtAddr size writing =
      outcome ⟨some table, none⟩ virtAddr size writing := by
  rw [outcome_eq, outcome_eq]
  split
  · exact .inr rfl
  · unfold find
    simp only
    cases found : tlbIndex tlb (virtAddr.toNat / pageSize) with
    | none => exact .inl ⟨rfl, tlbIndex_none found⟩
    | some index =>
      obtain ⟨entry, stored, valid, copy⟩ := caches.original linear found
      right
      simp only [stored, valid, if_true, ok_bind]
      exact entryOutcome_congr copy _ _ _

/-- A table for two pages, of which the TLB has the second one. -/
def secondPageCached : Fin tlbSize → TranslationEntry := fun index =>
  if index.val = 2 then ⟨1#32, 7#32, true, true, true, false⟩
  else ⟨0#32, 0#32, false, false, false, false⟩

def twoPages : List TranslationEntry :=
  [⟨0#32, 5#32, true, false, false, false⟩, ⟨1#32, 7#32, true, true, false, false⟩]

theorem tlb_refines_table_second_page :
    (outcome ⟨none, some secondPageCached⟩ 516#32 4 false =
        .error (.exception .pageFaultException) ∧
      ∀ index, (secondPageCached index).valid = true →
        (secondPageCached index).virtualPage.toNat ≠ 1) ∨
    outcome ⟨none, some secondPageCached⟩ 516#32 4 false =
      outcome ⟨some twoPages, none⟩ 516#32 4 false := by
  apply tlb_refines_table
  · intro vpn entry stored
    rcases vpn with _ | _ | vpn
    · cases Option.some.inj stored
      rfl
    · cases Option.some.inj stored
      rfl
    · simp [twoPages] at stored
  · unfold Caches
    decide

end Mmu

end Nachos
