import Nachos.Userprog.ConsoleOutput
import Nachos.Userprog.KernelBuffers

/-!
# Numerals at the console

`SC_PrintInt` counts the digits of a positive number and stores them from
the last one on.  `SC_ReadInt` reads a line of digits back.  For zero and for
negative numbers the counting loop does not run, and nothing is printed.
-/

open Words Memory Calls Program

namespace Nachos

namespace Handler

open KernelCall (displayed)

/-! ## Decimal numerals -/

def digitCharacter (digit : Nat) : Byte := BitVec.ofNat 8 (digit + 48)

/-- The digits of a positive number, the last one at the end. -/
def digitString (number : Nat) : List Byte :=
  (Nat.digits 10 number).reverse.map digitCharacter

/-- The decimal numeral of a number. -/
def numeral (number : Int) : List Byte :=
  if number = 0 then [48#8]
  else if number < 0 then 45#8 :: digitString number.natAbs
  else digitString number.natAbs

theorem digitString_zero : digitString 0 = [] := by
  simp [digitString]

theorem digitString_step {number : Nat} (nonzero : ¬number = 0) :
    digitString number = digitString (number / 10) ++ [digitCharacter (number % 10)] := by
  unfold digitString
  rw [Nat.digits_def' (by decide) (Nat.pos_of_ne_zero nonzero), List.reverse_cons, List.map_append]
  rfl

theorem numberOfDigits_zero : numberOfDigits 0 = 0 := by
  rw [numberOfDigits, if_pos rfl]

theorem numberOfDigits_step {number : Nat} (nonzero : ¬number = 0) :
    numberOfDigits number = numberOfDigits (number / 10) + 1 := by
  rw [numberOfDigits, if_neg nonzero]

theorem digitString_length (number : Nat) :
    (digitString number).length = numberOfDigits number := by
  induction number using numberOfDigits.induct with
  | case1 =>
    rw [digitString_zero, numberOfDigits_zero]
    rfl
  | case2 number nonzero induction =>
    rw [digitString_step nonzero, numberOfDigits_step nonzero, List.length_append, induction]
    rfl

theorem digitCharacter_digit : ∀ digit < 10,
    isDigit (digitCharacter digit) = true ∧ (digitCharacter digit).toNat - 48 = digit := by
  decide

theorem digitString_digits (number : Nat) :
    ∀ character ∈ digitString number, isDigit character = true := by
  intro character member
  obtain ⟨digit, inside, rfl⟩ := List.mem_map.mp member
  exact (digitCharacter_digit digit (Nat.digits_lt_base (by decide) (List.mem_reverse.mp inside))).1

/-- The value which `atoi` computes. -/
def numeralValue (digits : List Byte) : Int :=
  digits.foldl (fun number digit => number * 10 + (digit.toNat - 48 : Nat)) 0

theorem numeralValue_digitString (number : Nat) : numeralValue (digitString number) = number := by
  induction number using numberOfDigits.induct with
  | case1 =>
    rw [digitString_zero]
    rfl
  | case2 number nonzero induction =>
    have last := (digitCharacter_digit (number % 10) (Nat.mod_lt _ (by decide))).2
    unfold numeralValue at induction ⊢
    rw [digitString_step nonzero, List.foldl_append, induction,
      List.foldl_cons, List.foldl_nil, last]
    omega

theorem digitString_short {number : Nat} (small : number < 2 ^ 31) :
    (digitString number).length ≤ 10 := by
  have enough : number < 10 ^ 10 := small.trans (by decide)
  unfold digitString
  rw [List.length_map, List.length_reverse]
  exact (Nat.digits_length_le_iff (by decide) number).mpr enough

section Calls

variable {heap : Nat} {fresh : Nat → Byte} {unset : Byte} {kernel : Kernel Host}

/-! ## `SC_PrintInt` -/

theorem run_storeDigits {σ : Type} {environment : Environment σ}
    {kernel : Kernel σ} (number : Nat) {buffer : List Byte}
    (room : numberOfDigits number ≤ buffer.length) :
    (storeDigits (numberOfDigits number) number buffer).run
      (Kernel.answer environment) kernel =
        .ok (digitString number ++ buffer.drop (numberOfDigits number), kernel) := by
  induction number using numberOfDigits.induct generalizing buffer with
  | case1 =>
    rw [numberOfDigits_zero, digitString_zero]
    rfl
  | case2 number nonzero induction =>
    have digit : BitVec.ofInt 8 ((number : Int).tmod 10 + 48) = digitCharacter (number % 10) := by
      rw [show (number : Int).tmod 10 + 48 = ((number % 10 + 48 : Nat) : Int)
        from rfl, BitVec.ofInt_natCast]
      rfl
    have quotient : (number : Int).tdiv 10 = ((number / 10 : Nat) : Int) :=
      rfl
    rw [numberOfDigits_step nonzero] at room ⊢
    generalize place : numberOfDigits (number / 10) = last at *
    have rest := @induction (buffer.set last (digitCharacter (number % 10)))
      (by rw [List.length_set]; omega)
    have stored : (buffer.set last (digitCharacter (number % 10))).drop
        last = digitCharacter (number % 10) :: buffer.drop (last + 1) := by
      rw [List.drop_eq_getElem_cons (by rw [List.length_set]; omega),
        List.getElem_set_self, List.drop_set_of_lt (Nat.lt_succ_self last)]
    rw [storeDigits, digit, quotient,
      run_bind_ok (run_setChar (by omega) _), rest, stored,
      digitString_step nonzero, List.append_assoc]
    rfl

theorem storeDigits_toNat (number : Int) (buffer : List Byte) :
    storeDigits (numberOfDigits number.toNat) number buffer =
      storeDigits (numberOfDigits number.toNat) (number.toNat : Int)
        buffer := by
  by_cases positive : 0 ≤ number
  · rw [Int.toNat_of_nonneg positive]
  · rw [Int.toNat_of_nonpos (by omega), numberOfDigits_zero]
    rfl

/-- `SC_PrintInt` sends the digits of a positive number, and nothing for
another one. -/
theorem scPrintInt_shows (enough : 100 ≤ heap) : scPrintInt.Shows displayed
      (device heap fresh unset) kernel
      (digitString (kernel.registers r4).toInt.toNat) () kernel := by
  generalize given : (kernel.registers r4).toInt = number
  have bounded : number.toNat < 2 ^ 31 := by
    have limit := (kernel.registers r4).toInt_lt
    omega
  have short := digitString_short bounded
  rw [digitString_length] at short
  have counted : (BitVec.ofNat 32 (numberOfDigits number.toNat)).toInt.toNat =
      numberOfDigits number.toNat := by
    rw [toInt_ofNat_eq (by omega)]
    rfl
  have stored : (storeDigits (numberOfDigits number.toNat) number
      ((List.range (100#32).toNat).map fresh)).run
      (device heap fresh unset) kernel =
        .ok (digitString number.toNat ++ ((List.range (100#32).toNat).map fresh).drop
            (numberOfDigits number.toNat), kernel) := by
    rw [storeDigits_toNat]
    exact run_storeDigits number.toNat (by simp; omega)
  refine OnlyCalls.shows_bind (.perform rfl) (run_readRegister r4) ?_
  refine OnlyCalls.shows_bind (onlyCalls_newBuffer (fun _ => rfl)
    fun _ => rfl) (run_newBuffer_honoured ⟨by decide, enough⟩) ?_
  refine OnlyCalls.shows_bind (onlyCalls_lift fun _ => rfl) (run_nonNull _) ?_
  rw [given]
  refine OnlyCalls.shows_bind (onlyCalls_storeDigits fun _ => rfl) stored ?_
  have front : ((digitString number.toNat ++ ((List.range (100#32).toNat).map fresh).drop
        (numberOfDigits number.toNat)).drop 0).take
      (BitVec.ofNat 32 (numberOfDigits number.toNat)).toInt.toNat = digitString number.toNat := by
    rw [counted, List.drop_zero, ← digitString_length, List.take_left]
  have printed := @consoleWrite_shows heap fresh unset kernel
    (digitString number.toNat ++ ((List.range (100#32).toNat).map fresh).drop
        (numberOfDigits number.toNat)) 0
    (BitVec.ofNat 32 (numberOfDigits number.toNat)) (by
      rw [counted, List.length_append, digitString_length]
      omega)
  rwa [front] at printed

/-! ## `SC_ReadInt` -/

theorem unsigned_line {line rest : List Byte}
    (digits : ∀ character ∈ line, isDigit character = true) :
    unsigned (line ++ 0#8 :: rest) = line ++ 0#8 :: rest ∧
      ((line ++ 0#8 :: rest).dropWhile isSpace).head? ≠ some 45#8 := by
  have plain : ∀ first tail, isSpace first = false → first ≠ 45#8 →
      first ≠ 43#8 → unsigned (first :: tail) = first :: tail ∧
        ((first :: tail).dropWhile isSpace).head? ≠ some 45#8 := by
    intro first tail notSpace notMinus notPlus
    refine ⟨unsigned_cons tail notSpace notMinus notPlus, ?_⟩
    rw [dropWhile_isSpace tail notSpace]
    exact fun same => notMinus (Option.some.inj same)
  cases line with
  | nil => exact plain _ _ (by decide) (by decide) (by decide)
  | cons first line =>
    obtain ⟨notSpace, notMinus, notPlus⟩ := not_space_of_digit (digits first List.mem_cons_self)
    exact plain _ _ notSpace notMinus notPlus

theorem run_atoi_line {line rest : List Byte}
    (digits : ∀ character ∈ line, isDigit character = true) :
    (atoi (line ++ 0#8 :: rest)).run
      (device heap fresh unset) kernel = .ok (BitVec.ofInt 32 (max (-2147483648)
          (min 2147483647 (numeralValue line))), kernel) := by
  obtain ⟨whole, positive⟩ := @unsigned_line line rest digits
  have taken : (line ++ 0#8 :: rest).takeWhile isDigit = line := by
    rw [List.takeWhile_append_of_pos digits]
    simp [isDigit]
  have same : atoi (line ++ 0#8 :: rest) =
      if ((unsigned (line ++ 0#8 :: rest)).takeWhile isDigit).length =
        (unsigned (line ++ 0#8 :: rest)).length then fail .bounds
      else Pure.pure (BitVec.ofInt 32 (max (-2147483648) (min 2147483647
        (if ((line ++ 0#8 :: rest).dropWhile isSpace).head? = some 45#8 then
          -numeralValue ((unsigned (line ++ 0#8 :: rest)).takeWhile isDigit)
        else numeralValue ((unsigned (line ++ 0#8 :: rest)).takeWhile isDigit))))) := rfl
  rw [same, whole, taken, if_neg positive, if_neg]
  · rfl
  · rw [List.length_append, List.length_cons]
    omega

theorem run_scReadInt_line (enough : 100 ≤ heap) {number : Nat}
    (small : number < 2 ^ 31) {later : List Byte}
    (typed : kernel.shared.rest.typed = digitString number ++ 10#8 :: later) :
    scReadInt.run (device heap fresh unset) kernel =
      .ok ((), (kernel.withTyped later).withRegister r2 (BitVec.ofNat 32 number)) := by
  have count : (100#32).toInt.toNat = 100 := rfl
  have short := digitString_short small
  have plain : Unended (digitString number) := by
    intro character member
    have digit := digitString_digits number character member
    constructor
    · rintro rfl
      cases digit
    · rintro rfl
      cases digit
  have read := @run_consoleRead_line heap fresh unset kernel
    (digitString number) later ((List.range (100#32).toNat).map fresh) 100#32
    (by simp) (by omega) plain typed
  have ended : ∃ rest, digitString number ++ List.replicate
      ((100#32).toInt.toNat - (digitString number).length) 0#8 ++
        ((List.range (100#32).toNat).map fresh).drop (100#32).toInt.toNat =
      digitString number ++ 0#8 :: rest := by
    rw [count, show 100 - (digitString number).length =
      99 - (digitString number).length + 1 by omega, List.replicate_succ,
      List.append_assoc, List.cons_append]
    exact ⟨_, rfl⟩
  obtain ⟨rest, same⟩ := ended
  rw [same] at read
  have front : (digitString number ++ 0#8 :: rest).take
      (BitVec.ofNat 32 (digitString number).length).toInt.toNat =
        digitString number := by
    rw [toInt_ofNat_eq (by omega), Int.toNat_natCast, List.take_left]
  have value := @run_atoi_line heap fresh unset (kernel.withTyped later)
    (digitString number) rest (digitString_digits number)
  rw [numeralValue_digitString, min_eq_right (by omega),
    max_eq_right (by omega), BitVec.ofInt_natCast] at value
  refine (run_bind_ok (run_newBuffer_honoured ⟨by decide, enough⟩)).trans
    ((run_bind_ok (run_nonNull _)).trans ((run_bind_ok read).trans ?_))
  simp only [front]
  rw [if_pos (List.all_eq_true.mpr (digitString_digits number)), run_bind_ok value]
  rfl

/-- The digits are the numeral of a positive number, and of no other one. -/
theorem digitString_eq_numeral_iff (number : Int) :
    digitString number.toNat = numeral number ↔ 0 < number := by
  unfold numeral
  by_cases zero : number = 0
  · subst zero
    rw [if_pos rfl, Int.toNat_zero, digitString_zero]
    constructor
    · rintro ⟨⟩
    · intro positive
      exact absurd positive (lt_irrefl 0)
  · by_cases negative : number < 0
    · rw [if_neg zero, if_pos negative, Int.toNat_of_nonpos (by omega), digitString_zero]
      constructor
      · rintro ⟨⟩
      · intro positive
        omega
    · have magnitude : number.natAbs = number.toNat := by omega
      rw [if_neg zero, if_neg negative, magnitude]
      exact ⟨fun _ => by omega, fun _ => rfl⟩

end Calls

/-- `SC_PrintInt` sends the decimal numeral of a number if and only if the
number is positive and there is a block for the digits.  `SC_ReadInt` of what
it sends gives back every number which is not negative. -/
theorem printInt_exact_iff (heap : Nat) (fresh : Nat → Byte) (unset : Byte)
    (kernel : Kernel Host) (code : kernel.registers r2 = 12#32) :
    ((∃ after, (exceptionHandler .syscallException).run
          (Kernel.answer (deviceHost heap fresh unset)) kernel =
            .ok ((), after) ∧
        sent (deviceHost heap fresh unset)
          (exceptionHandler .syscallException) kernel =
            numeral (kernel.registers r4).toInt) ↔
      100 ≤ heap ∧ 0 < (kernel.registers r4).toInt) ∧
    (100 ≤ heap → 0 ≤ (kernel.registers r4).toInt →
      ∀ (reader : Kernel Host) (later : List Byte),
        reader.registers r2 = 11#32 →
        reader.shared.rest.typed = sent (deviceHost heap fresh unset)
          (exceptionHandler .syscallException) kernel ++ 10#8 :: later →
        ∃ after, (exceptionHandler .syscallException).run
            (Kernel.answer (deviceHost heap fresh unset)) reader =
              .ok ((), after) ∧
          after.registers r2 = kernel.registers r4) := by
  have found : Syscall.ofCode (kernel.registers r2) = some .printInt := by
    rw [code]
    rfl
  by_cases enough : 100 ≤ heap
  · obtain ⟨ran, shown⟩ := exceptionHandler_shows found
      (@scPrintInt_shows heap fresh unset kernel enough)
    have text : sent (deviceHost heap fresh unset)
        (exceptionHandler .syscallException) kernel =
          digitString (kernel.registers r4).toInt.toNat := shown
    rw [text, digitString_eq_numeral_iff]
    refine ⟨⟨fun given => ⟨enough, given.choose_spec.2⟩, fun given => ⟨_, ran, given.2⟩⟩, ?_⟩
    intro _ nonnegative reader later request typed
    have asked : Syscall.ofCode (reader.registers r2) = some .readInt := by
      rw [request]
      rfl
    have limit := (kernel.registers r4).toInt_lt
    have same := toInt_eq_toNat nonnegative
    obtain ⟨after, returned, -, result⟩ := run_exceptionHandler asked
      (@run_scReadInt_line heap fresh unset reader enough
        (kernel.registers r4).toInt.toNat (by omega) later typed)
    refine ⟨after, returned, ?_⟩
    rw [result, Kernel.withRegister_self, same, Int.toNat_natCast,
      BitVec.ofNat_toNat, BitVec.setWidth_eq]
  · refine ⟨⟨?_, fun given => absurd given.1 enough⟩, fun given => absurd given enough⟩
    rintro ⟨after, ran, -⟩
    have refused : ¬Honours heap 100#32 := fun honours => enough honours.2
    obtain ⟨reason, -, stopped⟩ := @newBuffer_refused heap fresh unset kernel
      Unit 100#32 refused fun buffer => do
        let digits := numberOfDigits (kernel.registers r4).toInt.toNat
        let buffer ← storeDigits digits (kernel.registers r4).toInt buffer
        consoleWrite buffer 0 (BitVec.ofNat 32 digits)
    have failed : (syscallCase .printInt).run
        (device heap fresh unset) kernel =
          .error reason := (run_bind_ok (run_readRegister r4)).trans stopped
    exact (exceptionHandler_stops found failed after ran).elim

/-- The program prints a number. -/
def printingInt (number : Word) : Kernel Host :=
  requesting [] 12#32 number 0#32 0#32

theorem printInt_exact_iff_twelve : (∃ after, (exceptionHandler .syscallException).run
        (Kernel.answer (deviceHost 100 (fun _ => 0#8) 0#8))
        (printingInt 12#32) = .ok ((), after) ∧
      sent (deviceHost 100 (fun _ => 0#8) 0#8)
        (exceptionHandler .syscallException) (printingInt 12#32) = numeral 12) :=
  ((printInt_exact_iff 100 (fun _ => 0#8) 0#8 (printingInt 12#32) rfl).1).mpr ⟨le_rfl, by decide⟩

/-- Nothing is sent for 0 and for -5. -/
theorem printInt_omits_zero_and_negative : sent (deviceHost 100 (fun _ => 0#8) 0#8)
        (exceptionHandler .syscallException) (printingInt 0#32) = [] ∧
      numeral 0 = [48#8] ∧
      sent (deviceHost 100 (fun _ => 0#8) 0#8)
        (exceptionHandler .syscallException) (printingInt (-5#32)) = [] ∧
      numeral (-5) = [45#8, 53#8] := by
  refine ⟨by decide +kernel, by decide, by decide +kernel, ?_⟩
  simp [numeral, digitString, digitCharacter]

end Handler

end Nachos
