import Mathlib.Data.Nat.Digits.Lemmas

namespace Presence.Data

/-! Decimal numbers in an alphabet.

`Numerals` are ten symbols that can be told from everything else.  The canonical
text of a number has no leading zero; it is the only such text with that value,
so writing and reading are inverse to each other.
-/

universe u

structure Numerals (α : Type u) where
  symbol : Nat → α
  value : α → Option Nat
  value_symbol : ∀ {digit}, digit < 10 → value (symbol digit) = some digit
  symbol_value : ∀ {mark digit}, value mark = some digit → digit < 10 ∧ symbol digit = mark

/-- The digits of a number, the most significant one first. -/
def decimalDigits (number : Nat) : List Nat :=
  if number = 0 then [0] else (Nat.digits 10 number).reverse

/-- Reading digits one after the other, starting from a value. -/
def readFrom (value : Nat) (digits : List Nat) : Nat :=
  digits.foldl (fun value digit => value * 10 + digit) value

/-- At least one digit, and a zero at the front only if it is the only one. -/
structure Canonical (digits : List Nat) : Prop where
  nonempty : digits ≠ []
  below : ∀ digit ∈ digits, digit < 10
  leading : digits.head? = some 0 → digits = [0]

theorem readFrom_cons (value digit : Nat) (rest : List Nat) :
    readFrom value (digit :: rest) = readFrom (value * 10 + digit) rest := rfl

theorem readFrom_reverse (digits : List Nat) :
    readFrom 0 digits.reverse = Nat.ofDigits 10 digits := by
  rw [readFrom, List.foldl_reverse, Nat.ofDigits_eq_foldr]
  congr 1
  funext digit value
  simp only [Nat.cast_id]
  omega

theorem canonical_decimalDigits (number : Nat) : Canonical (decimalDigits number) := by
  by_cases zero : number = 0
  · subst zero
    exact ⟨by simp [decimalDigits], by simp [decimalDigits], by simp [decimalDigits]⟩
  · have some : Nat.digits 10 number ≠ [] := Nat.digits_ne_nil_iff_ne_zero.mpr zero
    have last := Nat.getLast_digit_ne_zero 10 zero
    rw [decimalDigits, if_neg zero]
    refine ⟨by simpa using some, ?_, ?_⟩
    · intro digit member
      exact Nat.digits_lt_base (by decide) (List.mem_reverse.mp member)
    · intro leading
      rw [List.head?_reverse, List.getLast?_eq_some_getLast some] at leading
      exact absurd (Option.some.inj leading) last

theorem readFrom_decimalDigits (number : Nat) : readFrom 0 (decimalDigits number) = number := by
  by_cases zero : number = 0
  · subst zero
    simp [decimalDigits, readFrom]
  · rw [decimalDigits, if_neg zero, readFrom_reverse, Nat.ofDigits_digits]

/-- Only the canonical text of a number has its value. -/
theorem decimalDigits_readFrom {digits : List Nat} (canonical : Canonical digits) :
    decimalDigits (readFrom 0 digits) = digits := by
  obtain ⟨nonempty, below, leading⟩ := canonical
  have value : readFrom 0 digits = Nat.ofDigits 10 digits.reverse := by
    rw [← readFrom_reverse, List.reverse_reverse]
  by_cases lone : digits = [0]
  · subst lone
    simp [decimalDigits, readFrom]
  · have last : ∀ some : digits.reverse ≠ [], digits.reverse.getLast some ≠ 0 := by
      intro some zero
      apply lone
      apply leading
      rw [← zero, ← List.getLast?_eq_some_getLast, List.getLast?_reverse]
    have back : Nat.digits 10 (readFrom 0 digits) = digits.reverse := by
      rw [value]
      exact Nat.digits_ofDigits 10 (by decide) _
        (fun digit member => below digit (List.mem_reverse.mp member)) last
    have positive : readFrom 0 digits ≠ 0 := by
      apply Nat.digits_ne_nil_iff_ne_zero.mp
      rw [back]
      simpa using nonempty
    rw [decimalDigits, if_neg positive, back, List.reverse_reverse]

theorem decimalDigits_of_lt {number : Nat} (small : number < 10) : decimalDigits number = [number] := by
  by_cases zero : number = 0
  · rw [decimalDigits, if_pos zero, zero]
  · rw [decimalDigits, if_neg zero, Nat.digits_of_lt 10 number zero small, List.reverse_singleton]

theorem decimalDigits_of_ge {number : Nat} (large : 10 ≤ number) :
    decimalDigits number = decimalDigits (number / 10) ++ [number % 10] := by
  have rest : number / 10 ≠ 0 := by omega
  rw [decimalDigits, decimalDigits, if_neg (by omega), if_neg rest,
    Nat.digits_def' (by decide) (by omega), List.reverse_cons]

/-- The digits of the standard library. -/
theorem toDigits_eq_decimalDigits (number : Nat) :
    Nat.toDigits 10 number = (decimalDigits number).map Nat.digitChar := by
  induction number using Nat.strong_induction_on with
  | _ number ih =>
      rcases Nat.lt_or_ge number 10 with small | large
      · rw [Nat.toDigits_of_lt_base small, decimalDigits_of_lt small, List.map_singleton]
      · rw [Nat.toDigits_of_base_le (by decide) large, decimalDigits_of_ge large,
          ih (number / 10) (by omega), List.map_append, List.map_singleton]

theorem length_decimalDigits_le {number width : Nat} (positive : 0 < width)
    (bounded : number < 10 ^ width) : (decimalDigits number).length ≤ width := by
  by_cases zero : number = 0
  · subst zero
    simpa [decimalDigits] using Nat.succ_le_of_lt positive
  · rw [decimalDigits, if_neg zero, List.length_reverse]
    exact (Nat.digits_length_le_iff (by decide) number).mpr bounded

/-- So many digits of a number, zeros at the front included. -/
def fixedDigits : Nat → Nat → List Nat
  | 0, _ => []
  | width + 1, number => fixedDigits width (number / 10) ++ [number % 10]

theorem length_fixedDigits (width number : Nat) : (fixedDigits width number).length = width := by
  induction width generalizing number with
  | zero => rfl
  | succ width ih => simp [fixedDigits, ih]

theorem fixedDigits_below {width number : Nat} : ∀ digit ∈ fixedDigits width number, digit < 10 := by
  induction width generalizing number with
  | zero => simp [fixedDigits]
  | succ width ih =>
      intro digit member
      rcases List.mem_append.mp member with front | last
      · exact ih digit front
      · rw [List.mem_singleton.mp last]
        exact Nat.mod_lt _ (by decide)

theorem readFrom_fixedDigits {width number : Nat} (bounded : number < 10 ^ width) :
    readFrom 0 (fixedDigits width number) = number := by
  induction width generalizing number with
  | zero =>
      have zero : number = 0 := by simpa using bounded
      rw [zero]
      rfl
  | succ width ih =>
      have smaller : number / 10 < 10 ^ width := by
        rw [Nat.pow_succ] at bounded
        omega
      have front := ih smaller
      simp only [readFrom] at front ⊢
      rw [fixedDigits, List.foldl_append, front]
      simp only [List.foldl_cons, List.foldl_nil]
      omega

theorem fixedDigits_zero (width : Nat) : fixedDigits width 0 = List.replicate width 0 := by
  induction width with
  | zero => rfl
  | succ width ih => rw [fixedDigits, ih, List.replicate_succ']

theorem append_lt_append {α : Type u} [LT α] {front other : List α} (less : front < other)
    (same : front.length = other.length) (rest later : List α) : front ++ rest < other ++ later := by
  induction front generalizing other with
  | nil =>
      rw [List.length_nil, eq_comm, List.length_eq_zero_iff] at same
      rw [same] at less
      cases less
  | cons first front ih =>
      obtain ⟨second, other, rfl⟩ := List.exists_cons_of_length_eq_add_one same.symm
      rw [List.cons_append, List.cons_append, List.cons_lt_cons_iff]
      rcases List.cons_lt_cons_iff.mp less with here | ⟨equal, beyond⟩
      · exact .inl here
      · exact .inr ⟨equal, ih beyond (by simpa using same)⟩

/-- Digits of one width are in the order of their numbers. -/
theorem fixedDigits_lt {width number other : Nat} (less : number < other)
    (bounded : other < 10 ^ width) : fixedDigits width number < fixedDigits width other := by
  induction width generalizing number other with
  | zero => omega
  | succ width ih =>
      have smaller : other / 10 < 10 ^ width := by
        rw [Nat.pow_succ] at bounded
        omega
      rw [fixedDigits, fixedDigits]
      by_cases front : number / 10 < other / 10
      · apply append_lt_append (ih front smaller)
        rw [length_fixedDigits, length_fixedDigits]
      · have same : number / 10 = other / 10 := by omega
        rw [same]
        apply List.append_left_lt
        rw [List.cons_lt_cons_iff]
        exact .inl (by omega)

/-- Symbols in the order of the digits keep that of a text. -/
theorem map_digits_lt {α : Type u} [LT α] {symbol : Nat → α}
    (ordered : ∀ digit < 10, ∀ other < digit, symbol other < symbol digit) {digits others : List Nat}
    (less : digits < others) (below : ∀ digit ∈ others, digit < 10) :
    digits.map symbol < others.map symbol := by
  induction digits generalizing others with
  | nil =>
      cases others with
      | nil => cases less
      | cons other others => exact List.nil_lt_cons _ _
  | cons digit digits ih =>
      cases others with
      | nil => cases less
      | cons other others =>
          rw [List.map_cons, List.map_cons, List.cons_lt_cons_iff]
          rcases List.cons_lt_cons_iff.mp less with here | ⟨same, later⟩
          · exact .inl (ordered other (below other (by simp)) digit here)
          · exact .inr ⟨by rw [same], ih later fun last member => below last (by simp [member])⟩

namespace Numerals

variable {α : Type u} {numerals : Numerals α}

def text (numerals : Numerals α) (number : Nat) : List α :=
  (decimalDigits number).map numerals.symbol

/-- The digits at the front of a text, and what follows them. -/
def scan (numerals : Numerals α) : List α → List Nat × List α
  | [] => ([], [])
  | mark :: rest =>
      match numerals.value mark with
      | none => ([], mark :: rest)
      | some digit =>
          let (digits, tail) := numerals.scan rest
          (digit :: digits, tail)

/-- Nothing at the front could continue a number. -/
def Stops (numerals : Numerals α) (tail : List α) : Prop :=
  ∀ mark ∈ tail.head?, numerals.value mark = none

theorem scan_of_none {mark : α} (rest : List α) (other : numerals.value mark = none) :
    numerals.scan (mark :: rest) = ([], mark :: rest) := by
  simp only [scan, other]

theorem scan_of_some {mark : α} {digit : Nat} (rest : List α)
    (numeral : numerals.value mark = some digit) :
    numerals.scan (mark :: rest) =
      (digit :: (numerals.scan rest).1, (numerals.scan rest).2) := by
  simp only [scan, numeral]

theorem scan_below (text : List α) : ∀ digit ∈ (numerals.scan text).1, digit < 10 := by
  induction text with
  | nil => simp [scan]
  | cons mark rest ih =>
      cases numeral : numerals.value mark with
      | none => simp [scan_of_none rest numeral]
      | some first =>
          rw [scan_of_some rest numeral]
          intro digit member
          rcases List.mem_cons.mp member with rfl | later
          · exact (numerals.symbol_value numeral).1
          · exact ih digit later

theorem scan_stops (text : List α) : numerals.Stops (numerals.scan text).2 := by
  induction text with
  | nil => simp [scan, Stops]
  | cons mark rest ih =>
      cases numeral : numerals.value mark with
      | none => simpa [scan_of_none rest numeral, Stops] using numeral
      | some first =>
          rw [scan_of_some rest numeral]
          exact ih

theorem scan_text (text : List α) :
    text = (numerals.scan text).1.map numerals.symbol ++ (numerals.scan text).2 := by
  induction text with
  | nil => simp [scan]
  | cons mark rest ih =>
      cases numeral : numerals.value mark with
      | none => simp [scan_of_none rest numeral]
      | some first =>
          rw [scan_of_some rest numeral, List.map_cons, List.cons_append, ← ih,
            (numerals.symbol_value numeral).2]

theorem scan_append {digits : List Nat} {tail : List α} (below : ∀ digit ∈ digits, digit < 10)
    (stops : numerals.Stops tail) :
    numerals.scan (digits.map numerals.symbol ++ tail) = (digits, tail) := by
  induction digits with
  | nil =>
      cases tail with
      | nil => rfl
      | cons mark rest => exact scan_of_none rest (stops mark rfl)
  | cons digit rest ih =>
      have first := numerals.value_symbol (below digit (by simp))
      have later := ih fun other member => below other (by simp [member])
      rw [List.map_cons, List.cons_append, scan_of_some _ first, later]

theorem stops_nil : numerals.Stops [] := by
  simp [Stops]

theorem scan_text_of_nat (number : Nat) : numerals.scan (numerals.text number) = (decimalDigits number, []) := by
  have read := numerals.scan_append (canonical_decimalDigits number).below numerals.stops_nil
  rwa [List.append_nil] at read

theorem text_injective {number other : Nat} (same : numerals.text number = numerals.text other) :
    number = other := by
  have digits := (Prod.mk.inj ((numerals.scan_text_of_nat number).symm.trans
    (same ▸ numerals.scan_text_of_nat other))).1
  rw [← readFrom_decimalDigits number, digits, readFrom_decimalDigits]

/-- A text that starts with something else is that of no number. -/
theorem text_ne_cons {mark : α} {rest : List α} (other : numerals.value mark = none) (number : Nat) :
    numerals.text number ≠ mark :: rest := by
  intro same
  have read := numerals.scan_text_of_nat number
  rw [same, scan_of_none rest other] at read
  exact (canonical_decimalDigits number).nonempty (Prod.mk.inj read).1.symm

/-- A text holds nothing but digits. -/
theorem not_mem_text {mark : α} (other : numerals.value mark = none) (number : Nat) :
    mark ∉ numerals.text number := by
  intro member
  obtain ⟨digit, listed, same⟩ := List.mem_map.mp member
  have read := numerals.value_symbol ((canonical_decimalDigits number).below digit listed)
  rw [same, other] at read
  cases read

end Numerals

/-- The ASCII digits. -/
def asciiNumerals : Numerals UInt8 where
  symbol digit := UInt8.ofNat (48 + digit)
  value byte := if 48 ≤ byte.toNat ∧ byte.toNat ≤ 57 then some (byte.toNat - 48) else none
  value_symbol := by decide
  symbol_value := by
    intro mark digit read
    split at read
    next inside =>
      have same : mark.toNat - 48 = digit := Option.some.inj read
      refine ⟨by omega, UInt8.toNat.inj ?_⟩
      rw [UInt8.toNat_ofNat']
      omega
    next => cases read

end Presence.Data
