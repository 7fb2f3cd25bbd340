import Mathlib.Algebra.Group.Nat.Defs
import Mathlib.Data.List.Basic

namespace Presence.Data

/-! # Bytes

What holds of a byte can be decided code by code.
-/

theorem forall_byte {property : UInt8 → Prop} (all : ∀ value < 256, property (.ofNat value))
    (c : UInt8) : property c := by
  have known := all c.toNat c.toNat_lt
  rwa [UInt8.ofNat_toNat] at known

theorem ofNat_congr {first second : Nat} (same : first % 256 = second % 256) :
    UInt8.ofNat first = UInt8.ofNat second := by
  rw [← UInt8.toNat_inj, UInt8.toNat_ofNat', UInt8.toNat_ofNat']
  exact same

/-! ## Numbers -/

/-- Bytes as a number, the first one leading. -/
def numberOf (bytes : List UInt8) : Nat :=
  bytes.foldl (fun number byte => number * 256 + byte.toNat) 0

theorem foldl_number (bytes : List UInt8) (number : Nat) :
    bytes.foldl (fun number byte => number * 256 + byte.toNat) number =
      number * 256 ^ bytes.length + numberOf bytes := by
  induction bytes generalizing number with
  | nil => simp [numberOf]
  | cons byte rest ih =>
      rw [numberOf, List.foldl_cons, List.foldl_cons, ih, ih (0 * 256 + byte.toNat), List.length_cons,
        Nat.pow_succ]
      simp only [Nat.zero_mul, Nat.zero_add, Nat.add_mul, Nat.mul_assoc, Nat.add_assoc]
      rw [Nat.mul_comm 256]

theorem numberOf_append (first second : List UInt8) :
    numberOf (first ++ second) = numberOf first * 256 ^ second.length + numberOf second := by
  rw [numberOf, List.foldl_append, foldl_number]
  rfl

theorem numberOf_concat (lead : List UInt8) (byte : UInt8) :
    numberOf (lead ++ [byte]) = numberOf lead * 256 + byte.toNat := by
  rw [numberOf, List.foldl_append]
  rfl

theorem numberOf_cons (byte : UInt8) (rest : List UInt8) :
    numberOf (byte :: rest) = byte.toNat * 256 ^ rest.length + numberOf rest := by
  rw [numberOf, List.foldl_cons, foldl_number, Nat.zero_mul, Nat.zero_add]

theorem numberOf_lt (bytes : List UInt8) : numberOf bytes < 256 ^ bytes.length := by
  induction bytes with
  | nil => decide
  | cons byte rest ih =>
      rw [numberOf_cons, List.length_cons, Nat.pow_succ]
      have room : byte.toNat * 256 ^ rest.length ≤ 255 * 256 ^ rest.length :=
        Nat.mul_le_mul_right _ (by have := byte.toNat_lt; omega)
      omega

theorem numberOf_append_div (first second : List UInt8) :
    numberOf (first ++ second) / 256 ^ second.length = numberOf first := by
  have low := numberOf_lt second
  rw [numberOf_append, Nat.mul_comm, Nat.mul_add_div (by omega), Nat.div_eq_of_lt low, Nat.add_zero]

theorem numberOf_injective {first second : List UInt8} (sized : first.length = second.length)
    (same : numberOf first = numberOf second) : first = second := by
  induction first generalizing second with
  | nil => exact (List.eq_nil_of_length_eq_zero sized.symm).symm
  | cons byte rest ih =>
      cases second with
      | nil => cases sized
      | cons other others =>
          have lengths : rest.length = others.length := Nat.succ.inj sized
          have heads : numberOf [byte] = numberOf [other] := by
            rw [← numberOf_append_div [byte] rest, ← numberOf_append_div [other] others, ← lengths]
            exact congrArg (· / 256 ^ rest.length) same
          simp only [numberOf, List.foldl_cons, List.foldl_nil, Nat.zero_mul, Nat.zero_add] at heads
          rw [numberOf_cons, numberOf_cons, heads, ← lengths] at same
          rw [UInt8.toNat.inj heads, ih lengths (Nat.add_left_cancel same)]

/-! ## Digits of six bits

Three bytes are four digits.  The bits the last digit has to spare are zero, so
that every text of bytes is written in one way.
-/

def sextets : List UInt8 → List Nat
  | a :: b :: c :: rest =>
      [a.toNat / 4, a.toNat % 4 * 16 + b.toNat / 16, b.toNat % 16 * 4 + c.toNat / 64,
        c.toNat % 64] ++ sextets rest
  | [a, b] => [a.toNat / 4, a.toNat % 4 * 16 + b.toNat / 16, b.toNat % 16 * 4]
  | [a] => [a.toNat / 4, a.toNat % 4 * 16]
  | [] => []

/-- The bytes that so many digits are, if there are such bytes. -/
def octets : List Nat → Option (List UInt8)
  | p :: q :: r :: s :: rest =>
      (octets rest).map ([UInt8.ofNat (p * 4 + q / 16), UInt8.ofNat (q * 16 + r / 4),
        UInt8.ofNat (r * 64 + s)] ++ ·)
  | [p, q, r] =>
      if r % 4 = 0 then some [UInt8.ofNat (p * 4 + q / 16), UInt8.ofNat (q * 16 + r / 4)] else none
  | [p, q] => if q % 16 = 0 then some [UInt8.ofNat (p * 4 + q / 16)] else none
  | [_] => none
  | [] => some []

theorem sextets_lt (bytes : List UInt8) : ∀ digit ∈ sextets bytes, digit < 64 := by
  induction bytes using sextets.induct with
  | case1 a b c rest ih =>
      have bounds : a.toNat < 256 ∧ b.toNat < 256 ∧ c.toNat < 256 :=
        ⟨a.toNat_lt, b.toNat_lt, c.toNat_lt⟩
      simp only [sextets, List.cons_append, List.nil_append, List.forall_mem_cons]
      exact ⟨by omega, by omega, by omega, by omega, ih⟩
  | case2 a b =>
      have bounds : a.toNat < 256 ∧ b.toNat < 256 := ⟨a.toNat_lt, b.toNat_lt⟩
      simp only [sextets, List.forall_mem_cons]
      exact ⟨by omega, by omega, by omega, by simp⟩
  | case3 a =>
      have bound : a.toNat < 256 := a.toNat_lt
      simp only [sextets, List.forall_mem_cons]
      exact ⟨by omega, by omega, by simp⟩
  | case4 => simp [sextets]

theorem length_sextets (bytes : List UInt8) :
    (sextets bytes).length = (bytes.length * 4 + 2) / 3 := by
  induction bytes using sextets.induct with
  | case1 a b c rest ih =>
      simp only [sextets, List.cons_append, List.nil_append, List.length_cons, ih]
      omega
  | case2 a b => simp [sextets]
  | case3 a => simp [sextets]
  | case4 => simp [sextets]

theorem octets_sextets (bytes : List UInt8) : octets (sextets bytes) = some bytes := by
  have whole {a : UInt8} {value : Nat} (same : value % 256 = a.toNat) : UInt8.ofNat value = a :=
    (ofNat_congr (by omega)).trans UInt8.ofNat_toNat
  induction bytes using sextets.induct with
  | case1 a b c rest ih =>
      have bounds : a.toNat < 256 ∧ b.toNat < 256 ∧ c.toNat < 256 :=
        ⟨a.toNat_lt, b.toNat_lt, c.toNat_lt⟩
      simp only [sextets, List.cons_append, List.nil_append]
      rw [octets, ih, whole (a := a) (by omega), whole (a := b) (by omega),
        whole (a := c) (by omega)]
      rfl
  | case2 a b =>
      have bounds : a.toNat < 256 ∧ b.toNat < 256 := ⟨a.toNat_lt, b.toNat_lt⟩
      rw [sextets, octets, if_pos (by omega), whole (a := a) (by omega), whole (a := b) (by omega)]
  | case3 a =>
      have bound : a.toNat < 256 := a.toNat_lt
      rw [sextets, octets, if_pos (by omega), whole (a := a) (by omega)]
  | case4 => rfl

theorem sextets_octets {digits : List Nat} (small : ∀ digit ∈ digits, digit < 64) :
    ∀ {bytes : List UInt8}, octets digits = some bytes → sextets bytes = digits := by
  induction digits using octets.induct with
  | case1 p q r s rest ih =>
      intro bytes read
      simp only [List.forall_mem_cons] at small
      obtain ⟨smallP, smallQ, smallR, smallS, smallRest⟩ := small
      rw [octets, Option.map_eq_some_iff] at read
      obtain ⟨tail, readTail, rfl⟩ := read
      have tailDigits : sextets tail = rest := ih smallRest readTail
      simp only [List.cons_append, List.nil_append, sextets, UInt8.toNat_ofNat', tailDigits,
        List.cons.injEq, and_true]
      omega
  | case2 p q r spare =>
      intro bytes read
      simp only [List.forall_mem_cons] at small
      rw [octets, if_pos spare, Option.some.injEq] at read
      subst read
      simp only [sextets, UInt8.toNat_ofNat', List.cons.injEq, and_true]
      omega
  | case3 p q r spare =>
      intro bytes read
      simp [octets, spare] at read
  | case4 p q spare =>
      intro bytes read
      simp only [List.forall_mem_cons] at small
      rw [octets, if_pos spare, Option.some.injEq] at read
      subst read
      simp only [sextets, UInt8.toNat_ofNat', List.cons.injEq, and_true]
      omega
  | case5 p q spare =>
      intro bytes read
      simp [octets, spare] at read
  | case6 p =>
      intro bytes read
      simp [octets] at read
  | case7 =>
      intro bytes read
      rw [octets, Option.some.injEq] at read
      subst read
      rfl

end Presence.Data
