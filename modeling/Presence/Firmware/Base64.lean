import Presence.Data.Bytes
import Presence.Firmware.Provision

namespace Presence.Firmware

open Presence.Data

/-! # The base64 of a device secret

`decodeBase64Exact` against the padded encoding with the standard alphabet.  Where
the size of the text would overflow in the source, the text holds too few bytes and
is refused there as it is here.
-/

/-- The standard alphabet. -/
def base64Symbols : List UInt8 :=
  ascii "ABCDEFGHIJKLMNOPQRSTUVWXYZabcdefghijklmnopqrstuvwxyz0123456789+/"

def base64Symbol (digit : Nat) : UInt8 := base64Symbols.getD digit 0

/-- The text of some bytes, filled up with pads to groups of four. -/
def base64Text (bytes : List UInt8) : List UInt8 :=
  (sextets bytes).map base64Symbol ++ List.replicate ((3 - bytes.length % 3) % 3) '='.toUInt8

example : base64Text (ascii "Ma") = ascii "TWE=" := by decide +kernel

/-! ## The alphabet -/

theorem base64Value_symbol :
    ∀ digit < 64, base64Value (base64Symbol digit) = some (UInt32.ofNat digit) := by
  decide +kernel

theorem base64Symbol_ne_pad : ∀ digit < 64, base64Symbol digit ≠ '='.toUInt8 := by
  decide +kernel

theorem base64Symbol_value {c : UInt8} :
    ((base64Value c).all fun v => decide (v.toNat < 64) && base64Symbol v.toNat == c) = true := by
  refine @forall_byte (fun c => ((base64Value c).all fun v =>
    decide (v.toNat < 64) && base64Symbol v.toNat == c) = true) ?_ c
  decide +kernel

theorem base64Value_some {c : UInt8} {v : UInt32} (value : base64Value c = some v) :
    v.toNat < 64 ∧ base64Symbol v.toNat = c := by
  simpa [value] using @base64Symbol_value c

/-! ## One group -/

theorem joined_sextets {acc digit : Nat} (room : acc < 2 ^ 18) (small : digit < 64) :
    (UInt32.ofNat acc <<< 6) ||| UInt32.ofNat digit = UInt32.ofNat (acc * 64 + digit) := by
  rw [← UInt32.toNat_inj, UInt32.toNat_or, UInt32.toNat_shiftLeft, UInt32.toNat_ofNat',
    UInt32.toNat_ofNat', UInt32.toNat_ofNat', Nat.mod_eq_of_lt (a := acc) (by omega),
    Nat.mod_eq_of_lt (a := digit) (by omega), Nat.mod_eq_of_lt (a := acc * 64 + digit) (by omega)]
  change acc <<< 6 % 2 ^ 32 ||| digit = _
  rw [Nat.mod_eq_of_lt (by rw [Nat.shiftLeft_eq]; omega),
    ← Nat.shiftLeft_add_eq_or_of_lt (by omega), Nat.shiftLeft_eq]

/-- The digits of a group, with so many of the four read before. -/
theorem base64Bits_symbols {digits : List Nat} (small : ∀ digit ∈ digits, digit < 64)
    {done acc bits : Nat} (room : acc < 64 ^ done) (group : done + digits.length ≤ 4) (pads : Nat) :
    base64Bits (UInt32.ofNat acc) bits
        (digits.map base64Symbol ++ List.replicate pads '='.toUInt8) =
      some (UInt32.ofNat (digits.foldl (· * 64 + ·) acc), bits + 6 * digits.length) := by
  induction digits generalizing done acc bits with
  | nil =>
      cases pads with
      | zero => rfl
      | succ pads => simp [List.replicate_succ, base64Bits]
  | cons digit rest ih =>
      rw [List.forall_mem_cons] at small
      rw [List.length_cons] at group
      have below : 64 ^ done ≤ 64 ^ 3 := Nat.pow_le_pow_right (by decide) (by omega)
      have next : acc * 64 + digit < 64 ^ (done + 1) := by
        rw [Nat.pow_succ]
        omega
      rw [List.map_cons, List.cons_append, base64Bits, if_neg (base64Symbol_ne_pad digit small.1),
        base64Value_symbol digit small.1]
      simp only [joined_sextets (Nat.lt_of_lt_of_le room below) small.1]
      rw [ih small.2 next (by omega), List.foldl_cons, List.length_cons, Nat.mul_succ]
      congr 2
      omega

theorem bitsBytes_byte {acc bits : Nat} (bound : acc < 2 ^ 32) (small : bits < 32) :
    bitsBytes (UInt32.ofNat acc) (bits + 8) =
      UInt8.ofNat (acc / 2 ^ bits) :: bitsBytes (UInt32.ofNat acc) bits := by
  have byte : (UInt32.ofNat acc >>> UInt32.ofNat bits).toUInt8 = UInt8.ofNat (acc / 2 ^ bits) := by
    rw [← UInt8.toNat_inj, UInt32.toNat_toUInt8, UInt32.toNat_shiftRight, UInt32.toNat_ofNat',
      UInt32.toNat_ofNat', UInt8.toNat_ofNat', Nat.mod_eq_of_lt bound,
      Nat.mod_eq_of_lt (a := bits) (by omega), Nat.mod_eq_of_lt small, Nat.shiftRight_eq_div_pow]
  rw [bitsBytes, byte]

theorem bitsBytes_spare (acc : UInt32) {bits : Nat} (small : bits < 8) :
    bitsBytes acc bits = [] := by
  rw [bitsBytes]
  intro more same
  omega

theorem spare_bits {acc bits : Nat} (bound : acc < 2 ^ 32) (small : bits < 32) :
    UInt32.ofNat acc &&& ((1 <<< UInt32.ofNat bits) - 1) = 0 ↔ acc % 2 ^ bits = 0 := by
  have power : 2 ^ bits < 2 ^ 32 := Nat.pow_lt_pow_right (by decide) small
  have positive : 0 < 2 ^ bits := Nat.two_pow_pos bits
  have shifted : ((1 : UInt32) <<< UInt32.ofNat bits).toNat = 2 ^ bits := by
    rw [UInt32.toNat_shiftLeft, UInt32.toNat_ofNat', Nat.mod_eq_of_lt (a := bits) (by omega),
      Nat.mod_eq_of_lt small]
    change 1 <<< bits % 2 ^ 32 = _
    rw [Nat.shiftLeft_eq, Nat.one_mul, Nat.mod_eq_of_lt power]
  have mask : ((1 : UInt32) <<< UInt32.ofNat bits - 1).toNat = 2 ^ bits - 1 := by
    have above : (1 : UInt32) ≤ 1 <<< UInt32.ofNat bits := by
      rw [UInt32.le_iff_toNat_le, shifted]
      exact positive
    rw [UInt32.toNat_sub_of_le _ _ above, shifted]
    rfl
  rw [← UInt32.toNat_inj, UInt32.toNat_and, mask, UInt32.toNat_ofNat', Nat.mod_eq_of_lt bound,
    Nat.and_two_pow_sub_one_eq_mod]
  rfl

/-! ## The groups -/

theorem foldl_digits_lt {digits : List Nat} (small : ∀ digit ∈ digits, digit < 64) {done acc : Nat}
    (room : acc < 64 ^ done) :
    digits.foldl (· * 64 + ·) acc < 64 ^ (done + digits.length) := by
  induction digits generalizing done acc with
  | nil => exact room
  | cons digit rest ih =>
      rw [List.forall_mem_cons] at small
      have next : acc * 64 + digit < 64 ^ (done + 1) := by
        rw [Nat.pow_succ]
        omega
      rw [List.foldl_cons, List.length_cons, Nat.add_comm rest.length, ← Nat.add_assoc]
      exact ih small.2 next

theorem group_lt {digits : List Nat} (small : ∀ digit ∈ digits, digit < 64)
    (group : digits.length ≤ 4) : digits.foldl (· * 64 + ·) 0 < 2 ^ 32 :=
  calc digits.foldl (· * 64 + ·) 0
    _ < 64 ^ (0 + digits.length) := foldl_digits_lt small (by decide)
    _ ≤ 64 ^ 4 := Nat.pow_le_pow_right (by decide) (by omega)
    _ ≤ 2 ^ 32 := by decide

theorem decodeGroups_group {digits : List Nat} (small : ∀ digit ∈ digits, digit < 64)
    (word bits pads : Nat) (value : digits.foldl (· * 64 + ·) 0 = word)
    (width : 6 * digits.length = bits) (group : digits.length + pads = 4) (out rest : List UInt8) :
    decodeGroups out (digits.map base64Symbol ++ (List.replicate pads '='.toUInt8 ++ rest)) =
      if word % 2 ^ (bits % 8) = 0 then
        decodeGroups (out ++ bitsBytes (UInt32.ofNat word) bits) rest
      else none := by
  subst value width
  have read := @base64Bits_symbols digits small 0 0 0 (by decide) (by omega) pads
  have four : (digits.map base64Symbol ++ List.replicate pads '='.toUInt8).length = 4 := by
    simpa using group
  rw [← List.append_assoc]
  obtain ⟨a, b, c, d, text⟩ := List.length_eq_four.mp four
  rw [text] at read ⊢
  rw [Nat.zero_add] at read
  simp only [List.cons_append, List.nil_append, decodeGroups]
  rw [show (0 : UInt32) = UInt32.ofNat 0 from rfl, read]
  exact if_congr (spare_bits (group_lt small (by omega)) (by omega)) rfl rfl

theorem decodeGroups_four {p q r s : Nat} (small : ∀ digit ∈ [p, q, r, s], digit < 64)
    (out rest : List UInt8) :
    decodeGroups out ([p, q, r, s].map base64Symbol ++ rest) =
      decodeGroups (out ++ [UInt8.ofNat (p * 4 + q / 16), UInt8.ofNat (q * 16 + r / 4),
        UInt8.ofNat (r * 64 + s)]) rest := by
  have bound : ((p * 64 + q) * 64 + r) * 64 + s < 2 ^ 32 := by
    simp only [List.forall_mem_cons] at small
    omega
  have bytes : bitsBytes (UInt32.ofNat (((p * 64 + q) * 64 + r) * 64 + s)) 24 =
      [UInt8.ofNat (p * 4 + q / 16), UInt8.ofNat (q * 16 + r / 4), UInt8.ofNat (r * 64 + s)] := by
    rw [bitsBytes_byte bound (show 16 < 32 by decide), bitsBytes_byte bound (show 8 < 32 by decide),
      bitsBytes_byte bound (show 0 < 32 by decide), bitsBytes_spare _ (by decide)]
    simp only [List.forall_mem_cons] at small
    simp only [List.cons.injEq, and_true]
    exact ⟨ofNat_congr (by omega), ofNat_congr (by omega), ofNat_congr (by omega)⟩
  refine (decodeGroups_group small (((p * 64 + q) * 64 + r) * 64 + s) 24 0 (by simp) rfl rfl
    out rest).trans ?_
  rw [bytes]
  exact if_pos (Nat.mod_one _)

theorem decodeGroups_three {p q r : Nat} (small : ∀ digit ∈ [p, q, r], digit < 64)
    (out : List UInt8) :
    decodeGroups out ([p, q, r].map base64Symbol ++ ['='.toUInt8]) =
      if r % 4 = 0 then some (out ++ [UInt8.ofNat (p * 4 + q / 16), UInt8.ofNat (q * 16 + r / 4)])
      else none := by
  have bound : (p * 64 + q) * 64 + r < 2 ^ 32 := by
    simp only [List.forall_mem_cons] at small
    omega
  have bytes : bitsBytes (UInt32.ofNat ((p * 64 + q) * 64 + r)) 18 =
      [UInt8.ofNat (p * 4 + q / 16), UInt8.ofNat (q * 16 + r / 4)] := by
    rw [bitsBytes_byte bound (show 10 < 32 by decide), bitsBytes_byte bound (show 2 < 32 by decide),
      bitsBytes_spare _ (by decide)]
    simp only [List.forall_mem_cons] at small
    simp only [List.cons.injEq, and_true]
    exact ⟨ofNat_congr (by omega), ofNat_congr (by omega)⟩
  refine (decodeGroups_group small ((p * 64 + q) * 64 + r) 18 1 (by simp) rfl rfl out []).trans ?_
  simp only [Nat.reduceMod, Nat.reducePow, bytes]
  exact if_congr (by omega) rfl rfl

theorem decodeGroups_two {p q : Nat} (small : ∀ digit ∈ [p, q], digit < 64) (out : List UInt8) :
    decodeGroups out ([p, q].map base64Symbol ++ ['='.toUInt8, '='.toUInt8]) =
      if q % 16 = 0 then some (out ++ [UInt8.ofNat (p * 4 + q / 16)]) else none := by
  have bound : p * 64 + q < 2 ^ 32 := by
    simp only [List.forall_mem_cons] at small
    omega
  have bytes : bitsBytes (UInt32.ofNat (p * 64 + q)) 12 = [UInt8.ofNat (p * 4 + q / 16)] := by
    rw [bitsBytes_byte bound (show 4 < 32 by decide), bitsBytes_spare _ (by decide)]
    simp only [List.forall_mem_cons] at small
    simp only [List.cons.injEq, and_true]
    exact ofNat_congr (by omega)
  refine (decodeGroups_group small (p * 64 + q) 12 2 (by simp) rfl rfl out []).trans ?_
  simp only [Nat.reduceMod, Nat.reducePow, bytes]
  exact if_congr (by omega) rfl rfl

/-- What the loop makes of digits of the alphabet, filled up with pads. -/
theorem decodeGroups_symbols {digits : List Nat} (small : ∀ digit ∈ digits, digit < 64) {pads : Nat}
    (few : pads ≤ 2) (filled : (digits.length + pads) % 4 = 0) (out : List UInt8) :
    decodeGroups out (digits.map base64Symbol ++ List.replicate pads '='.toUInt8) =
      (octets digits).map (out ++ ·) := by
  induction digits using octets.induct generalizing out with
  | case1 p q r s rest ih =>
      have here : ∀ digit ∈ [p, q, r, s], digit < 64 := by simp_all
      have remaining : (rest.length + pads) % 4 = 0 := by
        simp only [List.length_cons] at filled
        omega
      refine (decodeGroups_four here out
        (rest.map base64Symbol ++ List.replicate pads '='.toUInt8)).trans ?_
      rw [ih (by simp_all) remaining, octets, Option.map_map]
      simp [Function.comp_def]
  | case2 p q r spare | case3 p q r spare =>
      have last : pads = 1 := by
        simp only [List.length_cons, List.length_nil] at filled
        omega
      subst last
      refine (decodeGroups_three small out).trans ?_
      simp [octets, spare]
  | case4 p q spare | case5 p q spare =>
      have last : pads = 2 := by
        simp only [List.length_cons, List.length_nil] at filled
        omega
      subst last
      refine (decodeGroups_two small out).trans ?_
      simp [octets, spare]
  | case6 p =>
      simp only [List.length_singleton] at filled
      omega
  | case7 =>
      have none : pads = 0 := by
        simp only [List.length_nil, Nat.zero_add] at filled
        omega
      subst none
      simp [decodeGroups, octets]

theorem base64Bits_known (rest : List UInt8) {acc : UInt32} {bits : Nat} {body : List UInt8}
    (unpadded : '='.toUInt8 ∉ body) (read : (base64Bits acc bits (body ++ rest)).isSome) :
    ∀ c ∈ body, (base64Value c).isSome := by
  induction body generalizing acc bits with
  | nil => simp
  | cons c body ih =>
      rw [List.mem_cons, not_or] at unpadded
      rw [List.cons_append, base64Bits, if_neg (Ne.symm unpadded.1)] at read
      cases value : base64Value c with
      | none => simp [value] at read
      | some v =>
          simp only [value] at read
          exact List.forall_mem_cons.mpr ⟨by rw [value]; rfl, ih unpadded.2 read⟩

theorem decodeGroups_known {a b c d : UInt8} {out rest bytes : List UInt8}
    (read : decodeGroups out (a :: b :: c :: d :: rest) = some bytes) :
    (base64Bits 0 0 [a, b, c, d]).isSome ∧ ∃ out, decodeGroups out rest = some bytes := by
  cases group : base64Bits 0 0 [a, b, c, d] with
  | none => simp [decodeGroups, group] at read
  | some result =>
      obtain ⟨acc, bits⟩ := result
      simp only [decodeGroups, group] at read
      split at read
      · exact ⟨rfl, _, read⟩
      · cases read

/-- A text the loop takes has nothing but digits before its pads. -/
theorem base64Value_isSome {pads : Nat} (few : pads ≤ 2) {bytes : List UInt8} :
    ∀ {body out : List UInt8}, (body.length + pads) % 4 = 0 → '='.toUInt8 ∉ body →
      decodeGroups out (body ++ List.replicate pads '='.toUInt8) = some bytes →
      ∀ c ∈ body, (base64Value c).isSome
  | a :: b :: c :: d :: rest, out => by
      intro filled unpadded read
      obtain ⟨group, later, readLater⟩ := decodeGroups_known read
      have split : a :: b :: c :: d :: rest = [a, b, c, d] ++ rest := rfl
      rw [split, List.mem_append, not_or] at unpadded
      have here := base64Bits_known [] unpadded.1 (by rw [List.append_nil]; exact group)
      have there := base64Value_isSome few (by simp only [List.length_cons] at filled; omega)
        unpadded.2 readLater
      rw [split]
      exact List.forall_mem_append.mpr ⟨here, there⟩
  | [a, b, c], out => by
      intro filled unpadded read
      have last : pads = 1 := by
        simp only [List.length_cons, List.length_nil] at filled
        omega
      subst last
      exact base64Bits_known ['='.toUInt8] unpadded (decodeGroups_known read).1
  | [a, b], out => by
      intro filled unpadded read
      have last : pads = 2 := by
        simp only [List.length_cons, List.length_nil] at filled
        omega
      subst last
      exact base64Bits_known ['='.toUInt8, '='.toUInt8] unpadded
        (decodeGroups_known read).1
  | [a], out => by
      intro filled
      simp only [List.length_singleton] at filled
      omega
  | [], out => by simp

theorem exists_digits {body : List UInt8} (known : ∀ c ∈ body, (base64Value c).isSome) :
    ∃ digits : List Nat, (∀ digit ∈ digits, digit < 64) ∧ body = digits.map base64Symbol := by
  induction body with
  | nil => exact ⟨[], by simp, rfl⟩
  | cons c rest ih =>
      rw [List.forall_mem_cons] at known
      obtain ⟨v, value⟩ := Option.isSome_iff_exists.mp known.1
      obtain ⟨small, symbol⟩ := base64Value_some value
      obtain ⟨digits, smaller, rfl⟩ := ih known.2
      refine ⟨v.toNat :: digits, List.forall_mem_cons.mpr ⟨small, smaller⟩, ?_⟩
      rw [List.map_cons, symbol]

/-! ## The decoder -/

theorem padSlots_iff (pad : UInt8) {text : List UInt8} {start : Nat}
    (within : start ≤ text.length) :
    text.zipIdx.any (fun (c, i) => decide (start ≤ i) != (c == pad)) = false ↔
      ∃ body, body.length = start ∧ pad ∉ body ∧
        text = body ++ List.replicate (text.length - start) pad := by
  have slots : text.zipIdx.any (fun (c, i) => decide (start ≤ i) != (c == pad)) = false ↔
      ∀ i (bound : i < text.length), start ≤ i ↔ text[i] = pad := by
    rw [List.any_eq_false]
    constructor
    · intro each i bound
      have member := List.mk_mem_zipIdx_iff_getElem?.mpr (List.getElem?_eq_getElem bound)
      have slot := each (text[i], i) member
      rw [bne_iff_ne, not_ne_iff, Bool.eq_iff_iff, decide_eq_true_eq, beq_iff_eq] at slot
      exact slot
    · rintro each ⟨c, i⟩ member
      rw [List.mk_mem_zipIdx_iff_getElem?] at member
      obtain ⟨bound, rfl⟩ := List.getElem?_eq_some_iff.mp member
      rw [bne_iff_ne, not_ne_iff, Bool.eq_iff_iff, decide_eq_true_eq, beq_iff_eq]
      exact each i bound
  rw [slots]
  constructor
  · intro each
    refine ⟨text.take start, List.length_take_of_le within, ?_, ?_⟩
    · intro member
      obtain ⟨i, bound, padded⟩ := List.mem_iff_getElem.mp member
      rw [List.length_take] at bound
      rw [List.getElem_take] at padded
      have late := (each i (by omega)).mpr padded
      omega
    · have pads : text.drop start = List.replicate (text.length - start) pad := by
        rw [List.eq_replicate_iff, List.length_drop]
        refine ⟨rfl, fun c member => ?_⟩
        obtain ⟨i, bound, rfl⟩ := List.mem_iff_getElem.mp member
        rw [List.length_drop] at bound
        rw [List.getElem_drop]
        exact (each (start + i) (by omega)).mp (Nat.le_add_right start i)
      rw [← pads, List.take_append_drop]
  · rintro ⟨body, size, unpadded, same⟩ i bound
    constructor
    · intro late
      rw [List.getElem_of_eq same, List.getElem_append_right (by omega), List.getElem_replicate]
    · intro padded
      by_contra early
      rw [List.getElem_of_eq same, List.getElem_append_left (by omega)] at padded
      exact unpadded (padded ▸ List.getElem_mem _)

/-- The checks of the source, in its order. -/
theorem decodeBase64Exact_eq_some {outLen : Nat} {text : List UInt8} {out : Vector UInt8 outLen} :
    decodeBase64Exact text outLen = some out ↔
      (text.length = (outLen + 2) / 3 * 4 ∧ outLen ≠ 0) ∧
        text.zipIdx.any (fun (c, i) => decide ((outLen + 2) / 3 * 4 -
          (if outLen % 3 = 0 then 0 else 3 - outLen % 3) ≤ i) != (c == '='.toUInt8)) = false ∧
        decodeGroups [] text = some out.toList := by
  simp only [decodeBase64Exact]
  split
  · case isTrue refused => exact ⟨nofun, fun accepted => absurd accepted.1 (by omega)⟩
  · case isFalse sized =>
      rw [and_iff_right (show text.length = (outLen + 2) / 3 * 4 ∧ outLen ≠ 0 by omega)]
      generalize (if outLen % 3 = 0 then 0 else 3 - outLen % 3) = pad
      generalize text.zipIdx.any _ = slots
      cases slots with
      | true => simp
      | false =>
          simp only [Bool.false_eq_true, if_false, true_and]
          cases groups : decodeGroups [] text with
          | none => simp
          | some bytes =>
              simp only [Option.some.injEq]
              split
              · case isTrue size =>
                  rw [Option.some.injEq, ← Vector.toList_inj]
                  exact Iff.rfl
              · case isFalse size =>
                  refine ⟨nofun, fun same => absurd ?_ size⟩
                  rw [same, Vector.length_toList]

theorem decodeBase64Exact_eq_some_iff {outLen : Nat} (positive : 0 < outLen) (text : List UInt8)
    (out : Vector UInt8 outLen) :
    decodeBase64Exact text outLen = some out ↔ text = base64Text out.toList := by
  have pads : (if outLen % 3 = 0 then 0 else 3 - outLen % 3) = (3 - outLen % 3) % 3 := by
    split <;> omega
  have start : (outLen + 2) / 3 * 4 - (3 - outLen % 3) % 3 = (outLen * 4 + 2) / 3 := by omega
  rw [decodeBase64Exact_eq_some, pads, start]
  constructor
  · rintro ⟨⟨size, -⟩, slots, read⟩
    obtain ⟨body, bodySize, unpadded, split⟩ := (padSlots_iff _ (by omega)).mp slots
    rw [show text.length - (outLen * 4 + 2) / 3 = (3 - outLen % 3) % 3 by omega] at split
    rw [split] at read
    have known := base64Value_isSome (by omega) (by omega) unpadded read
    obtain ⟨digits, small, rfl⟩ := exists_digits known
    rw [List.length_map] at bodySize
    rw [decodeGroups_symbols small (by omega) (by omega), Option.map_eq_some_iff] at read
    obtain ⟨bytes, readBytes, same⟩ := read
    rw [List.nil_append] at same
    subst same
    rw [base64Text, sextets_octets small readBytes, Vector.length_toList, ← split]
  · rintro rfl
    have small := sextets_lt out.toList
    have digits := length_sextets out.toList
    rw [Vector.length_toList] at digits
    have size : (base64Text out.toList).length = (outLen + 2) / 3 * 4 := by
      rw [base64Text, List.length_append, List.length_map, List.length_replicate, digits,
        Vector.length_toList]
      omega
    refine ⟨⟨size, by omega⟩, ?_, ?_⟩
    · refine (padSlots_iff _ (by omega)).mpr ⟨(sextets out.toList).map base64Symbol, ?_, ?_, ?_⟩
      · rw [List.length_map, digits]
      · rw [List.mem_map]
        rintro ⟨digit, member, pad⟩
        exact base64Symbol_ne_pad digit (small digit member) pad
      · rw [size, show (outLen + 2) / 3 * 4 - (outLen * 4 + 2) / 3 = (3 - outLen % 3) % 3 by omega,
          base64Text, Vector.length_toList]
    · rw [base64Text, decodeGroups_symbols small (by omega), octets_sextets]
      · rfl
      · rw [digits, Vector.length_toList]
        omega

/-- So many bytes have one text, and no other text is decoded to them. -/
theorem decodeBase64Exact_canonical {outLen : Nat} (positive : 0 < outLen) :
    (∀ text : List UInt8, (decodeBase64Exact text outLen).isSome ↔
      ∃ bytes : List UInt8, bytes.length = outLen ∧ text = base64Text bytes) ∧
    (∀ (text : List UInt8) (out : Vector UInt8 outLen),
      decodeBase64Exact text outLen = some out ↔ text = base64Text out.toList) ∧
    (∀ out : Vector UInt8 outLen, decodeBase64Exact (base64Text out.toList) outLen = some out) ∧
    (∀ (first second : List UInt8) (out : Vector UInt8 outLen),
      decodeBase64Exact first outLen = some out → decodeBase64Exact second outLen = some out →
        first = second) := by
  have exact := decodeBase64Exact_eq_some_iff positive
  refine ⟨fun text => ?_, exact, fun out => (exact _ out).mpr rfl,
    fun first second out one other => ?_⟩
  · rw [Option.isSome_iff_exists]
    constructor
    · rintro ⟨out, decoded⟩
      exact ⟨out.toList, Vector.length_toList, (exact text out).mp decoded⟩
    · rintro ⟨bytes, size, rfl⟩
      exact ⟨⟨bytes.toArray, size⟩, (exact _ _).mpr rfl⟩
  · rw [(exact first out).mp one, (exact second out).mp other]

theorem decodeBase64Exact_canonical_sample :
    decodeBase64Exact (ascii "AAECAw==") 4 = some #v[0, 1, 2, 3] ∧
      decodeBase64Exact (ascii "AAECAx==") 4 = none := by
  have exact := (decodeBase64Exact_canonical (show 0 < 4 by decide)).2.1
  exact ⟨(exact _ _).mpr (by decide +kernel), by decide +kernel⟩

end Presence.Firmware
