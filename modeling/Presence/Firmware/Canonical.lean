import Presence.Auth.Hmac
import Presence.Data.Fields
import Presence.Firmware.Digits

namespace Presence.Firmware

open Presence.Data Presence.Go

/-! # The string that is signed

`canonical.h` on the terminal against `CanonicalString` on the gateway.  Texts are
bytes on the terminal; on the gateway they are read one character to a byte.
-/

def toHex (data : List UInt8) : List UInt8 :=
  let kHex := ascii "0123456789abcdef"
  data.flatMap fun byte : UInt8 => [kHex.getD (byte >>> 4).toNat 0, kHex.getD (byte &&& 0x0F).toNat 0]

def toUpper (text : List UInt8) : List UInt8 :=
  text.map fun c => if 'a'.toUInt8 ≤ c ∧ c ≤ 'z'.toUInt8 then c - 32 else c

/-- `std::to_string` of an `int64_t`. -/
def decimalText (value : Int) : List UInt8 :=
  if value < 0 then '-'.toUInt8 :: asciiNumerals.text value.natAbs else asciiNumerals.text value.natAbs

def canonicalString (method path : List UInt8) (timestampMs : Int)
    (nonce bodySha256Hex : List UInt8) : List UInt8 :=
  ascii "v1\n" ++ toUpper method ++ ascii "\n" ++ path ++ ascii "\n" ++
    decimalText timestampMs ++ ascii "\n" ++ nonce ++ ascii "\n" ++ bodySha256Hex

def sha256Hex (data : List UInt8) : List UInt8 := toHex (Sha256.sum256 data)

/-! ## The same on both sides -/

open Auth (textBytes)

@[simp] theorem textBytes_append (first second : String) :
    textBytes (first ++ second) = textBytes first ++ textBytes second := by
  simp [textBytes]

/-- The gateway's string, piece by piece. -/
theorem gateway_canonicalString (method path : String) (tsMillis : Int) (nonce : String)
    (body : List UInt8) :
    Auth.canonicalString method path tsMillis nonce body =
      "v1" ++ "\n" ++ method.toUpper ++ "\n" ++ path ++ "\n" ++ tsMillis.repr ++ "\n" ++ nonce ++
        "\n" ++ encodeHex (Sha256.sum256 body) := rfl

theorem hexDigit_eq : ∀ digit < 16,
    (ascii "0123456789abcdef").getD digit 0 = UInt8.ofNat (hexLower digit).toNat := by
  decide

theorem toHex_eq (data : List UInt8) : toHex data = textBytes (encodeHex data) := by
  have digits : ∀ byte : UInt8, (byte >>> 4).toNat = byte.toNat / 16 ∧
      (byte &&& 0x0F).toNat = byte.toNat % 16 := by
    intro byte
    refine ⟨by simp [Nat.shiftRight_eq_div_pow], ?_⟩
    rw [UInt8.toNat_and]
    exact Nat.and_two_pow_sub_one_eq_mod byte.toNat 4
  induction data with
  | nil => rfl
  | cons byte rest ih =>
      have bound := byte.toNat_lt
      obtain ⟨high, low⟩ := digits byte
      simp only [toHex, textBytes, encodeHex, String.toList_ofList, List.flatMap_cons, List.map_append,
        List.map_cons, List.map_nil] at ih ⊢
      rw [ih, high, low, hexDigit_eq _ (by omega), hexDigit_eq _ (by omega)]

theorem upperCase_eq : ∀ code < 128,
    (if 'a'.toUInt8 ≤ UInt8.ofNat code ∧ UInt8.ofNat code ≤ 'z'.toUInt8 then UInt8.ofNat code - 32
      else UInt8.ofNat code) = UInt8.ofNat (Char.ofNat code).toUpper.toNat := by
  decide

theorem toUpper_eq {text : String} (plain : ∀ char ∈ text.toList, char.toNat < 128) :
    toUpper (textBytes text) = textBytes text.toUpper := by
  simp only [toUpper, textBytes, String.toUpper, String.toList_map, List.map_map]
  refine List.map_congr_left fun char member => ?_
  have upper := upperCase_eq char.toNat (plain char member)
  rw [Char.ofNat_toNat] at upper
  exact upper

theorem digitChar_eq : ∀ digit < 10, UInt8.ofNat digit.digitChar.toNat = asciiNumerals.symbol digit := by
  decide

theorem textBytes_repr (number : Nat) : textBytes number.repr = asciiNumerals.text number := by
  rw [textBytes, Nat.toList_repr, toDigits_eq_decimalDigits, Numerals.text, List.map_map]
  exact List.map_congr_left fun digit member =>
    digitChar_eq digit ((canonical_decimalDigits number).below digit member)

theorem decimalText_eq (value : Int) : decimalText value = textBytes value.repr := by
  rw [Int.repr_eq_if, decimalText]
  split
  next negative =>
    rw [if_neg (by omega), textBytes_append, textBytes_repr, show (-value).toNat = value.natAbs by omega]
    rfl
  next positive =>
    rw [if_pos (by omega), textBytes_repr, show value.toNat = value.natAbs by omega]

/-- Terminal and gateway sign the same bytes. -/
theorem canonicalString_eq {method : String} (path : String) (timestampMs : Int) (nonce : String)
    (body : List UInt8) (plain : ∀ char ∈ method.toList, char.toNat < 128) :
    canonicalString (textBytes method) (textBytes path) timestampMs (textBytes nonce) (sha256Hex body) =
      textBytes (Auth.canonicalString method path timestampMs nonce body) := by
  rw [gateway_canonicalString, canonicalString, toUpper_eq plain, decimalText_eq, sha256Hex, toHex_eq]
  simp only [textBytes_append]
  rfl

/-! ## Reading it back -/

theorem decimalText_injective {value other : Int} (texts : decimalText value = decimalText other) :
    value = other := by
  simp only [decimalText] at texts
  have sign : asciiNumerals.value '-'.toUInt8 = none := by decide
  split at texts
  next negative =>
    split at texts
    next otherNegative =>
      have numbers := asciiNumerals.text_injective (List.cons.inj texts).2
      omega
    next => exact absurd texts.symm (asciiNumerals.text_ne_cons sign _)
  next =>
    split at texts
    next => exact absurd texts (asciiNumerals.text_ne_cons sign _)
    next =>
      have numbers := asciiNumerals.text_injective texts
      omega

theorem notMem_decimalText {mark : UInt8} (other : asciiNumerals.value mark = none)
    (dash : mark ≠ '-'.toUInt8) (value : Int) : mark ∉ decimalText value := by
  have absent := asciiNumerals.not_mem_text other value.natAbs
  rw [decimalText]
  split
  · exact fun member => (List.mem_cons.mp member).elim dash absent
  · exact absent

theorem repr_injective {value other : Int} (same : value.repr = other.repr) : value = other :=
  decimalText_injective (by rw [decimalText_eq, decimalText_eq, same])

theorem notMem_repr {char : Char} (nondigit : char.isDigit = false) (dash : char ≠ '-') (value : Int) :
    char ∉ value.repr.toList := by
  have natural : ∀ number : Nat, char ∉ Nat.toDigits 10 number := by
    intro number member
    exact absurd (Nat.isDigit_of_mem_toDigits (by decide) (by decide) member) (by simp [nondigit])
  rw [Int.repr_eq_if]
  split
  · rw [Nat.toList_repr]
    exact natural _
  · rw [String.toList_append, Nat.toList_repr]
    simp [natural, dash]

theorem notMem_encodeHex {char : Char} (other : ∀ digit < 16, char ≠ hexLower digit)
    (bytes : List UInt8) : char ∉ (encodeHex bytes).toList := by
  rw [encodeHex, String.toList_ofList, List.mem_flatMap]
  rintro ⟨byte, -, member⟩
  have bound := byte.toNat_lt
  simp only [List.mem_cons, List.not_mem_nil, or_false] at member
  rcases member with high | low
  · exact other _ (by omega) high
  · exact other _ (by omega) low

theorem newline_notMem_repr (value : Int) : '\n' ∉ value.repr.toList :=
  notMem_repr (by decide) (by decide) value

theorem newline_notMem_encodeHex (bytes : List UInt8) : '\n' ∉ (encodeHex bytes).toList :=
  notMem_encodeHex (by decide) bytes

theorem eq_newline_of_toUpper : ∀ code < 128, (Char.ofNat code).toUpper = '\n' → code = 10 := by
  decide

theorem newline_notMem_toUpper {text : String} (absent : '\n' ∉ text.toList) :
    '\n' ∉ text.toUpper.toList := by
  rw [String.toUpper, String.toList_map, List.mem_map]
  rintro ⟨char, member, upper⟩
  by_cases lower : 'a'.val ≤ char.val ∧ char.val ≤ 'z'.val
  · have small : char.toNat < 128 := Nat.lt_of_le_of_lt (UInt32.le_iff_toNat_le.mp lower.2) (by decide)
    have large : 97 ≤ char.toNat := UInt32.le_iff_toNat_le.mp lower.1
    have newline := eq_newline_of_toUpper char.toNat small (by rwa [Char.ofNat_toNat])
    omega
  · have kept : char.toUpper = char := dif_neg lower
    exact absent (kept.symm.trans upper ▸ member)

/-- The fields of a signed string can be told apart, a path with newlines in it
included. -/
theorem gateway_canonicalString_injective {method otherMethod path otherPath : String}
    {tsMillis otherTs : Int} {nonce otherNonce : String} {body otherBody : List UInt8}
    (method_line : '\n' ∉ method.toList) (otherMethod_line : '\n' ∉ otherMethod.toList)
    (nonce_line : '\n' ∉ nonce.toList) (otherNonce_line : '\n' ∉ otherNonce.toList)
    (same : Auth.canonicalString method path tsMillis nonce body =
      Auth.canonicalString otherMethod otherPath otherTs otherNonce otherBody) :
    method.toUpper = otherMethod.toUpper ∧ path = otherPath ∧ tsMillis = otherTs ∧
      nonce = otherNonce ∧ Sha256.sum256 body = Sha256.sum256 otherBody := by
  have chars := congrArg String.toList same
  simp only [gateway_canonicalString, String.toList_append, List.append_assoc,
    show "\n".toList = ['\n'] from rfl, List.cons_append, List.nil_append] at chars
  obtain ⟨methods, chars⟩ := field_injective (newline_notMem_toUpper method_line)
    (newline_notMem_toUpper otherMethod_line) (List.cons.inj (List.append_cancel_left chars)).2
  -- from the end: digest, nonce and timestamp are single lines, what is left is the path
  have spread : ∀ (first second third : List Char) (last : List Char),
      first ++ '\n' :: (second ++ '\n' :: (third ++ '\n' :: last)) =
        (first ++ '\n' :: second ++ '\n' :: third) ++ '\n' :: last := by
    simp
  rw [spread, spread] at chars
  obtain ⟨chars, digests⟩ := lastField_injective (newline_notMem_encodeHex _)
    (newline_notMem_encodeHex _) chars
  obtain ⟨chars, nonces⟩ := lastField_injective nonce_line otherNonce_line chars
  obtain ⟨paths, stamps⟩ := lastField_injective (newline_notMem_repr _) (newline_notMem_repr _) chars
  exact ⟨String.toList_inj.mp methods, String.toList_inj.mp paths,
    repr_injective (String.toList_inj.mp stamps), String.toList_inj.mp nonces,
    encodeHex_injective (String.toList_inj.mp digests)⟩

/-- Terminal and gateway sign the same string, and it says what was signed. -/
theorem canonicalString_agrees_and_unambiguous :
    (∀ method path : String, ∀ timestampMs : Int, ∀ nonce : String, ∀ body : List UInt8,
      (∀ char ∈ method.toList, char.toNat < 128) →
      canonicalString (textBytes method) (textBytes path) timestampMs (textBytes nonce)
          (sha256Hex body) =
        textBytes (Auth.canonicalString method path timestampMs nonce body)) ∧
    ∀ method otherMethod path otherPath : String, ∀ tsMillis otherTs : Int,
      ∀ nonce otherNonce : String, ∀ body otherBody : List UInt8,
      '\n' ∉ method.toList → '\n' ∉ otherMethod.toList → '\n' ∉ nonce.toList →
      '\n' ∉ otherNonce.toList →
      Auth.canonicalString method path tsMillis nonce body =
        Auth.canonicalString otherMethod otherPath otherTs otherNonce otherBody →
      method.toUpper = otherMethod.toUpper ∧ path = otherPath ∧ tsMillis = otherTs ∧
        nonce = otherNonce ∧ Sha256.sum256 body = Sha256.sum256 otherBody :=
  ⟨fun _ path timestampMs nonce body plain => canonicalString_eq path timestampMs nonce body plain,
    fun _ _ _ _ _ _ _ _ _ _ first second third fourth same =>
      gateway_canonicalString_injective first second third fourth same⟩

/-- The smallest timestamp, and a path that holds the lines that follow it. -/
theorem canonicalString_agrees_and_unambiguous_extremes :
    canonicalString (textBytes "post") (textBytes "/v1\n0\nn") (-2 ^ 63) (textBytes "n") (sha256Hex []) =
        textBytes (Auth.canonicalString "post" "/v1\n0\nn" (-2 ^ 63) "n" []) ∧
      Auth.canonicalString "GET" "/v1\n0\nn" 0 "n" [] ≠ Auth.canonicalString "GET" "/v1" 0 "n" [] := by
  obtain ⟨agrees, unambiguous⟩ := canonicalString_agrees_and_unambiguous
  refine ⟨agrees "post" "/v1\n0\nn" (-2 ^ 63) "n" [] (by simp), fun same => ?_⟩
  have fields := unambiguous "GET" "GET" "/v1\n0\nn" "/v1" 0 0 "n" "n" [] [] (by decide) (by decide)
    (by decide) (by decide) same
  exact absurd fields.2.1 (by decide)

end Presence.Firmware
