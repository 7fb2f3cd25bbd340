import Mathlib.Data.Nat.Digits.Lemmas
import Presence.Data.Bytes
import Presence.Data.Run
import Presence.Firmware.Canonical
import Presence.Firmware.Provision

namespace Presence.Firmware

open Presence.Data Presence.Go

/-! # The setup network's password

`wifi_provision.h` checks and stores it, `setup_label.py` derives it and prints the
label.  A label is sixteen letters that leave out 0, o, 1 and l, in groups of four.
-/

def kSetupKeyAlphabet : List UInt8 := ascii "23456789abcdefghijkmnpqrstuvwxyz"

def kSetupKeyChars : Nat := 19

/-- `key` has a NUL at its end. -/
structure SetupApKey where
  magic : UInt32
  key : Vector UInt8 20
deriving DecidableEq

def kSetupApKeyMagic : UInt32 := 0x314B4153

def validSetupKey (s : List UInt8) : Bool :=
  s.length == kSetupKeyChars && s.zipIdx.all fun place =>
    if place.2 % 5 = 4 then place.1 == '-'.toUInt8 else kSetupKeyAlphabet.contains place.1

def setupKeyRecord (key : List UInt8) : SetupApKey where
  magic := kSetupApKeyMagic
  key := Vector.ofFn fun i : Fin 20 => key.getD i 0

def makeSetupKey (key : List UInt8) : Option SetupApKey :=
  if validSetupKey key then some (setupKeyRecord key) else none

def setupKeyUsable (k : SetupApKey) : Bool :=
  k.magic == kSetupApKeyMagic && k.key[kSetupKeyChars] == 0 &&
    validSetupKey (k.key.toList.take kSetupKeyChars)

def loadUsableSetupKey (store : Option SetupApKey) : Option SetupApKey :=
  match store with
  | none => none
  | some k => if setupKeyUsable k then some k else none

inductive SetupCommand where
  | none | id | setKey (key : List UInt8) | malformed
deriving DecidableEq, Repr

def parseSetupCommand (line : List UInt8) : SetupCommand :=
  if !(ascii "SETUP-").isPrefixOf line then .none
  else if line == ascii "SETUP-ID" then .id
  else if line.length > 10 ∧ (ascii "SETUP-KEY ").isPrefixOf line then .setKey (line.drop 10)
  else .malformed

def upperHex (data : List UInt8) : List UInt8 :=
  let kHex := ascii "0123456789ABCDEF"
  data.flatMap fun byte : UInt8 =>
    [kHex.getD (byte >>> 4).toNat 0, kHex.getD (byte &&& 0x0F).toNat 0]

/-- Two digits a byte, whatever their case. -/
theorem decodeHexPairs_flatMap {high low : UInt8 → UInt8}
    (digits : ∀ byte, nibble (high byte) = some (byte >>> 4) ∧
      nibble (low byte) = some (byte &&& 0x0F)) (data : List UInt8) :
    decodeHexPairs (data.flatMap fun byte => [high byte, low byte]) = some data := by
  have joined : ∀ byte : UInt8, ((byte >>> 4) <<< 4 ||| (byte &&& 0x0F)) = byte := by
    refine forall_byte ?_
    decide +kernel
  induction data with
  | nil => rfl
  | cons byte data ih =>
      obtain ⟨first, second⟩ := digits byte
      simp only [List.flatMap_cons, List.cons_append, List.nil_append]
      rw [decodeHexPairs, first, second, ih]
      simp only [joined]

theorem nibble_toHex (byte : UInt8) :
    nibble ((ascii "0123456789abcdef").getD (byte >>> 4).toNat 0) = some (byte >>> 4) ∧
      nibble ((ascii "0123456789abcdef").getD (byte &&& 0x0F).toNat 0) = some (byte &&& 0x0F) := by
  refine @forall_byte (fun byte =>
    nibble ((ascii "0123456789abcdef").getD (byte >>> 4).toNat 0) = some (byte >>> 4) ∧
      nibble ((ascii "0123456789abcdef").getD (byte &&& 0x0F).toNat 0) = some (byte &&& 0x0F)) ?_ byte
  decide +kernel

theorem decodeHexPairs_toHex (data : List UInt8) : decodeHexPairs (toHex data) = some data :=
  decodeHexPairs_flatMap nibble_toHex data

theorem decodeHexExact_vector {count : Nat} {hex : List UInt8} {data : Vector UInt8 count}
    (long : hex.length = count * 2) (read : decodeHexPairs hex = some data.toList) :
    decodeHexExact hex count = some data := by
  rw [decodeHexExact, if_pos long, read]
  simp [Vector.toList]

abbrev Mac := Vector UInt8 6

def deviceSerial (mac : Mac) : List UInt8 := upperHex mac.toList

def softApSsid (mac : Mac) : List UInt8 := ascii "presence-" ++ upperHex (mac.toList.drop 3)

def setupIdLine (mac : Mac) (keyPresent : Bool) : List UInt8 :=
  ascii "SETUP-ID mac=" ++ deviceSerial mac ++ ascii " ssid=" ++ softApSsid mac ++
    if keyPresent then ascii " key=present" else ascii " key=absent"

namespace SetupLabel

def domain : List UInt8 := ascii "presence-setup-ap/v1" ++ [0]

/-- The letter at a place of the password, the most significant one at 0. -/
def letter (n place : Nat) : UInt8 :=
  kSetupKeyAlphabet.getD ((n >>> (5 * (15 - place))) &&& 31) 0

def dashed (chars : List UInt8) : List UInt8 :=
  List.intercalate ['-'.toUInt8] ([0, 4, 8, 12].map fun place => (chars.drop place).take 4)

def spell (n : Nat) : List UInt8 := dashed ((List.range 16).map (letter n))

def fromBytes (bytes : List UInt8) : Nat := bytes.foldl (fun n byte => n * 256 + byte.toNat) 0

def derive (factoryKey : Vector UInt8 32) (mac : Mac) : List UInt8 :=
  spell (fromBytes ((hmacSha256 factoryKey.toList (domain ++ mac.toList)).take 10))

-- the golden vector of both test suites
example : derive (Vector.ofFn fun i : Fin 32 => UInt8.ofNat i)
    #v[0x24, 0x6F, 0x28, 0xA1, 0xB2, 0xC3] = ascii "usty-qc6e-hs6z-52yd" := by
  decide +kernel

/-! ## The passwords are the numbers of 80 bits -/

theorem nodup_alphabet : kSetupKeyAlphabet.Nodup := by
  decide

theorem length_alphabet : kSetupKeyAlphabet.length = 32 := rfl

/-- The digits of a number, the most significant one first. -/
def places (n : Nat) : List Nat := (Nat.digitsAppend 32 16 n).reverse

theorem letters_eq {n : Nat} (bounded : n < 32 ^ 16) :
    (List.range 16).map (letter n) =
      (places n).map fun digit => kSetupKeyAlphabet.getD digit 0 := by
  have long : (Nat.digitsAppend 32 16 n).length = 16 :=
    Nat.length_digitsAppend (by decide) 16 bounded
  apply List.ext_getElem
  · simp [places, long]
  · intro place inside _
    have below : place < 16 := by simpa using inside
    have digit : (Nat.digitsAppend 32 16 n).getD (15 - place) 0 = n / 32 ^ (15 - place) % 32 := by
      rw [← Nat.getD_digits n (15 - place) (show 2 ≤ 32 by decide), Nat.digitsAppend,
        List.getD_eq_getElem?_getD, List.getD_eq_getElem?_getD, List.getElem?_append]
      split
      · rfl
      · rename_i beyond
        rw [List.getElem?_eq_none (Nat.not_lt.mp beyond), List.getElem?_replicate]
        split <;> rfl
    have shifted : (n >>> (5 * (15 - place))) &&& 31 = n / 32 ^ (15 - place) % 32 := by
      rw [show (31 : Nat) = 2 ^ 5 - 1 from rfl, Nat.and_two_pow_sub_one_eq_mod,
        Nat.shiftRight_eq_div_pow, Nat.pow_mul]
    simp only [List.getElem_map, List.getElem_range, letter, shifted, places, List.getElem_reverse]
    rw [← digit, List.getD_eq_getElem?_getD]
    simp [long, show 15 - place < 16 by omega]

theorem places_spec {n : Nat} (bounded : n < 32 ^ 16) :
    (places n).length = 16 ∧ ∀ digit ∈ places n, digit < 32 := by
  refine ⟨by simpa [places] using Nat.length_digitsAppend (by decide) 16 bounded, ?_⟩
  intro digit member
  exact Nat.lt_of_mem_digitsAppend (by decide) 16 digit (List.mem_reverse.mp member)

theorem places_ofDigits {digits : List Nat} (long : digits.length = 16)
    (below : ∀ digit ∈ digits, digit < 32) :
    places (Nat.ofDigits 32 digits.reverse) = digits := by
  have inverse := (Nat.setInvOn_digitsAppend_ofDigits (show 1 < 32 by decide) 16).1
  have back := @inverse digits.reverse ⟨by simpa using long, by simpa using below⟩
  rw [places, back, List.reverse_reverse]

theorem ofDigits_places {n : Nat} (bounded : n < 32 ^ 16) :
    Nat.ofDigits 32 (places n).reverse = n := by
  have inverse := (Nat.setInvOn_digitsAppend_ofDigits (show 1 < 32 by decide) 16).2
  rw [places, List.reverse_reverse]
  exact inverse bounded

theorem validSetupKey_iff {s : List UInt8} : validSetupKey s = true ↔
    ∃ letters : List UInt8, letters.length = 16 ∧ (∀ c ∈ letters, c ∈ kSetupKeyAlphabet) ∧
      s = dashed letters := by
  constructor
  · intro valid
    simp only [validSetupKey, Bool.and_eq_true, beq_iff_eq, kSetupKeyChars] at valid
    obtain ⟨length, all⟩ := valid
    match s, length with
    | [a, b, c, d, e, f, g, h, i, j, k, l, m, n, o, p, q, r, t], _ =>
        simp [List.zipIdx_cons] at all
        refine ⟨[a, b, c, d, f, g, h, i, k, l, m, n, p, q, r, t], rfl, by simp [all], ?_⟩
        simp [dashed, all]
  · intro ⟨letters, length, all, spelled⟩
    subst spelled
    match letters, length with
    | [a, b, c, d, f, g, h, i, k, l, m, n, p, q, r, t], _ =>
        simp [dashed, validSetupKey, kSetupKeyChars, List.zipIdx_cons] at all ⊢
        simp [all]

theorem mem_alphabet {digit : Nat} (below : digit < 32) :
    kSetupKeyAlphabet.getD digit 0 ∈ kSetupKeyAlphabet := by
  rw [List.getD_eq_getElem?_getD, List.getElem?_eq_getElem (by simpa [length_alphabet] using below)]
  exact List.getElem_mem _

theorem idxOf_getD {digit : Nat} (below : digit < 32) :
    kSetupKeyAlphabet.idxOf (kSetupKeyAlphabet.getD digit 0) = digit := by
  rw [List.getD_eq_getElem?_getD, List.getElem?_eq_getElem (by simpa [length_alphabet] using below)]
  exact nodup_alphabet.idxOf_getElem _ _

theorem getD_idxOf {c : UInt8} (listed : c ∈ kSetupKeyAlphabet) :
    kSetupKeyAlphabet.getD (kSetupKeyAlphabet.idxOf c) 0 = c := by
  rw [List.getD_eq_getElem?_getD, List.getElem?_eq_getElem (List.idxOf_lt_length_iff.mpr listed)]
  exact List.getElem_idxOf _

theorem dashed_injective {letters others : List UInt8} (long : letters.length = 16)
    (same : others.length = 16) (spelled : dashed letters = dashed others) : letters = others := by
  match letters, long, others, same with
  | [a, b, c, d, e, f, g, h, i, j, k, l, m, n, o, p], _,
    [a', b', c', d', e', f', g', h', i', j', k', l', m', n', o', p'], _ =>
      simpa [dashed] using spelled

theorem spell_valid {n : Nat} (bounded : n < 2 ^ 80) : validSetupKey (spell n) = true := by
  obtain ⟨long, below⟩ := places_spec (n := n) (by simpa using bounded)
  refine validSetupKey_iff.mpr ⟨_, by simp, ?_, rfl⟩
  rw [letters_eq (by simpa using bounded)]
  intro c member
  obtain ⟨digit, listed, rfl⟩ := List.mem_map.mp member
  exact mem_alphabet (below digit listed)

theorem spell_injective {n m : Nat} (bounded : n < 2 ^ 80) (small : m < 2 ^ 80)
    (same : spell n = spell m) : n = m := by
  have bounded : n < 32 ^ 16 := by simpa using bounded
  have small : m < 32 ^ 16 := by simpa using small
  have letters := dashed_injective (by simp) (by simp) same
  rw [letters_eq bounded, letters_eq small] at letters
  have back {k : Nat} (inside : k < 32 ^ 16) : ((places k).map fun digit =>
      kSetupKeyAlphabet.getD digit 0).map kSetupKeyAlphabet.idxOf = places k := by
    rw [List.map_map]
    calc (places k).map _ = (places k).map id := List.map_congr_left fun digit member =>
          idxOf_getD ((places_spec inside).2 digit member)
      _ = places k := List.map_id _
  have digits : places n = places m := by
    rw [← back bounded, letters, back small]
  rw [← ofDigits_places bounded, digits, ofDigits_places small]

/-- What the terminal takes for a setup key is what `setup_label.py` can print, and each of
the 2^80 has a label of its own. -/
theorem setup_keys_are_numbers (s : List UInt8) :
    validSetupKey s = true ↔ ∃ n, n < 2 ^ 80 ∧ spell n = s ∧
      ∀ m, m < 2 ^ 80 → spell m = s → m = n := by
  constructor
  · intro valid
    obtain ⟨letters, long, all, spelled⟩ := validSetupKey_iff.mp valid
    let digits := letters.map kSetupKeyAlphabet.idxOf
    have below : ∀ digit ∈ digits, digit < 32 := by
      intro digit member
      obtain ⟨c, listed, rfl⟩ := List.mem_map.mp member
      exact List.idxOf_lt_length_iff.mpr (all c listed)
    have size : digits.length = 16 := by simpa [digits] using long
    let n := Nat.ofDigits 32 digits.reverse
    have bounded : n < 32 ^ 16 := by
      have small := Nat.ofDigits_lt_base_pow_length (show 1 < 32 by decide)
        (show ∀ digit ∈ digits.reverse, digit < 32 by simpa using below)
      simpa [size] using small
    have back : spell n = s := by
      rw [spell, letters_eq bounded, places_ofDigits size below, spelled]
      congr 1
      rw [List.map_map]
      calc letters.map _ = letters.map id :=
            List.map_congr_left fun c member => getD_idxOf (all c member)
        _ = letters := List.map_id _
    refine ⟨n, by simpa using bounded, back, fun m small same => ?_⟩
    exact spell_injective small (by simpa using bounded) (same.trans back.symm)
  · intro ⟨n, bounded, spelled, _⟩
    exact spelled ▸ spell_valid bounded

theorem fromBytes_lt (bytes : List UInt8) : fromBytes bytes < 256 ^ bytes.length :=
  numberOf_lt bytes

theorem derive_valid (factoryKey : Vector UInt8 32) (mac : Mac) :
    validSetupKey (derive factoryKey mac) = true := by
  apply spell_valid
  have bound := fromBytes_lt ((hmacSha256 factoryKey.toList (domain ++ mac.toList)).take 10)
  simpa using bound

/-! ## Stored and loaded -/

theorem length_of_valid {s : List UInt8} (valid : validSetupKey s = true) : s.length = 19 := by
  obtain ⟨letters, long, -, rfl⟩ := validSetupKey_iff.mp valid
  simp [dashed, long]

/-- The text of a record, without the NUL. -/
def keyText (k : SetupApKey) : List UInt8 := k.key.toList.take kSetupKeyChars

theorem keyText_record {s : List UInt8} (valid : validSetupKey s = true) :
    keyText (setupKeyRecord s) = s := by
  have long := length_of_valid valid
  apply List.ext_getElem
  · simp [keyText, kSetupKeyChars, long]
  · intro place _ inside
    simp only [keyText, List.getElem_take, Vector.getElem_toList, setupKeyRecord,
      Vector.getElem_ofFn]
    rw [List.getD_eq_getElem?_getD, List.getElem?_eq_getElem inside, Option.getD_some]

theorem loadUsable_record {s : List UInt8} (valid : validSetupKey s = true) :
    loadUsableSetupKey (some (setupKeyRecord s)) = some (setupKeyRecord s) := by
  have ended : (setupKeyRecord s).key[kSetupKeyChars] = 0 := by
    simp [setupKeyRecord, kSetupKeyChars, length_of_valid valid]
  have text : validSetupKey ((setupKeyRecord s).key.toList.take kSetupKeyChars) = true := by
    rw [← keyText, keyText_record valid]
    exact valid
  have usable : setupKeyUsable (setupKeyRecord s) = true := by
    rw [setupKeyUsable, ended, text]
    rfl
  simp only [loadUsableSetupKey, usable, if_true]

end SetupLabel

end Presence.Firmware
