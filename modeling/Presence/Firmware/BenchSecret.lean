import Presence.Firmware.Canonical
import Presence.Firmware.SetupLabel
import Presence.Monocypher.Streamed
import Presence.Postgres.Types

namespace Presence.Firmware

open Presence.Auth (textBytes)
open Presence.Data Presence.Go Presence.Monocypher Presence.Postgres

/-! # The fingerprint of a device secret

`make seed` prints a device's id, its secret and a fingerprint; the terminal answers the
line typed from them with its own fingerprint of what it stored.
-/

def secretFingerprint (secret : List UInt8) : String := encodeHex ((Sha512.sum512 secret).take 4)

/-- What `report` prints of a device. -/
structure SeedReport where
  device : String
  deviceSecret : String
  fingerprint : String
deriving DecidableEq, Repr

def report (deviceID : String) (secret : List UInt8) : SeedReport :=
  ⟨deviceID, encodeHex secret, secretFingerprint secret⟩

/-- Of an id as the database spells it. -/
def reportOf (device : Uuid) (secret : DeviceSecret) : SeedReport :=
  report (uuidOut device) secret.toList

def benchSecretFingerprint (secret : DeviceSecret) : List UInt8 :=
  toHex ((cryptoSha512 secret.toList).take 4)

def benchSecretOkLine (deviceId : List UInt8) (keyVersion : Int) (secretReadBack : DeviceSecret) :
    List UInt8 :=
  ascii "BENCH-SECRET OK device=" ++ deviceId ++ ascii " key_version=" ++ decimalText keyVersion ++
    ascii " fingerprint=" ++ benchSecretFingerprint secretReadBack

/-! ## One fingerprint -/

theorem cryptoSha512_eq (message : List UInt8) : cryptoSha512 message = Sha512.sum512 message := by
  have holds := cryptoSha512Init_holds.update message
  rw [List.nil_append] at holds
  exact holds.final

theorem benchSecretFingerprint_eq (secret : DeviceSecret) :
    benchSecretFingerprint secret = textBytes (secretFingerprint secret.toList) := by
  rw [benchSecretFingerprint, cryptoSha512_eq, toHex_eq]
  rfl

theorem ascii_eq (literal : String) : ascii literal = textBytes literal := rfl

/-! ## Either case -/

theorem lowerHex_digit (c : UInt8) :
    nibble (lowerHex c) = nibble c ∧ tokenHexDigit (lowerHex c) = tokenHexDigit c ∧
      (lowerHex c == '-'.toUInt8) = (c == '-'.toUInt8) := by
  refine @forall_byte (fun c => nibble (lowerHex c) = nibble c ∧
    tokenHexDigit (lowerHex c) = tokenHexDigit c ∧
      (lowerHex c == '-'.toUInt8) = (c == '-'.toUInt8)) ?_ c
  decide +kernel

theorem decodeHexPairs_lower (hex : List UInt8) :
    decodeHexPairs (hex.map lowerHex) = decodeHexPairs hex := by
  have digit (c : UInt8) := (lowerHex_digit c).1
  induction hex using List.twoStepInduction with
  | nil => rfl
  | singleton => rfl
  | cons_cons high low rest ih =>
      simp only [List.map_cons, decodeHexPairs, digit, ih]

theorem isUuidText_lower (text : List UInt8) : isUuidText (text.map lowerHex) = isUuidText text := by
  have same (c : UInt8) := lowerHex_digit c
  simp only [isUuidText, List.length_map, List.zipIdx_map, List.all_map, Function.comp_def, Prod.map,
    id_eq, same]

/-! ## The id of a device -/

theorem length_hexOut (digits value : Nat) : (hexOut digits value).length = digits := by
  induction digits generalizing value with
  | zero => rfl
  | succ digits ih => rw [hexOut, List.length_append, ih]; rfl

/-- A character of an id that is neither a hyphen nor a space. -/
def isIdDigit (char : Char) : Bool :=
  tokenHexDigit (UInt8.ofNat char.toNat) && UInt8.ofNat char.toNat != ' '.toUInt8

theorem isIdDigit_hexOut (digits value : Nat) : ∀ char ∈ hexOut digits value, isIdDigit char = true := by
  have known : ∀ digit < 16, isIdDigit ("0123456789abcdef".toList.getD digit '0') = true := by decide
  induction digits generalizing value with
  | zero => simp [hexOut]
  | succ digits ih =>
      intro char member
      rw [hexOut, List.mem_append, List.mem_singleton] at member
      rcases member with earlier | rfl
      · exact ih _ char earlier
      · exact known _ (Nat.mod_lt _ (by decide))

/-- One piece of an id, from its place on. -/
theorem all_piece {piece : List Char} (start : Nat) (digits : ∀ char ∈ piece, isIdDigit char = true)
    (free : ∀ place, start ≤ place → place < start + piece.length →
      ¬(place = 8 ∨ place = 13 ∨ place = 18 ∨ place = 23)) :
    ((piece.map fun char => UInt8.ofNat char.toNat).zipIdx start).all (fun (c, i) =>
      if i = 8 ∨ i = 13 ∨ i = 18 ∨ i = 23 then c == '-'.toUInt8 else tokenHexDigit c) = true := by
  rw [List.all_eq_true]
  rintro ⟨c, i⟩ member
  obtain ⟨above, below, -⟩ := List.mem_zipIdx member
  rw [List.length_map] at below
  obtain ⟨char, listed, rfl⟩ := List.mem_map.mp (List.fst_mem_of_mem_zipIdx member)
  have digit := digits char listed
  rw [isIdDigit, Bool.and_eq_true] at digit
  simpa only [if_neg (free i above below)] using digit.1

/-- The five pieces of an id. -/
theorem uuidOut_pieces (id : Uuid) :
    ∃ a b c d e : List Char,
      a.length = 8 ∧ b.length = 4 ∧ c.length = 4 ∧ d.length = 4 ∧ e.length = 12 ∧
      (∀ piece ∈ [a, b, c, d, e], ∀ char ∈ piece, isIdDigit char = true) ∧
      (uuidOut id).toList = a ++ '-' :: (b ++ '-' :: (c ++ '-' :: (d ++ '-' :: e))) := by
  have length := length_hexOut 32 id.toNat
  have digits := isIdDigit_hexOut 32 id.toNat
  have spelled : (uuidOut id).toList = (hexOut 32 id.toNat).take 8 ++
      '-' :: (((hexOut 32 id.toNat).drop 8).take 4 ++ '-' :: (((hexOut 32 id.toNat).drop 12).take 4 ++
        '-' :: (((hexOut 32 id.toNat).drop 16).take 4 ++ '-' :: (hexOut 32 id.toNat).drop 20))) := by
    simp only [uuidOut, String.toList_ofList, List.append_assoc, List.cons_append]
  refine ⟨_, _, _, _, _, by simp [length], by simp [length], by simp [length], by simp [length],
    by simp [length], ?_, spelled⟩
  simp only [List.forall_mem_cons, List.not_mem_nil, false_implies, implies_true, and_true]
  refine ⟨?_, ?_, ?_, ?_, ?_⟩
  · exact fun char member => digits char (List.mem_of_mem_take member)
  · exact fun char member => digits char (List.mem_of_mem_drop (List.mem_of_mem_take member))
  · exact fun char member => digits char (List.mem_of_mem_drop (List.mem_of_mem_take member))
  · exact fun char member => digits char (List.mem_of_mem_drop (List.mem_of_mem_take member))
  · exact fun char member => digits char (List.mem_of_mem_drop member)

theorem isUuidText_uuidOut (id : Uuid) : isUuidText (textBytes (uuidOut id)) = true := by
  obtain ⟨a, b, c, d, e, first, second, third, fourth, fifth, digits, spelled⟩ := uuidOut_pieces id
  simp only [List.forall_mem_cons, List.not_mem_nil, false_implies, implies_true, and_true] at digits
  obtain ⟨inA, inB, inC, inD, inE⟩ := digits
  have pieceA := all_piece 0 inA (by omega)
  have pieceB := all_piece 9 inB (by omega)
  have pieceC := all_piece 14 inC (by omega)
  have pieceD := all_piece 19 inD (by omega)
  have pieceE := all_piece 24 inE (by omega)
  rw [isUuidText, textBytes, spelled]
  simp only [List.map_append, List.map_cons, List.zipIdx_append, List.zipIdx_cons, List.all_append,
    List.all_cons, List.length_append, List.length_map, List.length_cons, first, second, third, fourth,
    fifth, pieceA, pieceB, pieceC, pieceD, pieceE]
  decide

theorem space_notMem_uuidOut (id : Uuid) : ' '.toUInt8 ∉ textBytes (uuidOut id) := by
  obtain ⟨a, b, c, d, e, -, -, -, -, -, digits, spelled⟩ := uuidOut_pieces id
  have absent (piece : List Char) (listed : piece ∈ [a, b, c, d, e]) :
      ' '.toUInt8 ∉ piece.map fun char => UInt8.ofNat char.toNat := by
    intro member
    obtain ⟨char, inside, same⟩ := List.mem_map.mp member
    have digit := digits piece listed char inside
    simp [isIdDigit, same] at digit
  have hyphen : ' '.toUInt8 ≠ UInt8.ofNat '-'.toNat := by decide
  rw [textBytes, spelled]
  simp only [List.map_append, List.map_cons, List.mem_append, List.mem_cons, hyphen, false_or, not_or]
  exact ⟨absent a (by simp), absent b (by simp), absent c (by simp), absent d (by simp),
    absent e (by simp)⟩

theorem space_notMem_encodeHex (data : List UInt8) : ' '.toUInt8 ∉ textBytes (encodeHex data) := by
  have digit : ∀ value < 16, UInt8.ofNat (hexLower value).toNat ≠ ' '.toUInt8 := by decide
  intro member
  obtain ⟨char, listed, same⟩ := List.mem_map.mp member
  rw [encodeHex, String.toList_ofList, List.mem_flatMap] at listed
  obtain ⟨byte, -, spelled⟩ := listed
  have bound := byte.toNat_lt
  simp only [List.mem_cons, List.not_mem_nil, or_false] at spelled
  rcases spelled with rfl | rfl
  · exact digit _ (by omega) same
  · exact digit _ (by omega) same

theorem space_notMem_typed {typed printed : List UInt8} (same : typed.map lowerHex = printed)
    (absent : ' '.toUInt8 ∉ printed) : ' '.toUInt8 ∉ typed := by
  intro member
  have there := List.mem_map_of_mem (f := lowerHex) member
  exact absent (same ▸ there)

/-- The line is split at its two spaces. -/
theorem parseBenchSecretCommand_two {id secret : List UInt8} (idPlain : ' '.toUInt8 ∉ id)
    (secretPlain : ' '.toUInt8 ∉ secret) (idSome : id ≠ []) (secretSome : secret ≠ []) :
    parseBenchSecretCommand (ascii "BENCH-SECRET " ++ (id ++ ' '.toUInt8 :: secret)) =
      benchSecretFields id secret (some 1) := by
  have verb : ascii "BENCH-SECRET " = kVerb ++ [' '.toUInt8] := by decide
  have parts : (' '.toUInt8 :: (id ++ ' '.toUInt8 :: secret)).splitOn ' '.toUInt8 = [[], id, secret] := by
    rw [← List.nil_append (' '.toUInt8 :: _), List.splitOn_append_cons_self,
      List.splitOn_append_cons_self, List.splitOn_eq_singleton idPlain,
      List.splitOn_eq_singleton secretPlain]
    rfl
  rw [verb, List.append_assoc, parseBenchSecretCommand]
  simp only [List.singleton_append, List.isPrefixOf_iff_prefix, List.prefix_append, if_true,
    List.drop_left, parts]
  simp [idSome, secretSome]

/-- What `make seed` prints, typed as a bench line in either case, gives the terminal that
id and secret, and it answers with that fingerprint. -/
theorem terminal_answers_printed_fingerprint (device : Uuid) (secret : DeviceSecret)
    (id hex : List UInt8) (idTyped : id.map lowerHex = textBytes (reportOf device secret).device)
    (hexTyped : hex.map lowerHex = textBytes (reportOf device secret).deviceSecret) :
    parseBenchSecretCommand (ascii "BENCH-SECRET " ++ (id ++ ' '.toUInt8 :: hex)) =
        .ok ⟨textBytes (uuidOut device), secret, 1, 0⟩ ∧
      benchSecretOkLine (textBytes (uuidOut device)) 1 secret =
        textBytes ("BENCH-SECRET OK device=" ++ uuidOut device ++ " key_version=1 fingerprint=" ++
          (reportOf device secret).fingerprint) := by
  change id.map lowerHex = textBytes (uuidOut device) at idTyped
  have uuid : isUuidText id = true := by
    rw [← isUuidText_lower, idTyped, isUuidText_uuidOut]
  have idLength := length_of_isUuidText uuid
  have digits : hex.map lowerHex = toHex secret.toList := by rw [hexTyped, toHex_eq]; rfl
  have hexLength : hex.length = kDeviceSecretBytes * 2 := by
    rw [← List.length_map lowerHex, digits]
    simp [toHex, kDeviceSecretBytes]
  have decoded : decodeHexExact hex kDeviceSecretBytes = some secret := by
    have read : decodeHexPairs hex = some secret.toList := by
      rw [← decodeHexPairs_lower, digits, decodeHexPairs_toHex]
    exact decodeHexExact_vector hexLength read
  constructor
  · rw [parseBenchSecretCommand_two (space_notMem_typed idTyped (space_notMem_uuidOut device))
      (space_notMem_typed hexTyped (space_notMem_encodeHex _)) (by rintro rfl; cases idLength)
      (by rintro rfl; cases hexLength)]
    have sized : ¬hex.length ≠ 2 * kDeviceSecretBytes := by rw [hexLength, Nat.mul_comm]; simp
    simp only [benchSecretFields, uuid, Bool.not_true, Bool.false_eq_true, if_false, if_neg sized,
      decoded, idTyped]
  · rw [benchSecretOkLine, benchSecretFingerprint_eq]
    simp only [textBytes_append, ascii_eq, decimalText_eq, List.append_assoc]
    rfl

/-- Typed in capitals. -/
theorem terminal_answers_sample_fingerprint :
    parseBenchSecretCommand (ascii "BENCH-SECRET " ++ (ascii "0A1B2C3D-0000-4000-8000-00000000000F" ++
        ' '.toUInt8 :: (List.replicate 32 (ascii "AB")).flatten)) =
      .ok ⟨textBytes (uuidOut 0x0a1b2c3d00004000800000000000000f), Vector.replicate 32 0xab, 1, 0⟩ ∧
    benchSecretOkLine (textBytes (uuidOut 0x0a1b2c3d00004000800000000000000f)) 1
        (Vector.replicate 32 0xab) =
      textBytes ("BENCH-SECRET OK device=" ++ uuidOut 0x0a1b2c3d00004000800000000000000f ++
        " key_version=1 fingerprint=" ++
        (reportOf 0x0a1b2c3d00004000800000000000000f (Vector.replicate 32 0xab)).fingerprint) :=
  terminal_answers_printed_fingerprint _ _ _ _ (by decide +kernel) (by decide +kernel)

end Presence.Firmware
