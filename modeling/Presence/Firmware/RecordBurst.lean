import Mathlib.Data.List.GetD
import Presence.Data.ShiftRegister
import Presence.Firmware.PunchRecord

namespace Presence.Firmware

open Presence.Data

/-! # Errors in a stored record

`crc32` against errors in what it was stored with, the checksum included.  The bits are
counted byte by byte, from the least significant one on, which is the order in which the
register of the loop takes them in.
-/

def byteBits (byte : UInt8) : List Bool := (List.range 8).map byte.toNat.testBit

def bitsOf (bytes : List UInt8) : List Bool := bytes.flatMap byteBits

/-- The integer whose bytes they are, least significant one first. -/
def ofLittleEndian : List UInt8 → Nat
  | [] => 0
  | byte :: rest => 256 * ofLittleEndian rest + byte.toNat

/-- Data with its checksum behind it. -/
def withChecksum (data : List UInt8) : List UInt8 :=
  data ++ littleEndian 4 (crc32 data).toNat

/-- The check of `peek` and `ackThrough`, on bytes of any number. -/
def checksumHolds (read : List UInt8) : Bool :=
  crc32 (read.take (read.length - 4)) ==
    UInt32.ofNat (ofLittleEndian (read.drop (read.length - 4)))

/-- What is read back where the error has its bits set. -/
def corrupt (written error : List UInt8) : List UInt8 := List.zipWith (· ^^^ ·) written error

structure ShortBurst (error : List UInt8) : Prop where
  nonzero : true ∈ bitsOf error
  spans : ShiftRegister.Spans 32 (bitsOf error)

/-- The struct in memory. -/
def PunchRecord.bytes (record : PunchRecord) : List UInt8 :=
  record.body ++ littleEndian 4 record.crc.toNat

/-! ## Bits of bytes -/

theorem getD_byteBits (byte : UInt8) (place : Nat) :
    (byteBits byte).getD place false = byte.toNat.testBit place := by
  by_cases inside : place < 8
  · simp [byteBits, inside]
  · have small : byte.toNat < 2 ^ place :=
      Nat.lt_of_lt_of_le byte.toNat_lt (Nat.pow_le_pow_right (by decide) (Nat.le_of_not_lt inside))
    rw [Nat.testBit_lt_two_pow small, byteBits, List.getD_eq_getElem?_getD,
      List.getElem?_eq_none (by simpa using inside)]
    rfl

theorem length_byteBits (byte : UInt8) : (byteBits byte).length = 8 := by simp [byteBits]

theorem bitsOf_cons (byte : UInt8) (rest : List UInt8) :
    bitsOf (byte :: rest) = byteBits byte ++ bitsOf rest := List.flatMap_cons

theorem bitsOf_append (first second : List UInt8) :
    bitsOf (first ++ second) = bitsOf first ++ bitsOf second := List.flatMap_append

theorem length_bitsOf (bytes : List UInt8) : (bitsOf bytes).length = 8 * bytes.length := by
  induction bytes with
  | nil => rfl
  | cons byte rest ih =>
      rw [bitsOf_cons, List.length_append, length_byteBits, ih, List.length_cons]
      omega

theorem getD_bitsOf (bytes : List UInt8) (place : Nat) :
    (bitsOf bytes).getD place false = (ofLittleEndian bytes).testBit place := by
  induction bytes generalizing place with
  | nil => simp [bitsOf, ofLittleEndian]
  | cons byte rest ih =>
      have split : (256 * ofLittleEndian rest + byte.toNat).testBit place =
          if place < 8 then byte.toNat.testBit place
          else (ofLittleEndian rest).testBit (place - 8) :=
        Nat.testBit_two_pow_mul_add _ byte.toNat_lt place
      rw [ofLittleEndian, split, bitsOf_cons]
      split
      next inside =>
        rw [List.getD_append _ _ _ _ (by rwa [length_byteBits]), getD_byteBits]
      next later =>
        rw [List.getD_append_right _ _ _ _ (by rw [length_byteBits]; omega), length_byteBits, ih]

theorem ofBits_bitsOf {w : Nat} (bytes : List UInt8) :
    ShiftRegister.ofBits (bitsOf bytes) = BitVec.ofNat w (ofLittleEndian bytes) := by
  refine BitVec.eq_of_getLsbD_eq fun place small => ?_
  rw [ShiftRegister.getLsbD_ofBits, getD_bitsOf, BitVec.getLsbD_ofNat]

theorem byteBits_xor (byte flip : UInt8) :
    byteBits (byte ^^^ flip) = List.zipWith (· ^^ ·) (byteBits byte) (byteBits flip) := by
  simp [byteBits, List.zipWith_map, Nat.testBit_xor]

theorem bitsOf_corrupt {written error : List UInt8} (same : written.length = error.length) :
    bitsOf (corrupt written error) = List.zipWith (· ^^ ·) (bitsOf written) (bitsOf error) := by
  induction written generalizing error with
  | nil => rfl
  | cons byte written ih =>
      cases error with
      | nil => cases same
      | cons flip error =>
          have aligned : (byteBits byte).length = (byteBits flip).length := by
            rw [length_byteBits, length_byteBits]
          rw [bitsOf_cons, bitsOf_cons, List.zipWith_append aligned, ← ih (Nat.succ.inj same),
            ← byteBits_xor]
          rfl

theorem ofLittleEndian_littleEndian (width value : Nat) :
    ofLittleEndian (littleEndian width value) = value % 256 ^ width := by
  induction width generalizing value with
  | zero => simp [littleEndian, ofLittleEndian, Nat.mod_one]
  | succ width ih =>
      have cons : littleEndian (width + 1) value =
          UInt8.ofNat value :: littleEndian width (value / 256) := by
        simp [littleEndian, List.range_succ_eq_map, Nat.pow_succ', Nat.div_div_eq_div_mul,
          Function.comp_def]
      have parts : value % 256 ^ (width + 1) = value % 256 + 256 * (value / 256 % 256 ^ width) := by
        rw [Nat.pow_succ', Nat.mod_mul]
      rw [cons, ofLittleEndian, ih, UInt8.toNat_ofNat', parts, Nat.add_comm]

/-! ## The loop -/

/-- The reflected generator. -/
def generator : BitVec 32 := 0xEDB88320

theorem generator_top : generator.msb = true := by decide

theorem crc32Bit_eq (crc : UInt32) :
    (crc32Bit crc).toBitVec = ShiftRegister.shift generator crc.toBitVec := by
  have low : crc.toBitVec &&& 1#32 = BitVec.setWidth 32 (BitVec.ofBool (crc.toBitVec.getLsbD 0)) :=
    BitVec.and_one_eq_setWidth_ofBool_getLsbD
  have fed : (0 - (crc &&& 1)).toBitVec =
      if crc.toBitVec.getLsbD 0 then BitVec.allOnes 32 else 0#32 := by
    rw [UInt32.toBitVec_sub, UInt32.toBitVec_and]
    change 0#32 - (crc.toBitVec &&& 1#32) = _
    rw [low]
    cases crc.toBitVec.getLsbD 0 <;> rfl
  rw [crc32Bit, UInt32.toBitVec_xor, UInt32.toBitVec_and, fed, ShiftRegister.shift]
  congr 1
  split
  · exact BitVec.and_allOnes
  · exact BitVec.and_zero

theorem iterate_crc32Bit (count : Nat) (crc : UInt32) :
    (crc32Bit^[count] crc).toBitVec =
      (ShiftRegister.shift generator)^[count] crc.toBitVec := by
  induction count generalizing crc with
  | zero => rfl
  | succ count ih =>
      rw [Function.iterate_succ_apply, Function.iterate_succ_apply, ih, crc32Bit_eq]

theorem crc32Byte_eq (crc : UInt32) (byte : UInt8) :
    (crc32Byte crc byte).toBitVec =
      ShiftRegister.feed generator crc.toBitVec (byteBits byte) := by
  have word : byte.toUInt32.toBitVec = ShiftRegister.ofBits (byteBits byte) := by
    refine BitVec.eq_of_getLsbD_eq fun place small => ?_
    rw [ShiftRegister.getLsbD_ofBits, getD_byteBits, decide_eq_true small]
    rfl
  rw [crc32Byte, iterate_crc32Bit, UInt32.toBitVec_xor, word,
    ShiftRegister.feed_word (by rw [length_byteBits]; decide), length_byteBits]

theorem foldl_crc32Byte_eq (crc : UInt32) (data : List UInt8) :
    (data.foldl crc32Byte crc).toBitVec =
      ShiftRegister.feed generator crc.toBitVec (bitsOf data) := by
  induction data generalizing crc with
  | nil => rfl
  | cons byte data ih =>
      rw [List.foldl_cons, ih, crc32Byte_eq, bitsOf_cons, ShiftRegister.feed_append]

theorem not_xor_eq_allOnes {w : Nat} {x y : BitVec w} :
    ~~~ x ^^^ y = BitVec.allOnes w ↔ x = y := by
  rw [← BitVec.not_xor_left, ← BitVec.not_zero, BitVec.not_inj, BitVec.xor_eq_zero_iff]

theorem length_littleEndian (width value : Nat) : (littleEndian width value).length = width := by
  simp [littleEndian]

theorem checksumHolds_append (front : List UInt8) {back : List UInt8} (four : back.length = 4) :
    checksumHolds (front ++ back) = (crc32 front == UInt32.ofNat (ofLittleEndian back)) := by
  have whole : (front ++ back).length - 4 = front.length := by
    rw [List.length_append, four, Nat.add_sub_cancel]
  rw [checksumHolds, whole, List.take_left, List.drop_left]

theorem checksumHolds_littleEndian (front : List UInt8) (crc : UInt32) :
    checksumHolds (front ++ littleEndian 4 crc.toNat) = (crc32 front == crc) := by
  have small : crc.toNat % 256 ^ 4 = crc.toNat := Nat.mod_eq_of_lt crc.toNat_lt
  rw [checksumHolds_append front (length_littleEndian ..), ofLittleEndian_littleEndian, small,
    UInt32.ofNat_toNat]

theorem checksumHolds_withChecksum (data : List UInt8) :
    checksumHolds (withChecksum data) = true := by
  rw [withChecksum, checksumHolds_littleEndian]
  exact beq_self_eq_true _

/-- The check of a record, on the struct in memory. -/
theorem checksumHolds_bytes (record : PunchRecord) : checksumHolds record.bytes = record.intact :=
  checksumHolds_littleEndian record.body record.crc

/-- The check, as what all that was read leaves in the register. -/
theorem checksumHolds_iff {read : List UInt8} (long : 4 ≤ read.length) :
    checksumHolds read = true ↔
      ShiftRegister.feed generator (BitVec.allOnes 32) (bitsOf read) =
        (ShiftRegister.shift generator)^[32] (BitVec.allOnes 32) := by
  obtain ⟨front, back, four, rfl⟩ : ∃ front back, back.length = 4 ∧ read = front ++ back := by
    refine ⟨read.take (read.length - 4), read.drop (read.length - 4), ?_, ?_⟩
    · rw [List.length_drop, Nat.sub_sub_self long]
    · rw [List.take_append_drop]
  have bits : (bitsOf back).length = 32 := by rw [length_bitsOf, four]
  have left : ShiftRegister.feed generator (BitVec.allOnes 32) (bitsOf (front ++ back)) =
      (ShiftRegister.shift generator)^[32]
        (~~~ (crc32 front).toBitVec ^^^ BitVec.ofNat 32 (ofLittleEndian back)) := by
    rw [bitsOf_append, ShiftRegister.feed_append, ShiftRegister.feed_word (Nat.le_of_eq bits), bits,
      ofBits_bitsOf, crc32, UInt32.toBitVec_not, BitVec.not_not, foldl_crc32Byte_eq]
    rfl
  have injective := (ShiftRegister.shift_injective generator_top).iterate 32
  rw [left, injective.eq_iff, checksumHolds_append front four, beq_iff_eq, ← UInt32.toBitVec_inj]
  exact not_xor_eq_allOnes.symm

/-! ## Errors -/

/-- The check looks at nothing but the error. -/
theorem checksumHolds_corrupt {written error : List UInt8} (long : 4 ≤ written.length)
    (same : written.length = error.length) (holds : checksumHolds written = true) :
    checksumHolds (corrupt written error) = true ↔
      ShiftRegister.feed generator 0#32 (bitsOf error) = 0#32 := by
  have size : (corrupt written error).length = written.length := by
    rw [corrupt, List.length_zipWith, ← same, Nat.min_self]
  have bits : (bitsOf written).length = (bitsOf error).length := by
    rw [length_bitsOf, length_bitsOf, same]
  have linear := @ShiftRegister.feed_xor _ generator _ _ bits (BitVec.allOnes 32) 0#32
  rw [BitVec.xor_zero, (checksumHolds_iff long).mp holds] at linear
  rw [checksumHolds_iff (by rwa [size]), bitsOf_corrupt same, linear]
  have cancel := @BitVec.xor_right_inj _ (ShiftRegister.feed generator 0#32 (bitsOf error)) 0#32
  simpa only [BitVec.xor_zero] using cancel _

theorem ShortBurst.caught {written error : List UInt8} (burst : ShortBurst error)
    (long : 4 ≤ written.length) (same : written.length = error.length)
    (holds : checksumHolds written = true) : checksumHolds (corrupt written error) = false := by
  by_contra missed
  have zero := (checksumHolds_corrupt long same holds).mp (eq_true_of_ne_false missed)
  exact ShiftRegister.feed_ne_zero generator_top burst.nonzero burst.spans zero

/-- No burst of up to 32 bits gets past the check, wherever it is. -/
theorem short_burst_caught {error : List UInt8} (burst : ShortBurst error) :
    (∀ data, error.length = (withChecksum data).length →
      checksumHolds (corrupt (withChecksum data) error) = false) ∧
    ∀ record read : PunchRecord, record.intact = true → error.length = recordBytes →
      read.bytes = corrupt record.bytes error → read.intact = false := by
  constructor
  · intro data same
    have long : 4 ≤ (withChecksum data).length := by
      rw [withChecksum, List.length_append, length_littleEndian]
      omega
    exact burst.caught long same.symm (checksumHolds_withChecksum data)
  · intro record read intact whole damaged
    have size : record.bytes.length = recordBytes := by
      rw [PunchRecord.bytes, List.length_append, length_littleEndian, record.body_length]
      rfl
    rw [← checksumHolds_bytes, damaged]
    refine burst.caught ?_ (size.trans whole.symm) ?_
    · rw [size]
      decide
    · rwa [checksumHolds_bytes]

/-- Across the end of the data. -/
def acrossChecksum : List UInt8 := [0, 0, 0x80, 0xFF, 0xFF, 0xFF, 0x7F]

def blankRecord : PunchRecord :=
  PunchRecord.withCrc ⟨0, 0, 0, .replicate 16 0, 0, 0, 0, 0, 0, .replicate 9 0, 0⟩

def seqError : List UInt8 := 5 :: List.replicate 59 0

theorem short_burst_caught_sample :
    checksumHolds (corrupt (withChecksum [1, 2, 3]) acrossChecksum) = false ∧
      { blankRecord with seq := 5 }.intact = false := by
  have across : ShortBurst acrossChecksum :=
    ⟨by decide, ShiftRegister.spans_of_clear 23 (by decide +kernel)⟩
  have inSeq : ShortBurst seqError :=
    ⟨by decide, ShiftRegister.spans_of_clear 0 (by decide +kernel)⟩
  constructor
  · exact (short_burst_caught across).1 [1, 2, 3] rfl
  · refine (short_burst_caught inSeq).2 blankRecord _ (PunchRecord.withCrc_intact _) rfl ?_
    decide +kernel

end Presence.Firmware
