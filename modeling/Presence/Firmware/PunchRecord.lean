import Mathlib.Algebra.Group.Nat.Defs
import Mathlib.Data.List.Basic
import Mathlib.Logic.Function.Iterate

namespace Presence.Firmware

/-! # The buffered punch

`PunchRecord` is the packed 60-byte struct of `ring_buffer.h`; any 60 bytes of
flash read back as one, so a record whose checksum is wrong is still a value of
the type.  `body` is the 56 bytes before the checksum in struct order, integers
least significant byte first as the ESP32 stores them, and `intact` is the check
`peek` and `ackThrough` make on what they read back.  `crc32` is `crc32.cpp`.
-/

def crc32Bit (crc : UInt32) : UInt32 :=
  -- all ones exactly when the low bit is set
  let mask := 0 - (crc &&& 1)
  (crc >>> 1) ^^^ (0xEDB88320 &&& mask)

def crc32Byte (crc : UInt32) (byte : UInt8) : UInt32 :=
  crc32Bit^[8] (crc ^^^ byte.toUInt32)

def crc32 (data : List UInt8) : UInt32 :=
  ~~~ data.foldl crc32Byte 0xFFFFFFFF

structure PunchRecord where
  seq : UInt64
  capturedEpochMs : UInt64
  capturedUptimeMs : UInt64
  uuid : Vector UInt8 16
  slotNo : UInt16
  matchScore : UInt16
  credentialKind : UInt8
  timeSource : UInt8
  directionHint : UInt8
  reserved : Vector UInt8 9
  crc : UInt32
deriving DecidableEq

def recordBytes : Nat := 60

def littleEndian (width value : Nat) : List UInt8 :=
  (List.range width).map fun lane => UInt8.ofNat (value / 256 ^ lane)

def PunchRecord.body (record : PunchRecord) : List UInt8 :=
  littleEndian 8 record.seq.toNat ++ littleEndian 8 record.capturedEpochMs.toNat ++
    littleEndian 8 record.capturedUptimeMs.toNat ++ record.uuid.toList ++
    littleEndian 2 record.slotNo.toNat ++ littleEndian 2 record.matchScore.toNat ++
    [record.credentialKind, record.timeSource, record.directionHint] ++
    record.reserved.toList

theorem PunchRecord.body_length (record : PunchRecord) :
    record.body.length = recordBytes - 4 := by
  simp [body, littleEndian, recordBytes]

def PunchRecord.withCrc (record : PunchRecord) : PunchRecord :=
  { record with crc := crc32 record.body }

def PunchRecord.intact (record : PunchRecord) : Bool :=
  crc32 record.body == record.crc

@[simp] theorem PunchRecord.withCrc_seq (record : PunchRecord) :
    record.withCrc.seq = record.seq := rfl

@[simp] theorem PunchRecord.withCrc_intact (record : PunchRecord) :
    record.withCrc.intact = true := by
  simp [intact, withCrc, body]

end Presence.Firmware
