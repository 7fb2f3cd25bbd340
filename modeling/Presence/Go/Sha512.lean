import Presence.Data.Blocks
import Presence.Go.Sha256

namespace Presence.Go.Sha512

open Presence.Data

/-! # `crypto/sha512` -/

def primes : List Nat := [
  2, 3, 5, 7, 11, 13, 17, 19, 23, 29, 31, 37, 41, 43, 47, 53, 59, 61, 67, 71, 73, 79, 83, 89, 97,
  101, 103, 107, 109, 113, 127, 131, 137, 139, 149, 151, 157, 163, 167, 173, 179, 181, 191, 193,
  197, 199, 211, 223, 227, 229, 233, 239, 241, 251, 257, 263, 269, 271, 277, 281, 283, 293, 307,
  311, 313, 317, 331, 337, 347, 349, 353, 359, 367, 373, 379, 383, 389, 397, 401, 409]

/-- The greatest `root` of the given bits above `low` with `root ^ power ≤ value`. -/
def rootAbove (power value : Nat) : Nat → Nat → Nat
  | 0, low => low
  | bits + 1, low =>
      if (low + 2 ^ bits) ^ power ≤ value then rootAbove power value bits (low + 2 ^ bits)
      else rootAbove power value bits low

/-- The first sixty-four bits of the fractional part of a root. -/
def fraction (power prime : Nat) : UInt64 :=
  .ofNat (rootAbove power (prime * 2 ^ (64 * power)) 70 0)

def roundConstants : List UInt64 := primes.map (fraction 3)

structure Words where
  a : UInt64
  b : UInt64
  c : UInt64
  d : UInt64
  e : UInt64
  f : UInt64
  g : UInt64
  h : UInt64

def initial : Words :=
  ⟨fraction 2 2, fraction 2 3, fraction 2 5, fraction 2 7, fraction 2 11, fraction 2 13,
    fraction 2 17, fraction 2 19⟩

def rotateRight (word : UInt64) (count : UInt64) : UInt64 :=
  (word >>> count) ||| (word <<< (64 - count))

def round (words : Words) (constantAndWord : UInt64 × UInt64) : Words :=
  let choice := (words.e &&& words.f) ^^^ (~~~ words.e &&& words.g)
  let majority := (words.a &&& words.b) ^^^ (words.a &&& words.c) ^^^ (words.b &&& words.c)
  let sigma0 := rotateRight words.a 28 ^^^ rotateRight words.a 34 ^^^ rotateRight words.a 39
  let sigma1 := rotateRight words.e 14 ^^^ rotateRight words.e 18 ^^^ rotateRight words.e 41
  let t1 := words.h + sigma1 + choice + constantAndWord.1 + constantAndWord.2
  let t2 := sigma0 + majority
  ⟨t1 + t2, words.a, words.b, words.c, words.d + t1, words.e, words.f, words.g⟩

/-- The message schedule grown by a word, the newest word first. -/
def grow (words : List UInt64) : List UInt64 :=
  let near := words.getD 1 0
  let far := words.getD 14 0
  let sigma0 := rotateRight far 1 ^^^ rotateRight far 8 ^^^ (far >>> 7)
  let sigma1 := rotateRight near 19 ^^^ rotateRight near 61 ^^^ (near >>> 6)
  (sigma1 + words.getD 6 0 + sigma0 + words.getD 15 0) :: words

/-- The rounds over as much of the schedule as there is. -/
def rounds (words : Words) (newest : List UInt64) : Words :=
  (roundConstants.zip newest.reverse).foldl round words

def compress (words : Words) (block : List UInt64) : Words :=
  let mixed := rounds words (grow^[64] block.reverse)
  ⟨words.a + mixed.a, words.b + mixed.b, words.c + mixed.c, words.d + mixed.d,
    words.e + mixed.e, words.f + mixed.f, words.g + mixed.g, words.h + mixed.h⟩

def wordAt (bytes : List UInt8) (index : Nat) : UInt64 :=
  (List.range 8).foldl
    (fun word lane => (word <<< 8) ||| (bytes.getD (8 * index + lane) 0).toUInt64) 0

def blockWords (block : List UInt8) : List UInt64 :=
  (List.range 16).map (wordAt block)

def pad (message : List UInt8) : List UInt8 :=
  message ++ [0x80] ++ List.replicate ((239 - message.length % 128) % 128) 0 ++
    Sha256.bigEndian 16 (8 * message.length)

def digest (words : Words) : List UInt8 :=
  [words.a, words.b, words.c, words.d, words.e, words.f, words.g, words.h].flatMap fun word =>
    Sha256.bigEndian 8 word.toNat

def sum512 (message : List UInt8) : List UInt8 :=
  let padded := pad message
  digest ((List.range (padded.length / 128)).foldl
    (fun words index => compress words (blockWords ((padded.drop (128 * index)).take 128))) initial)

-- the digest of "abc"
example : sum512 [97, 98, 99] = [
    0xdd, 0xaf, 0x35, 0xa1, 0x93, 0x61, 0x7a, 0xba, 0xcc, 0x41, 0x73, 0x49, 0xae, 0x20, 0x41, 0x31,
    0x12, 0xe6, 0xfa, 0x4e, 0x89, 0xa9, 0x7e, 0xa2, 0x0a, 0x9e, 0xee, 0xe6, 0x4b, 0x55, 0xd3, 0x9a,
    0x21, 0x92, 0x99, 0x2a, 0x27, 0x4f, 0xc1, 0xa8, 0x36, 0xba, 0x3c, 0x23, 0xa3, 0xfe, 0xeb, 0xbd,
    0x45, 0x4d, 0x44, 0x23, 0x64, 0x3c, 0xe8, 0x0e, 0x2a, 0x9a, 0xc9, 0x4f, 0xa5, 0x4c, 0xa4,
    0x9f] := by
  decide +kernel

/-! ## The padded message -/

def reader : BlockReader UInt8 Words where
  size := 128
  positive := by decide
  compress words block := compress words (blockWords block)

theorem length_pad (message : List UInt8) : 128 ∣ (pad message).length := by
  simp only [pad, Sha256.bigEndian, List.length_append, List.length_singleton,
    List.length_replicate, List.length_map, List.length_reverse, List.length_range]
  omega

theorem sum512_eq (message : List UInt8) :
    sum512 message = digest (reader.absorb initial (pad message)).1 := by
  rw [sum512, BlockReader.absorb_eq_foldl]
  rfl

end Presence.Go.Sha512
