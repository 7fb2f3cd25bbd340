import Mathlib.Algebra.Group.Nat.Defs
import Mathlib.Data.List.Basic

namespace Presence.Go

/-! # `crypto/sha256` and `crypto/hmac` -/

namespace Sha256

def roundConstants : List UInt32 := [
  0x428a2f98, 0x71374491, 0xb5c0fbcf, 0xe9b5dba5, 0x3956c25b, 0x59f111f1, 0x923f82a4, 0xab1c5ed5,
  0xd807aa98, 0x12835b01, 0x243185be, 0x550c7dc3, 0x72be5d74, 0x80deb1fe, 0x9bdc06a7, 0xc19bf174,
  0xe49b69c1, 0xefbe4786, 0x0fc19dc6, 0x240ca1cc, 0x2de92c6f, 0x4a7484aa, 0x5cb0a9dc, 0x76f988da,
  0x983e5152, 0xa831c66d, 0xb00327c8, 0xbf597fc7, 0xc6e00bf3, 0xd5a79147, 0x06ca6351, 0x14292967,
  0x27b70a85, 0x2e1b2138, 0x4d2c6dfc, 0x53380d13, 0x650a7354, 0x766a0abb, 0x81c2c92e, 0x92722c85,
  0xa2bfe8a1, 0xa81a664b, 0xc24b8b70, 0xc76c51a3, 0xd192e819, 0xd6990624, 0xf40e3585, 0x106aa070,
  0x19a4c116, 0x1e376c08, 0x2748774c, 0x34b0bcb5, 0x391c0cb3, 0x4ed8aa4a, 0x5b9cca4f, 0x682e6ff3,
  0x748f82ee, 0x78a5636f, 0x84c87814, 0x8cc70208, 0x90befffa, 0xa4506ceb, 0xbef9a3f7, 0xc67178f2]

structure Words where
  a : UInt32
  b : UInt32
  c : UInt32
  d : UInt32
  e : UInt32
  f : UInt32
  g : UInt32
  h : UInt32

def initial : Words :=
  ⟨0x6a09e667, 0xbb67ae85, 0x3c6ef372, 0xa54ff53a, 0x510e527f, 0x9b05688c, 0x1f83d9ab, 0x5be0cd19⟩

def rotateRight (word : UInt32) (count : UInt32) : UInt32 :=
  (word >>> count) ||| (word <<< (32 - count))

def round (words : Words) (constantAndWord : UInt32 × UInt32) : Words :=
  let choice := (words.e &&& words.f) ^^^ (~~~ words.e &&& words.g)
  let majority := (words.a &&& words.b) ^^^ (words.a &&& words.c) ^^^ (words.b &&& words.c)
  let sigma0 := rotateRight words.a 2 ^^^ rotateRight words.a 13 ^^^ rotateRight words.a 22
  let sigma1 := rotateRight words.e 6 ^^^ rotateRight words.e 11 ^^^ rotateRight words.e 25
  let t1 := words.h + sigma1 + choice + constantAndWord.1 + constantAndWord.2
  let t2 := sigma0 + majority
  ⟨t1 + t2, words.a, words.b, words.c, words.d + t1, words.e, words.f, words.g⟩

/-- The message schedule grown word by word, the newest word first. -/
def schedule : Nat → List UInt32 → List UInt32
  | 0, words => words
  | left + 1, words =>
      let near := words.getD 1 0
      let far := words.getD 14 0
      let sigma0 := rotateRight far 7 ^^^ rotateRight far 18 ^^^ (far >>> 3)
      let sigma1 := rotateRight near 17 ^^^ rotateRight near 19 ^^^ (near >>> 10)
      schedule left ((sigma1 + words.getD 6 0 + sigma0 + words.getD 15 0) :: words)

def compress (words : Words) (block : List UInt32) : Words :=
  let expanded := (schedule 48 block.reverse).reverse
  let mixed := (roundConstants.zip expanded).foldl round words
  ⟨words.a + mixed.a, words.b + mixed.b, words.c + mixed.c, words.d + mixed.d,
    words.e + mixed.e, words.f + mixed.f, words.g + mixed.g, words.h + mixed.h⟩

def bigEndian (width value : Nat) : List UInt8 :=
  (List.range width).reverse.map fun lane => UInt8.ofNat (value / 256 ^ lane)

def wordAt (bytes : List UInt8) (index : Nat) : UInt32 :=
  (bytes.drop (4 * index)).take 4 |>.foldl (fun word byte => word * 256 + byte.toUInt32) 0

def pad (message : List UInt8) : List UInt8 :=
  message ++ [0x80] ++ List.replicate ((119 - message.length % 64) % 64) 0 ++
    bigEndian 8 (8 * message.length)

def sum256 (message : List UInt8) : List UInt8 :=
  let padded := pad message
  let final := (List.range (padded.length / 64)).foldl (fun words block =>
    compress words ((List.range 16).map fun index => wordAt padded (16 * block + index))) initial
  [final.a, final.b, final.c, final.d, final.e, final.f, final.g, final.h].flatMap fun word =>
    bigEndian 4 word.toNat

@[simp] theorem sum256_length (message : List UInt8) : (sum256 message).length = 32 := by
  simp [sum256, bigEndian]

end Sha256

def hmacSha256 (secret message : List UInt8) : List UInt8 :=
  let short := if 64 < secret.length then Sha256.sum256 secret else secret
  let block := short ++ List.replicate (64 - short.length) 0
  let inner := Sha256.sum256 (block.map (· ^^^ 0x36) ++ message)
  Sha256.sum256 (block.map (· ^^^ 0x5c) ++ inner)

@[simp] theorem hmacSha256_length (secret message : List UInt8) :
    (hmacSha256 secret message).length = 32 := by
  simp [hmacSha256]

-- the digest of "abc"
example : Sha256.sum256 [97, 98, 99] = [
    0xba, 0x78, 0x16, 0xbf, 0x8f, 0x01, 0xcf, 0xea, 0x41, 0x41, 0x40, 0xde, 0x5d, 0xae, 0x22, 0x23,
    0xb0, 0x03, 0x61, 0xa3, 0x96, 0x17, 0x7a, 0x9c, 0xb4, 0x10, 0xff, 0x61, 0xf2, 0x00, 0x15, 0xad] := by
  decide +kernel

end Presence.Go
