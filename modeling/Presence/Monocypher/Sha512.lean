import Mathlib.Data.List.GetD
import Mathlib.Data.List.TakeDrop
import Mathlib.Logic.Function.Iterate
import Mathlib.Tactic.IntervalCases
import Mathlib.Tactic.NormNum
import Presence.Go.Sha512

namespace Presence.Monocypher

open Presence.Data Presence.Go
open Presence.Go.Sha512 (Words)

/-! # SHA-512 as `monocypher-ed25519.c` has it

The message comes in pieces of any length.  The context buffers one block as words, and
the message schedule grows inside that buffer.
-/

def K : List UInt64 := [
  0x428a2f98d728ae22, 0x7137449123ef65cd, 0xb5c0fbcfec4d3b2f, 0xe9b5dba58189dbbc,
  0x3956c25bf348b538, 0x59f111f1b605d019, 0x923f82a4af194f9b, 0xab1c5ed5da6d8118,
  0xd807aa98a3030242, 0x12835b0145706fbe, 0x243185be4ee4b28c, 0x550c7dc3d5ffb4e2,
  0x72be5d74f27b896f, 0x80deb1fe3b1696b1, 0x9bdc06a725c71235, 0xc19bf174cf692694,
  0xe49b69c19ef14ad2, 0xefbe4786384f25e3, 0x0fc19dc68b8cd5b5, 0x240ca1cc77ac9c65,
  0x2de92c6f592b0275, 0x4a7484aa6ea6e483, 0x5cb0a9dcbd41fbd4, 0x76f988da831153b5,
  0x983e5152ee66dfab, 0xa831c66d2db43210, 0xb00327c898fb213f, 0xbf597fc7beef0ee4,
  0xc6e00bf33da88fc2, 0xd5a79147930aa725, 0x06ca6351e003826f, 0x142929670a0e6e70,
  0x27b70a8546d22ffc, 0x2e1b21385c26c926, 0x4d2c6dfc5ac42aed, 0x53380d139d95b3df,
  0x650a73548baf63de, 0x766a0abb3c77b2a8, 0x81c2c92e47edaee6, 0x92722c851482353b,
  0xa2bfe8a14cf10364, 0xa81a664bbc423001, 0xc24b8b70d0f89791, 0xc76c51a30654be30,
  0xd192e819d6ef5218, 0xd69906245565a910, 0xf40e35855771202a, 0x106aa07032bbd1b8,
  0x19a4c116b8d2d0c8, 0x1e376c085141ab53, 0x2748774cdf8eeb99, 0x34b0bcb5e19b48a8,
  0x391c0cb3c5c95a63, 0x4ed8aa4ae3418acb, 0x5b9cca4f7763e373, 0x682e6ff3d6b2b8a3,
  0x748f82ee5defb2fc, 0x78a5636f43172f60, 0x84c87814a1f0ab72, 0x8cc702081a6439ec,
  0x90befffa23631e28, 0xa4506cebde82bde9, 0xbef9a3f7b2c67915, 0xc67178f2e372532b,
  0xca273eceea26619c, 0xd186b8c721c0c207, 0xeada7dd6cde0eb1e, 0xf57d4f7fee6ed178,
  0x06f067aa72176fba, 0x0a637dc5a2c898a6, 0x113f9804bef90dae, 0x1b710b35131c471b,
  0x28db77f523047d84, 0x32caab7b40c72493, 0x3c9ebe0a15c9bebc, 0x431d67c49c100d4c,
  0x4cc5d4becb3e42b6, 0x597f299cfc657e2a, 0x5fcb6fab3ad6faec, 0x6c44198c4a475817]

/-- `(x + align(x, pow_2)) % pow_2 == 0`, in the 32 bits of a `size_t`. -/
def align (x pow2 : UInt32) : Nat :=
  ((~~~ x + 1) &&& (pow2 - 1)).toNat

def load64Be (s : List UInt8) : UInt64 :=
  ((s.getD 0 0).toUInt64 <<< 56) ||| ((s.getD 1 0).toUInt64 <<< 48) |||
    ((s.getD 2 0).toUInt64 <<< 40) ||| ((s.getD 3 0).toUInt64 <<< 32) |||
    ((s.getD 4 0).toUInt64 <<< 24) ||| ((s.getD 5 0).toUInt64 <<< 16) |||
    ((s.getD 6 0).toUInt64 <<< 8) ||| (s.getD 7 0).toUInt64

def store64Be (word : UInt64) : List UInt8 :=
  [((word >>> 56) &&& 0xff).toUInt8, ((word >>> 48) &&& 0xff).toUInt8,
    ((word >>> 40) &&& 0xff).toUInt8, ((word >>> 32) &&& 0xff).toUInt8,
    ((word >>> 24) &&& 0xff).toUInt8, ((word >>> 16) &&& 0xff).toUInt8,
    ((word >>> 8) &&& 0xff).toUInt8, (word &&& 0xff).toUInt8]

abbrev Input := Vector UInt64 16

/-- `load64_be_buf(input + offset, src, size)` -/
def load64BeBuf (input : Input) (offset : Nat) (src : List UInt8) (size : Nat) : Input :=
  (List.range size).foldl
    (fun input i => input.setIfInBounds (offset + i) (load64Be (src.drop (i * 8)))) input

def rot (x : UInt64) (c : UInt64) : UInt64 := (x >>> c) ||| (x <<< (64 - c))
def ch (x y z : UInt64) : UInt64 := (x &&& y) ^^^ (~~~ x &&& z)
def maj (x y z : UInt64) : UInt64 := (x &&& y) ^^^ (x &&& z) ^^^ (y &&& z)
def bigSigma0 (x : UInt64) : UInt64 := rot x 28 ^^^ rot x 34 ^^^ rot x 39
def bigSigma1 (x : UInt64) : UInt64 := rot x 14 ^^^ rot x 18 ^^^ rot x 41
def litSigma0 (x : UInt64) : UInt64 := rot x 1 ^^^ rot x 8 ^^^ (x >>> 7)
def litSigma1 (x : UInt64) : UInt64 := rot x 19 ^^^ rot x 61 ^^^ (x >>> 6)

/-- `hash[0]` to `hash[7]` are the words `a` to `h`; the high half of the size, in bits,
comes first. -/
structure Sha512Ctx where
  hash : Words
  inputSize : UInt64 × UInt64
  inputIdx : Nat
  input : Input

/-- The end of a round, `in` being the constant and the word of the schedule. -/
def turn (words : Words) (input : UInt64) : Words :=
  let t1 := bigSigma1 words.e + ch words.e words.f words.g + words.h + input
  let t2 := bigSigma0 words.a + maj words.a words.b words.c
  { h := words.g, g := words.f, f := words.e, e := words.d + t1
    d := words.c, c := words.b, b := words.a, a := t1 + t2 }

/-- `& 15` is what `Fin 16` subtracts by. -/
def expand (input : Input) (j : Fin 16) : Input :=
  let input := input.set j (input[j] + litSigma1 input[j - 2])
  let input := input.set j (input[j] + litSigma0 input[j - 15])
  input.set j (input[j] + input[j - 7])

/-- A later round: the word at `j` makes way for the next one of the schedule. -/
def mixWord (i16 : Nat) (state : Input × Words) (j : Fin 16) : Input × Words :=
  let input := expand state.1 j
  (input, turn state.2 (K.getD (i16 + j) 0 + input[j]))

def sha512Compress (ctx : Sha512Ctx) : Sha512Ctx :=
  let words := (List.finRange 16).foldl
    (fun words (j : Fin 16) => turn words (K.getD j 0 + ctx.input[j])) ctx.hash
  let mixed := [16, 32, 48, 64].foldl
    (fun state i16 => (List.finRange 16).foldl (mixWord i16) state) (ctx.input, words)
  { ctx with
    input := mixed.1
    hash := {
      a := ctx.hash.a + mixed.2.a, b := ctx.hash.b + mixed.2.b
      c := ctx.hash.c + mixed.2.c, d := ctx.hash.d + mixed.2.d
      e := ctx.hash.e + mixed.2.e, f := ctx.hash.f + mixed.2.f
      g := ctx.hash.g + mixed.2.g, h := ctx.hash.h + mixed.2.h } }

def sha512SetInput (ctx : Sha512Ctx) (input : UInt8) : Sha512Ctx :=
  let word := ctx.inputIdx >>> 3
  let byte := ctx.inputIdx &&& 7
  { ctx with
    input := ctx.input.setIfInBounds word
      (ctx.input.getD word 0 ||| (input.toUInt64 <<< .ofNat (8 * (7 - byte)))) }

def sha512Incr (x : UInt64 × UInt64) (y : UInt64) : UInt64 × UInt64 :=
  let low := x.2 + y
  if low < y then (x.1 + 1, low) else (x.1, low)

def zeros : Input := .replicate 16 0

def cryptoSha512Init : Sha512Ctx where
  hash :=
    ⟨0x6a09e667f3bcc908, 0xbb67ae8584caa73b, 0x3c6ef372fe94f82b, 0xa54ff53a5f1d36f1,
      0x510e527fade682d1, 0x9b05688c2b3e6c1f, 0x1f83d9abfb41bd6b, 0x5be0cd19137e2179⟩
  inputSize := (0, 0)
  inputIdx := 0
  input := zeros

/-- The loop over `sha512_set_input` and `input_idx++`. -/
def setInputs (ctx : Sha512Ctx) (message : List UInt8) : Sha512Ctx :=
  message.foldl (fun ctx byte =>
    { sha512SetInput ctx byte with inputIdx := ctx.inputIdx + 1 }) ctx

/-- `load64_be_buf` behind what is buffered. -/
def setWords (ctx : Sha512Ctx) (offset : Nat) (message : List UInt8) (nbWords : Nat) : Sha512Ctx :=
  { ctx with
    input := load64BeBuf ctx.input offset message nbWords
    inputIdx := ctx.inputIdx + nbWords <<< 3 }

/-- The size is in bits. -/
def compressBlock (ctx : Sha512Ctx) : Sha512Ctx :=
  { sha512Compress { ctx with inputSize := sha512Incr ctx.inputSize 1024 } with
    inputIdx := 0
    input := zeros }

/-- Bytes up to a word boundary. -/
def toWord (ctx : Sha512Ctx) (message : List UInt8) : Sha512Ctx × List UInt8 :=
  if ctx.inputIdx &&& 7 ≠ 0 then
    let nbBytes := min (align (.ofNat ctx.inputIdx) 8) message.length
    (setInputs ctx (message.take nbBytes), message.drop nbBytes)
  else (ctx, message)

/-- Words up to a block boundary. -/
def toBlock (ctx : Sha512Ctx) (message : List UInt8) : Sha512Ctx × List UInt8 :=
  if ctx.inputIdx &&& 127 ≠ 0 then
    let nbWords := min (align (.ofNat ctx.inputIdx) 128) message.length >>> 3
    (setWords ctx (ctx.inputIdx >>> 3) message nbWords, message.drop (nbWords <<< 3))
  else (ctx, message)

def ifFull (ctx : Sha512Ctx) : Sha512Ctx :=
  if ctx.inputIdx = 128 then compressBlock ctx else ctx

/-- A block straight from the message. -/
def nextBlock (now : Sha512Ctx × List UInt8) : Sha512Ctx × List UInt8 :=
  (compressBlock { now.1 with input := load64BeBuf now.1.input 0 now.2 16 }, now.2.drop 128)

def byBlock (ctx : Sha512Ctx) (message : List UInt8) : Sha512Ctx × List UInt8 :=
  (List.range (message.length >>> 7)).foldl (fun now _ => nextBlock now) (ctx, message)

/-- The remaining words, then the remaining bytes. -/
def remaining (ctx : Sha512Ctx) (message : List UInt8) : Sha512Ctx :=
  if message.length ≠ 0 then
    let nbWords := message.length >>> 3
    setInputs (setWords ctx 0 message nbWords) (message.drop (nbWords <<< 3))
  else ctx

def cryptoSha512Update (ctx : Sha512Ctx) (message : List UInt8) : Sha512Ctx :=
  if message.length = 0 then ctx
  else
    let words := toWord ctx message
    let block := toBlock words.1 words.2
    let blocks := byBlock (ifFull block.1) block.2
    remaining blocks.1 blocks.2

/-- Compresses the penultimate block, if there is one. -/
def penultimate (ctx : Sha512Ctx) : Sha512Ctx :=
  if ctx.inputIdx > 111 then
    let ctx := sha512Compress ctx
    { ctx with input := (List.range 14).foldl (fun input i => input.setIfInBounds i 0) ctx.input }
  else ctx

def cryptoSha512Final (ctx : Sha512Ctx) : List UInt8 :=
  let ctx := if ctx.inputIdx = 0 then { ctx with input := zeros } else ctx
  let ctx := sha512SetInput ctx 128
  let ctx := { ctx with inputSize := sha512Incr ctx.inputSize (.ofNat (ctx.inputIdx * 8)) }
  let ctx := penultimate ctx
  let ctx := sha512Compress { ctx with
    input := (ctx.input.set 14 ctx.inputSize.1).set 15 ctx.inputSize.2 }
  [ctx.hash.a, ctx.hash.b, ctx.hash.c, ctx.hash.d, ctx.hash.e, ctx.hash.f, ctx.hash.g,
    ctx.hash.h].flatMap store64Be

def cryptoSha512 (message : List UInt8) : List UInt8 :=
  cryptoSha512Final (cryptoSha512Update cryptoSha512Init message)

/-! ## Words and bytes -/

theorem K_eq : Sha512.roundConstants = K := by decide +kernel

theorem getD_drop (bytes : List UInt8) (start lane : Nat) :
    (bytes.drop start).getD lane 0 = bytes.getD (start + lane) 0 := by
  simp [List.getD_eq_getElem?_getD]

theorem load64Be_congr {s t : List UInt8} (same : ∀ lane < 8, s.getD lane 0 = t.getD lane 0) :
    load64Be s = load64Be t := by
  simp only [load64Be, same 0 (by decide), same 1 (by decide), same 2 (by decide),
    same 3 (by decide), same 4 (by decide), same 5 (by decide), same 6 (by decide),
    same 7 (by decide)]

theorem wordAt_eq (bytes : List UInt8) (index : Nat) :
    Sha512.wordAt bytes index = load64Be (bytes.drop (8 * index)) := by
  have again (count next word : UInt64) (more : next = count + 8) (fits : count < 64)
      (below : count + 8 < 64) : (word <<< count) <<< 8 = word <<< next := by
    rw [more, UInt64.shiftLeft_add fits (by decide) below]
  have lanes : List.range 8 = [0, 1, 2, 3, 4, 5, 6, 7] := rfl
  simp only [Sha512.wordAt, load64Be, lanes, List.foldl_cons, List.foldl_nil, getD_drop,
    UInt64.shiftLeft_or, UInt64.zero_shiftLeft, UInt64.zero_or,
    fun word => again 8 16 word rfl (by decide) (by decide),
    fun word => again 16 24 word rfl (by decide) (by decide),
    fun word => again 24 32 word rfl (by decide) (by decide),
    fun word => again 32 40 word rfl (by decide) (by decide),
    fun word => again 40 48 word rfl (by decide) (by decide),
    fun word => again 48 56 word rfl (by decide) (by decide)]

/-- A byte behind the more significant ones. -/
theorem shift_or (value : Nat) :
    ((UInt64.ofNat (value / 256)) <<< 8) ||| (UInt8.ofNat value).toUInt64 = UInt64.ofNat value := by
  have front : value / 256 % 2 ^ 64 * 2 ^ 8 % 2 ^ 64 = 2 ^ 8 * (value / 256 % 2 ^ 56) := by omega
  apply UInt64.toNat_inj.mp
  rw [UInt64.toNat_or, UInt64.toNat_shiftLeft, UInt8.toNat_toUInt64, UInt64.toNat_ofNat',
    UInt64.toNat_ofNat', UInt8.toNat_ofNat', show (8 : UInt64).toNat % 64 = 8 from rfl,
    Nat.shiftLeft_eq, front, ← Nat.two_pow_add_eq_or_of_lt (Nat.mod_lt _ (by decide))]
  omega

theorem load64Be_bigEndian (value : Nat) (rest : List UInt8) :
    load64Be (Sha256.bigEndian 8 value ++ rest) = UInt64.ofNat value := by
  have narrow : UInt64.ofNat value = UInt64.ofNat (value % 2 ^ 64) := by
    apply UInt64.toNat_inj.mp
    rw [UInt64.toNat_ofNat', UInt64.toNat_ofNat', Nat.mod_mod]
  have bytes (lane : Nat) (small : lane < 8) :
      UInt8.ofNat (value / 256 ^ lane) = UInt8.ofNat (value % 2 ^ 64 / 256 ^ lane) := by
    apply UInt8.toNat_inj.mp
    rw [UInt8.toNat_ofNat', UInt8.toNat_ofNat']
    interval_cases lane <;> omega
  have step (lane : Nat) : UInt64.ofNat (value % 2 ^ 64 / 256 ^ (lane + 1)) <<< 8 |||
      (UInt8.ofNat (value % 2 ^ 64 / 256 ^ lane)).toUInt64 =
        UInt64.ofNat (value % 2 ^ 64 / 256 ^ lane) := by
    rw [Nat.pow_succ 256 lane, ← Nat.div_div_eq_div_mul]
    exact shift_or _
  have first : (0 : UInt64) = UInt64.ofNat (value % 2 ^ 64 / 256 ^ 8) := by
    rw [Nat.div_eq_of_lt (by omega)]
    rfl
  have lanes : List.range 8 = [0, 1, 2, 3, 4, 5, 6, 7] := rfl
  have read := wordAt_eq (Sha256.bigEndian 8 value ++ rest) 0
  rw [Nat.mul_zero, List.drop_zero] at read
  rw [← read, narrow, Sha512.wordAt, lanes]
  simp only [Sha256.bigEndian, lanes, List.reverse_cons, List.reverse_nil, List.nil_append,
    List.cons_append, List.map_cons, List.map_nil, List.foldl_cons, List.foldl_nil,
    Nat.mul_zero, Nat.zero_add, List.getD_cons_zero, List.getD_cons_succ]
  rw [bytes 7 (by decide), bytes 6 (by decide), bytes 5 (by decide), bytes 4 (by decide),
    bytes 3 (by decide), bytes 2 (by decide), bytes 1 (by decide), bytes 0 (by decide), first,
    step 7, step 6, step 5, step 4, step 3, step 2, step 1, step 0, Nat.pow_zero, Nat.div_one]

@[simp] theorem length_bigEndian (width value : Nat) :
    (Sha256.bigEndian width value).length = width := by
  simp [Sha256.bigEndian]

theorem bigEndian_halves (value : Nat) :
    Sha256.bigEndian 16 value =
      Sha256.bigEndian 8 (value / 2 ^ 64) ++ Sha256.bigEndian 8 value := by
  have high : List.range 16 = List.range 8 ++ (List.range 8).map (8 + ·) := rfl
  rw [Sha256.bigEndian, high, List.reverse_append, List.map_append, ← List.map_reverse,
    List.map_map]
  refine congrArg (· ++ _) (List.map_congr_left fun lane _ => ?_)
  have wide : 256 ^ (8 + lane) = 2 ^ 64 * 256 ^ lane := by rw [Nat.pow_add]; norm_num
  rw [Function.comp_apply, wide, ← Nat.div_div_eq_div_mul]

theorem store64Be_eq (word : UInt64) : store64Be word = Sha256.bigEndian 8 word.toNat := by
  have byte (lane : Nat) (small : lane < 8) :
      ((word >>> UInt64.ofNat (8 * lane)) &&& 0xff).toUInt8 =
        UInt8.ofNat (word.toNat / 256 ^ lane) := by
    have count : (UInt64.ofNat (8 * lane)).toNat % 64 = 8 * lane := by
      rw [UInt64.toNat_ofNat']
      omega
    apply UInt8.toNat_inj.mp
    rw [UInt64.toNat_toUInt8, UInt64.toNat_and, UInt64.toNat_shiftRight, UInt8.toNat_ofNat', count,
      Nat.shiftRight_eq_div_pow, Nat.pow_mul, show (255 : UInt64).toNat = 2 ^ 8 - 1 from rfl,
      Nat.and_two_pow_sub_one_eq_mod, Nat.mod_mod]
  have lanes : (List.range 8).reverse = [7, 6, 5, 4, 3, 2, 1, 0] := rfl
  rw [Sha256.bigEndian, lanes]
  simp only [List.map_cons, List.map_nil, ← byte 7 (by decide), ← byte 6 (by decide),
    ← byte 5 (by decide), ← byte 4 (by decide), ← byte 3 (by decide), ← byte 2 (by decide),
    ← byte 1 (by decide)]
  rw [← byte 0 (by decide)]
  rfl

/-! ## The compression -/

/-- A block of bytes as the buffer holds it; what is not there yet is zero. -/
def wordsOf (bytes : List UInt8) : Input := .ofFn fun i => load64Be (bytes.drop (8 * i))

theorem toList_wordsOf (bytes : List UInt8) :
    (wordsOf bytes).toList = Sha512.blockWords bytes := by
  apply List.ext_getElem (by simp [wordsOf, Sha512.blockWords])
  intro i left right
  simp [wordsOf, Sha512.blockWords, wordAt_eq]

theorem turn_eq (words : Words) (k word : UInt64) :
    turn words (k + word) = Sha512.round words (k, word) := by
  have reorder (s c h k w : UInt64) : s + c + h + (k + w) = h + s + c + k + w := by ac_rfl
  simp only [turn, Sha512.round, bigSigma1, ch, reorder]
  rfl

theorem rounds_cons (words : Words) (newest : List UInt64) (word : UInt64)
    (few : newest.length < 80) : Sha512.rounds words (word :: newest) =
      turn (Sha512.rounds words newest) (K.getD newest.length 0 + word) := by
  have enough : newest.reverse.length < K.length := by rwa [List.length_reverse]
  rw [turn_eq, Sha512.rounds, Sha512.rounds, K_eq, List.reverse_cons, zip_concat enough 0,
    List.foldl_append, List.length_reverse]
  rfl

/-- The buffer after `count` words of the schedule beyond the block's own: it holds the
newest sixteen, each at its number modulo 16. -/
structure Mixed (start : Words) (first : List UInt64) (count : Nat) (state : Input × Words) :
    Prop where
  rolls : ∀ back < 16, state.1.get (Fin.ofNat 16 (15 + count - back)) =
    (Sha512.grow^[count] first).getD back 0
  words : state.2 = Sha512.rounds start (Sha512.grow^[count] first)

theorem length_grow (first : List UInt64) (count : Nat) :
    (Sha512.grow^[count] first).length = first.length + count := by
  induction count with
  | zero => rfl
  | succ count ih =>
      rw [Function.iterate_succ_apply', Sha512.grow, List.length_cons, ih]
      rfl

theorem expand_here (input : Input) (j : Fin 16) : (expand input j)[j] =
    input[j] + litSigma1 input[j - 2] + litSigma0 input[j - 15] + input[j - 7] := by
  have apart : ∀ j : Fin 16, j.val ≠ (j - 15).val ∧ j.val ≠ (j - 7).val := by decide
  obtain ⟨far, near⟩ := apart j
  simp [expand, Vector.getElem_set_ne, far, near]

theorem expand_elsewhere (input : Input) {j i : Fin 16} (apart : i ≠ j) :
    (expand input j)[i] = input[i] := by
  have other : j.val ≠ i.val := fun same => apart (Fin.ext same.symm)
  simp [expand, Vector.getElem_set_ne, other]

theorem Mixed.mixWord {start : Words} {first : List UInt64} (whole : first.length = 16)
    {count i16 : Nat} {state : Input × Words} (mixed : Mixed start first count state) {j : Fin 16}
    (here : i16 + j = 16 + count) (aligned : i16 % 16 = 0) (few : count < 64) :
    Mixed start first (count + 1) (mixWord i16 state j) := by
  have place (back : Nat) (small : back < 16) : Fin.ofNat 16 (15 + count - back) =
      j - Fin.ofNat 16 (back + 1) := by
    apply Fin.ext
    simp only [Fin.val_ofNat, Fin.sub_def]
    omega
  have same : Fin.ofNat 16 (15 + (count + 1)) = j := by
    apply Fin.ext
    rw [Fin.val_ofNat]
    omega
  have grown : Sha512.grow^[count + 1] first = (expand state.1 j)[j] ::
      Sha512.grow^[count] first := by
    have held (back : Nat) (small : back < 16) : state.1.get (j - Fin.ofNat 16 (back + 1)) =
        (Sha512.grow^[count] first).getD back 0 := place back small ▸ mixed.rolls back small
    have itself : ∀ j : Fin 16, j - Fin.ofNat 16 (15 + 1) = j := by decide
    have oldest := itself j ▸ held 15 (by decide)
    rw [Function.iterate_succ_apply', Sha512.grow, expand_here]
    have reorder (a b c d : UInt64) : a + b + c + d = d + a + c + b := by ac_rfl
    rw [reorder]
    refine congrArg (· :: _) ?_
    rw [← oldest, ← held 14 (by decide), ← held 6 (by decide), ← held 1 (by decide)]
    rfl
  constructor
  · intro back small
    rw [grown]
    cases back with
    | zero =>
        rw [List.getD_cons_zero, Nat.sub_zero, same]
        rfl
    | succ back =>
        have index : 15 + (count + 1) - (back + 1) = 15 + count - back := by omega
        have other : Fin.ofNat 16 (15 + count - back) ≠ j := by
          rw [ne_eq, Fin.ext_iff, Fin.val_ofNat]
          omega
        rw [List.getD_cons_succ, index, ← mixed.rolls back (by omega)]
        exact expand_elsewhere state.1 other
  · have length : (Sha512.grow^[count] first).length = 16 + count := by rw [length_grow, whole]
    rw [grown, rounds_cons _ _ _ (by omega), length, ← mixed.words, ← here]
    rfl

theorem Mixed.pass {start : Words} {first : List UInt64} (whole : first.length = 16)
    {count : Nat} {state : Input × Words} (mixed : Mixed start first count state)
    (aligned : count % 16 = 0) (few : count < 64) :
    Mixed start first (count + 16)
      ((List.finRange 16).foldl (Monocypher.mixWord (16 + count)) state) := by
  refine foldl_finRange_induction (fun turns => Mixed start first (count + turns)) mixed ?_
  intro j state before
  exact before.mixWord whole (by omega) (by omega) (by omega)

theorem sha512Compress_hash (ctx : Sha512Ctx) :
    (sha512Compress ctx).hash = Sha512.compress ctx.hash ctx.input.toList := by
  let first := ctx.input.toList.reverse
  have whole : first.length = 16 := by simp [first]
  let words := (List.finRange 16).foldl
    (fun words (j : Fin 16) => turn words (K.getD j 0 + ctx.input[j])) ctx.hash
  have own : words = Sha512.rounds ctx.hash first := by
    have taken : words = Sha512.rounds ctx.hash (ctx.input.toList.take 16).reverse := by
      refine foldl_finRange_induction (fun turns words =>
        words = Sha512.rounds ctx.hash (ctx.input.toList.take turns).reverse) rfl ?_
      intro j words before
      have there : j.val < ctx.input.toList.length := by simp
      rw [← List.take_concat_get' _ _ there, List.reverse_append, List.reverse_singleton,
        List.singleton_append, rounds_cons _ _ _ (by simp; omega), ← before]
      simp
    rw [taken, List.take_of_length_le (by simp)]
  have begun : Mixed ctx.hash first 0 (ctx.input, words) := by
    refine ⟨fun back small => ?_, own⟩
    have inside : back < first.length := by omega
    rw [Function.iterate_zero, id_eq, List.getD_eq_getElem _ _ inside, List.getElem_reverse]
    have index : (15 + 0 - back) % 16 = 15 - back := by omega
    have held : ctx.input.get ⟨15 - back, by omega⟩ = ctx.input[15 - back] := rfl
    simpa [Fin.ofNat, index] using held
  have mixed := (((begun.pass whole rfl (by decide)).pass whole rfl (by decide)).pass whole rfl
    (by decide)).pass whole rfl (by decide)
  have last := mixed.words
  simp only [sha512Compress, Sha512.compress, List.foldl_cons, List.foldl_nil]
  rw [← last]

end Presence.Monocypher
