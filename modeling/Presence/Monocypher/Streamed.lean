import Presence.Monocypher.Sha512

namespace Presence.Monocypher

open Presence.Data Presence.Go
open Presence.Go.Sha512 (Words)

/-! # A message in pieces

What the context buffers is what the blocks worked off so far have left of the message,
so the pieces it came in make no difference.
-/

/-! ## The buffer -/

def sizeOf128 (size : UInt64 × UInt64) : Nat := size.1.toNat * 2 ^ 64 + size.2.toNat

theorem sizeOf128_incr (size : UInt64 × UInt64) (bits : UInt64) :
    sizeOf128 (sha512Incr size bits) = (sizeOf128 size + bits.toNat) % 2 ^ 128 := by
  have high := size.1.toNat_lt
  have low := size.2.toNat_lt
  have added := bits.toNat_lt
  simp only [sizeOf128, sha512Incr, UInt64.lt_iff_toNat_lt, UInt64.toNat_add]
  split
  · rw [UInt64.toNat_add, show (1 : UInt64).toNat = 1 from rfl]
    simp only [UInt64.toNat_add]
    omega
  · simp only [UInt64.toNat_add]
    omega

/-- A context that has worked off `blocks` blocks, into `state`, and holds `pending`. -/
structure Buffers (ctx : Sha512Ctx) (state : Words) (pending : List UInt8) (blocks : Nat) :
    Prop where
  hash : ctx.hash = state
  inputIdx : ctx.inputIdx = pending.length
  input : ctx.input = wordsOf pending
  inputSize : sizeOf128 ctx.inputSize = 1024 * blocks % 2 ^ 128

theorem wordsOf_get (bytes : List UInt8) {i : Nat} (inside : i < 16) :
    (wordsOf bytes)[i] = load64Be (bytes.drop (8 * i)) := by
  simp [wordsOf]

theorem load64Be_drop_congr {s t : List UInt8} {i : Nat}
    (same : ∀ place, 8 * i ≤ place → place < 8 * i + 8 → s.getD place 0 = t.getD place 0) :
    load64Be (s.drop (8 * i)) = load64Be (t.drop (8 * i)) := by
  refine load64Be_congr fun lane small => ?_
  rw [getD_drop, getD_drop]
  exact same _ (by omega) (by omega)

/-- A byte goes into a lane that is still zero. -/
theorem load64Be_or {s t : List UInt8} {byte : UInt8} {lane : Nat} (small : lane < 8)
    (same : ∀ other < 8, other ≠ lane → t.getD other 0 = s.getD other 0)
    (here : t.getD lane 0 = byte) (blank : s.getD lane 0 = 0) :
    load64Be t = load64Be s ||| (byte.toUInt64 <<< .ofNat (8 * (7 - lane))) := by
  have none (count : UInt64) : (0 : UInt8).toUInt64 <<< count = 0 := by
    rw [show (0 : UInt8).toUInt64 = 0 from rfl, UInt64.zero_shiftLeft]
  have others (other : Nat) (small : other < 8) (count : UInt64)
      (meant : count = .ofNat (8 * (7 - other))) : (t.getD other 0).toUInt64 <<< count =
        ((s.getD other 0).toUInt64 <<< count) |||
          (if other = lane then byte.toUInt64 <<< .ofNat (8 * (7 - lane)) else 0) := by
    split
    · rename_i found
      rw [found, here, blank, none, UInt64.zero_or, meant, found]
    · rename_i apart
      rw [same other small apart, UInt64.or_zero]
  have last : (t.getD 7 0).toUInt64 = (s.getD 7 0).toUInt64 |||
      (if 7 = lane then byte.toUInt64 <<< .ofNat (8 * (7 - lane)) else 0) := by
    simpa using others 7 (by decide) 0 rfl
  have gather (a b c d e f g h p : UInt64) (lane : Nat) (small : lane < 8) :
      (a ||| if 0 = lane then p else 0) ||| (b ||| if 1 = lane then p else 0) |||
        (c ||| if 2 = lane then p else 0) ||| (d ||| if 3 = lane then p else 0) |||
        (e ||| if 4 = lane then p else 0) ||| (f ||| if 5 = lane then p else 0) |||
        (g ||| if 6 = lane then p else 0) ||| (h ||| if 7 = lane then p else 0) =
      a ||| b ||| c ||| d ||| e ||| f ||| g ||| h ||| p := by
    interval_cases lane <;> simp <;> ac_rfl
  rw [load64Be, load64Be, others 0 (by decide) 56 rfl, others 1 (by decide) 48 rfl,
    others 2 (by decide) 40 rfl, others 3 (by decide) 32 rfl, others 4 (by decide) 24 rfl,
    others 5 (by decide) 16 rfl, others 6 (by decide) 8 rfl, last]
  exact gather _ _ _ _ _ _ _ _ _ lane small

theorem getD_append_left {s t : List UInt8} {place : Nat} (inside : place < s.length) :
    (s ++ t).getD place 0 = s.getD place 0 := by
  simp [List.getD_eq_getElem?_getD, List.getElem?_append_left inside]

theorem getD_beyond {s : List UInt8} {place : Nat} (beyond : s.length ≤ place) :
    s.getD place 0 = 0 := by
  simp [List.getD_eq_getElem?_getD, List.getElem?_eq_none beyond]

theorem getD_append_right {s t : List UInt8} {place : Nat} (beyond : s.length ≤ place) :
    (s ++ t).getD place 0 = t.getD (place - s.length) 0 := by
  simp [List.getD_eq_getElem?_getD, List.getElem?_append_right beyond]

theorem sha512SetInput_input {ctx : Sha512Ctx} {pending : List UInt8} (byte : UInt8)
    (input : ctx.input = wordsOf pending) (inputIdx : ctx.inputIdx = pending.length) :
    (sha512SetInput ctx byte).input = wordsOf (pending ++ [byte]) := by
  have word : ctx.inputIdx >>> 3 = pending.length / 8 := by
    rw [inputIdx, Nat.shiftRight_eq_div_pow]
  have lane : ctx.inputIdx &&& 7 = pending.length % 8 := by
    rw [inputIdx]
    exact Nat.and_two_pow_sub_one_eq_mod _ 3
  apply Vector.ext
  intro i inside
  simp only [sha512SetInput, word, lane]
  rw [Vector.getElem_setIfInBounds inside, wordsOf_get _ inside]
  split
  · rename_i here
    subst here
    have held : ctx.input.getD (pending.length / 8) 0 =
        load64Be (pending.drop (8 * (pending.length / 8))) := by
      rw [input, ← wordsOf_get _ inside]
      simp [Vector.getD, inside]
    rw [held]
    refine (load64Be_or (Nat.mod_lt _ (by decide)) (fun other small apart => ?_) ?_ ?_).symm
    · rw [getD_drop, getD_drop]
      by_cases before : 8 * (pending.length / 8) + other < pending.length
      · exact getD_append_left before
      · rw [getD_beyond (by rw [List.length_append, List.length_singleton]; omega),
          getD_beyond (by omega)]
    · have place : 8 * (pending.length / 8) + pending.length % 8 = pending.length :=
        Nat.div_add_mod _ _
      rw [getD_drop, place, getD_append_right (Nat.le_refl _), Nat.sub_self]
      rfl
    · rw [getD_drop]
      exact getD_beyond (by omega)
  · rename_i elsewhere
    simp only [input]
    rw [wordsOf_get _ inside]
    refine load64Be_drop_congr fun place low high => ?_
    by_cases before : place < pending.length
    · rw [getD_append_left before]
    · rw [getD_beyond (by omega),
        getD_beyond (by rw [List.length_append, List.length_singleton]; omega)]

theorem Buffers.setInputs {ctx : Sha512Ctx} {state : Words} {pending message : List UInt8}
    {blocks : Nat} (buffers : Buffers ctx state pending blocks)
    (room : pending.length + message.length ≤ 128) :
    Buffers (setInputs ctx message) state (pending ++ message) blocks := by
  induction message generalizing ctx pending with
  | nil => simpa [Monocypher.setInputs] using buffers
  | cons byte rest ih =>
      rw [List.length_cons] at room
      have set : Buffers { sha512SetInput ctx byte with inputIdx := ctx.inputIdx + 1 } state
          (pending ++ [byte]) blocks := {
        hash := buffers.hash
        inputIdx := by rw [buffers.inputIdx, List.length_append, List.length_singleton]
        input := sha512SetInput_input byte buffers.input buffers.inputIdx
        inputSize := buffers.inputSize }
      have later := ih set (by rw [List.length_append, List.length_singleton]; omega)
      rwa [List.append_assoc] at later

theorem load64BeBuf_get (input : Input) (offset : Nat) (src : List UInt8) (size : Nat) {i : Nat}
    (inside : i < 16) : (load64BeBuf input offset src size)[i] =
      if offset ≤ i ∧ i < offset + size then load64Be (src.drop ((i - offset) * 8))
      else input[i] := by
  induction size with
  | zero => simp [load64BeBuf]
  | succ size ih =>
      have last : load64BeBuf input offset src (size + 1) =
          (load64BeBuf input offset src size).setIfInBounds (offset + size)
            (load64Be (src.drop (size * 8))) := by
        simp [load64BeBuf, List.range_succ]
      rw [last, Vector.getElem_setIfInBounds inside]
      split
      · rename_i here
        rw [if_pos (by omega), ← here, Nat.add_sub_cancel_left]
      · rw [ih]
        split
        · rw [if_pos (by omega)]
        · rw [if_neg (by omega)]

theorem Buffers.setWords {ctx : Sha512Ctx} {state : Words} {pending message : List UInt8}
    {blocks nbWords : Nat} (buffers : Buffers ctx state pending blocks)
    (aligned : pending.length % 8 = 0) (enough : 8 * nbWords ≤ message.length) :
    Buffers (setWords ctx (pending.length / 8) message nbWords) state
      (pending ++ message.take (8 * nbWords)) blocks where
  hash := buffers.hash
  inputIdx := by
    show ctx.inputIdx + nbWords <<< 3 = _
    rw [buffers.inputIdx, List.length_append, List.length_take,
      Nat.min_eq_left enough, Nat.shiftLeft_eq]
    omega
  inputSize := buffers.inputSize
  input := by
    apply Vector.ext
    intro i inside
    simp only [Monocypher.setWords]
    rw [load64BeBuf_get _ _ _ _ inside, wordsOf_get _ inside, buffers.input, wordsOf_get _ inside]
    have length : (message.take (8 * nbWords)).length = 8 * nbWords := by
      rw [List.length_take, Nat.min_eq_left enough]
    split
    · refine load64Be_congr fun lane small => ?_
      rw [getD_drop, getD_drop, getD_append_right (by omega), List.getD_eq_getElem?_getD,
        List.getD_eq_getElem?_getD, List.getElem?_take_of_lt (by omega)]
      exact congrArg (fun place => message[place]?.getD 0) (by omega)
    · refine load64Be_drop_congr fun place low high => ?_
      by_cases before : place < pending.length
      · rw [getD_append_left before]
      · rw [getD_beyond (by omega), getD_beyond (by rw [List.length_append]; omega)]

theorem wordsOf_nil : wordsOf [] = zeros := by
  apply Vector.ext
  intro i inside
  simp [wordsOf, zeros, load64Be]

theorem compress_wordsOf (state : Words) (block : List UInt8) :
    Sha512.compress state (wordsOf block).toList = Sha512.reader.compress state block := by
  rw [toList_wordsOf]
  rfl

theorem Buffers.compressBlock {ctx : Sha512Ctx} {state : Words} {pending : List UInt8}
    {blocks : Nat} (buffers : Buffers ctx state pending blocks) :
    Buffers (compressBlock ctx) (Sha512.reader.compress state pending) [] (blocks + 1) where
  hash := by
    rw [Monocypher.compressBlock, sha512Compress_hash, buffers.hash, buffers.input,
      compress_wordsOf]
  inputIdx := rfl
  input := wordsOf_nil.symm
  inputSize := by
    simp only [Monocypher.compressBlock, sha512Compress]
    rw [sizeOf128_incr, buffers.inputSize, show (1024 : UInt64).toNat = 1024 by simp]
    omega

/-! ## The update -/

/-- Part of a message is in, the rest is still to come; `goal` is what they come to. -/
structure Underway (goal : Words × List UInt8) (total : Nat) (ctx : Sha512Ctx)
    (rest : List UInt8) (state : Words) (pending : List UInt8) (blocks : Nat) : Prop
    extends Buffers ctx state pending blocks where
  reaches : Sha512.reader.absorb state (pending ++ rest) = goal
  counted : 128 * blocks + pending.length + rest.length = total

variable {goal : Words × List UInt8} {total : Nat} {ctx : Sha512Ctx} {rest pending : List UInt8}
  {state : Words} {blocks : Nat}

theorem Underway.takes (underway : Underway goal total ctx rest state pending blocks)
    {next : Sha512Ctx} {count : Nat}
    (buffers : Buffers next state (pending ++ rest.take count) blocks) :
    Underway goal total next (rest.drop count) state (pending ++ rest.take count) blocks := by
  refine ⟨buffers, ?_, ?_⟩
  · rw [List.append_assoc, List.take_append_drop]
    exact underway.reaches
  · rw [List.length_append, List.length_take, List.length_drop]
    have counted := underway.counted
    omega

theorem Underway.compresses (underway : Underway goal total ctx rest state pending blocks)
    (whole : pending.length = 128) :
    Underway goal total (compressBlock ctx) rest (Sha512.reader.compress state pending) []
      (blocks + 1) := by
  refine ⟨underway.toBuffers.compressBlock, ?_, ?_⟩
  · rw [List.nil_append, ← BlockReader.absorb_block _ whole]
    exact underway.reaches
  · have counted := underway.counted
    rw [List.length_nil]
    omega

theorem align_eq (length : Nat) (bounded : length ≤ 128) :
    align (.ofNat length) 8 = (8 - length % 8) % 8 ∧
      align (.ofNat length) 128 = (128 - length % 128) % 128 := by
  have all : ∀ length : Fin 129, align (.ofNat length) 8 = (8 - length % 8) % 8 ∧
      align (.ofNat length) 128 = (128 - length % 128) % 128 := by decide +kernel
  exact all ⟨length, by omega⟩

theorem eight_words (count : Nat) : count <<< 3 = 8 * count := by
  rw [Nat.shiftLeft_eq]
  omega

theorem setWords_none (offset : Nat) (message : List UInt8) :
    setWords ctx offset message 0 = ctx := by
  simp [setWords, load64BeBuf]

theorem Underway.toWord (underway : Underway goal total ctx rest state pending blocks)
    (short : pending.length < 128) : ∃ pending,
      Underway goal total (toWord ctx rest).1 (toWord ctx rest).2 state pending blocks ∧
        pending.length ≤ 128 ∧ ((toWord ctx rest).2 = [] ∨ pending.length % 8 = 0) := by
  have lane : pending.length &&& 7 = pending.length % 8 := Nat.and_two_pow_sub_one_eq_mod _ 3
  have gap := (align_eq pending.length (by omega)).1
  simp only [Monocypher.toWord, underway.inputIdx, lane, gap]
  split
  · obtain ⟨count, counts⟩ : ∃ count, count = min ((8 - pending.length % 8) % 8) rest.length :=
      ⟨_, rfl⟩
    rw [← counts]
    have length : (rest.take count).length = count :=
      List.length_take_of_le (by omega)
    refine ⟨pending ++ rest.take count,
      underway.takes (underway.toBuffers.setInputs (by omega)), ?_, ?_⟩
    · rw [List.length_append]
      omega
    · by_cases all : rest.length ≤ count
      · exact Or.inl (List.drop_eq_nil_of_le all)
      · rw [List.length_append]
        exact Or.inr (by omega)
  · exact ⟨pending, underway, by omega, Or.inr (by omega)⟩

theorem Underway.toBlock (underway : Underway goal total ctx rest state pending blocks)
    (bounded : pending.length ≤ 128) (aligned : rest = [] ∨ pending.length % 8 = 0) : ∃ pending,
      Underway goal total (toBlock ctx rest).1 (toBlock ctx rest).2 state pending blocks ∧
        (pending.length = 0 ∨ pending.length = 128 ∨ (toBlock ctx rest).2.length < 8 ∧
          pending.length + (toBlock ctx rest).2.length < 128) := by
  have lane : pending.length &&& 127 = pending.length % 128 :=
    Nat.and_two_pow_sub_one_eq_mod _ 7
  have gap := (align_eq pending.length bounded).2
  simp only [Monocypher.toBlock, underway.inputIdx, lane, gap, eight_words,
    Nat.shiftRight_eq_div_pow]
  split
  · obtain none | aligned := aligned
    · subst none
      refine ⟨pending, ?_, Or.inr (Or.inr ⟨by simp, by simp; omega⟩)⟩
      simpa [setWords_none] using underway
    · obtain ⟨count, counts⟩ :
          ∃ count, count = min ((128 - pending.length % 128) % 128) rest.length / 2 ^ 3 := ⟨_, rfl⟩
      rw [← counts]
      have enough : 8 * count ≤ rest.length := by omega
      have length : (rest.take (8 * count)).length = 8 * count := List.length_take_of_le enough
      refine ⟨pending ++ rest.take (8 * count), underway.takes
        (underway.toBuffers.setWords aligned enough), ?_⟩
      rw [List.length_append, List.length_drop]
      omega
  · exact ⟨pending, underway, by omega⟩

theorem Underway.ifFull (underway : Underway goal total ctx rest state pending blocks)
    (filled : pending.length = 0 ∨ pending.length = 128 ∨
      rest.length < 8 ∧ pending.length + rest.length < 128) : ∃ state pending blocks,
      Underway goal total (ifFull ctx) rest state pending blocks ∧
        (pending = [] ∨ rest.length < 8 ∧ pending.length + rest.length < 128) := by
  rw [Monocypher.ifFull, underway.inputIdx]
  split
  · rename_i whole
    exact ⟨_, _, _, underway.compresses whole, Or.inl rfl⟩
  · rename_i short
    refine ⟨state, pending, blocks, underway, ?_⟩
    obtain none | whole | few := filled
    · exact Or.inl (List.eq_nil_of_length_eq_zero none)
    · exact absurd whole short
    · exact Or.inr few

theorem Underway.nextBlock (underway : Underway goal total ctx rest state [] blocks)
    (enough : 128 ≤ rest.length) :
    Underway goal total (nextBlock (ctx, rest)).1 (nextBlock (ctx, rest)).2
      (Sha512.reader.compress state (rest.take 128)) [] (blocks + 1) := by
  have words : Buffers (setWords ctx 0 rest 16) state (rest.take 128) blocks :=
    underway.toBuffers.setWords rfl enough
  have whole : (rest.take 128).length = 128 := List.length_take_of_le enough
  exact (underway.takes words).compresses whole

theorem Underway.wholeBlocks (underway : Underway goal total ctx rest state [] blocks) {count : Nat}
    (enough : 128 * count ≤ rest.length) : ∃ next left state,
      (List.range count).foldl (fun now _ => Monocypher.nextBlock now) (ctx, rest) =
        (next, left) ∧ left.length + 128 * count = rest.length ∧
          Underway goal total next left state [] (blocks + count) := by
  induction count with
  | zero => exact ⟨ctx, rest, state, rfl, rfl, underway⟩
  | succ count ih =>
      obtain ⟨next, left, state, done, length, underway⟩ := ih (by omega)
      refine ⟨(Monocypher.nextBlock (next, left)).1, (Monocypher.nextBlock (next, left)).2, _,
        ?_, ?_, underway.nextBlock (by omega)⟩
      · rw [List.range_succ, List.foldl_append, done]
        rfl
      · simp only [Monocypher.nextBlock, List.length_drop]
        omega

theorem Underway.byBlock (underway : Underway goal total ctx rest state pending blocks)
    (filled : pending = [] ∨ rest.length < 8 ∧ pending.length + rest.length < 128) :
    ∃ state pending blocks,
      Underway goal total (byBlock ctx rest).1 (byBlock ctx rest).2 state pending blocks ∧
        (byBlock ctx rest).2.length < 128 ∧ (pending = [] ∨ (byBlock ctx rest).2.length < 8 ∧
          pending.length + (byBlock ctx rest).2.length < 128) := by
  rw [Monocypher.byBlock, Nat.shiftRight_eq_div_pow]
  obtain none | few := filled
  · subst none
    obtain ⟨next, left, state, done, length, underway⟩ :=
      underway.wholeBlocks (Nat.mul_div_le rest.length 128)
    rw [done]
    refine ⟨_, _, _, underway, ?_, Or.inl rfl⟩
    simp only
    omega
  · rw [Nat.div_eq_of_lt (by omega)]
    exact ⟨state, pending, blocks, underway, by simp; omega, Or.inr few⟩

theorem Underway.ends (underway : Underway goal total ctx rest state pending blocks)
    {next : Sha512Ctx} (buffers : Buffers next state (pending ++ rest) blocks) :
    Underway goal total next [] state (pending ++ rest) blocks := by
  refine ⟨buffers, ?_, ?_⟩
  · rw [List.append_nil]
    exact underway.reaches
  · rw [List.length_append, List.length_nil]
    have counted := underway.counted
    omega

theorem Underway.remaining (underway : Underway goal total ctx rest state pending blocks)
    (short : pending.length < 128) (few : rest.length < 128)
    (filled : pending = [] ∨ rest.length < 8 ∧ pending.length + rest.length < 128) : ∃ pending,
      Underway goal total (remaining ctx rest) [] state pending blocks ∧ pending.length < 128 := by
  rw [Monocypher.remaining]
  simp only [eight_words, Nat.shiftRight_eq_div_pow]
  split
  · obtain none | ⟨less, room⟩ := filled
    · subst none
      have enough : 8 * (rest.length / 2 ^ 3) ≤ rest.length := by omega
      have words := underway.toBuffers.setWords rfl enough
      have bytes := @Buffers.setInputs _ _ _ (rest.drop (8 * (rest.length / 2 ^ 3))) _ words
        (by rw [List.length_append, List.length_take, List.length_drop, List.length_nil]; omega)
      rw [List.append_assoc, List.take_append_drop] at bytes
      exact ⟨_, underway.ends bytes, few⟩
    · rw [Nat.div_eq_of_lt less, setWords_none, Nat.mul_zero, List.drop_zero]
      refine ⟨_, underway.ends (underway.toBuffers.setInputs (by omega)), ?_⟩
      rwa [List.length_append]
  · rename_i none
    have empty : rest = [] := List.eq_nil_of_length_eq_zero (not_not.mp none)
    subst empty
    exact ⟨pending, underway, short⟩

/-- What is buffered after an update is what is left of the message behind its blocks. -/
theorem Buffers.update (buffers : Buffers ctx state pending blocks) (short : pending.length < 128)
    (message : List UInt8) :
    Buffers (cryptoSha512Update ctx message)
      (Sha512.reader.absorb state (pending ++ message)).1
      (Sha512.reader.absorb state (pending ++ message)).2
      ((128 * blocks + pending.length + message.length) / 128) := by
  by_cases none : message.length = 0
  · have empty := List.eq_nil_of_length_eq_zero none
    subst empty
    have same : (128 * blocks + pending.length + ([] : List UInt8).length) / 128 = blocks := by
      rw [List.length_nil]
      omega
    rw [cryptoSha512Update, if_pos List.length_nil, List.append_nil,
      BlockReader.absorb_short _ short, same]
    exact buffers
  · have begun : Underway (Sha512.reader.absorb state (pending ++ message))
        (128 * blocks + pending.length + message.length) ctx message state pending blocks :=
      ⟨buffers, rfl, rfl⟩
    obtain ⟨_, words, bounded, aligned⟩ := begun.toWord short
    obtain ⟨_, block, filled⟩ := words.toBlock bounded aligned
    obtain ⟨_, _, _, full, filled⟩ := block.ifFull filled
    obtain ⟨_, _, count, whole, few, filled⟩ := full.byBlock filled
    obtain ⟨left, done, less⟩ := whole.remaining (by
      obtain none | ⟨-, room⟩ := filled
      · rw [none]
        decide
      · omega) few filled
    rw [cryptoSha512Update, if_neg none]
    have reaches := done.reaches
    have counted := done.counted
    rw [List.append_nil, BlockReader.absorb_short _ less] at reaches
    rw [List.length_nil] at counted
    rw [← reaches]
    have same : count = (128 * blocks + pending.length + message.length) / 128 := by omega
    exact same ▸ done.toBuffers

/-! ## The digest -/

/-- A context that has taken in a message. -/
def Sha512Ctx.Holds (ctx : Sha512Ctx) (message : List UInt8) : Prop :=
  Buffers ctx (Sha512.reader.absorb Sha512.initial message).1
    (Sha512.reader.absorb Sha512.initial message).2 (message.length / 128)

theorem cryptoSha512Init_holds : cryptoSha512Init.Holds [] := by
  have none : Sha512.reader.absorb Sha512.initial [] = (Sha512.initial, []) :=
    BlockReader.absorb_short _ (by decide)
  rw [Sha512Ctx.Holds, none]
  exact {
    hash := rfl
    inputIdx := rfl
    input := wordsOf_nil.symm
    inputSize := rfl }

theorem Sha512Ctx.Holds.update {message : List UInt8} (holds : ctx.Holds message)
    (more : List UInt8) : (cryptoSha512Update ctx more).Holds (message ++ more) := by
  have left := Sha512.reader.length_absorb Sha512.initial message
  have size : Sha512.reader.size = 128 := rfl
  rw [size] at left
  have taken := Buffers.update holds (by omega) more
  rw [← BlockReader.absorb_append, left, Nat.div_add_mod, ← List.length_append] at taken
  exact taken

theorem Sha512Ctx.Holds.foldl {message : List UInt8} (holds : ctx.Holds message)
    (pieces : List (List UInt8)) :
    (pieces.foldl cryptoSha512Update ctx).Holds (message ++ pieces.flatten) := by
  induction pieces generalizing ctx message with
  | nil => rwa [List.flatten_nil, List.append_nil]
  | cons piece rest ih =>
      have later := ih (holds.update piece)
      rwa [List.append_assoc] at later

theorem wordsOf_append_zeros (bytes : List UInt8) (count : Nat) :
    wordsOf (bytes ++ List.replicate count 0) = wordsOf bytes := by
  apply Vector.ext
  intro i inside
  rw [wordsOf_get _ inside, wordsOf_get _ inside]
  refine load64Be_drop_congr fun place low high => ?_
  by_cases before : place < bytes.length
  · exact getD_append_left before
  · rw [getD_append_right (Nat.le_of_not_lt before), getD_beyond (Nat.le_of_not_lt before),
      List.getD_eq_getElem?_getD, List.getElem?_replicate]
    split <;> rfl

/-- The length goes behind what is padded to 112 bytes. -/
theorem set_length {input : Input} {front : List UInt8} (whole : front.length = 112)
    (value : Nat) (same : ∀ i, (inside : i < 14) → input[i] = (wordsOf front)[i]) :
    (input.set 14 (.ofNat (value / 2 ^ 64))).set 15 (.ofNat value) =
      wordsOf (front ++ Sha256.bigEndian 16 value) := by
  apply Vector.ext
  intro i inside
  rw [wordsOf_get _ inside]
  by_cases last : i = 15
  · subst last
    have behind : (front ++ Sha256.bigEndian 16 value).drop (8 * 15) =
        Sha256.bigEndian 8 value ++ [] := by
      rw [bigEndian_halves, ← List.append_assoc, List.append_nil, List.drop_left' (by
        rw [List.length_append, whole, length_bigEndian])]
    rw [behind, load64Be_bigEndian, Vector.getElem_set_self]
  · rw [Vector.getElem_set_ne _ _ (Ne.symm last)]
    by_cases next : i = 14
    · subst next
      rw [bigEndian_halves, List.drop_left' (by rw [whole]), load64Be_bigEndian,
        Vector.getElem_set_self]
    · have early : i < 14 := by omega
      rw [Vector.getElem_set_ne _ _ (Ne.symm next), same i early, wordsOf_get _ inside]
      refine load64Be_drop_congr fun place low high => ?_
      rw [getD_append_left (by omega)]

theorem size_words {size : UInt64 × UInt64} {value : Nat}
    (counted : sizeOf128 size = value % 2 ^ 128) :
    size.1 = .ofNat (value / 2 ^ 64) ∧ size.2 = .ofNat value := by
  have high := size.1.toNat_lt
  have low := size.2.toNat_lt
  simp only [sizeOf128] at counted
  constructor
  · apply UInt64.toNat_inj.mp
    rw [UInt64.toNat_ofNat']
    omega
  · apply UInt64.toNat_inj.mp
    rw [UInt64.toNat_ofNat']
    omega

theorem cleared_get (input : Input) {i : Nat} (early : i < 14) :
    ((List.range 14).foldl (fun input i => input.setIfInBounds i 0) input)[i] = 0 := by
  have upTo (count : Nat) : ∀ i, (inside : i < 16) → i < count →
      ((List.range count).foldl (fun (input : Input) i => input.setIfInBounds i 0) input)[i] =
        0 := by
    induction count with
    | zero => exact fun i inside before => absurd before (Nat.not_lt_zero i)
    | succ count ih =>
        intro i inside before
        rw [List.range_succ, List.foldl_append, List.foldl_cons, List.foldl_nil,
          Vector.getElem_setIfInBounds inside]
        split
        · rfl
        · exact ih i inside (by omega)
  exact upTo 14 i (by omega) early

theorem last_block {front : List UInt8} (whole : front.length = 112) {value : Nat}
    (high : ctx.inputSize.1 = .ofNat (value / 2 ^ 64)) (low : ctx.inputSize.2 = .ofNat value)
    (same : ∀ i, (inside : i < 14) → ctx.input[i] = (wordsOf front)[i]) :
    (sha512Compress { ctx with
        input := (ctx.input.set 14 ctx.inputSize.1).set 15 ctx.inputSize.2 }).hash =
      Sha512.reader.compress ctx.hash (front ++ Sha256.bigEndian 16 value) := by
  rw [sha512Compress_hash, high, low]
  simp only
  rw [set_length whole value same, compress_wordsOf]

theorem digest_eq (words : Words) : [words.a, words.b, words.c, words.d, words.e, words.f, words.g,
    words.h].flatMap store64Be = Sha512.digest words := by
  rw [Sha512.digest]
  exact congrArg (List.flatMap · _) (funext store64Be_eq)

/-- What is buffered, the padding and the length are the last one or two blocks. -/
theorem Buffers.final (buffers : Buffers ctx state pending blocks) (short : pending.length < 128)
    {value : Nat} (counted : value = 8 * (128 * blocks + pending.length)) :
    cryptoSha512Final ctx = Sha512.digest (Sha512.reader.absorb state (pending ++ ([0x80] ++
      List.replicate ((239 - pending.length) % 128) 0 ++ Sha256.bigEndian 16 value))).1 := by
  have opened : (if ctx.inputIdx = 0 then { ctx with input := zeros } else ctx) = ctx := by
    split
    · rename_i none
      rw [buffers.inputIdx] at none
      have empty := List.eq_nil_of_length_eq_zero none
      have input := buffers.input
      rw [empty, wordsOf_nil] at input
      rw [← input]
    · rfl
  let sized := { sha512SetInput ctx 128 with
    inputSize := sha512Incr ctx.inputSize (.ofNat (ctx.inputIdx * 8)) }
  have marked : sized.input = wordsOf (pending ++ [0x80]) :=
    sha512SetInput_input 128 buffers.input buffers.inputIdx
  have size : sizeOf128 sized.inputSize = value % 2 ^ 128 := by
    rw [show sized.inputSize = sha512Incr ctx.inputSize (.ofNat (ctx.inputIdx * 8)) from rfl,
      sizeOf128_incr, buffers.inputSize, buffers.inputIdx, UInt64.toNat_ofNat', counted]
    omega
  obtain ⟨high, low⟩ := size_words size
  have hash : sized.hash = state := buffers.hash
  have index : sized.inputIdx = pending.length := buffers.inputIdx
  have unfolded : cryptoSha512Final ctx = Sha512.digest (sha512Compress { penultimate sized with
      input := ((penultimate sized).input.set 14 (penultimate sized).inputSize.1).set 15
        (penultimate sized).inputSize.2 }).hash := by
    rw [← digest_eq, cryptoSha512Final, opened]
    rfl
  rw [unfolded]
  refine congrArg Sha512.digest ?_
  by_cases large : pending.length > 111
  · let front := pending ++ [0x80] ++ List.replicate (127 - pending.length) 0
    have whole : front.length = 128 := by
      simp only [front, List.length_append, List.length_singleton, List.length_replicate]
      omega
    have apart : pending ++ ([0x80] ++ List.replicate ((239 - pending.length) % 128) 0 ++
        Sha256.bigEndian 16 value) =
          front ++ (List.replicate 112 0 ++ Sha256.bigEndian 16 value) := by
      have count : (239 - pending.length) % 128 = 127 - pending.length + 112 := by omega
      simp only [front, count, ← List.replicate_append_replicate, List.append_assoc]
    have next : penultimate sized = { sha512Compress sized with
        input := (List.range 14).foldl (fun input i => input.setIfInBounds i 0)
          (sha512Compress sized).input } := by
      rw [penultimate, if_pos (by rwa [index])]
    have first : (sha512Compress sized).hash = Sha512.reader.compress state front := by
      rw [sha512Compress_hash, hash, marked, ← wordsOf_append_zeros _ (127 - pending.length),
        compress_wordsOf]
    have blank (i : Nat) (inside : i < 14) : (wordsOf (List.replicate 112 0))[i] = 0 := by
      have none := wordsOf_append_zeros [] 112
      rw [List.nil_append, wordsOf_nil] at none
      simp only [none, zeros, Vector.getElem_replicate]
    have length : (List.replicate 112 (0 : UInt8) ++ Sha256.bigEndian 16 value).length =
        Sha512.reader.size := by
      rw [List.length_append, List.length_replicate, length_bigEndian]
      rfl
    rw [apart, BlockReader.absorb_block _ whole, BlockReader.absorb_one _ length, ← first, next]
    refine last_block List.length_replicate high low fun i inside => ?_
    rw [blank i inside]
    exact cleared_get _ inside
  · let front := pending ++ [0x80] ++ List.replicate (111 - pending.length) 0
    have whole : front.length = 112 := by
      simp only [front, List.length_append, List.length_singleton, List.length_replicate]
      omega
    have apart : pending ++ ([0x80] ++ List.replicate ((239 - pending.length) % 128) 0 ++
        Sha256.bigEndian 16 value) = front ++ Sha256.bigEndian 16 value := by
      have count : (239 - pending.length) % 128 = 111 - pending.length := by omega
      simp only [front, count, List.append_assoc]
    have next : penultimate sized = sized := by
      rw [penultimate, if_neg (by rwa [index])]
    have length : (front ++ Sha256.bigEndian 16 value).length = Sha512.reader.size := by
      rw [List.length_append, whole, length_bigEndian]
      rfl
    rw [apart, BlockReader.absorb_one _ length, next, ← hash]
    refine last_block whole high low fun i inside => ?_
    have same : wordsOf front = wordsOf (pending ++ [0x80]) := wordsOf_append_zeros _ _
    rw [marked, same]

theorem Sha512Ctx.Holds.final {message : List UInt8} (holds : ctx.Holds message) :
    cryptoSha512Final ctx = Sha512.sum512 message := by
  have left := Sha512.reader.length_absorb Sha512.initial message
  have size : Sha512.reader.size = 128 := rfl
  rw [size] at left
  have counted : 8 * message.length = 8 * (128 * (message.length / 128) +
      (Sha512.reader.absorb Sha512.initial message).2.length) := by
    rw [left, Nat.div_add_mod]
  have padding : (239 - message.length % 128) % 128 =
      (239 - (Sha512.reader.absorb Sha512.initial message).2.length) % 128 := by rw [left]
  have padded : Sha512.pad message = message ++ ([0x80] ++
      List.replicate ((239 - message.length % 128) % 128) 0 ++
        Sha256.bigEndian 16 (8 * message.length)) := by
    simp only [Sha512.pad, List.append_assoc]
  rw [Buffers.final holds (by omega) counted, Sha512.sum512_eq, padded, padding,
    BlockReader.absorb_append _ Sha512.initial message]

/-- However a message is cut into pieces, what is streamed is the SHA-512 of the whole. -/
theorem streamed_digest (pieces : List (List UInt8)) :
    cryptoSha512Final (pieces.foldl cryptoSha512Update cryptoSha512Init) =
      Sha512.sum512 pieces.flatten := by
  have holds := cryptoSha512Init_holds.foldl pieces
  rw [List.nil_append] at holds
  exact holds.final

end Presence.Monocypher
