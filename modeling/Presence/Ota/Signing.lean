import Presence.Data.Fields
import Presence.Firmware.EventsJson
import Presence.Ota.Version

namespace Presence.Ota

open Presence.Data Presence.Firmware

/-! # Signed images

What the release key signs is a preamble with the version and the size, followed by
the image.  `fwsign.signedMessage` builds it on the signer, `ImageVerifier` feeds
it piece by piece into SHA-512 on the terminal.
-/

abbrev PublicKey := Vector UInt8 32

abbrev Signature := Vector UInt8 64

/-! ## The signer -/

def preambleTag : List UInt8 := ascii "presence-ota-image/v1\n"

/-- `fmt.Sprintf("%sversion=%s\nsize=%d\n", …)`; no size is negative. -/
def preamble (version : List UInt8) (size : Nat) : List UInt8 :=
  preambleTag ++ ascii "version=" ++ version ++ ascii "\nsize=" ++ asciiNumerals.text size ++
    ascii "\n"

def signedMessage (version image : List UInt8) : List UInt8 :=
  preamble version image.length ++ image

/-! ## Keys -/

def isSentinelKey (publicKey : PublicKey) : Bool :=
  publicKey.toList.foldl (fun acc byte => acc ||| byte) 0 == 0

def kSmallOrderY : List (List UInt8) :=
  [List.replicate 32 0,
   0x01 :: List.replicate 31 0,
   [0x26, 0xe8, 0x95, 0x8f, 0xc2, 0xb2, 0x27, 0xb0, 0x45, 0xc3, 0xf4, 0x89, 0xf2, 0xef, 0x98, 0xf0,
    0xd5, 0xdf, 0xac, 0x05, 0xd3, 0xc6, 0x33, 0x39, 0xb1, 0x38, 0x02, 0x88, 0x6d, 0x53, 0xfc, 0x05],
   [0xc7, 0x17, 0x6a, 0x70, 0x3d, 0x4d, 0xd8, 0x4f, 0xba, 0x3c, 0x0b, 0x76, 0x0d, 0x10, 0x67, 0x0f,
    0x2a, 0x20, 0x53, 0xfa, 0x2c, 0x39, 0xcc, 0xc6, 0x4e, 0xc7, 0xfd, 0x77, 0x92, 0xac, 0x03, 0x7a],
   0xec :: (List.replicate 30 0xff ++ [0x7f]),
   0xed :: (List.replicate 30 0xff ++ [0x7f]),
   0xee :: (List.replicate 30 0xff ++ [0x7f])]

/-- The last byte is compared without the sign bit of x. -/
def isSmallOrderKey (publicKey : PublicKey) : Bool :=
  let y := (publicKey.set 31 (publicKey[31] &&& 0x7f)).toList
  kSmallOrderY.any (· == y)

def isUnusableKey (publicKey : PublicKey) : Bool :=
  isSentinelKey publicKey || isSmallOrderKey publicKey

/-! ## The stream

Monocypher's SHA-512 takes its input in pieces of any length, so its context is the
bytes it has taken so far.  The curve equation is a parameter: it sees the
signature, the key and the hashed bytes.
-/

structure Ed25519 where
  equation : Signature → PublicKey → List UInt8 → Bool

/-- `crypto_ed25519_check`: R, A and the message are hashed in one go. -/
def Ed25519.check (ed : Ed25519) (signature : Signature) (publicKey : PublicKey)
    (message : List UInt8) : Bool :=
  ed.equation signature publicKey (signature.toList.take 32 ++ publicKey.toList ++ message)

structure Ed25519Stream where
  key : PublicKey
  sig : Signature
  hashed : List UInt8
  finished : Bool

namespace Ed25519Stream

def init (publicKey : PublicKey) (signature : Signature) : Ed25519Stream :=
  ⟨publicKey, signature, signature.toList.take 32 ++ publicKey.toList, false⟩

def update (stream : Ed25519Stream) (data : List UInt8) : Ed25519Stream :=
  if stream.finished || data.length == 0 then stream
  else { stream with hashed := stream.hashed ++ data }

def finish (ed : Ed25519) (stream : Ed25519Stream) : Bool × Ed25519Stream :=
  if stream.finished then (false, stream)
  else
    let verdict :=
      if isUnusableKey stream.key then false else ed.equation stream.sig stream.key stream.hashed
    (verdict, { stream with finished := true })

end Ed25519Stream

/-! ## The verifier -/

def kOtaPreambleTag : List UInt8 := ascii "presence-ota-image/v1\n"

def otaSignedPreamble (version : List UInt8) (size : UInt64) : List UInt8 :=
  kOtaPreambleTag ++ ascii "version=" ++ version ++ ascii "\nsize=" ++ jsonInt (toInt64 size) ++
    ascii "\n"

inductive OtaVerdict where
  | ok | noKey | emptyImage | sizeMismatch | badVersion | badSignature
deriving DecidableEq, Repr

def otaVerdictName : OtaVerdict → String
  | .ok => "ok"
  | .noKey => "no usable release key compiled in"
  | .emptyImage => "empty image"
  | .sizeMismatch => "image size does not match manifest"
  | .badVersion => "version is not MAJOR.MINOR.PATCH"
  | .badSignature => "bad signature"

structure ImageVerifier where
  stream : Ed25519Stream
  expected : Nat
  noKey : Bool
  versionOk : Bool
  seen : Nat
  finished : Bool

namespace ImageVerifier

def init (publicKey : PublicKey) (signature : Signature) (version : List UInt8)
    (expectedSize : Nat) : ImageVerifier :=
  let stream := Ed25519Stream.init publicKey signature
  let versionOk := (parseOtaVersion version).isSome
  { stream :=
      if versionOk then stream.update (otaSignedPreamble version (.ofNat expectedSize)) else stream
    expected := expectedSize
    noKey := isUnusableKey publicKey
    versionOk
    seen := 0
    finished := false }

/-- A `size_t` has 32 bits on the terminal and 64 on the host. -/
def update (sizeBits : Nat) (verifier : ImageVerifier) (data : List UInt8) : ImageVerifier :=
  if verifier.finished || data.length == 0 then verifier
  else
    { verifier with
      seen := (verifier.seen + data.length) % 2 ^ sizeBits
      stream := verifier.stream.update data }

def finish (ed : Ed25519) (verifier : ImageVerifier) : OtaVerdict × ImageVerifier :=
  if verifier.finished then (.badSignature, verifier)
  else
    let verifier := { verifier with finished := true }
    if verifier.noKey then (.noKey, verifier)
    else if !verifier.versionOk then (.badVersion, verifier)
    else if verifier.expected = 0 ∨ verifier.seen = 0 then (.emptyImage, verifier)
    else if verifier.seen ≠ verifier.expected then (.sizeMismatch, verifier)
    else
      let (accepted, stream) := verifier.stream.finish ed
      (if accepted then .ok else .badSignature, { verifier with stream })

def feed (sizeBits : Nat) (verifier : ImageVerifier) (chunks : List (List UInt8)) :
    ImageVerifier :=
  chunks.foldl (update sizeBits) verifier

end ImageVerifier

/-! ## The signed message -/

/-- Both sides build the same preamble. -/
theorem otaSignedPreamble_eq (version : List UInt8) {size : Nat} (bounded : size < 2 ^ 63) :
    otaSignedPreamble version (.ofNat size) = preamble version size := by
  have value : (UInt64.ofNat size).toNat = size := by
    rw [UInt64.toNat_ofNat']
    omega
  have decimal : jsonInt (toInt64 (.ofNat size)) = asciiNumerals.text size := by
    rw [toInt64_of_lt (by rw [value]; exact bounded), value]
    exact jsonInt_natCast (by omega)
  rw [otaSignedPreamble, decimal]
  rfl

/-- A version and an image can be read back from the message that was signed. -/
theorem signedMessage_injective {version other image otherImage : List UInt8} {code otherCode : UInt64}
    (accepted : parse version = some code) (otherAccepted : parse other = some otherCode)
    (same : signedMessage version image = signedMessage other otherImage) :
    version = other ∧ image = otherImage := by
  have sizeLine : ascii "\nsize=" = '\n'.toUInt8 :: ascii "size=" := rfl
  have lineEnd : ascii "\n" = ['\n'.toUInt8] := rfl
  simp only [signedMessage, preamble, sizeLine, lineEnd, List.append_assoc, List.cons_append,
    List.nil_append, List.append_cancel_left_eq] at same
  have newline : asciiNumerals.value '\n'.toUInt8 = none := by decide
  have noNewline := not_mem_version newline (by decide) accepted
  have otherNoNewline := not_mem_version newline (by decide) otherAccepted
  obtain ⟨versions, sizes⟩ := field_injective noNewline otherNoNewline same
  rw [List.append_cancel_left_eq] at sizes
  exact ⟨versions, (field_injective (asciiNumerals.not_mem_text newline _) (asciiNumerals.not_mem_text newline _) sizes).2⟩

/-! ## What the verifier accepts -/

namespace ImageVerifier

variable {sizeBits : Nat} {verifier : ImageVerifier}

/-- However an image is cut into chunks, the verifier counts and hashes all of it. -/
theorem feed_eq (running : verifier.finished = false) (streaming : verifier.stream.finished = false)
    (counted : verifier.seen < 2 ^ sizeBits) (chunks : List (List UInt8)) :
    verifier.feed sizeBits chunks =
      { verifier with
        seen := (verifier.seen + chunks.flatten.length) % 2 ^ sizeBits
        stream := { verifier.stream with hashed := verifier.stream.hashed ++ chunks.flatten } } := by
  induction chunks generalizing verifier with
  | nil => simp [feed, Nat.mod_eq_of_lt counted]
  | cons chunk rest ih =>
      change (verifier.update sizeBits chunk).feed sizeBits rest = _
      by_cases empty : chunk.length = 0
      · have unchanged : verifier.update sizeBits chunk = verifier := by
          simp [update, empty]
        rw [unchanged, ih running streaming counted, List.eq_nil_of_length_eq_zero empty]
        simp
      · have taken : verifier.update sizeBits chunk =
            { verifier with
              seen := (verifier.seen + chunk.length) % 2 ^ sizeBits
              stream := { verifier.stream with hashed := verifier.stream.hashed ++ chunk } } := by
          simp [update, Ed25519Stream.update, running, streaming, empty]
        rw [taken]
        refine (ih ?_ ?_ ?_).trans ?_
        · exact running
        · exact streaming
        · exact Nat.mod_lt _ (Nat.two_pow_pos _)
        · simp [Nat.add_assoc]

variable {ed : Ed25519} {publicKey : PublicKey} {signature : Signature} {version : List UInt8}
  {expected : Nat}

theorem init_stream : (init publicKey signature version expected).stream =
    ⟨publicKey, signature, signature.toList.take 32 ++ publicKey.toList ++
      (if (parseOtaVersion version).isSome then otaSignedPreamble version (.ofNat expected)
        else []), false⟩ := by
  have some : otaSignedPreamble version (.ofNat expected) ≠ [] := by
    simp [otaSignedPreamble, kOtaPreambleTag, ascii]
  simp only [init]
  split
  next => simp [Ed25519Stream.update, Ed25519Stream.init, some]
  next => simp [Ed25519Stream.init]

/-- Five refusals come before the equation, and nothing of the verdict depends on
where one chunk ends and the next begins. -/
theorem finish_feed_ok_iff (chunks : List (List UInt8)) :
    (((init publicKey signature version expected).feed sizeBits chunks).finish ed).1 = .ok ↔
      isUnusableKey publicKey = false ∧ (parseOtaVersion version).isSome = true ∧
        expected ≠ 0 ∧ chunks.flatten.length % 2 ^ sizeBits = expected ∧
        ed.check signature publicKey
          (otaSignedPreamble version (.ofNat expected) ++ chunks.flatten) = true := by
  rw [feed_eq rfl (by rw [init_stream]) (Nat.two_pow_pos _), init_stream]
  generalize chunks.flatten = image
  have counted : ((init publicKey signature version expected).seen + image.length) % 2 ^ sizeBits =
      image.length % 2 ^ sizeBits := by
    simp [init]
  rw [counted]
  generalize image.length % 2 ^ sizeBits = seen
  cases unusable : isUnusableKey publicKey with
  | true => simp [finish, init, unusable]
  | false =>
      cases versioned : (parseOtaVersion version).isSome with
      | false => simp [finish, init, unusable, versioned]
      | true =>
          by_cases sized : expected ≠ 0 ∧ seen = expected
          · obtain ⟨positive, rfl⟩ := sized
            simp [finish, init, unusable, versioned, Ed25519Stream.finish, Ed25519.check, positive]
          · by_cases empty : expected = 0 ∨ seen = 0
            · simp only [finish, init, unusable, versioned, empty]
              simpa using fun positive same => absurd ⟨positive, same⟩ sized
            · have different : seen ≠ expected := by
                intro same
                exact sized ⟨fun zero => empty (.inl zero), same⟩
              simp [finish, init, unusable, versioned, empty, different]

theorem finish_finished (ed : Ed25519) (verifier : ImageVerifier) :
    (verifier.finish ed).2.finished = true := by
  unfold finish
  dsimp only
  split
  next already => exact already
  next => repeat' split <;> try rfl

theorem update_of_finished (done : verifier.finished = true) (data : List UInt8) :
    verifier.update sizeBits data = verifier := by
  simp [update, done]

theorem finish_of_finished (done : verifier.finished = true) :
    verifier.finish ed = (.badSignature, verifier) := by
  simp [finish, done]

/-- The terminal accepts an image exactly when the release key signed it under this
version, and says so once.  An image that exists in memory or flash has a length
that is a `size_t`. -/
theorem accepts_exactly_what_was_signed (sizeBits : Nat) (ed : Ed25519) (publicKey : PublicKey)
    (signature : Signature) (version : List UInt8) (expected : Nat) (chunks : List (List UInt8))
    (sized : expected < 2 ^ 63) (held : chunks.flatten.length < 2 ^ sizeBits) :
    let fed := (init publicKey signature version expected).feed sizeBits chunks
    let finished := (fed.finish ed).2
    ((fed.finish ed).1 = .ok ↔
      isUnusableKey publicKey = false ∧ (parse version).isSome = true ∧
        chunks.flatten.length = expected ∧ 0 < expected ∧
        ed.check signature publicKey (signedMessage version chunks.flatten) = true) ∧
    (∀ data, finished.update sizeBits data = finished) ∧
    finished.finish ed = (.badSignature, finished) ∧
    (∀ version image : List UInt8, image.length < 2 ^ 63 →
      otaSignedPreamble version (.ofNat image.length) ++ image = signedMessage version image) ∧
    (∀ version other image otherImage : List UInt8, (parse version).isSome = true →
      (parse other).isSome = true → signedMessage version image = signedMessage other otherImage →
      version = other ∧ image = otherImage) := by
  intro fed finished
  have done : finished.finished = true := finish_finished ed fed
  refine ⟨?_, update_of_finished done, finish_of_finished done, ?_, ?_⟩
  · rw [finish_feed_ok_iff, parseOtaVersion_eq, Nat.mod_eq_of_lt held,
      otaSignedPreamble_eq version sized]
    constructor
    · intro accepted
      obtain ⟨usable, versioned, positive, length, checked⟩ := accepted
      refine ⟨usable, versioned, length, Nat.pos_of_ne_zero positive, ?_⟩
      rw [signedMessage, length]
      exact checked
    · intro signed
      obtain ⟨usable, versioned, length, positive, checked⟩ := signed
      refine ⟨usable, versioned, Nat.ne_of_gt positive, length, ?_⟩
      rw [signedMessage, length] at checked
      exact checked
  · intro version image bounded
    rw [otaSignedPreamble_eq version bounded, signedMessage]
  · intro version other image otherImage accepted otherAccepted same
    obtain ⟨code, parsed⟩ := Option.isSome_iff_exists.mp accepted
    obtain ⟨otherCode, otherParsed⟩ := Option.isSome_iff_exists.mp otherAccepted
    exact signedMessage_injective parsed otherParsed same

/-! A key and a signature of nothing but ones, and an equation that holds for the
message of a three-byte image: the image passes in two chunks, and so does an
empty one between them. -/

def sampleKey : PublicKey := .replicate 32 1

def sampleSignature : Signature := .replicate 64 1

def sampleImage : List UInt8 := [7, 8, 9]

/-- Holds for the one message that was signed. -/
def sampleEd25519 : Ed25519 :=
  ⟨fun _ _ hashed => hashed.drop 64 == signedMessage (ascii "1.2.3") sampleImage⟩

theorem sampleImage_accepted :
    (((init sampleKey sampleSignature (ascii "1.2.3") 3).feed 32 [[7], [], [8, 9]]).finish
      sampleEd25519).1 = .ok := by
  refine ((accepts_exactly_what_was_signed 32 sampleEd25519 sampleKey sampleSignature
    (ascii "1.2.3") 3 [[7], [], [8, 9]] (by decide) (by decide)).1).mpr
    ⟨by decide, by decide, rfl, by decide, ?_⟩
  simp [sampleEd25519, Ed25519.check, sampleSignature, sampleKey, sampleImage]

end ImageVerifier

end Presence.Ota
