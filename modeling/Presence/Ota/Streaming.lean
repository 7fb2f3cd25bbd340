import Presence.Monocypher.Streamed
import Presence.Ota.Signing

namespace Presence.Ota

open Presence.Data Presence.Go Presence.Monocypher

/-! # The verifier over the real hash

`Ed25519Stream` holds a SHA-512 context.  What a reduced digest says of a signature is a
parameter, `crypto_eddsa_reduce` and `crypto_eddsa_check_equation` of the curve.
-/

structure Curve where
  eddsaReduce : List UInt8 → List UInt8
  eddsaCheckEquation : Signature → PublicKey → List UInt8 → Int

namespace Curve

variable (curve : Curve)

def hashReduce (a b c d : List UInt8) : List UInt8 :=
  let ctx := cryptoSha512Init
  let ctx := cryptoSha512Update ctx a
  let ctx := cryptoSha512Update ctx b
  let ctx := cryptoSha512Update ctx c
  let ctx := cryptoSha512Update ctx d
  curve.eddsaReduce (cryptoSha512Final ctx)

def ed25519Check (signature : Signature) (publicKey : PublicKey) (message : List UInt8) : Int :=
  let hRam := curve.hashReduce (signature.toList.take 32) publicKey.toList message []
  curve.eddsaCheckEquation signature publicKey hRam

/-- The curve behind the equation that `Signing` leaves open. -/
def ed25519 : Ed25519 where
  equation signature publicKey hashed :=
    curve.eddsaCheckEquation signature publicKey (curve.eddsaReduce (Sha512.sum512 hashed)) == 0

end Curve

structure HashStream where
  key : PublicKey
  sig : Signature
  ctx : Sha512Ctx
  finished : Bool

namespace HashStream

def init (publicKey : PublicKey) (signature : Signature) : HashStream :=
  let ctx := cryptoSha512Update cryptoSha512Init (signature.toList.take 32)
  ⟨publicKey, signature, cryptoSha512Update ctx publicKey.toList, false⟩

def update (stream : HashStream) (data : List UInt8) : HashStream :=
  if stream.finished || data.length == 0 then stream
  else { stream with ctx := cryptoSha512Update stream.ctx data }

def finish (curve : Curve) (stream : HashStream) : Bool × HashStream :=
  if stream.finished then (false, stream)
  else
    let digest := cryptoSha512Final stream.ctx
    let verdict :=
      if isUnusableKey stream.key then false
      else curve.eddsaCheckEquation stream.sig stream.key (curve.eddsaReduce digest) == 0
    (verdict, { stream with finished := true })

end HashStream

/-! ## The context stands for the bytes it has taken -/

/-- The context is spent once the stream is finished. -/
structure HashStream.Represents (stream : HashStream) (bytes : Ed25519Stream) : Prop where
  key : stream.key = bytes.key
  sig : stream.sig = bytes.sig
  finished : stream.finished = bytes.finished
  hashed : bytes.finished = false → stream.ctx.Holds bytes.hashed

namespace HashStream

variable {stream : HashStream} {bytes : Ed25519Stream}

theorem init_represents (publicKey : PublicKey) (signature : Signature) :
    (init publicKey signature).Represents (.init publicKey signature) where
  key := rfl
  sig := rfl
  finished := rfl
  hashed _ := (cryptoSha512Init_holds.update _).update _

theorem Represents.update (represents : stream.Represents bytes) (data : List UInt8) :
    (stream.update data).Represents (bytes.update data) := by
  rw [HashStream.update, Ed25519Stream.update, represents.finished]
  split
  · exact represents
  · rename_i running
    have unfinished : bytes.finished = false := by
      cases closed : bytes.finished with
      | false => rfl
      | true => simp [closed] at running
    exact {
      key := represents.key
      sig := represents.sig
      finished := rfl
      hashed := fun _ => (represents.hashed unfinished).update data }

theorem Represents.foldl (represents : stream.Represents bytes) (pieces : List (List UInt8)) :
    (pieces.foldl HashStream.update stream).Represents
      (pieces.foldl Ed25519Stream.update bytes) := by
  induction pieces generalizing stream bytes with
  | nil => exact represents
  | cons piece rest ih => exact ih (represents.update piece)

theorem Represents.finish (represents : stream.Represents bytes) (curve : Curve) :
    (stream.finish curve).1 = (bytes.finish curve.ed25519).1 ∧
      (stream.finish curve).2.Represents (bytes.finish curve.ed25519).2 := by
  rw [HashStream.finish, Ed25519Stream.finish, represents.finished]
  cases closed : bytes.finished with
  | true => exact ⟨rfl, represents⟩
  | false =>
      rw [if_neg Bool.false_ne_true, if_neg Bool.false_ne_true, (represents.hashed closed).final,
        represents.key, represents.sig]
      exact ⟨rfl, {
        key := rfl
        sig := rfl
        finished := rfl
        hashed := fun running => Bool.noConfusion running }⟩

end HashStream

theorem HashStream.finish_finished (curve : Curve) (stream : HashStream) :
    (stream.finish curve).2.finished = true := by
  rw [HashStream.finish]
  split
  · rename_i already
    exact already
  · rfl

theorem HashStream.foldl_finished {stream : HashStream} (finished : stream.finished = true)
    (pieces : List (List UInt8)) : pieces.foldl HashStream.update stream = stream := by
  induction pieces with
  | nil => rfl
  | cons piece rest ih =>
      have same : stream.update piece = stream := by simp [HashStream.update, finished]
      rw [List.foldl_cons, same, ih]

theorem Ed25519Stream.foldl_update {stream : Ed25519Stream} (running : stream.finished = false)
    (pieces : List (List UInt8)) : pieces.foldl Ed25519Stream.update stream =
      { stream with hashed := stream.hashed ++ pieces.flatten } := by
  induction pieces generalizing stream with
  | nil => simp
  | cons piece rest ih =>
      by_cases none : piece.length = 0
      · have same : stream.update piece = stream := by simp [Ed25519Stream.update, none]
        rw [List.foldl_cons, same, ih running, List.eq_nil_of_length_eq_zero none,
          List.flatten_cons, List.nil_append]
      · have taken : stream.update piece = { stream with hashed := stream.hashed ++ piece } := by
          simp [Ed25519Stream.update, running, none]
        rw [List.foldl_cons, taken, ih (by exact running), List.flatten_cons, List.append_assoc]

theorem Curve.ed25519Check_eq (curve : Curve) (signature : Signature) (publicKey : PublicKey)
    (message : List UInt8) : curve.ed25519Check signature publicKey message =
      curve.eddsaCheckEquation signature publicKey (curve.eddsaReduce
        (Sha512.sum512 (signature.toList.take 32 ++ publicKey.toList ++ message))) := by
  have holds := cryptoSha512Init_holds.foldl
    [signature.toList.take 32, publicKey.toList, message, []]
  have joined : [] ++ [signature.toList.take 32, publicKey.toList, message, []].flatten =
      signature.toList.take 32 ++ publicKey.toList ++ message := by simp
  rw [joined] at holds
  rw [Curve.ed25519Check, Curve.hashReduce]
  exact congrArg (fun digest => curve.eddsaCheckEquation signature publicKey
    (curve.eddsaReduce digest)) holds.final

/-- However a message is cut into pieces, the stream says once what one check of the whole
message says, and never that an unusable key has signed it. -/
theorem streamed_check (curve : Curve) (publicKey : PublicKey) (signature : Signature)
    (pieces : List (List UInt8)) :
    let fed := pieces.foldl HashStream.update (.init publicKey signature)
    ((fed.finish curve).1 = true ↔ isUnusableKey publicKey = false ∧
      curve.ed25519Check signature publicKey pieces.flatten = 0) ∧
    ∀ later : List (List UInt8),
      ((later.foldl HashStream.update (fed.finish curve).2).finish curve).1 = false := by
  intro fed
  have represents : fed.Represents
      (pieces.foldl Ed25519Stream.update (.init publicKey signature)) :=
    (HashStream.init_represents publicKey signature).foldl pieces
  rw [Ed25519Stream.foldl_update rfl] at represents
  obtain ⟨verdict, -⟩ := represents.finish curve
  constructor
  · rw [verdict, curve.ed25519Check_eq]
    cases unusable : isUnusableKey publicKey <;>
      simp [Ed25519Stream.finish, Ed25519Stream.init, unusable, Curve.ed25519]
  · intro later
    have done := fed.finish_finished curve
    rw [HashStream.foldl_finished done, HashStream.finish, if_pos done]

end Presence.Ota
