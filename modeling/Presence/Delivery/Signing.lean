import Presence.Delivery.Stranded
import Presence.Firmware.Canonical
import Presence.Firmware.WireText

namespace Presence.Delivery

open Presence.Auth (textBytes)
open Presence.Data Presence.Go
open Presence.Firmware (decimalText decimalText_eq decimalText_injective notMem_decimalText
  notMem_encodeHex notMem_repr parseInt_toString)

/-! # The signature on a delivery

`signing.go`: the header a consumer receives and the check it can make with it.  A
header is read one character to a byte.
-/

/-- What goes into the HMAC. -/
def signedBytes (tsMillis : Int) (body : List UInt8) : List UInt8 :=
  textBytes (toString tsMillis) ++ UInt8.ofNat '.'.toNat :: body

def sign (secret : List UInt8) (tsMillis : Int) (body : List UInt8) : String :=
  encodeHex (hmacSha256 secret (signedBytes tsMillis body))

theorem signatureHeader_eq (secret : List UInt8) (tsMillis : Int) (body : List UInt8) :
    signatureHeader secret tsMillis body =
      "t=" ++ toString tsMillis ++ ",v1=" ++ sign secret tsMillis body := by
  simp only [signatureHeader, sign, signedBytes, textBytes, List.append_assoc, List.singleton_append]

/-- `strings.Cut` at one character. -/
def cut (mark : Char) : List Char → Option (List Char × List Char)
  | [] => none
  | char :: rest =>
      if char = mark then some ([], rest)
      else (cut mark rest).map fun found => (char :: found.1, found.2)

/-- One part of a header.  It replaces what an earlier part with its key left. -/
def takeField (fields : List Char × List Char) (part : List Char) : List Char × List Char :=
  match cut '=' part with
  | none => fields
  | some (k, v) =>
      if k = ['t'] then (v, fields.2)
      else if k = ['v', '1'] then (fields.1, v)
      else fields

/-- `strings.Split`. -/
def headerParts (header : String) : List (List Char) := header.toList.splitOn ','

def cutHeader (header : String) : Option (String × String) :=
  let fields := (headerParts header).foldl takeField ([], [])
  if fields.1 ≠ [] ∧ fields.2 ≠ [] then
    some (String.ofList fields.1, String.ofList fields.2)
  else none

def verifySignatureHeader (secret : List UInt8) (header : String) (body : List UInt8) : Bool :=
  match cutHeader header with
  | none => false
  | some (tsPart, sigPart) =>
      match parseInt tsPart with
      | none => false
      | some ts => sign secret ts body == sigPart

example : cutHeader "v1=abc,t=123" = some ("123", "abc") ∧ cutHeader "v1=abc" = none ∧
    cutHeader "t=1,x,v1==a,t=2" = some ("2", "=a") := by decide

/-! ## What a header says -/

/-- The value under a key: what the last part with that key has behind its `=`. -/
def valueOf (key : List Char) (parts : List (List Char)) : List Char :=
  (((parts.filterMap (cut '=')).filter fun found => found.1 = key).getLast?.map Prod.snd).getD []

theorem valueOf_concat (key part : List Char) (parts : List (List Char)) :
    valueOf key (parts ++ [part]) =
      (cut '=' part).elim (valueOf key parts) fun found =>
        if found.1 = key then found.2 else valueOf key parts := by
  cases found : cut '=' part with
  | none => simp [valueOf, found]
  | some pair =>
      by_cases same : pair.1 = key
      · simp [valueOf, found, same]
      · simp [valueOf, found, same]

theorem foldl_takeField (parts : List (List Char)) :
    parts.foldl takeField ([], []) = (valueOf ['t'] parts, valueOf ['v', '1'] parts) := by
  induction parts using List.reverseRecOn with
  | nil => rfl
  | append_singleton parts part ih =>
      rw [List.foldl_append, ih, valueOf_concat, valueOf_concat]
      simp only [List.foldl_cons, List.foldl_nil, takeField]
      cases cut '=' part with
      | none => rfl
      | some pair =>
          by_cases stamp : pair.1 = ['t']
          · simp [stamp]
          · by_cases signature : pair.1 = ['v', '1']
            · simp [signature]
            · simp [stamp, signature]

def stampOf (header : String) : String := String.ofList (valueOf ['t'] (headerParts header))

def signatureOf (header : String) : String := String.ofList (valueOf ['v', '1'] (headerParts header))

theorem sign_ne_empty (secret : List UInt8) (tsMillis : Int) (body : List UInt8) :
    sign secret tsMillis body ≠ "" :=
  encodeHex_ne_empty (by simp)

theorem parseInt_empty : parseInt "" = none := rfl

/-- A header passes exactly when the number in its last `t` and the body give its
last `v1`. -/
theorem verifySignatureHeader_iff (secret : List UInt8) (header : String) (body : List UInt8) :
    verifySignatureHeader secret header body = true ↔
      ∃ ts, parseInt (stampOf header) = some ts ∧ signatureOf header = sign secret ts body := by
  simp only [verifySignatureHeader, cutHeader, foldl_takeField, stampOf, signatureOf]
  generalize valueOf ['t'] (headerParts header) = stamp
  generalize valueOf ['v', '1'] (headerParts header) = signature
  by_cases stamped : stamp = []
  · simp [stamped, parseInt_empty]
  by_cases signed : signature = []
  · have unsigned : ∀ ts, "" ≠ sign secret ts body := fun ts => (sign_ne_empty secret ts body).symm
    simp [signed, unsigned]
  rw [if_pos ⟨stamped, signed⟩]
  cases parsed : parseInt (String.ofList stamp) with
  | none => simp only [parsed, Bool.false_eq_true, reduceCtorEq, false_and, exists_false]
  | some ts =>
      simp only [parsed, beq_iff_eq, Option.some.injEq, exists_eq_left']
      exact eq_comm

/-! ## The header of a delivery -/

theorem cut_append (mark : Char) (key : List Char) (absent : mark ∉ key) (value : List Char) :
    cut mark (key ++ mark :: value) = some (key, value) := by
  induction key with
  | nil => simp [cut]
  | cons char key ih =>
      obtain ⟨different, rest⟩ := not_or.mp (mt List.mem_cons.mpr absent)
      simp [cut, ih rest, Ne.symm different]

theorem headerParts_signatureHeader (secret : List UInt8) (tsMillis : Int) (body : List UInt8) :
    headerParts (signatureHeader secret tsMillis body) =
      ['t' :: '=' :: (toString tsMillis).toList,
        'v' :: '1' :: '=' :: (sign secret tsMillis body).toList] := by
  have spelled : (signatureHeader secret tsMillis body).toList =
      ('t' :: '=' :: (toString tsMillis).toList) ++
        ',' :: ('v' :: '1' :: '=' :: (sign secret tsMillis body).toList) := by
    rw [signatureHeader_eq]
    simp only [String.toList_append]
    simp
  have stamp : ',' ∉ (toString tsMillis).toList := notMem_repr (by decide) (by decide) tsMillis
  have signature : ',' ∉ (sign secret tsMillis body).toList := notMem_encodeHex (by decide) _
  have first : ',' ∉ 't' :: '=' :: (toString tsMillis).toList := by
    simpa using stamp
  have second : ',' ∉ 'v' :: '1' :: '=' :: (sign secret tsMillis body).toList := by
    simpa using signature
  rw [headerParts, spelled, List.splitOn_append_cons_self, List.splitOn_eq_singleton first,
    List.splitOn_eq_singleton second]
  rfl

/-- The consumer reads back what was written. -/
theorem valueOf_signatureHeader (secret : List UInt8) (tsMillis : Int) (body : List UInt8) :
    stampOf (signatureHeader secret tsMillis body) = toString tsMillis ∧
      signatureOf (signatureHeader secret tsMillis body) = sign secret tsMillis body := by
  have stamp := cut_append '=' ['t'] (by decide) (toString tsMillis).toList
  have signature := cut_append '=' ['v', '1'] (by decide) (sign secret tsMillis body).toList
  simp only [List.cons_append, List.nil_append] at stamp signature
  simp only [stampOf, signatureOf, headerParts_signatureHeader, valueOf, List.filterMap_cons, stamp,
    signature]
  exact ⟨String.ofList_toList, String.ofList_toList⟩

theorem signedBytes_injective {tsMillis otherTs : Int} {body other : List UInt8}
    (same : signedBytes tsMillis body = signedBytes otherTs other) :
    tsMillis = otherTs ∧ body = other := by
  have dotless : ∀ value : Int, UInt8.ofNat '.'.toNat ∉ textBytes (toString value) := by
    intro value
    rw [show toString value = value.repr from rfl, ← decimalText_eq]
    exact notMem_decimalText (by decide) (by decide) value
  obtain ⟨stamps, bodies⟩ := field_injective (dotless tsMillis) (dotless otherTs) same
  have texts : decimalText tsMillis = decimalText otherTs := by
    rw [decimalText_eq, decimalText_eq]
    exact stamps
  exact ⟨decimalText_injective texts, bodies⟩

/-- A consumer with the secret accepts a delivery, and under the same header another
body only if the HMAC collides. -/
theorem verify_signatureHeader (secret : List UInt8) {tsMillis : Int} (low : -2 ^ 63 ≤ tsMillis)
    (high : tsMillis < 2 ^ 63) (body other : List UInt8) :
    verifySignatureHeader secret (signatureHeader secret tsMillis body) other = true ↔
      hmacSha256 secret (signedBytes tsMillis other) = hmacSha256 secret (signedBytes tsMillis body) := by
  obtain ⟨stamp, signature⟩ := valueOf_signatureHeader secret tsMillis body
  rw [verifySignatureHeader_iff, stamp, signature, parseInt_toString low high]
  simp only [Option.some.injEq, exists_eq_left']
  constructor
  · exact fun same => (encodeHex_injective same).symm
  · exact fun same => congrArg encodeHex same.symm

/-- Behind the signature of a delivery a consumer reads that delivery's timestamp and
body, or what it reads collides with them under the HMAC. -/
theorem signature_vouches_for_one_delivery (secret : List UInt8) (header : String) (tsMillis : Int)
    (body other : List UInt8) (copied : signatureOf header = sign secret tsMillis body)
    (accepted : verifySignatureHeader secret header other = true) :
    (parseInt (stampOf header) = some tsMillis ∧ other = body) ∨
      ∃ ts, parseInt (stampOf header) = some ts ∧ signedBytes ts other ≠ signedBytes tsMillis body ∧
        hmacSha256 secret (signedBytes ts other) = hmacSha256 secret (signedBytes tsMillis body) := by
  obtain ⟨ts, stamp, signature⟩ := (verifySignatureHeader_iff secret header other).mp accepted
  have digests : hmacSha256 secret (signedBytes ts other) =
      hmacSha256 secret (signedBytes tsMillis body) :=
    encodeHex_injective (signature.symm.trans copied)
  by_cases messages : signedBytes ts other = signedBytes tsMillis body
  · obtain ⟨stamps, bodies⟩ := signedBytes_injective messages
    exact Or.inl ⟨by rw [stamp, stamps], bodies⟩
  · exact Or.inr ⟨ts, stamp, messages, digests⟩

theorem signature_vouches_for_sample :
    (parseInt (stampOf (signatureHeader [1] 5 [2])) = some 5 ∧ ([2] : List UInt8) = [2]) ∨
      ∃ ts, parseInt (stampOf (signatureHeader [1] 5 [2])) = some ts ∧
        signedBytes ts [2] ≠ signedBytes 5 [2] ∧
        hmacSha256 [1] (signedBytes ts [2]) = hmacSha256 [1] (signedBytes 5 [2]) :=
  signature_vouches_for_one_delivery [1] _ 5 [2] [2] (valueOf_signatureHeader [1] 5 [2]).2
    ((verify_signatureHeader [1] (by decide) (by decide) [2] [2]).mpr rfl)

/-! ## What the workers send -/

namespace System

open Presence.Data

variable {workers : Nat} {system next : System workers}

/-- The secret stays, and a request carries the header of its own body. -/
theorem step_signs {input : Input workers} (taken : system.step input = some next) :
    next.secret = system.secret ∧ (next.sent = system.sent ∨
      ∃ index tsMillis answer row sent, input = .send index tsMillis answer ∧
        next.sent = system.sent ++ [sent] ∧ sent.post = post system.secret row tsMillis) := by
  cases input with
  | send index tsMillis answer =>
      simp only [step] at taken
      split at taken
      next claimedAt row rest cancelled worker =>
        rw [Option.ite_none_left_eq_some] at taken
        obtain ⟨-, same⟩ := taken
        cases same
        refine ⟨rfl, ?_⟩
        by_cases posted : answer.posted = true
        · exact Or.inr ⟨index, tsMillis, answer, row, _, rfl, if_pos posted, rfl⟩
        · exact Or.inl (if_neg posted)
      next => contradiction
  | insert | select | rollback | commit | commitUnheard | settle | settleFails | cancel | stop
  | crash | restart =>
      cases step_moved taken <;> exact ⟨rfl, Or.inl rfl⟩

/-- `UnixMilli` is an `int64`. -/
def Stamped : Input workers → Prop
  | .send _ tsMillis _ => -2 ^ 63 ≤ tsMillis ∧ tsMillis < 2 ^ 63
  | _ => True

/-- Every request so far is signed with the secret, on a timestamp a consumer can read. -/
structure Signed (secret : List UInt8) (system : System workers) : Prop where
  same : system.secret = secret
  posts : ∀ sent ∈ system.sent, ∃ tsMillis, -2 ^ 63 ≤ tsMillis ∧ tsMillis < 2 ^ 63 ∧
    sent.post.signature = signatureHeader secret tsMillis sent.post.body

theorem Signed.step {secret : List UInt8} {input : Input workers} (signed : system.Signed secret)
    (stamped : Stamped input) (taken : system.step input = some next) : next.Signed secret := by
  obtain ⟨kept, unsent | ⟨index, tsMillis, answer, row, sent, rfl, added, posted⟩⟩ := step_signs taken
  · exact ⟨kept.trans signed.same, fun sent member => signed.posts sent (unsent ▸ member)⟩
  · refine ⟨kept.trans signed.same, fun other member => ?_⟩
    rw [added, List.mem_append, List.mem_singleton] at member
    rcases member with earlier | rfl
    · exact signed.posts other earlier
    · refine ⟨tsMillis, stamped.1, stamped.2, ?_⟩
      rw [posted, signed.same]
      rfl

/-- In every run a consumer with the secret accepts each request, and under its header
another body only where the two collide under the HMAC. -/
theorem consumer_accepts_every_delivery (start final : System workers)
    (inputs : List (Input workers)) (started : Started start)
    (stamped : ∀ input ∈ inputs, Stamped input) (ran : run step start inputs = some final) :
    ∀ sent ∈ final.sent,
      verifySignatureHeader start.secret sent.post.signature sent.post.body = true ∧
        ∃ tsMillis, parseInt (stampOf sent.post.signature) = some tsMillis ∧
          ∀ body, verifySignatureHeader start.secret sent.post.signature body = true ↔
            hmacSha256 start.secret (signedBytes tsMillis body) =
              hmacSha256 start.secret (signedBytes tsMillis sent.post.body) := by
  have unsent : start.Signed start.secret := ⟨rfl, by simp [started.sent]⟩
  have along : Along step (fun _ => Stamped) start inputs := along_of_forall stamped
  have signed : final.Signed start.secret :=
    along.invariant (fun _ _ _ signed stamped taken => signed.step stamped taken) unsent ran
  intro sent member
  obtain ⟨tsMillis, low, high, header⟩ := signed.posts sent member
  have accepts := verify_signatureHeader start.secret low high sent.post.body
  rw [header, (valueOf_signatureHeader _ _ _).1]
  exact ⟨(accepts _).mpr rfl, tsMillis, parseInt_toString low high, accepts⟩

theorem consumer_accepts_sampleRun :
    ∃ final, run step sampleStart sampleRun = some final ∧ final.sent.length = 1 ∧
      ∀ sent ∈ final.sent,
        verifySignatureHeader [] sent.post.signature sent.post.body = true ∧
          ∃ tsMillis, parseInt (stampOf sent.post.signature) = some tsMillis ∧
            ∀ body, verifySignatureHeader [] sent.post.signature body = true ↔
              hmacSha256 [] (signedBytes tsMillis body) =
                hmacSha256 [] (signedBytes tsMillis sent.post.body) := by
  refine ⟨_, rfl, rfl, ?_⟩
  refine consumer_accepts_every_delivery sampleStart _ sampleRun started_sampleStart ?_ rfl
  simp [sampleRun, Stamped]

end System

end Presence.Delivery
