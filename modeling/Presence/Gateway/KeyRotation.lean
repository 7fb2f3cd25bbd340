import Presence.Auth.Hmac
import Presence.Data.Run
import Presence.Gateway.Device

namespace Presence.Gateway

open Presence.Auth (textBytes)
open Presence.Data Presence.Postgres

/-! # Rotating the key of the keys

`cryptobox.go`: a device secret is sealed under the primary key and opened under the key
whose id stands beside it.
-/

/-- AES-GCM: what was sealed opens again, and a tag makes it longer. -/
structure Aead where
  lock : (key nonce plaintext aad : List UInt8) → List UInt8
  unlock : (key nonce ciphertext aad : List UInt8) → Option (List UInt8)
  unlock_lock : ∀ key nonce plaintext aad,
    unlock key nonce (lock key nonce plaintext aad) aad = some plaintext
  longer : ∀ key nonce plaintext aad,
    plaintext.length < (lock key nonce plaintext aad).length

/-- What `NewKeyring` has checked. -/
structure Keys where
  primary : String
  keys : AList fun _ : String => List UInt8
  known : primary ∈ keys
  sized : ∀ id key, keys.lookup id = some key → key.length = 32

inductive KeyringError where
  | noPrimary
  | keySize
deriving DecidableEq, Repr

def newKeyring (primaryID : String) (keys : AList fun _ : String => List UInt8) :
    Except KeyringError Keys :=
  if known : primaryID ∈ keys then
    if sized : ∀ entry ∈ keys.entries, entry.2.length = 32 then
      .ok {
        primary := primaryID, keys, known
        sized := fun id _ found => sized ⟨id, _⟩ (AList.mem_lookup_iff.mp found) }
    else .error .keySize
  else .error .noPrimary

/-- Every keyring is one that `NewKeyring` lets through. -/
theorem newKeyring_accepts (ring : Keys) : newKeyring ring.primary ring.keys = .ok ring := by
  have sized : ∀ entry ∈ ring.keys.entries, entry.2.length = 32 := fun entry member =>
    ring.sized entry.1 entry.2 (AList.mem_lookup_iff.mpr member)
  rw [newKeyring, dif_pos ring.known, dif_pos sized]

/-- The sizes `aes.NewCipher` takes. -/
def isAesKey (key : List UInt8) : Bool := key.length == 16 || key.length == 24 || key.length == 32

structure Sealed where
  ciphertext : List UInt8
  nonce : List UInt8
  keyID : String
deriving DecidableEq, Repr

namespace Keys

variable (aead : Aead)

/-- `Seal`, on the nonce it drew. -/
def sealBytes (ring : Keys) (plaintext aad nonce : List UInt8) : Option Sealed :=
  let key := (ring.keys.lookup ring.primary).getD []
  if isAesKey key then some ⟨aead.lock key nonce plaintext aad, nonce, ring.primary⟩ else none

/-- `Open`. -/
def openBytes (ring : Keys) (ciphertext nonce : List UInt8) (keyID : String) (aad : List UInt8) :
    Option (List UInt8) :=
  match ring.keys.lookup keyID with
  | none => none
  | some key => if isAesKey key then aead.unlock key nonce ciphertext aad else none

/-- As `store.LoadDevice` asks it: the id of the device is bound in. -/
def keyring (ring : Keys) : Keyring := fun ciphertext nonce keyID device =>
  ring.openBytes aead ciphertext nonce keyID (textBytes (uuidOut device))

theorem sealBytes_spec (ring : Keys) (plaintext aad nonce : List UInt8) :
    ∃ key, ring.keys.lookup ring.primary = some key ∧ isAesKey key = true ∧
      ring.sealBytes aead plaintext aad nonce =
        some ⟨aead.lock key nonce plaintext aad, nonce, ring.primary⟩ := by
  obtain ⟨key, found⟩ := Option.isSome_iff_exists.mp (AList.lookup_isSome.mpr ring.known)
  have aes : isAesKey key = true := by simp [isAesKey, ring.sized _ _ found]
  exact ⟨key, found, aes, by simp [sealBytes, found, aes]⟩

variable {aead}

theorem openBytes_congr {ring next : Keys} {keyID : String}
    (same : next.keys.lookup keyID = ring.keys.lookup keyID) (ciphertext nonce aad : List UInt8) :
    next.openBytes aead ciphertext nonce keyID aad = ring.openBytes aead ciphertext nonce keyID aad := by
  rw [openBytes, openBytes, same]

end Keys

/-! ## Every secret through every rotation -/

structure Issued where
  device : Uuid
  secret : List UInt8
  stored : Sealed

structure Vault where
  ring : Keys
  issued : List Issued

inductive VaultInput where
  /-- The service starts again with other keys. -/
  | rotate (ring : Keys)
  | issue (device : Uuid) (secret nonce : List UInt8)

namespace Vault

variable (aead : Aead)

def step (vault : Vault) : VaultInput → Option Vault
  | .rotate ring => some { vault with ring }
  | .issue device secret nonce =>
      (vault.ring.sealBytes aead secret (textBytes (uuidOut device)) nonce).map fun stored =>
        { vault with issued := vault.issued ++ [⟨device, secret, stored⟩] }

/-- A rotation keeps the keys that rows still name. -/
def Kept (vault : Vault) : VaultInput → Prop
  | .rotate ring => ∀ row ∈ vault.issued,
      ring.keys.lookup row.stored.keyID = vault.ring.keys.lookup row.stored.keyID
  | .issue _ _ _ => True

def Opens (vault : Vault) : Prop :=
  ∀ row ∈ vault.issued, row.stored.ciphertext ≠ [] ∧
    vault.ring.keyring aead row.stored.ciphertext row.stored.nonce row.stored.keyID row.device =
      some row.secret

variable {aead}

theorem Opens.step {vault next : Vault} {input : VaultInput} (opens : vault.Opens aead)
    (kept : vault.Kept input) (taken : vault.step aead input = some next) : next.Opens aead := by
  cases input with
  | rotate ring =>
      cases taken
      intro row member
      obtain ⟨some, opened⟩ := opens row member
      exact ⟨some, (Keys.openBytes_congr (kept row member) _ _ _).trans opened⟩
  | issue device secret nonce =>
      obtain ⟨key, found, aes, sealed⟩ :=
        vault.ring.sealBytes_spec aead secret (textBytes (uuidOut device)) nonce
      rw [Vault.step, sealed] at taken
      cases taken
      intro row member
      rcases List.mem_append.mp member with earlier | new
      · exact opens row earlier
      · rw [List.mem_singleton.mp new]
        have long := aead.longer key nonce secret (textBytes (uuidOut device))
        refine ⟨List.ne_nil_of_length_pos (Nat.zero_lt_of_lt long), ?_⟩
        simp [Keys.keyring, Keys.openBytes, found, aes, aead.unlock_lock]

/-- A device's row holds what was issued for the device. -/
structure Holds (row : DeviceRow) (issued : Issued) : Prop where
  device : row.id = issued.device
  ciphertext : row.secretEnc = some issued.stored.ciphertext
  nonce : row.secretNonce = some issued.stored.nonce
  keyID : row.secretKeyId = some issued.stored.keyID

theorem Opens.loads {vault : Vault} (opens : vault.Opens aead) {issued : Issued}
    (member : issued ∈ vault.issued) {row : DeviceRow} (holds : Holds row issued) :
    ∃ secrets, loadSecrets (vault.ring.keyring aead) row = .ok secrets ∧
      (row.prevKeyVersion ≠ some row.keyVersion →
        secrets.lookup row.keyVersion = some issued.secret) := by
  obtain ⟨nonempty, opened⟩ := opens issued member
  have current : openSecret (vault.ring.keyring aead) row.id row.secretEnc row.secretNonce
      row.secretKeyId = some (some issued.secret) := by
    rw [holds.device, holds.ciphertext, holds.nonce, holds.keyID]
    cases stored : issued.stored.ciphertext with
    | nil => exact absurd stored nonempty
    | cons first rest =>
        rw [stored] at opened
        simp only [openSecret, Option.getD_some, opened]
  have alone : (AList.singleton row.keyVersion issued.secret : AList fun _ : Int =>
      List UInt8).lookup row.keyVersion = some issued.secret := by
    rw [← AList.insert_empty]
    exact AList.lookup_insert _
  simp only [loadSecrets, current]
  cases openSecret (vault.ring.keyring aead) row.id row.prevSecretEnc row.prevSecretNonce
      row.prevSecretKeyId with
  | none => exact ⟨_, rfl, fun _ => alone⟩
  | some previous =>
      cases previous with
      | none => exact ⟨_, rfl, fun _ => alone⟩
      | some raw =>
          cases version : row.prevKeyVersion with
          | none => exact ⟨_, rfl, fun _ => alone⟩
          | some version =>
              refine ⟨_, rfl, fun apart => ?_⟩
              rw [AList.lookup_insert_ne fun same => apart (congrArg some same.symm)]
              exact alone

/-- In every history of restarts with other keys and of secrets issued, as long as a
restart keeps the keys that rows still name, every device loads the secret that was
issued for it. -/
theorem issued_secrets_load (aead : Aead) (ring : Keys) (inputs : List VaultInput) (final : Vault)
    (kept : Along (step aead) Kept ⟨ring, []⟩ inputs)
    (ran : run (step aead) ⟨ring, []⟩ inputs = some final) :
    ∀ issued ∈ final.issued, ∀ row, Holds row issued →
      ∃ secrets, loadSecrets (final.ring.keyring aead) row = .ok secrets ∧
        (row.prevKeyVersion ≠ some row.keyVersion →
          secrets.lookup row.keyVersion = some issued.secret) := by
  have fresh : Opens aead ⟨ring, []⟩ := by simp [Opens]
  have opens : final.Opens aead :=
    kept.invariant (fun _ _ _ opens kept taken => opens.step kept taken) fresh ran
  exact fun issued member row holds => opens.loads member holds

/-- A stand-in for AES-GCM with a tag of one byte. -/
def sampleAead : Aead where
  lock _ _ plaintext _ := 0 :: plaintext
  unlock _ _ ciphertext _ := some ciphertext.tail
  unlock_lock _ _ _ _ := rfl
  longer _ _ _ _ := Nat.lt_succ_self _

def olderKeys : Keys where
  primary := "k1"
  keys := AList.singleton "k1" (List.replicate 32 1)
  known := AList.mem_keys.mpr (List.mem_singleton_self _)
  sized id key found := by
    rw [← AList.insert_empty] at found
    by_cases same : id = "k1"
    · rw [same, AList.lookup_insert] at found
      cases found
      rfl
    · rw [AList.lookup_insert_ne same] at found
      cases found

def newerKeys : Keys where
  primary := "k2"
  keys := olderKeys.keys.insert "k2" (List.replicate 32 2)
  known := AList.mem_insert _ |>.mpr (Or.inl rfl)
  sized id key found := by
    by_cases same : id = "k2"
    · rw [same, AList.lookup_insert] at found
      cases found
      rfl
    · rw [AList.lookup_insert_ne same] at found
      exact olderKeys.sized id key found

def sampleInputs : List VaultInput :=
  [.issue 1 [10] [0], .rotate newerKeys, .issue 2 [20] [0]]

theorem issued_secrets_load_sample :
    ∃ final, run (step sampleAead) ⟨olderKeys, []⟩ sampleInputs = some final ∧
      final.issued.map (·.stored.keyID) = ["k1", "k2"] ∧
      ∀ issued ∈ final.issued, ∀ row, Holds row issued →
        ∃ secrets, loadSecrets (final.ring.keyring sampleAead) row = .ok secrets ∧
          (row.prevKeyVersion ≠ some row.keyVersion →
            secrets.lookup row.keyVersion = some issued.secret) := by
  refine ⟨_, rfl, rfl, issued_secrets_load sampleAead olderKeys sampleInputs _ ?_ rfl⟩
  refine ⟨trivial, fun first issue => ⟨?_, fun second rotate => ⟨trivial, fun _ _ => trivial⟩⟩⟩
  cases issue
  intro row member
  rw [List.mem_singleton.mp member]
  rfl

end Vault

end Presence.Gateway
