import Presence.Gateway.Ingest

namespace Presence.Gateway

open Presence.Postgres

/-! # `store.LoadDevice`

The keyring is a parameter: `Open` decrypts a stored secret under the key named
beside it, with the device id as associated data, or fails.
-/

abbrev Keyring :=
  (ciphertext nonce : List UInt8) → (keyId : String) → (device : Uuid) → Option (List UInt8)

inductive LoadError where
  | deviceUnknown
  | deviceSuspended
  | query
  | decrypt
deriving DecidableEq, Repr

def openSecret (keys : Keyring) (device : Uuid) (ciphertext nonce : Option (List UInt8))
    (keyId : Option String) : Option (Option (List UInt8)) :=
  match ciphertext.getD [], keyId with
  | [], _ => none
  | _, none => none
  | sealedBytes, some keyId => some (keys sealedBytes (nonce.getD []) keyId device)

def loadSecrets (keys : Keyring) (row : DeviceRow) :
    Except LoadError (AList fun _ : Int => List UInt8) := do
  let current ←
    match openSecret keys row.id row.secretEnc row.secretNonce row.secretKeyId with
    | none => .ok ∅
    | some none => .error .decrypt
    | some (some raw) => .ok (AList.singleton row.keyVersion raw)
  match openSecret keys row.id row.prevSecretEnc row.prevSecretNonce row.prevSecretKeyId,
      row.prevKeyVersion with
  | some (some raw), some version => return current.insert version raw
  -- a previous key that does not open is left out, not an error
  | _, _ => return current

def loadDevice (keys : Keyring) (db : Database) (id : String) : Except LoadError Device :=
  match uuidIn id with
  | none => .error .query
  | some uuid =>
      match db.device.find? (·.id == uuid) with
      | none => .error .deviceUnknown
      | some row =>
          if row.state = .suspended ∨ row.state = .retired then .error .deviceSuspended
          else do
            let secrets ← loadSecrets keys row
            if secrets.keys = [] then .error .deviceUnknown
            else return {
              id := row.id, orgId := row.orgId, mode := row.mode, secrets,
              lastAckSeq := row.lastAckSeq }

/-- A loaded device is a row of the table, under the id the text names. -/
theorem loadDevice_invert {keys : Keyring} {db : Database} {id : String} {dev : Device}
    (loaded : loadDevice keys db id = .ok dev) :
    ∃ row ∈ db.device, uuidIn id = some row.id ∧ dev.id = row.id ∧
      dev.lastAckSeq = row.lastAckSeq := by
  simp only [loadDevice] at loaded
  split at loaded
  · contradiction
  · rename_i uuid read
    split at loaded
    · contradiction
    · rename_i row found
      split at loaded
      · contradiction
      · obtain ⟨secrets, _, rest⟩ := Data.except_bind_ok_iff.mp loaded
        split at rest
        · contradiction
        · cases rest
          have named : row.id = uuid := by simpa using List.find?_some found
          exact ⟨row, List.mem_of_find?_eq_some found, by rw [read, named], rfl, rfl⟩

end Presence.Gateway
