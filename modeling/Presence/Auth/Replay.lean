import Presence.Auth.Hmac
import Presence.Data.Run

namespace Presence.Auth

open Presence.Data Presence.Go

/-! # Sequences of `Verify` calls over one nonce cache

A claim is refused while the cache remembers its key.  `Ledger` ties the cache to
the claims granted so far: the cache remembers every one of them that is not
older than the time to live, and remembers nothing else.
-/

namespace MemoryNonceCache

variable {cache : MemoryNonceCache} {clock now : Int} {deviceId nonce : String}

structure Ledger (cache : MemoryNonceCache) (clock : Int) (granted : List (String × Int)) :
    Prop where
  ttl : cache.ttl = 2 * maxSkew
  remembered : ∀ grant ∈ granted,
    cache.seen grant.1 = some grant.2 ∨ grant.2 + 2 * maxSkew < clock
  origin : ∀ key taken, cache.seen key = some taken → (key, taken) ∈ granted

variable {granted : List (String × Int)}

theorem ledger_new (clock : Int) : newMemoryNonceCache.Ledger clock [] :=
  ⟨rfl, by simp, by simp [newMemoryNonceCache]⟩

theorem sub_ttl_iff {later earlier : Int} :
    sub later earlier ≤ 2 * maxSkew ↔ later ≤ earlier + 2 * maxSkew := by
  have bound : 2 * maxSkew < sub later earlier ↔ 2 * maxSkew < later - earlier :=
    sub_gt_iff (by decide) (by decide)
  omega

theorem Ledger.later (ledger : cache.Ledger clock granted) (later : clock ≤ now) :
    cache.Ledger now granted :=
  { ledger with
    remembered := fun grant member => (ledger.remembered grant member).imp_right
      fun expired => Int.lt_of_lt_of_le expired later }

theorem Ledger.purge (ledger : cache.Ledger clock granted) (later : clock ≤ now) :
    (cache.purge now).Ledger now granted := by
  have ledger := ledger.later later
  simp only [MemoryNonceCache.purge]
  split
  · refine ⟨ledger.ttl, fun grant member => ?_, fun key taken found => ?_⟩
    · rcases ledger.remembered grant member with held | expired
      · by_cases young : sub now grant.2 ≤ cache.ttl
        · exact Or.inl (by simp [held, young])
        · rw [ledger.ttl, sub_ttl_iff] at young
          exact Or.inr (Int.not_le.mp young)
      · exact Or.inr expired
    · exact ledger.origin key taken (Option.filter_eq_some_iff.mp found).1
  · exact ledger

/-- What `Claim` answers and does, in terms of the claims granted before it. -/
theorem Ledger.claim (ledger : cache.Ledger clock granted) (later : clock ≤ now)
    (deviceId nonce : String) :
    ((cache.claim deviceId nonce now).1 = true ∧
        (∀ grant ∈ granted, grant.1 = MemoryNonceCache.key deviceId nonce →
          grant.2 + 2 * maxSkew < now) ∧
        (cache.claim deviceId nonce now).2.Ledger now
          (granted ++ [(MemoryNonceCache.key deviceId nonce, now)])) ∨
      ((cache.claim deviceId nonce now).1 = false ∧
        (∃ grant ∈ granted, grant.1 = MemoryNonceCache.key deviceId nonce) ∧
        (cache.claim deviceId nonce now).2.Ledger now granted) := by
  have purged := ledger.purge later
  unfold MemoryNonceCache.claim
  simp only
  split
  · rename_i taken found
    exact Or.inr ⟨rfl, ⟨_, purged.origin _ _ found, rfl⟩, purged⟩
  · rename_i free
    have old : ∀ grant ∈ granted, grant.1 = MemoryNonceCache.key deviceId nonce →
        grant.2 + 2 * maxSkew < now := by
      intro grant member same
      rcases purged.remembered grant member with held | expired
      · rw [same, free] at held
        contradiction
      · exact expired
    refine Or.inl ⟨rfl, old, purged.ttl, fun grant member => ?_, fun key taken found => ?_⟩
    · rw [List.mem_append, List.mem_singleton] at member
      rcases member with member | rfl
      · by_cases same : grant.1 = MemoryNonceCache.key deviceId nonce
        · exact Or.inr (old grant member same)
        · simpa [Function.update_of_ne same] using purged.remembered grant member
      · simp
    · rw [List.mem_append, List.mem_singleton]
      by_cases same : key = MemoryNonceCache.key deviceId nonce
      · subst same
        simp only [Function.update_self, Option.some.injEq] at found
        exact Or.inr (by rw [found])
      · simp only [Function.update_of_ne same] at found
        exact Or.inl (purged.origin key taken found)

def NulFree (text : String) : Prop := '\x00' ∉ text.toList

instance (text : String) : Decidable (NulFree text) := inferInstanceAs (Decidable (¬ _))

theorem key_injective {otherId otherNonce : String} (id : NulFree deviceId)
    (number : NulFree nonce) (same : key deviceId nonce = key otherId otherNonce) :
    deviceId = otherId ∧ nonce = otherNonce := by
  have lists := congrArg String.toList same
  simp only [key, String.toList_append, List.append_assoc] at lists
  change deviceId.toList ++ '\x00' :: nonce.toList =
    otherId.toList ++ '\x00' :: otherNonce.toList at lists
  obtain ⟨ids, -, nonces⟩ := (List.append_cons_inj_of_notMem id number).mp lists
  exact ⟨String.toList_inj.mp ids, String.toList_inj.mp nonces⟩

end MemoryNonceCache

/-! ## One call -/

structure VerifyCall where
  creds : Credentials
  now : Int
  method : String
  path : String
  body : List UInt8
  candidates : Secrets

namespace VerifyCall

open MemoryNonceCache

def verify (call : VerifyCall) (nonces : MemoryNonceCache) :
    Except Error Unit × MemoryNonceCache :=
  Auth.verify call.creds call.now call.method call.path call.body nonces call.candidates

def InWindow (call : VerifyCall) : Prop :=
  call.creds.timestamp - maxSkew ≤ call.now ∧ call.now ≤ call.creds.timestamp + maxSkew

instance (call : VerifyCall) : Decidable call.InWindow := inferInstanceAs (Decidable (_ ∧ _))

def Signed (call : VerifyCall) : Prop :=
  ∃ secret, call.candidates.lookup call.creds.keyVersion = some secret ∧
    call.creds.signature = sign secret call.method call.path
      (unixMilli call.creds.timestamp) call.creds.nonce call.body

def claimed (call : VerifyCall) : String × Int :=
  (key call.creds.deviceId call.creds.nonce, call.now)

def triple (call : VerifyCall) : String × String × Int :=
  (call.creds.deviceId, call.creds.nonce, call.creds.timestamp)

variable {call : VerifyCall} {nonces : MemoryNonceCache}

theorem inWindow_iff : call.InWindow ↔
    ¬ (maxSkew < sub call.now call.creds.timestamp ∨
      sub call.now call.creds.timestamp < -maxSkew) := by
  rw [sub_gt_iff (by decide) (by decide), sub_lt_iff (by decide) (by decide)]
  simp only [InWindow]
  omega

/-- Only a call inside the window with a good signature reaches the cache. -/
theorem verify_cases (call : VerifyCall) (nonces : MemoryNonceCache) :
    (call.InWindow ∧ call.Signed ∧
        let (unused, after) := nonces.claim call.creds.deviceId call.creds.nonce call.now
        call.verify nonces =
          (if unused then .ok () else .error .nonceReplay, after)) ∨
      (¬ (call.InWindow ∧ call.Signed) ∧
        ∃ error, call.verify nonces = (.error error, nonces)) := by
  unfold verify Auth.verify
  simp only
  split
  · rename_i skewed
    exact Or.inr ⟨fun good => inWindow_iff.mp good.1 skewed, _, rfl⟩
  · rename_i near
    have window := inWindow_iff.mpr near
    split
    · rename_i missing
      refine Or.inr ⟨?_, _, rfl⟩
      intro given
      obtain ⟨-, secret, found, -⟩ := given
      rw [missing] at found
      contradiction
    · rename_i secret found
      split
      · rename_i mismatch
        refine Or.inr ⟨?_, _, rfl⟩
        intro given
        obtain ⟨-, other, foundOther, signature⟩ := given
        rw [found] at foundOther
        cases foundOther
        exact mismatch signature.symm
      · rename_i agrees
        exact Or.inl ⟨window, ⟨secret, found, (not_not.mp agrees).symm⟩, rfl⟩

theorem verify_of_signed (call : VerifyCall) (window : call.InWindow) (signed : call.Signed)
    (nonces : MemoryNonceCache) :
    call.verify nonces =
      (if (nonces.claim call.creds.deviceId call.creds.nonce call.now).1 then .ok ()
        else .error .nonceReplay,
        (nonces.claim call.creds.deviceId call.creds.nonce call.now).2) := by
  rcases call.verify_cases nonces with ⟨-, -, answer⟩ | ⟨bad, -⟩
  · exact answer
  · exact absurd ⟨window, signed⟩ bad

end VerifyCall

/-! ## Runs -/

structure Gate where
  cache : MemoryNonceCache
  log : List (VerifyCall × Except Error Unit)

namespace Gate

open MemoryNonceCache

def start : Gate := ⟨newMemoryNonceCache, []⟩

/-- A call no earlier than those before it, its id and nonce without a NUL. -/
def Admits (gate : Gate) (call : VerifyCall) : Prop :=
  (∀ past ∈ gate.log, past.1.now ≤ call.now) ∧
    NulFree call.creds.deviceId ∧ NulFree call.creds.nonce

instance (gate : Gate) (call : VerifyCall) : Decidable (gate.Admits call) :=
  inferInstanceAs (Decidable (_ ∧ _ ∧ _))

def step (gate : Gate) (call : VerifyCall) : Option Gate :=
  if gate.Admits call then
    let (result, cache) := call.verify gate.cache
    some ⟨cache, gate.log ++ [(call, result)]⟩
  else none

def accepted (gate : Gate) : List VerifyCall :=
  gate.log.filterMap fun
    | (call, .ok ()) => some call
    | (_, .error _) => none

structure Tracks (gate : Gate) : Prop where
  ledger : ∀ clock, (∀ past ∈ gate.log, past.1.now ≤ clock) →
    gate.cache.Ledger clock (gate.accepted.map VerifyCall.claimed)
  inWindow : ∀ call ∈ gate.accepted, call.InWindow
  distinct : (gate.accepted.map VerifyCall.triple).Nodup

variable {gate next : Gate} {call : VerifyCall}

theorem accepted_snoc_ok (gate : Gate) (call : VerifyCall) (cache : MemoryNonceCache) :
    accepted ⟨cache, gate.log ++ [(call, .ok ())]⟩ = gate.accepted ++ [call] := by
  simp [accepted]

theorem accepted_snoc_error (gate : Gate) (call : VerifyCall) (cache : MemoryNonceCache) (error : Error) :
    accepted ⟨cache, gate.log ++ [(call, .error error)]⟩ = gate.accepted := by
  simp [accepted]

theorem now_le_of_snoc {result : Except Error Unit} {clock : Int}
    (later : ∀ past ∈ gate.log ++ [(call, result)], past.1.now ≤ clock) : call.now ≤ clock :=
  later (call, result) (by simp)

theorem Tracks.refused (tracks : gate.Tracks) {cache : MemoryNonceCache} {error : Error}
    (ledger : cache.Ledger call.now (gate.accepted.map VerifyCall.claimed)) :
    Tracks ⟨cache, gate.log ++ [(call, .error error)]⟩ := by
  have same := accepted_snoc_error gate call cache error
  exact ⟨fun clock later => same ▸ ledger.later (now_le_of_snoc later), same ▸ tracks.inWindow,
    same ▸ tracks.distinct⟩

theorem Tracks.granted (tracks : gate.Tracks) {cache : MemoryNonceCache}
    (window : call.InWindow)
    (old : ∀ grant ∈ gate.accepted.map VerifyCall.claimed,
      grant.1 = key call.creds.deviceId call.creds.nonce → grant.2 + 2 * maxSkew < call.now)
    (ledger : cache.Ledger call.now (gate.accepted.map VerifyCall.claimed ++ [call.claimed])) :
    Tracks ⟨cache, gate.log ++ [(call, .ok ())]⟩ := by
  have grown := accepted_snoc_ok gate call cache
  refine ⟨fun clock later => ?_, ?_, ?_⟩
  · rw [grown, List.map_append]
    exact ledger.later (now_le_of_snoc later)
  · rw [grown]
    simpa [or_imp, forall_and] using ⟨tracks.inWindow, window⟩
  · rw [grown, List.map_append, List.map_singleton]
    apply tracks.distinct.append (List.nodup_singleton _)
    -- an equal triple claimed the same key, too long ago to be in the window still
    rw [List.disjoint_singleton]
    intro member
    obtain ⟨earlier, inLog, same⟩ := List.mem_map.mp member
    simp only [VerifyCall.triple, Prod.mk.injEq] at same
    have expired := old earlier.claimed (List.mem_map_of_mem inLog)
      (by simp [VerifyCall.claimed, same])
    have before := tracks.inWindow earlier inLog
    simp only [VerifyCall.InWindow, VerifyCall.claimed] at *
    omega

theorem Tracks.step (tracks : gate.Tracks) (taken : gate.step call = some next) :
    next.Tracks := by
  simp only [Gate.step, Option.ite_none_right_eq_some, Option.some.injEq] at taken
  obtain ⟨⟨later, -, -⟩, rfl⟩ := taken
  have ledger := tracks.ledger call.now later
  rcases call.verify_cases gate.cache with ⟨window, -, answer⟩ | ⟨-, error, answer⟩
  · rcases ledger.claim (Int.le_refl call.now) call.creds.deviceId call.creds.nonce with
      ⟨granted, old, after⟩ | ⟨refused, -, after⟩
    · simp only [granted, ↓reduceIte] at answer
      rw [answer]
      exact tracks.granted window old after
    · simp only [refused, Bool.false_eq_true, ↓reduceIte] at answer
      rw [answer]
      exact tracks.refused after
  · rw [answer]
    exact tracks.refused ledger

theorem tracks_start : start.Tracks :=
  ⟨fun clock _ => ledger_new clock, by simp [accepted, start], by simp [accepted, start]⟩

/-- In a run of calls no accepted one repeats another's device, nonce and
timestamp, and the next call, if it is in the window with a good signature and
its nonce was not used by its device before, is accepted. -/
theorem no_replay_and_no_lockout (calls : List VerifyCall) (gate : Gate)
    (ran : run (step) start calls = some gate) :
    (gate.accepted.map VerifyCall.triple).Nodup ∧
      ∀ call, gate.Admits call → call.InWindow → call.Signed →
        (∀ past ∈ gate.accepted, ¬ (past.creds.deviceId = call.creds.deviceId ∧
          past.creds.nonce = call.creds.nonce)) →
        (call.verify gate.cache).1 = .ok () := by
  have tracks := run_invariant (fun _ _ _ tracks taken => tracks.step taken) tracks_start ran
  refine ⟨tracks.distinct, fun call ⟨later, id, number⟩ window signed unused => ?_⟩
  rw [call.verify_of_signed window signed]
  rcases (tracks.ledger call.now later).claim (Int.le_refl _) call.creds.deviceId
    call.creds.nonce with ⟨granted, -⟩ | ⟨-, ⟨grant, member, same⟩, -⟩
  · simp only [granted, ↓reduceIte]
  · obtain ⟨past, inLog, rfl⟩ := List.mem_map.mp member
    obtain ⟨sameId, sameNonce⟩ := key_injective id number same.symm
    exact absurd ⟨sameId.symm, sameNonce.symm⟩ (unused past inLog)

/-! One request sent at the first instant of its window, and replayed at the
last. -/

def sampleCall (nonce : String) (now : Int) : VerifyCall where
  creds := {
    deviceId := "d1", keyVersion := 1, timestamp := 1000 * second, nonce
    signature := sign [1, 2, 3] "POST" "/v1/device/events" (unixMilli (1000 * second)) nonce []
    requestId := "" }
  now := now
  method := "POST"
  path := "/v1/device/events"
  body := []
  candidates := AList.singleton 1 [1, 2, 3]

theorem sampleCall_signed (nonce : String) (now : Int) : (sampleCall nonce now).Signed :=
  ⟨[1, 2, 3], rfl, rfl⟩

def sampleGate : Gate :=
  ⟨(newMemoryNonceCache.claim "d1" "n1" (700 * second)).2,
    [(sampleCall "n1" (700 * second), .ok ()),
      (sampleCall "n1" (1300 * second), .error .nonceReplay)]⟩

theorem run_sampleCalls :
    run step start [sampleCall "n1" (700 * second), sampleCall "n1" (1300 * second)] =
      some sampleGate := by
  have first : step start (sampleCall "n1" (700 * second)) =
      some ⟨(newMemoryNonceCache.claim "d1" "n1" (700 * second)).2,
        [(sampleCall "n1" (700 * second), .ok ())]⟩ := by
    rw [step, if_pos (by decide), VerifyCall.verify_of_signed _ (by decide) (sampleCall_signed _ _)]
    rfl
  have second : step ⟨(newMemoryNonceCache.claim "d1" "n1" (700 * second)).2,
      [(sampleCall "n1" (700 * second), .ok ())]⟩ (sampleCall "n1" (1300 * second)) =
      some sampleGate := by
    rw [step, if_pos (by decide), VerifyCall.verify_of_signed _ (by decide) (sampleCall_signed _ _)]
    rfl
  exact (run_cons _ first).trans (run_cons _ second)

theorem sampleCalls_no_replay_and_no_lockout :
    run step start [sampleCall "n1" (700 * second), sampleCall "n1" (1300 * second)] =
        some sampleGate ∧
      (sampleGate.accepted.map VerifyCall.triple).Nodup ∧
      ((sampleCall "n2" (1300 * second)).verify sampleGate.cache).1 = .ok () := by
  obtain ⟨distinct, fresh⟩ := no_replay_and_no_lockout _ sampleGate run_sampleCalls
  exact ⟨run_sampleCalls, distinct, fresh (sampleCall "n2" (1300 * second)) (by decide) (by decide)
    (sampleCall_signed _ _) (by decide)⟩

end Gate

end Presence.Auth
