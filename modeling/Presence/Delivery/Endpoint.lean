import Mathlib.Algebra.Group.Nat.Defs
import Presence.Data.AddressBlock
import Presence.Data.Bytes

namespace Presence.Delivery

open Presence.Data

/-! # Where deliveries may go

`endpoint.go`, checked once when the worker starts.  The URL parser and the resolver are
parameters.
-/

/-- `net.IP`. -/
inductive IP where
  | v4 (bytes : Vector UInt8 4)
  | v6 (bytes : Vector UInt8 16)
deriving DecidableEq, Repr

namespace IP

def v4InV6Prefix : List UInt8 := [0, 0, 0, 0, 0, 0, 0, 0, 0, 0, 0xff, 0xff]

def to4 : IP → Option (Vector UInt8 4)
  | .v4 bytes => some bytes
  | .v6 bytes =>
      if bytes.toList.take 12 = v4InV6Prefix then some (bytes.drop 12) else none

def to16 : IP → List UInt8
  | .v4 bytes => v4InV6Prefix ++ bytes.toList
  | .v6 bytes => bytes.toList

/-- The classifiers of `net.IP` ask the four bytes of an address if it has them, and
the sixteen otherwise. -/
def classify (four : Vector UInt8 4 → Bool) (six : Vector UInt8 16 → Bool) (ip : IP) : Bool :=
  match ip.to4 with
  | some ip4 => four ip4
  | none =>
      match ip with
      | .v4 _ => false
      | .v6 bytes => six bytes

def isLoopback : IP → Bool :=
  classify (fun ip4 => ip4[0] == 127) fun ip => ip.toList == List.replicate 15 0 ++ [1]

def isLinkLocalUnicast : IP → Bool :=
  classify (fun ip4 => ip4[0] == 169 && ip4[1] == 254) fun ip =>
    ip[0] == 0xfe && ip[1] &&& 0xc0 == 0x80

def isLinkLocalMulticast : IP → Bool :=
  classify (fun ip4 => ip4[0] == 224 && ip4[1] == 0 && ip4[2] == 0) fun ip =>
    ip[0] == 0xff && ip[1] &&& 0x0f == 0x02

def isPrivate : IP → Bool :=
  classify (fun ip4 => ip4[0] == 10 || (ip4[0] == 172 && ip4[1] &&& 0xf0 == 16) ||
    (ip4[0] == 192 && ip4[1] == 168)) fun ip => ip[0] &&& 0xfe == 0xfc

def isUnspecified : IP → Bool :=
  classify (fun ip4 => ip4.toList == List.replicate 4 0) fun ip => ip.toList == List.replicate 16 0

def isMulticast : IP → Bool :=
  classify (fun ip4 => ip4[0] &&& 0xf0 == 0xe0) fun ip => ip[0] == 0xff

end IP

inductive EndpointError where
  | malformed
  | insecure
  | scheme (scheme : String)
  | noHost
  | unresolved
  | resolvesTo (kind : String)
deriving DecidableEq, Repr

def checkAddr (ip : IP) : Except EndpointError Unit :=
  if ip.isLoopback then .error (.resolvesTo "a loopback address")
  else if ip.isLinkLocalUnicast || ip.isLinkLocalMulticast then
    .error (.resolvesTo "a link-local address")
  else if ip.isPrivate then .error (.resolvesTo "a private address")
  else if ip.isUnspecified then .error (.resolvesTo "the unspecified address")
  else if ip.isMulticast then .error (.resolvesTo "a multicast address")
  else .ok ()

structure URL where
  scheme : String
  hostname : String
deriving DecidableEq, Repr

/-- `url.Parse`, `net.ParseIP` and `net.LookupIP`. -/
structure Network where
  parse : String → Option URL
  parseIP : String → Option IP
  lookupIP : String → Option (List IP)

structure Policy where
  allowInsecureHTTP : Bool
  allowPrivateEndpoints : Bool
deriving DecidableEq, Repr

/-- The loop of `checkNotPrivate`. -/
def checkAddrs : List IP → Except EndpointError Unit
  | [] => .ok ()
  | ip :: addrs =>
      match checkAddr ip with
      | .error err => .error err
      | .ok _ => checkAddrs addrs

def checkNotPrivate (network : Network) (host : String) : Except EndpointError Unit :=
  match network.parseIP host with
  | some ip => checkAddr ip
  | none =>
      match network.lookupIP host with
      | none => .error .unresolved
      | some addrs => checkAddrs addrs

def validateEndpoint (network : Network) (policy : Policy) (rawURL : String) :
    Except EndpointError URL :=
  match network.parse rawURL with
  | none => .error .malformed
  | some u =>
      if u.scheme = "http" ∧ policy.allowInsecureHTTP = false then .error .insecure
      else if u.scheme ≠ "https" ∧ u.scheme ≠ "http" then .error (.scheme u.scheme)
      else if u.hostname = "" then .error .noHost
      else if policy.allowPrivateEndpoints then .ok u
      else
        match checkNotPrivate network u.hostname with
        | .error err => .error err
        | .ok _ => .ok u

/-! ## The addresses behind the classifiers -/

namespace IP

def number (ip : IP) : Nat := numberOf ip.to16

/-- The IPv4 addresses, `::ffff:0:0/96`. -/
def mapped : Block := ⟨0xffff, 32⟩

theorem number_of_to4 {ip : IP} {ip4 : Vector UInt8 4} (found : ip.to4 = some ip4) :
    ip.number = numberOf (v4InV6Prefix ++ ip4.toList) := by
  cases ip with
  | v4 bytes => cases found; rfl
  | v6 bytes =>
      obtain ⟨lead, same⟩ := Option.ite_none_right_eq_some.mp found
      cases same
      rw [number, to16, ← lead, Vector.toList_drop, List.take_append_drop]

theorem mapped_of_to4 {ip : IP} {ip4 : Vector UInt8 4} (found : ip.to4 = some ip4) :
    mapped.contains ip.number = true := by
  rw [number_of_to4 found]
  refine (Block.contains_numberOf v4InV6Prefix 0 ?_).mpr (by decide)
  simp [mapped]

theorem not_mapped_of_to4 {bytes : Vector UInt8 16} (none : (IP.v6 bytes).to4 = none) :
    mapped.contains (IP.v6 bytes).number = false := by
  have different : bytes.toList.take 12 ≠ v4InV6Prefix := by
    simpa only [to4, ite_eq_right_iff, reduceCtorEq, imp_false] using none
  by_contra inside
  rw [Bool.not_eq_false, number, to16, ← List.take_append_drop 12 bytes.toList,
    Block.contains_numberOf _ 0 (by simp [mapped])] at inside
  have lead : numberOf (bytes.toList.take 12) = numberOf v4InV6Prefix := by
    rw [Nat.pow_zero, Nat.div_one] at inside
    exact inside.trans (by decide)
  exact different (numberOf_injective (by simp [v4InV6Prefix]) lead)

theorem classify_iff {four : Vector UInt8 4 → Bool} {six : Vector UInt8 16 → Bool}
    (ip : IP) (fourBlocks sixBlocks : List Block)
    (inside : ∀ block ∈ fourBlocks, block.within mapped = true)
    (outside : ∀ block ∈ sixBlocks, block.within mapped = false ∧ mapped.within block = false)
    (fourIff : ∀ ip4, four ip4 = true ↔
      ∃ block ∈ fourBlocks, block.contains (numberOf (v4InV6Prefix ++ ip4.toList)) = true)
    (sixIff : ∀ bytes, six bytes = true ↔
      ∃ block ∈ sixBlocks, block.contains (numberOf bytes.toList) = true) :
    classify four six ip = true ↔ ∃ block ∈ fourBlocks ++ sixBlocks, block.contains ip.number = true := by
  simp only [List.mem_append, or_and_right, exists_or]
  cases found : ip.to4 with
  | some ip4 =>
      have elsewhere : ¬ ∃ block ∈ sixBlocks, block.contains ip.number = true := by
        rintro ⟨block, listed, member⟩
        obtain ⟨apart, around⟩ := outside block listed
        rcases Block.within_or_within member (mapped_of_to4 found) with nested | nested
        · simp [apart] at nested
        · simp [around] at nested
      simp only [classify, found, fourIff, number_of_to4 found] at elsewhere ⊢
      simp only [elsewhere, or_false]
  | none =>
      cases ip with
      | v4 bytes => cases found
      | v6 bytes =>
          have elsewhere : ¬ ∃ block ∈ fourBlocks, block.contains (IP.v6 bytes).number = true := by
            rintro ⟨block, listed, member⟩
            have both := Block.contains_of_within (inside block listed) member
            simp [not_mapped_of_to4 found] at both
          simp only [classify, found, sixIff, elsewhere, false_or]
          rfl

theorem toList_two {width : Nat} (bytes : Vector UInt8 (width + 2)) :
    ∃ rest, bytes.toList = bytes[0] :: bytes[1] :: rest ∧ rest.length = width := by
  obtain ⟨⟨_ | ⟨first, _ | ⟨second, rest⟩⟩⟩, sized⟩ := bytes
  · simp at sized
  · simp at sized
  · exact ⟨rest, rfl, by simpa using sized⟩

theorem numberOf_v4InV6Prefix : numberOf v4InV6Prefix = 0xffff := by
  decide

/-- Masks that keep the high bits. -/
theorem masks (byte : UInt8) :
    (byte &&& 0xc0 = 0x80 ↔ byte.toNat / 64 = 2) ∧ (byte &&& 0xf0 = 16 ↔ byte.toNat / 16 = 1) ∧
      (byte &&& 0xfe = 0xfc ↔ byte.toNat / 2 = 126) ∧ (byte &&& 0xf0 = 0xe0 ↔ byte.toNat / 16 = 14) := by
  refine @forall_byte (fun byte => (byte &&& 0xc0 = 0x80 ↔ byte.toNat / 64 = 2) ∧
    (byte &&& 0xf0 = 16 ↔ byte.toNat / 16 = 1) ∧ (byte &&& 0xfe = 0xfc ↔ byte.toNat / 2 = 126) ∧
    (byte &&& 0xf0 = 0xe0 ↔ byte.toNat / 16 = 14)) ?_ byte
  decide +kernel

/-- `127.0.0.0/8` and `::1`. -/
def loopback : List Block := [⟨0xffff7f, 24⟩, ⟨1, 0⟩]

/-- `169.254.0.0/16` and `fe80::/10`. -/
def linkLocal : List Block := [⟨0xffffa9fe, 16⟩, ⟨0x3fa, 118⟩]

/-- `10.0.0.0/8`, `172.16.0.0/12`, `192.168.0.0/16` and `fc00::/7`. -/
def privateUse : List Block := [⟨0xffff0a, 24⟩, ⟨0xffffac1, 20⟩, ⟨0xffffc0a8, 16⟩, ⟨0x7e, 121⟩]

/-- `0.0.0.0` and `::`. -/
def unspecified : List Block := [⟨0xffff00000000, 0⟩, ⟨0, 0⟩]

/-- `224.0.0.0/4` and `ff00::/8`. -/
def multicast : List Block := [⟨0xffffe, 28⟩, ⟨0xff, 120⟩]

theorem isLoopback_iff (ip : IP) :
    ip.isLoopback = true ↔ ∃ block ∈ loopback, block.contains ip.number = true := by
  have one : numberOf (List.replicate 15 0 ++ [1]) = 1 := by decide
  refine classify_iff ip [⟨0xffff7f, 24⟩] [⟨1, 0⟩] (by decide) (by decide) (fun ip4 => ?_) fun bytes => ?_
  · obtain ⟨rest, spelled, two⟩ := toList_two ip4
    simp only [List.mem_singleton, exists_eq_left, beq_iff_eq]
    rw [spelled, Block.contains_first v4InV6Prefix 0 (by simp [two]), numberOf_v4InV6Prefix,
      ← UInt8.toNat_inj]
    simp
    omega
  · simp only [List.mem_singleton, exists_eq_left, beq_iff_eq, Block.contains_whole]
    exact ⟨fun same => same ▸ one, fun same =>
      numberOf_injective (by simp) (same.trans one.symm)⟩

theorem isLinkLocalUnicast_iff (ip : IP) :
    ip.isLinkLocalUnicast = true ↔ ∃ block ∈ linkLocal, block.contains ip.number = true := by
  refine classify_iff ip [⟨0xffffa9fe, 16⟩] [⟨0x3fa, 118⟩] (by decide) (by decide) (fun ip4 => ?_)
    fun bytes => ?_
  · obtain ⟨rest, spelled, two⟩ := toList_two ip4
    simp only [List.mem_singleton, exists_eq_left, Bool.and_eq_true, beq_iff_eq]
    rw [spelled, Block.contains_second v4InV6Prefix 0 (by simp [two]), numberOf_v4InV6Prefix,
      ← UInt8.toNat_inj, ← UInt8.toNat_inj]
    have small := ip4[1].toNat_lt
    simp
    omega
  · obtain ⟨rest, spelled, fourteen⟩ := toList_two bytes
    simp only [List.mem_singleton, exists_eq_left, Bool.and_eq_true, beq_iff_eq]
    rw [spelled, ← List.nil_append (_ :: _), Block.contains_second [] 6 (by simp [fourteen]),
      ← UInt8.toNat_inj, (masks bytes[1]).1]
    have small := bytes[1].toNat_lt
    simp [numberOf]
    omega

theorem isPrivate_iff (ip : IP) :
    ip.isPrivate = true ↔ ∃ block ∈ privateUse, block.contains ip.number = true := by
  refine classify_iff ip [⟨0xffff0a, 24⟩, ⟨0xffffac1, 20⟩, ⟨0xffffc0a8, 16⟩] [⟨0x7e, 121⟩] (by decide)
    (by decide) (fun ip4 => ?_) fun bytes => ?_
  · obtain ⟨rest, spelled, two⟩ := toList_two ip4
    simp only [List.mem_cons, List.not_mem_nil, or_false, or_and_right, exists_or, exists_eq_left,
      Bool.or_eq_true, Bool.and_eq_true, beq_iff_eq]
    rw [spelled, Block.contains_first v4InV6Prefix 0 (by simp [two]),
      Block.contains_second v4InV6Prefix 4 (by simp [two]),
      Block.contains_second v4InV6Prefix 0 (by simp [two]), numberOf_v4InV6Prefix, (masks ip4[1]).2.1]
    simp only [← UInt8.toNat_inj]
    have small := ip4[1].toNat_lt
    simp
    omega
  · obtain ⟨rest, spelled, fourteen⟩ := toList_two bytes
    simp only [List.mem_singleton, exists_eq_left, beq_iff_eq]
    rw [spelled, ← List.nil_append (_ :: _), Block.contains_first [] 1 (by simp [fourteen]),
      (masks bytes[0]).2.2.1]
    simp [numberOf]

theorem isMulticast_iff (ip : IP) :
    ip.isMulticast = true ↔ ∃ block ∈ multicast, block.contains ip.number = true := by
  refine classify_iff ip [⟨0xffffe, 28⟩] [⟨0xff, 120⟩] (by decide) (by decide) (fun ip4 => ?_)
    fun bytes => ?_
  · obtain ⟨rest, spelled, two⟩ := toList_two ip4
    simp only [List.mem_singleton, exists_eq_left, beq_iff_eq]
    rw [spelled, Block.contains_first v4InV6Prefix 4 (by simp [two]), numberOf_v4InV6Prefix,
      (masks ip4[0]).2.2.2]
    have small := ip4[0].toNat_lt
    simp
    omega
  · obtain ⟨rest, spelled, fourteen⟩ := toList_two bytes
    simp only [List.mem_singleton, exists_eq_left, beq_iff_eq]
    rw [spelled, ← List.nil_append (_ :: _), Block.contains_first [] 0 (by simp [fourteen]),
      ← UInt8.toNat_inj]
    simp [numberOf]

theorem isUnspecified_iff (ip : IP) :
    ip.isUnspecified = true ↔ ∃ block ∈ unspecified, block.contains ip.number = true := by
  have first : numberOf (v4InV6Prefix ++ List.replicate 4 0) = 0xffff00000000 := by decide
  have second : numberOf (List.replicate 16 0) = 0 := by decide
  refine classify_iff ip [⟨0xffff00000000, 0⟩] [⟨0, 0⟩] (by decide) (by decide) (fun ip4 => ?_)
    fun bytes => ?_
  · simp only [List.mem_singleton, exists_eq_left, beq_iff_eq, Block.contains_whole]
    exact ⟨fun same => same ▸ first, fun same => List.append_cancel_left
      (numberOf_injective (by simp) (same.trans first.symm))⟩
  · simp only [List.mem_singleton, exists_eq_left, beq_iff_eq, Block.contains_whole]
    exact ⟨fun same => same ▸ second, fun same =>
      numberOf_injective (by simp) (same.trans second.symm)⟩

theorem isMulticast_of_linkLocal {ip : IP} (linkLocal : ip.isLinkLocalMulticast = true) :
    ip.isMulticast = true := by
  have byte : ∀ ip4 : UInt8, ip4 = 224 → ip4 &&& 0xf0 = 0xe0 := by
    rintro _ rfl
    rfl
  simp only [isLinkLocalMulticast, isMulticast, classify] at linkLocal ⊢
  split at linkLocal
  next ip4 found =>
    simp only [Bool.and_eq_true, beq_iff_eq] at linkLocal ⊢
    exact byte _ linkLocal.1.1
  next =>
    cases ip with
    | v4 => cases linkLocal
    | v6 bytes => exact (Bool.and_eq_true _ _ ▸ linkLocal).1

/-- What a delivery must not reach. -/
def internal : List Block := loopback ++ linkLocal ++ privateUse ++ unspecified ++ multicast

end IP

theorem checkAddr_ok_iff (ip : IP) :
    checkAddr ip = .ok () ↔ ∀ block ∈ IP.internal, block.contains ip.number = false := by
  have class_iff : ∀ (asks : IP → Bool) (blocks : List Block),
      (asks ip = true ↔ ∃ block ∈ blocks, block.contains ip.number = true) →
      (asks ip = false ↔ ∀ block ∈ blocks, block.contains ip.number = false) := by
    intro asks blocks known
    rw [← Bool.not_eq_true, known]
    simp
  simp only [IP.internal, List.mem_append, or_imp, forall_and,
    ← class_iff _ _ ip.isLoopback_iff, ← class_iff _ _ ip.isLinkLocalUnicast_iff,
    ← class_iff _ _ ip.isPrivate_iff, ← class_iff _ _ ip.isUnspecified_iff,
    ← class_iff _ _ ip.isMulticast_iff]
  have covered : ip.isMulticast = false → ip.isLinkLocalMulticast = false := fun apart =>
    Bool.eq_false_iff.mpr fun linkLocal => by simp [IP.isMulticast_of_linkLocal linkLocal] at apart
  grind [checkAddr]

-- an address has one number however it is written; carrier-grade NAT is let through
example : checkAddr (.v6 #v[0, 0, 0, 0, 0, 0, 0, 0, 0, 0, 0xff, 0xff, 10, 0, 0, 5]) =
      .error (.resolvesTo "a private address") ∧
    checkAddr (.v4 #v[100, 64, 0, 1]) = .ok () := by decide

theorem checkAddrs_ok_iff (addrs : List IP) :
    checkAddrs addrs = .ok () ↔ ∀ ip ∈ addrs, checkAddr ip = .ok () := by
  induction addrs with
  | nil => simp [checkAddrs]
  | cons ip addrs ih =>
      rw [checkAddrs, List.forall_mem_cons]
      cases checked : checkAddr ip with
      | error err => simp
      | ok => simp [ih]

/-- What a host stands for when it is checked. -/
def Network.addresses (network : Network) (host : String) : Option (List IP) :=
  match network.parseIP host with
  | some ip => some [ip]
  | none => network.lookupIP host

theorem checkNotPrivate_ok_iff (network : Network) (host : String) :
    checkNotPrivate network host = .ok () ↔
      ∃ addrs, network.addresses host = some addrs ∧ ∀ ip ∈ addrs, checkAddr ip = .ok () := by
  rw [checkNotPrivate, Network.addresses]
  cases network.parseIP host with
  | some ip => simp
  | none =>
      cases network.lookupIP host with
      | none => simp
      | some addrs => simp [checkAddrs_ok_iff]

/-- An endpoint is accepted exactly when its scheme is allowed, it names a host and,
unless the policy lets it, no address of the host is in an internal block. -/
theorem validateEndpoint_ok_iff (network : Network) (policy : Policy) (rawURL : String) (u : URL) :
    validateEndpoint network policy rawURL = .ok u ↔
      network.parse rawURL = some u ∧
        (u.scheme = "https" ∨ u.scheme = "http" ∧ policy.allowInsecureHTTP = true) ∧
        u.hostname ≠ "" ∧
        (policy.allowPrivateEndpoints = true ∨
          ∃ addrs, network.addresses u.hostname = some addrs ∧
            ∀ ip ∈ addrs, ∀ block ∈ IP.internal, block.contains ip.number = false) := by
  simp only [← checkAddr_ok_iff, ← checkNotPrivate_ok_iff]
  rw [validateEndpoint]
  cases network.parse rawURL with
  | none => simp
  | some url =>
      simp only [Option.some.injEq]
      constructor
      · intro accepted
        grind
      · rintro ⟨rfl, scheme, host, addresses⟩
        have insecure : ¬(url.scheme = "http" ∧ policy.allowInsecureHTTP = false) := by
          rcases scheme with https | ⟨-, allowed⟩
          · simp [https]
          · simp [allowed]
        have known : ¬(url.scheme ≠ "https" ∧ url.scheme ≠ "http") := by
          rcases scheme with https | ⟨http, -⟩
          · simp [https]
          · simp [http]
        rw [if_neg insecure, if_neg known, if_neg host]
        rcases addresses with allowed | outside
        · rw [if_pos allowed]
        · rw [outside]
          exact ite_self _

end Presence.Delivery
