import Mathlib.Algebra.Group.Nat.Defs
import Presence.Firmware.Digits

namespace Presence.Ota

open Presence.Data Presence.Firmware

/-! # Firmware versions

The version grammar is written out twice: `otaVersionCode` of `ota_verify.h` on
the terminal and `fwversion.Parse` on the gateway.  Both walk over the bytes with
an index; here `rest` is what lies from that index on.
-/

def isDigit (byte : UInt8) : Bool := decide ('0'.toUInt8 ≤ byte ∧ byte ≤ '9'.toUInt8)

/-- A zero in front of another digit. -/
def leadingZero : List UInt8 → Bool
  | first :: second :: _ => first == '0'.toUInt8 && isDigit second
  | _ => false

/-! ## The terminal -/

def kInvalidOtaVersion : UInt64 := 0xFFFFFFFFFFFFFFFF

def kOtaVersionMaxLen : Nat := 17

/-- The loop over the digits of one part. -/
def otaDigits (v : UInt32) (digits : Nat) : List UInt8 → Option (UInt32 × List UInt8)
  | [] => some (v, [])
  | byte :: rest =>
      if isDigit byte then
        if digits + 1 > 5 then none
        else otaDigits (v * 10 + (byte - '0'.toUInt8).toUInt32) (digits + 1) rest
      else some (v, byte :: rest)

def otaPart (rest : List UInt8) : Option (UInt32 × List UInt8) :=
  if !(rest.head?.any isDigit) then none
  else if leadingZero rest then none
  else
    match otaDigits 0 0 rest with
    | none => none
    | some (v, rest) => if v > 65535 then none else some (v, rest)

/-- The loop over the parts, with so many of them left. -/
def otaParts : Nat → UInt64 → List UInt8 → UInt64
  | 0, code, rest => if rest.isEmpty then code else kInvalidOtaVersion
  | parts + 1, code, rest =>
      match otaPart rest with
      | none => kInvalidOtaVersion
      | some (v, rest) =>
          let code := (code <<< 16) ||| v.toUInt64
          if parts = 0 then otaParts parts code rest
          else
            match rest with
            | [] => kInvalidOtaVersion
            | byte :: rest =>
                if byte = '.'.toUInt8 then otaParts parts code rest else kInvalidOtaVersion

def otaVersionCode (s : List UInt8) : UInt64 :=
  if s.length = 0 ∨ s.length > kOtaVersionMaxLen then kInvalidOtaVersion else otaParts 3 0 s

def parseOtaVersion (s : List UInt8) : Option UInt64 :=
  let code := otaVersionCode s
  if code = kInvalidOtaVersion then none else some code

def formatOtaVersion (code : UInt64) : List UInt8 :=
  if code = kInvalidOtaVersion then ascii "invalid"
  else
    jsonInt ((code >>> 32) &&& 0xFFFF).toNat ++ '.'.toUInt8 ::
      jsonInt ((code >>> 16) &&& 0xFFFF).toNat ++ '.'.toUInt8 :: jsonInt (code &&& 0xFFFF).toNat

/-! ## The gateway -/

def maxLen : Nat := 17

def parseDigits (n : UInt64) (digits : Nat) : List UInt8 → Option (UInt64 × List UInt8)
  | [] => some (n, [])
  | byte :: rest =>
      if isDigit byte then
        if digits + 1 > 5 then none
        else parseDigits (n * 10 + (byte - '0'.toUInt8).toUInt64) (digits + 1) rest
      else some (n, byte :: rest)

def parsePart (rest : List UInt8) : Option (UInt64 × List UInt8) :=
  if !(rest.head?.any isDigit) then none
  else if leadingZero rest then none
  else
    match parseDigits 0 0 rest with
    | none => none
    | some (n, rest) => if n > 65535 then none else some (n, rest)

def parseParts : Nat → UInt64 → List UInt8 → Option UInt64
  | 0, code, rest => if rest.isEmpty then some code else none
  | parts + 1, code, rest =>
      match parsePart rest with
      | none => none
      | some (n, rest) =>
          let code := code <<< 16 ||| n
          if parts = 0 then parseParts parts code rest
          else
            match rest with
            | [] => none
            | byte :: rest => if byte = '.'.toUInt8 then parseParts parts code rest else none

/-- `fwversion.Parse`; every refusal is the same `ErrInvalid`. -/
def parse (v : List UInt8) : Option UInt64 :=
  if v.length = 0 ∨ v.length > maxLen then none else parseParts 3 0 v

/-- `fmt.Sprintf("%d.%d.%d", …)`. -/
def format (code : UInt64) : List UInt8 :=
  asciiNumerals.text (code >>> 32 &&& 0xFFFF).toNat ++ '.'.toUInt8 ::
    asciiNumerals.text (code >>> 16 &&& 0xFFFF).toNat ++ '.'.toUInt8 ::
    asciiNumerals.text (code &&& 0xFFFF).toNat

inductive NewerError where
  | candidate (version : List UInt8)
  | current (version : List UInt8)
deriving DecidableEq, Repr

def newer (candidate current : List UInt8) : Except NewerError Bool :=
  match parse candidate, parse current with
  | none, _ => .error (.candidate candidate)
  | some _, none => .error (.current current)
  | some c, some r => .ok (decide (c > r))

/-! ## The two agree

Five digits fit both accumulators, so the loops differ in nothing but the width of
their numbers.
-/

theorem isDigit_iff {byte : UInt8} :
    isDigit byte = true ↔ 48 ≤ byte.toNat ∧ byte.toNat ≤ 57 := by
  simp only [isDigit, decide_eq_true_eq, UInt8.le_iff_toNat_le]
  rfl

theorem digit_toNat {byte : UInt8} (digit : isDigit byte = true) :
    (byte - '0'.toUInt8).toNat = byte.toNat - 48 := by
  have low := (isDigit_iff.mp digit).1
  exact UInt8.toNat_sub_of_le _ _ (UInt8.le_iff_toNat_le.mpr low)

theorem parseDigits_step {n : UInt64} {digits : Nat} {byte : UInt8} (digit : isDigit byte = true)
    (small : n.toNat < 10 ^ digits) (room : digits + 1 ≤ 5) :
    (n * 10 + (byte - '0'.toUInt8).toUInt64).toNat = n.toNat * 10 + (byte.toNat - 48) ∧
      (n * 10 + (byte - '0'.toUInt8).toUInt64).toNat < 10 ^ (digits + 1) := by
  have range := isDigit_iff.mp digit
  have power : 10 ^ digits ≤ 10 ^ 4 := Nat.pow_le_pow_right (by decide) (by omega)
  have value : (n * 10 + (byte - '0'.toUInt8).toUInt64).toNat =
      n.toNat * 10 + (byte.toNat - 48) := by
    rw [UInt64.toNat_add, UInt64.toNat_mul, UInt8.toNat_toUInt64, digit_toNat digit]
    change (n.toNat * 10 % 2 ^ 64 + (byte.toNat - 48)) % 2 ^ 64 = _
    omega
  refine ⟨value, ?_⟩
  rw [value, Nat.pow_succ]
  omega

theorem otaDigits_step {v : UInt32} {digits : Nat} {byte : UInt8} (digit : isDigit byte = true)
    (small : v.toNat < 10 ^ digits) (room : digits + 1 ≤ 5) :
    (v * 10 + (byte - '0'.toUInt8).toUInt32).toNat = v.toNat * 10 + (byte.toNat - 48) := by
  have range := isDigit_iff.mp digit
  have power : 10 ^ digits ≤ 10 ^ 4 := Nat.pow_le_pow_right (by decide) (by omega)
  rw [UInt32.toNat_add, UInt32.toNat_mul, UInt8.toNat_toUInt32, digit_toNat digit]
  change (v.toNat * 10 % 2 ^ 32 + (byte.toNat - 48)) % 2 ^ 32 = _
  omega

theorem otaDigits_eq {v : UInt32} {n : UInt64} (digits : Nat) (same : v.toUInt64 = n)
    (small : n.toNat < 10 ^ digits) (rest : List UInt8) :
    (otaDigits v digits rest).map (Prod.map UInt32.toUInt64 id) = parseDigits n digits rest := by
  induction rest generalizing v n digits with
  | nil => simp [otaDigits, parseDigits, same]
  | cons byte rest ih =>
      simp only [otaDigits, parseDigits]
      split
      next digit =>
        split
        next => rfl
        next room =>
          have narrow : v.toNat < 10 ^ digits := by
            rw [← same, UInt32.toNat_toUInt64] at small
            exact small
          have wide := parseDigits_step digit small (by omega)
          have equal : (v * 10 + (byte - '0'.toUInt8).toUInt32).toUInt64 =
              n * 10 + (byte - '0'.toUInt8).toUInt64 := by
            apply UInt64.toNat.inj
            rw [UInt32.toNat_toUInt64, otaDigits_step digit narrow (by omega), wide.1, ← same,
              UInt32.toNat_toUInt64]
          exact ih (digits + 1) equal wide.2
      next => simp [same]

theorem otaPart_eq (rest : List UInt8) :
    (otaPart rest).map (Prod.map UInt32.toUInt64 id) = parsePart rest := by
  have loops := otaDigits_eq (v := 0) (n := 0) 0 rfl (by decide) rest
  simp only [otaPart, parsePart]
  rw [← loops]
  split
  next => rfl
  next =>
    split
    next => rfl
    next =>
      cases otaDigits 0 0 rest with
      | none => rfl
      | some part =>
          obtain ⟨v, tail⟩ := part
          have range : v > 65535 ↔ v.toUInt64 > 65535 := by
            simp only [GT.gt, UInt32.lt_iff_toNat_lt, UInt64.lt_iff_toNat_lt,
              UInt32.toNat_toUInt64]
            rfl
          simp only [Option.map_some, Prod.map, range]
          split <;> rfl

theorem otaParts_eq (parts : Nat) (code : UInt64) (rest : List UInt8) :
    otaParts parts code rest = (parseParts parts code rest).getD kInvalidOtaVersion := by
  induction parts generalizing code rest with
  | zero =>
      simp only [otaParts, parseParts]
      split <;> rfl
  | succ parts ih =>
      simp only [otaParts, parseParts]
      rw [← otaPart_eq]
      cases otaPart rest with
      | none => rfl
      | some part =>
          obtain ⟨v, tail⟩ := part
          simp only [Option.map_some, Prod.map, id]
          split
          next => exact ih _ _
          next =>
            cases tail with
            | nil => rfl
            | cons byte tail =>
                dsimp only
                split
                next => exact ih _ _
                next => rfl

theorem otaVersionCode_eq (s : List UInt8) :
    otaVersionCode s = (parse s).getD kInvalidOtaVersion := by
  have limits : kOtaVersionMaxLen = maxLen := rfl
  rw [otaVersionCode, parse, limits]
  split
  next => rfl
  next => exact otaParts_eq 3 0 s

/-! ## The grammar -/

theorem isDigit_eq_value (byte : UInt8) : isDigit byte = (asciiNumerals.value byte).isSome := by
  rw [Bool.eq_iff_iff, isDigit_iff]
  simp only [asciiNumerals]
  split
  next inside => simpa using inside
  next outside => simpa using outside

theorem value_of_isDigit {byte : UInt8} (digit : isDigit byte = true) :
    asciiNumerals.value byte = some (byte.toNat - 48) :=
  if_pos (isDigit_iff.mp digit)

/-- The digit loop reads the digits at the front, if there are at most five. -/
theorem parseDigits_eq {n : UInt64} (digits : Nat) (small : n.toNat < 10 ^ digits)
    (within : digits ≤ 5) (rest : List UInt8) :
    let (found, tail) := asciiNumerals.scan rest
    if digits + found.length ≤ 5 then
      ∃ m, parseDigits n digits rest = some (m, tail) ∧ m.toNat = readFrom n.toNat found
    else parseDigits n digits rest = none := by
  induction rest generalizing n digits with
  | nil => simp [Numerals.scan, parseDigits, within, readFrom]
  | cons byte rest ih =>
      by_cases digit : isDigit byte = true
      · rw [Numerals.scan_of_some rest (value_of_isDigit digit)]
        by_cases room : digits + 1 ≤ 5
        · have stepped := parseDigits_step digit small room
          have later := ih (digits + 1) stepped.2 room
          have unrolled : parseDigits n digits (byte :: rest) =
              parseDigits (n * 10 + (byte - '0'.toUInt8).toUInt64) (digits + 1) rest := by
            rw [parseDigits, if_pos digit, if_neg (by omega)]
          rw [stepped.1] at later
          simpa only [unrolled, List.length_cons, readFrom_cons, Nat.add_assoc, Nat.add_comm 1]
            using later
        · have full : parseDigits n digits (byte :: rest) = none := by
            rw [parseDigits, if_pos digit, if_pos (by omega)]
          dsimp only
          rw [if_neg (by simp only [List.length_cons]; omega)]
          exact full
      · have other : asciiNumerals.value byte = none := by
          rw [isDigit_eq_value] at digit
          simpa using digit
        rw [Numerals.scan_of_none rest other]
        have stopped : parseDigits n digits (byte :: rest) = some (n, byte :: rest) := by
          rw [parseDigits, if_neg digit]
        simp [stopped, within, readFrom]

/-- The two checks before the digit loop let exactly the canonical numbers pass. -/
theorem canonical_scan_iff (rest : List UInt8) :
    rest.head?.any isDigit = true ∧ leadingZero rest = false ↔
      Canonical (asciiNumerals.scan rest).1 := by
  cases rest with
  | nil =>
      refine ⟨fun checked => ?_, fun canonical => absurd rfl canonical.nonempty⟩
      exact absurd checked.1 (by simp)
  | cons byte rest =>
      by_cases digit : isDigit byte = true
      · have first := value_of_isDigit digit
        have zero : byte = '0'.toUInt8 ↔ byte.toNat - 48 = 0 := by
          have low := (isDigit_iff.mp digit).1
          rw [← UInt8.toNat_inj]
          change byte.toNat = 48 ↔ _
          omega
        have alone : (asciiNumerals.scan rest).1 = [] ↔ rest.head?.any isDigit = false := by
          cases rest with
          | nil => simp [Numerals.scan]
          | cons second rest =>
              cases value : asciiNumerals.value second with
              | none => simp [Numerals.scan_of_none rest value, isDigit_eq_value, value]
              | some found => simp [Numerals.scan_of_some rest value, isDigit_eq_value, value]
        have refused : leadingZero (byte :: rest) = true ↔
            byte = '0'.toUInt8 ∧ rest.head?.any isDigit = true := by
          cases rest with
          | nil => simp [leadingZero]
          | cons second rest => simp [leadingZero]
        have below := asciiNumerals.scan_below (byte :: rest)
        rw [Numerals.scan_of_some rest first] at below ⊢
        constructor
        · intro checked
          refine ⟨by simp, below, fun leading => ?_⟩
          have isZero : byte.toNat - 48 = 0 := by simpa using leading
          have single : (asciiNumerals.scan rest).1 = [] := by
            rw [alone, Bool.eq_false_iff]
            intro more
            exact absurd (refused.mpr ⟨zero.mpr isZero, more⟩) (by simp [checked.2])
          rw [isZero, single]
        · intro canonical
          refine ⟨by simpa using digit, ?_⟩
          rw [Bool.eq_false_iff]
          intro leading
          obtain ⟨isZero, more⟩ := refused.mp leading
          have lone := canonical.leading (by simp [zero.mp isZero])
          have single : (asciiNumerals.scan rest).1 = [] := by simpa using congrArg List.tail lone
          rw [alone.mp single] at more
          cases more
      · have other : asciiNumerals.value byte = none := by
          rw [isDigit_eq_value] at digit
          simpa using digit
        rw [Numerals.scan_of_none rest other]
        refine ⟨fun checked => absurd (by simpa using checked.1) digit, fun canonical => ?_⟩
        exact absurd rfl canonical.nonempty

theorem parsePart_eq_some_iff {rest tail : List UInt8} {n : UInt64} :
    parsePart rest = some (n, tail) ↔
      n.toNat < 65536 ∧ rest = asciiNumerals.text n.toNat ++ tail ∧ asciiNumerals.Stops tail := by
  have loop := parseDigits_eq (n := 0) 0 (by decide) (by decide) rest
  have range : ∀ m : UInt64, m > 65535 ↔ ¬ m.toNat < 65536 := by
    intro m
    rw [GT.gt, UInt64.lt_iff_toNat_lt]
    change 65535 < m.toNat ↔ _
    omega
  constructor
  · intro accepted
    simp only [parsePart] at accepted
    split at accepted
    next => cases accepted
    next starts =>
      split at accepted
      next => cases accepted
      next unpadded =>
        have canonical := (canonical_scan_iff rest).mp
          ⟨by simpa using starts, by simpa using unpadded⟩
        dsimp only at loop
        split at loop
        next =>
          obtain ⟨m, read, value⟩ := loop
          rw [read] at accepted
          dsimp only at accepted
          split at accepted
          next => cases accepted
          next small =>
            cases accepted
            have below : n.toNat < 65536 := by
              rw [range, not_not] at small
              exact small
            refine ⟨below, ?_, Numerals.scan_stops rest⟩
            have zero : (0 : UInt64).toNat = 0 := rfl
            rw [value, zero, Numerals.text, decimalDigits_readFrom canonical]
            exact Numerals.scan_text rest
        next =>
          rw [loop] at accepted
          cases accepted
  · intro spelled
    obtain ⟨below, rfl, stops⟩ := spelled
    have canonical := canonical_decimalDigits n.toNat
    have scanned : asciiNumerals.scan (asciiNumerals.text n.toNat ++ tail) =
        (decimalDigits n.toNat, tail) := Numerals.scan_append canonical.below stops
    have short : (decimalDigits n.toNat).length ≤ 5 :=
      length_decimalDigits_le (by decide) (by omega)
    rw [scanned] at loop
    dsimp only at loop
    rw [if_pos (by omega)] at loop
    obtain ⟨m, read, value⟩ := loop
    have same : m = n := by
      apply UInt64.toNat.inj
      rw [value]
      exact readFrom_decimalDigits n.toNat
    have checked := (canonical_scan_iff (asciiNumerals.text n.toNat ++ tail)).mpr
      (by rw [scanned]; exact canonical)
    have small : ¬ m > 65535 := by
      rw [range, same]
      exact not_not.mpr below
    simp only [parsePart, checked, read, small]
    simp [same]

theorem packed_toNat {code n : UInt64} (high : code.toNat < 2 ^ 32) (low : n.toNat < 65536) :
    (code <<< 16 ||| n).toNat = code.toNat * 65536 + n.toNat := by
  have shift : (code <<< 16).toNat = code.toNat * 2 ^ 16 := by
    rw [UInt64.toNat_shiftLeft]
    change code.toNat <<< 16 % 2 ^ 64 = _
    rw [Nat.shiftLeft_eq]
    omega
  rw [UInt64.toNat_or, shift, ← Nat.shiftLeft_eq, ← Nat.shiftLeft_add_eq_or_of_lt low,
    Nat.shiftLeft_eq]

theorem packed_three {major minor patch : UInt64} (majorSmall : major.toNat < 65536)
    (minorSmall : minor.toNat < 65536) (patchSmall : patch.toNat < 65536) :
    ((((0 : UInt64) <<< 16 ||| major) <<< 16 ||| minor) <<< 16 ||| patch).toNat =
      (major.toNat * 65536 + minor.toNat) * 65536 + patch.toNat := by
  have first : ((0 : UInt64) <<< 16 ||| major).toNat = major.toNat := by
    rw [packed_toNat (by decide) majorSmall, UInt64.toNat_zero]
    omega
  have second : (((0 : UInt64) <<< 16 ||| major) <<< 16 ||| minor).toNat =
      major.toNat * 65536 + minor.toNat := by
    rw [packed_toNat (by rw [first]; omega) minorSmall, first]
  rw [packed_toNat (by rw [second]; omega) patchSmall, second]

theorem parseParts_dot_iff {parts : Nat} {code result : UInt64} {rest : List UInt8} :
    parseParts (parts + 2) code rest = some result ↔
      ∃ n tail, parsePart rest = some (n, '.'.toUInt8 :: tail) ∧
        parseParts (parts + 1) (code <<< 16 ||| n) tail = some result := by
  rw [parseParts]
  cases parsePart rest with
  | none => simp
  | some part =>
      obtain ⟨n, tail⟩ := part
      cases tail with
      | nil => simp
      | cons byte tail =>
          by_cases dotted : byte = '.'.toUInt8
          · simp [dotted]
          · simp [dotted]

theorem parseParts_last_iff {code result : UInt64} {rest : List UInt8} :
    parseParts 1 code rest = some result ↔
      ∃ n, parsePart rest = some (n, []) ∧ code <<< 16 ||| n = result := by
  rw [parseParts]
  cases parsePart rest with
  | none => simp
  | some part =>
      obtain ⟨n, tail⟩ := part
      cases tail with
      | nil => simp [parseParts]
      | cons byte tail => simp [parseParts]

/-- Three numbers, in the order in which they count. -/
structure Version where
  major : UInt16
  minor : UInt16
  patch : UInt16
deriving DecidableEq, Repr

namespace Version

/-- A.B.C, each number without leading zeros. -/
def text (version : Version) : List UInt8 :=
  asciiNumerals.text version.major.toNat ++ '.'.toUInt8 ::
    (asciiNumerals.text version.minor.toNat ++ '.'.toUInt8 ::
      asciiNumerals.text version.patch.toNat)

def number (version : Version) : Nat :=
  (version.major.toNat * 65536 + version.minor.toNat) * 65536 + version.patch.toNat

/-- The lexicographic order. -/
def Older (first second : Version) : Prop :=
  first.major < second.major ∨ first.major = second.major ∧
    (first.minor < second.minor ∨ first.minor = second.minor ∧ first.patch < second.patch)

instance (first second : Version) : Decidable (first.Older second) :=
  inferInstanceAs (Decidable (_ ∨ _))

theorem number_lt (version : Version) : version.number < 2 ^ 48 := by
  have major := version.major.toNat_lt
  have minor := version.minor.toNat_lt
  have patch := version.patch.toNat_lt
  simp only [number]
  omega

theorem number_lt_iff {first second : Version} :
    first.number < second.number ↔ first.Older second := by
  have minors := first.minor.toNat_lt
  have minors' := second.minor.toNat_lt
  have patches := first.patch.toNat_lt
  have patches' := second.patch.toNat_lt
  simp only [Older, number, UInt16.lt_iff_toNat_lt, ← UInt16.toNat_inj]
  omega

theorem length_text (version : Version) :
    0 < version.text.length ∧ version.text.length ≤ maxLen := by
  have digits : ∀ part : UInt16, (asciiNumerals.text part.toNat).length ≤ 5 := by
    intro part
    have bound := part.toNat_lt
    rw [Numerals.text, List.length_map]
    exact length_decimalDigits_le (by decide) (by omega)
  have major := digits version.major
  have minor := digits version.minor
  have patch := digits version.patch
  simp only [text, List.length_append, List.length_cons, maxLen]
  omega

/-- The parts of a packed version. -/
def ofNumber (number : Nat) : Version :=
  ⟨.ofNat (number / 2 ^ 32), .ofNat (number / 2 ^ 16), .ofNat number⟩

theorem number_ofNumber {number : Nat} (bounded : number < 2 ^ 48) :
    (ofNumber number).number = number := by
  simp only [ofNumber, Version.number, UInt16.toNat_ofNat']
  omega

end Version

private theorem dot_stops (tail : List UInt8) : asciiNumerals.Stops ('.'.toUInt8 :: tail) := by
  intro mark first
  cases first
  rfl

/-- The gateway accepts exactly the spelled-out versions. -/
theorem parse_eq_some_iff {v : List UInt8} {code : UInt64} :
    parse v = some code ↔ ∃ version : Version, v = version.text ∧ code.toNat = version.number := by
  constructor
  · intro accepted
    rw [parse] at accepted
    split at accepted
    next => cases accepted
    next =>
      obtain ⟨major, afterMajor, first, accepted⟩ := parseParts_dot_iff.mp accepted
      obtain ⟨minor, afterMinor, second, accepted⟩ := parseParts_dot_iff.mp accepted
      obtain ⟨patch, third, rfl⟩ := parseParts_last_iff.mp accepted
      obtain ⟨majorSmall, rfl, -⟩ := parsePart_eq_some_iff.mp first
      obtain ⟨minorSmall, rfl, -⟩ := parsePart_eq_some_iff.mp second
      obtain ⟨patchSmall, rfl, -⟩ := parsePart_eq_some_iff.mp third
      refine ⟨⟨.ofNat major.toNat, .ofNat minor.toNat, .ofNat patch.toNat⟩, ?_, ?_⟩
      · simp only [Version.text, UInt16.toNat_ofNat', Nat.reducePow, Nat.mod_eq_of_lt majorSmall,
          Nat.mod_eq_of_lt minorSmall, Nat.mod_eq_of_lt patchSmall, List.append_nil]
      · rw [packed_three majorSmall minorSmall patchSmall]
        simp only [Version.number, UInt16.toNat_ofNat', Nat.reducePow,
          Nat.mod_eq_of_lt majorSmall, Nat.mod_eq_of_lt minorSmall, Nat.mod_eq_of_lt patchSmall]
  · intro spelled
    obtain ⟨version, rfl, value⟩ := spelled
    have bounds := version.length_text
    have small : ∀ part : UInt16, part.toUInt64.toNat < 65536 := by
      intro part
      rw [UInt16.toNat_toUInt64]
      exact part.toNat_lt
    have majorSmall := small version.major
    have minorSmall := small version.minor
    have patchSmall := small version.patch
    rw [parse, if_neg (by omega)]
    refine parseParts_dot_iff.mpr ⟨version.major.toUInt64, _, parsePart_eq_some_iff.mpr
      ⟨majorSmall, by rw [UInt16.toNat_toUInt64]; rfl, dot_stops _⟩, ?_⟩
    refine parseParts_dot_iff.mpr ⟨version.minor.toUInt64, _, parsePart_eq_some_iff.mpr
      ⟨minorSmall, by rw [UInt16.toNat_toUInt64], dot_stops _⟩, ?_⟩
    refine parseParts_last_iff.mpr ⟨version.patch.toUInt64, parsePart_eq_some_iff.mpr
      ⟨patchSmall, by simp, Numerals.stops_nil⟩, ?_⟩
    apply UInt64.toNat.inj
    rw [packed_three majorSmall minorSmall patchSmall, value]
    simp only [Version.number, UInt16.toNat_toUInt64]

/-- A version holds nothing but digits and dots. -/
theorem not_mem_version {mark : UInt8} {v : List UInt8} {code : UInt64}
    (other : asciiNumerals.value mark = none) (dot : mark ≠ '.'.toUInt8)
    (accepted : parse v = some code) : mark ∉ v := by
  obtain ⟨version, rfl, -⟩ := parse_eq_some_iff.mp accepted
  have absent := asciiNumerals.not_mem_text other
  simp [Version.text, absent, dot]

theorem parse_lt {v : List UInt8} {code : UInt64} (accepted : parse v = some code) :
    code.toNat < 2 ^ 48 := by
  obtain ⟨version, -, value⟩ := parse_eq_some_iff.mp accepted
  rw [value]
  exact version.number_lt

theorem ne_kInvalidOtaVersion {code : UInt64} (bounded : code.toNat < 2 ^ 48) :
    code ≠ kInvalidOtaVersion := by
  intro same
  rw [same] at bounded
  exact absurd bounded (by decide)

/-- Terminal and gateway read every byte string alike. -/
theorem parseOtaVersion_eq (s : List UInt8) : parseOtaVersion s = parse s := by
  rw [parseOtaVersion, otaVersionCode_eq]
  cases accepted : parse s with
  | none => rfl
  | some code =>
      simp only [Option.getD_some]
      rw [if_neg (ne_kInvalidOtaVersion (parse_lt accepted))]

/-! ## Writing a version -/

private theorem and_mask (code : UInt64) : (code &&& 0xFFFF).toNat = code.toNat % 65536 := by
  rw [UInt64.toNat_and]
  exact Nat.and_two_pow_sub_one_eq_mod _ 16

private theorem shifted (code : UInt64) :
    (code >>> 32).toNat = code.toNat / 2 ^ 32 ∧ (code >>> 16).toNat = code.toNat / 2 ^ 16 := by
  constructor <;>
  · rw [UInt64.toNat_shiftRight]
    exact Nat.shiftRight_eq_div_pow _ _

theorem format_eq_text {code : UInt64} {version : Version} (value : code.toNat = version.number) :
    format code = version.text := by
  have minor := version.minor.toNat_lt
  have patch := version.patch.toNat_lt
  have major := version.major.toNat_lt
  have parts : code.toNat / 2 ^ 32 % 65536 = version.major.toNat ∧
      code.toNat / 2 ^ 16 % 65536 = version.minor.toNat ∧
      code.toNat % 65536 = version.patch.toNat := by
    rw [value, Version.number]
    omega
  simp only [format, and_mask, shifted, parts, Version.text, List.append_assoc, List.cons_append]

theorem formatOtaVersion_eq {code : UInt64} (bounded : code.toNat < 2 ^ 48) :
    formatOtaVersion code = format code := by
  have part : ∀ rest : UInt64, jsonInt (rest &&& 0xFFFF).toNat =
      asciiNumerals.text (rest &&& 0xFFFF).toNat := by
    intro rest
    apply jsonInt_natCast
    rw [and_mask]
    omega
  rw [formatOtaVersion, if_neg (ne_kInvalidOtaVersion bounded), part, part, part, format]

theorem format_parse {s : List UInt8} {code : UInt64} (accepted : parse s = some code) :
    format code = s := by
  obtain ⟨version, rfl, value⟩ := parse_eq_some_iff.mp accepted
  exact format_eq_text value

theorem parse_format {code : UInt64} (bounded : code.toNat < 2 ^ 48) :
    parse (format code) = some code := by
  have value : code.toNat = (Version.ofNumber code.toNat).number :=
    (Version.number_ofNumber bounded).symm
  exact parse_eq_some_iff.mpr ⟨_, format_eq_text value, value⟩

end Presence.Ota
