import Presence.Data.Json
import Presence.Firmware.Calendar
import Presence.Firmware.Digits
import Presence.Gateway.Decode
import Presence.Postgres.Types

namespace Presence.Firmware

open Presence.Data Presence.Gateway Presence.Go Presence.Postgres

/-! # The text of an events batch

`buildEventsJson` as it appends its pieces.  Every byte is ASCII, so the text is a
list of characters.
-/

def chars (bytes : List UInt8) : List Char := bytes.map fun byte => Char.ofNat byte.toNat

def formatRfc3339Utc (epochMs : Int) : List Char :=
  let date := civil epochMs
  chars (appendPadded date.year 4) ++ '-' :: chars (appendPadded date.month 2) ++
    '-' :: chars (appendPadded date.day 2) ++ 'T' :: chars (appendPadded date.hour 2) ++
    ':' :: chars (appendPadded date.minute 2) ++ ':' :: chars (appendPadded date.second 2) ++
    '.' :: chars (appendPadded date.milli 3) ++ ['Z']

def eventText (record : PunchRecord) : List Char :=
  "\x7b\"seq\":".toList ++ chars (jsonInt (toInt64 record.seq)) ++
    ",\"event_uuid\":\"".toList ++ (formatUuid record.uuid).toList ++ ['"'] ++
    (if record.capturedEpochMs > 0 then
      ",\"captured_at\":\"".toList ++ formatRfc3339Utc (toInt64 record.capturedEpochMs) ++ ['"']
    else []) ++
    (if record.capturedUptimeMs > 0 then
      ",\"captured_uptime_ms\":".toList ++ chars (jsonInt (toInt64 record.capturedUptimeMs))
    else []) ++
    ",\"time_source\":\"".toList ++ (timeSourceName record.timeSource).toList ++
    "\",\"credential_kind\":\"".toList ++ (credentialKindName record.credentialKind).toList ++ ['"'] ++
    (if record.slotNo > 0 then ",\"slot_no\":".toList ++ chars (jsonInt record.slotNo.toNat) else []) ++
    (if record.matchScore > 0 then
      ",\"match_score\":".toList ++ chars (jsonInt record.matchScore.toNat)
    else []) ++
    ",\"direction_hint\":\"".toList ++ (directionHintName record.directionHint).toList ++
    "\"\x7d".toList

/-- The loop over the batch, from an index on. -/
def eventsText (index : Nat) : List PunchRecord → List Char
  | [] => []
  | record :: rest =>
      (if index > 0 then [','] else []) ++ eventText record ++ eventsText (index + 1) rest

def buildEventsJson (batch : List PunchRecord) (envelope : BatchMeta) : List Char :=
  "\x7b\"request_id\":\"".toList ++ envelope.requestId.toList ++
    "\",\"device_uptime_ms\":".toList ++ chars (jsonInt (toInt64 envelope.deviceUptimeMs)) ++
    ",\"buffer_depth\":".toList ++ chars (jsonInt envelope.bufferDepth) ++
    ",\"events\":[".toList ++ eventsText 0 batch ++ "]\x7d".toList

/-! ## Numbers -/

theorem chars_symbols {digits : List Nat} (below : ∀ digit ∈ digits, digit < 10) :
    chars (digits.map asciiNumerals.symbol) = digits.map Json.numerals.symbol := by
  have same : ∀ digit < 10, Char.ofNat (asciiNumerals.symbol digit).toNat =
      Json.numerals.symbol digit := by
    decide
  rw [chars, List.map_map]
  exact List.map_congr_left fun digit member => same digit (below digit member)

theorem chars_jsonInt {number : Nat} (bounded : number < 2 ^ 63) :
    chars (jsonInt number) = Json.numerals.text number := by
  rw [jsonInt_natCast (by omega), Numerals.text]
  exact chars_symbols (canonical_decimalDigits number).below

theorem decimal_symbols {digits : List Nat} (below : ∀ digit ∈ digits, digit < 10) (value : Nat) :
    decimal value (digits.map Json.numerals.symbol) = some (readFrom value digits) := by
  have known : ∀ digit < 10, decimalDigit (Json.numerals.symbol digit) = some digit := by decide
  induction digits generalizing value with
  | nil => rfl
  | cons digit rest ih =>
      have first := known digit (below digit (by simp))
      rw [List.map_cons, decimal, first, readFrom_cons]
      exact ih (fun other member => below other (by simp [member])) _

theorem inInt64_natCast {number : Nat} (bounded : number < 2 ^ 63) :
    inInt64 (number : Int) = some (number : Int) :=
  if_pos (by omega)

/-- Without a sign. -/
theorem parseInt_digits {text : List Char} {value : Nat} (nonempty : text ≠ [])
    (digits : ∀ char ∈ text, char.isDigit = true) (read : decimal 0 text = some value) :
    parseInt (String.ofList text) = inInt64 value := by
  simp only [parseInt]
  rw [String.toList_ofList]
  split
  next => exact absurd rfl nonempty
  iterate 4
    next => exact absurd (digits _ List.mem_cons_self) (by decide)
  next => rw [read, Option.bind_eq_bind, Option.bind_some]

theorem toList_repr (number : Nat) : number.repr.toList = Json.numerals.text number := by
  rw [Nat.toList_repr, toDigits_eq_decimalDigits, Numerals.text]
  have digits : ∀ digit < 10, Nat.digitChar digit = Json.numerals.symbol digit := by decide
  exact List.map_congr_left fun digit member =>
    digits digit ((canonical_decimalDigits number).below digit member)

theorem decimal_text (number : Nat) : decimal 0 (Json.numerals.text number) = some number := by
  rw [Numerals.text, decimal_symbols (canonical_decimalDigits number).below, readFrom_decimalDigits]

theorem text_ne_nil (number : Nat) : Json.numerals.text number ≠ [] := by
  simpa [Numerals.text] using (canonical_decimalDigits number).nonempty

theorem parseInt_toString {value : Int} (low : -2 ^ 63 ≤ value) (high : value < 2 ^ 63) :
    parseInt (toString value) = some value := by
  have kept : inInt64 value = some value := if_pos ⟨low, high⟩
  cases value with
  | ofNat number =>
      have same : toString (Int.ofNat number) = String.ofList (Json.numerals.text number) := by
        apply String.toList_inj.mp
        rw [String.toList_ofList, ← toList_repr]
        rfl
      rw [same, parseInt_digits (text_ne_nil number) (Json.isDigit_text number) (decimal_text number)]
      exact kept
  | negSucc number =>
      have same : (toString (Int.negSucc number)).toList = '-' :: Json.numerals.text (number + 1) := by
        rw [← toList_repr, show toString (Int.negSucc number) = "-" ++ (number + 1).repr from rfl,
          String.toList_append]
        rfl
      simp only [parseInt]
      rw [same]
      split
      next none => cases none
      next sign => exact absurd (List.cons.inj sign).1 (by decide)
      next none => exact absurd (List.cons.inj none).2 (text_ne_nil _)
      next sign => exact absurd (List.cons.inj sign).1 (by decide)
      next digits here =>
        rw [← (List.cons.inj here).2, decimal_text, Option.bind_eq_bind, Option.bind_some]
        exact kept
      next _ other => exact absurd rfl (other _)

theorem parseInt_text {number : Nat} (bounded : number < 2 ^ 63) :
    parseInt (String.ofList (Json.numerals.text number)) = some (number : Int) := by
  rw [parseInt_digits (text_ne_nil number) (Json.isDigit_text number) (decimal_text number),
    inInt64_natCast bounded]

/-! ## Times -/

/-- A padded number is so many digits, and reads back. -/
theorem padded_spec {value : Int} (width : Nat) (positive : 0 < width) (fits : width ≤ 20)
    (low : 0 ≤ value) (high : value < 10 ^ width) :
    (chars (appendPadded value width)).length = width ∧
      (∀ char ∈ chars (appendPadded value width), char.isDigit = true) ∧
      decimal 0 (chars (appendPadded value width)) = some value.toNat := by
  obtain ⟨number, rfl⟩ := Int.eq_ofNat_of_zero_le low
  have bounded : number < 10 ^ width := by exact_mod_cast high
  rw [appendPadded_natCast positive fits bounded, chars_symbols fixedDigits_below]
  refine ⟨by rw [List.length_map, length_fixedDigits], ?_, ?_⟩
  · intro char member
    obtain ⟨digit, inside, rfl⟩ := List.mem_map.mp member
    have all : ∀ digit < 10, (Json.numerals.symbol digit).isDigit = true := by decide
    exact all digit (fixedDigits_below digit inside)
  · rw [decimal_symbols fixedDigits_below, readFrom_fixedDigits bounded]
    rfl

theorem parseUint_of_decimal {text : List Char} {value low high : Int}
    (read : decimal 0 text = some value.toNat) (nonneg : 0 ≤ value) (above : low ≤ value)
    (below : value ≤ high) : parseUint low high text = some value := by
  have cast : (value.toNat : Int) = value := Int.toNat_of_nonneg nonneg
  simp only [parseUint, read, bind, Option.bind_some, cast]
  rw [if_pos ⟨above, below⟩]

theorem daysIn_lt (year month : Int) : daysIn year month < 100 := by
  simp only [daysIn]
  split <;> split <;> decide

theorem padded_two {value low high : Int} (nonneg : 0 ≤ value) (above : low ≤ value)
    (below : value ≤ high) (small : high < 100) :
    ∃ a b, chars (appendPadded value 2) = [a, b] ∧ parseUint low high [a, b] = some value := by
  obtain ⟨length, -, read⟩ := padded_spec 2 (by decide) (by decide) nonneg (by omega)
  obtain ⟨a, b, same⟩ := List.length_eq_two.mp length
  rw [same] at read
  exact ⟨a, b, same, parseUint_of_decimal read nonneg above below⟩

theorem padded_four {value : Int} (nonneg : 0 ≤ value) (below : value ≤ 9999) :
    ∃ a b c d, chars (appendPadded value 4) = [a, b, c, d] ∧
      parseUint 0 9999 [a, b, c, d] = some value := by
  obtain ⟨length, -, read⟩ := padded_spec 4 (by decide) (by decide) nonneg (by omega)
  match same : chars (appendPadded value 4), length with
  | [a, b, c, d], _ =>
      rw [same] at read
      exact ⟨a, b, c, d, rfl, parseUint_of_decimal read nonneg nonneg below⟩

/-- Three digits of a fraction are milliseconds. -/
theorem parseFraction_milli {value : Int} (nonneg : 0 ≤ value) (below : value ≤ 999) :
    parseFraction ('.' :: chars (appendPadded value 3) ++ ['Z']) =
      some (value * millisecond, ['Z']) := by
  obtain ⟨length, digits, read⟩ := padded_spec 3 (by decide) (by decide) nonneg (by omega)
  obtain ⟨a, b, c, same⟩ := List.length_eq_three.mp length
  rw [same] at digits read ⊢
  have span : ([a, b, c] ++ ['Z']).span Char.isDigit = ([a, b, c], ['Z']) := by
    simp only [List.forall_mem_cons] at digits
    simp [List.span_eq_takeWhile_dropWhile, digits]
  have scaled : ((value.toNat * 10 ^ 6 : Nat) : Int) = value * millisecond := by
    simp only [millisecond]
    omega
  rw [List.cons_append, parseFraction, span]
  simp only [List.take, read, bind, Option.bind_some, pure, List.length]
  exact congrArg (fun nanoseconds => some (nanoseconds, ['Z'])) scaled

theorem instant_whole {date : Civil} {time : Time} (known : date.instant = some time) :
    (Civil.mk date.year date.month date.day date.hour date.minute date.second 0).instant =
      some ⟨time.instant - date.milli * millisecond, time.offset⟩ := by
  simp only [Civil.instant] at known ⊢
  split at known
  next valid =>
    cases known
    rw [if_pos valid]
    simp only [Int.zero_mul, Int.add_zero, Int.add_sub_cancel]
  next => cases known

theorem parseRfc3339_format {epochMs : Int} (past : 0 ≤ epochMs) (bounded : epochMs < year10000Ms) :
    parseRfc3339 (formatRfc3339Utc epochMs) = some ⟨epochMs * millisecond, 0⟩ := by
  obtain ⟨year, month, day, hour, minute, second, milli, instant⟩ := civil_spec past bounded
  simp only [formatRfc3339Utc]
  generalize civil epochMs = date at *
  have days := daysIn_lt date.year date.month
  obtain ⟨y1, y2, y3, y4, yearText, yearRead⟩ := padded_four year.1 year.2
  obtain ⟨m1, m2, monthText, monthRead⟩ :=
    padded_two (by omega) month.1 month.2 (by decide)
  obtain ⟨d1, d2, dayText, dayRead⟩ := padded_two (by omega) day.1 day.2 days
  obtain ⟨h1, h2, hourText, hourRead⟩ := padded_two hour.1 hour.1 hour.2 (by decide)
  obtain ⟨n1, n2, minuteText, minuteRead⟩ := padded_two minute.1 minute.1 minute.2 (by decide)
  obtain ⟨c1, c2, secondText, secondRead⟩ := padded_two second.1 second.1 second.2 (by decide)
  have fraction := parseFraction_milli milli.1 milli.2
  have whole := instant_whole instant
  simp only [yearText, monthText, dayText, hourText, minuteText, secondText, List.cons_append,
    List.nil_append]
  rw [parseRfc3339, if_pos (by decide)]
  simp only [List.cons_append] at fraction
  simp only [yearRead, monthRead, dayRead, hourRead, minuteRead, secondRead, fraction, parseZone,
    whole, bind, pure, Option.bind_some]
  congr 2
  omega

/-! ## Strings -/

/-- The hexadecimal digits of the bytes, in groups of 8, 4, 4, 4 and 12. -/
def hyphenated (bytes : List UInt8) : List Char :=
  let hex := bytes.flatMap fun byte => [hexChar (byte.toNat / 16), hexChar (byte.toNat % 16)]
  hex.take 8 ++ '-' :: (hex.drop 8).take 4 ++ '-' :: (hex.drop 12).take 4 ++
    '-' :: (hex.drop 16).take 4 ++ '-' :: hex.drop 20

theorem formatUuid_eq (uuid : Vector UInt8 16) :
    formatUuid uuid = String.ofList (hyphenated uuid.toList) := by
  have length : uuid.toList.length = 16 := by simp
  match same : uuid.toList, length with
  | [a, b, c, d, e, f, g, h, i, j, k, l, m, n, o, p], _ =>
      rw [formatUuid, same]
      rfl

theorem isPlain_hexChar {digit : Nat} (small : digit < 16) : Json.isPlain (hexChar digit) = true := by
  have all : ∀ digit < 16, Json.isPlain (hexChar digit) = true := by decide
  exact all digit small

theorem plain_hyphenated (bytes : List UInt8) : Json.Plain (hyphenated bytes) := by
  have hex : ∀ char ∈ bytes.flatMap fun byte => [hexChar (byte.toNat / 16), hexChar (byte.toNat % 16)],
      Json.isPlain char = true := by
    intro char member
    obtain ⟨byte, -, inside⟩ := List.mem_flatMap.mp member
    have bound := byte.toNat_lt
    rcases List.mem_cons.mp inside with rfl | last
    · exact isPlain_hexChar (by omega)
    · rw [List.mem_singleton.mp last]
      exact isPlain_hexChar (by omega)
  have hyphen : Json.isPlain '-' = true := by decide
  simp only [hyphenated]
  generalize bytes.flatMap _ = text at hex
  intro char member
  simp only [List.mem_append, List.mem_cons] at member
  rcases member with ((((first | rfl | second) | rfl | third) | rfl | fourth) | rfl | last)
  · exact hex char (List.mem_of_mem_take first)
  · exact hyphen
  · exact hex char (List.mem_of_mem_drop (List.mem_of_mem_take second))
  · exact hyphen
  · exact hex char (List.mem_of_mem_drop (List.mem_of_mem_take third))
  · exact hyphen
  · exact hex char (List.mem_of_mem_drop (List.mem_of_mem_take fourth))
  · exact hyphen
  · exact hex char (List.mem_of_mem_drop last)

theorem isPlain_of_isDigit {char : Char} (digit : char.isDigit = true) : Json.isPlain char = true := by
  have range := Char.isDigit_iff_toNat.mp digit
  have low : 0x20 ≤ char.toNat := Nat.le_trans (by decide) range.1
  have notQuote : char ≠ '"' := by
    rintro rfl
    cases digit
  have notEscape : char ≠ '\\' := by
    rintro rfl
    cases digit
  simp [Json.isPlain, low, notQuote, notEscape]

theorem plain_padded {value : Int} (width : Nat) (positive : 0 < width) (fits : width ≤ 20)
    (low : 0 ≤ value) (high : value < 10 ^ width) : Json.Plain (chars (appendPadded value width)) :=
  fun char member => isPlain_of_isDigit ((padded_spec width positive fits low high).2.1 char member)

theorem plain_append {first second : List Char} :
    Json.Plain (first ++ second) ↔ Json.Plain first ∧ Json.Plain second :=
  List.forall_mem_append

theorem plain_cons {char : Char} {text : List Char} :
    Json.Plain (char :: text) ↔ Json.isPlain char = true ∧ Json.Plain text :=
  List.forall_mem_cons

theorem plain_formatRfc3339Utc {epochMs : Int} (past : 0 ≤ epochMs) (bounded : epochMs < year10000Ms) :
    Json.Plain (formatRfc3339Utc epochMs) := by
  obtain ⟨year, month, day, hour, minute, second, milli, -⟩ := civil_spec past bounded
  simp only [formatRfc3339Utc]
  generalize civil epochMs = date at *
  have days := daysIn_lt date.year date.month
  simp only [plain_append, plain_cons]
  refine ⟨⟨⟨⟨⟨⟨⟨?_, ?_, ?_⟩, ?_, ?_⟩, ?_, ?_⟩, ?_, ?_⟩, ?_, ?_⟩, ?_, ?_⟩, ?_⟩
  any_goals decide
  · exact plain_padded 4 (by decide) (by decide) year.1 (by omega)
  · exact plain_padded 2 (by decide) (by decide) (by omega) (by omega)
  · exact plain_padded 2 (by decide) (by decide) (by omega) (by omega)
  · exact plain_padded 2 (by decide) (by decide) hour.1 (by omega)
  · exact plain_padded 2 (by decide) (by decide) minute.1 (by omega)
  · exact plain_padded 2 (by decide) (by decide) second.1 (by omega)
  · exact plain_padded 3 (by decide) (by decide) milli.1 (by omega)

theorem plain_timeSourceName (code : UInt8) : Json.Plain (timeSourceName code).toList := by
  simp only [timeSourceName]
  split <;> decide

theorem plain_credentialKindName (code : UInt8) : Json.Plain (credentialKindName code).toList := by
  simp only [credentialKindName]
  split <;> decide

theorem plain_directionHintName (code : UInt8) : Json.Plain (directionHintName code).toList := by
  simp only [directionHintName]
  split <;> decide

theorem isPlain_of_hexDigit {char : Char} {digit : Nat} (read : hexDigit char = some digit) :
    Json.isPlain char = true := by
  have notQuote : char ≠ '"' := by
    rintro rfl
    cases read
  have notEscape : char ≠ '\\' := by
    rintro rfl
    cases read
  have above : '0' ≤ char ∨ 'a' ≤ char ∨ 'A' ≤ char := by
    simp only [hexDigit] at read
    split at read
    next range => exact .inl range.1
    next =>
      split at read
      next range => exact .inr (.inl range.1)
      next =>
        split at read
        next range => exact .inr (.inr range.1)
        next => cases read
  have low : 0x20 ≤ char.toNat := by
    rcases above with above | above | above
    all_goals exact Nat.le_trans (by decide) (UInt32.le_iff_toNat_le.mp above)
  simp [Json.isPlain, low, notQuote, notEscape]

theorem plain_skipHyphen {text : List Char} (plain : Json.Plain (skipHyphen text)) :
    Json.Plain text := by
  simp only [skipHyphen] at plain
  split at plain
  next => exact plain_cons.mpr ⟨by decide, plain⟩
  next => exact plain

theorem plain_of_uuidBytes {left value final : Nat} {text rest : List Char}
    (read : uuidBytes left value text = some (final, rest)) (plain : Json.Plain rest) :
    Json.Plain text := by
  induction left generalizing value text with
  | zero =>
      cases read
      exact plain
  | succ left ih =>
      match text with
      | [] => cases read
      | [_] => cases read
      | high :: low :: later =>
          rw [uuidBytes] at read
          split at read
          next upper lower highRead lowRead =>
            have tail : Json.Plain later := by
              have skipped := ih read
              split at skipped
              next => exact plain_skipHyphen skipped
              next => exact skipped
            exact plain_cons.mpr ⟨isPlain_of_hexDigit highRead,
              plain_cons.mpr ⟨isPlain_of_hexDigit lowRead, tail⟩⟩
          next => cases read

/-- Text that Postgres takes for a uuid needs no escape. -/
theorem plain_of_uuidIn {text : String} (read : (uuidIn text).isSome = true) :
    Json.Plain text.toList := by
  simp only [uuidIn] at read
  split at read
  next body braced =>
    split at read
    next value inside =>
      rw [braced]
      exact plain_cons.mpr ⟨by decide, plain_of_uuidBytes inside (by decide)⟩
    next => cases read
  next body bare =>
    split at read
    next value inside => exact plain_of_uuidBytes inside (by decide)
    next => cases read

end Presence.Firmware
