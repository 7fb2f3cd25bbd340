import Mathlib.Data.List.TakeWhile
import Presence.Data.Bytes
import Presence.Firmware.Provision

namespace Presence.Firmware

open Presence.Data

/-! # The setup form

`parseWifiForm` of `wifi_provision.h`: a body of type
`application/x-www-form-urlencoded`, read back exactly or not at all.
-/

def kFormFieldCap : Nat := 128

def hexValue (c : UInt8) : Option UInt8 := nibble c

/-- The loop of `percentDecode`, with what it has appended so far. -/
def percentDecodeLoop (cap : Nat) (out : List UInt8) : List UInt8 → Option (List UInt8)
  | [] => some out
  | c :: rest =>
      if c = '+'.toUInt8 then
        if out.length ≥ cap then none else percentDecodeLoop cap (out ++ [' '.toUInt8]) rest
      else if c = '%'.toUInt8 then
        match rest with
        | hi :: lo :: rest =>
            match hexValue hi, hexValue lo with
            | some hi, some lo =>
                if out.length ≥ cap then none
                else percentDecodeLoop cap (out ++ [hi <<< 4 ||| lo]) rest
            | _, _ => none
        | _ => none
      else if out.length ≥ cap then none
      else percentDecodeLoop cap (out ++ [c]) rest

def percentDecode (s : List UInt8) (cap : Nat) : Option (List UInt8) := percentDecodeLoop cap [] s

inductive FormError where
  | ok
  | malformed
  | duplicate
  | missing
  | fieldTooLong
deriving DecidableEq

def formErrorText : FormError → List UInt8
  | .ok => []
  | .malformed => ascii "The form could not be read. Please try again."
  | .duplicate => ascii "The form was sent with a field twice. Please try again."
  | .missing => ascii "Enter the network name and password."
  | .fieldTooLong => ascii "A field is too long."

structure WifiForm where
  ssid : List UInt8
  password : List UInt8
  /-- Empty when not sent. -/
  token : List UInt8
  haveToken : Bool
deriving DecidableEq

/-- A form as it is made, and what an error leaves of one. -/
def WifiForm.empty : WifiForm := ⟨[], [], [], false⟩

/-- The fields the loop has stored; one that it has not seen is none. -/
structure FormFields where
  ssid : Option (List UInt8)
  password : Option (List UInt8)
  token : Option (List UInt8)
deriving DecidableEq

/-- What lies between the separators. -/
def splitAmp : List UInt8 → List (List UInt8)
  | [] => [[]]
  | c :: rest =>
      if c = '&'.toUInt8 then [] :: splitAmp rest else (splitAmp rest).modifyHead (c :: ·)

/-- Whether an escape of a value that was not decoded is to blame. -/
def hasBadEscape : List UInt8 → Bool
  | [] => false
  | c :: rest =>
      (c == '%'.toUInt8 &&
        match rest with
        | hi :: lo :: _ => (hexValue hi).isNone || (hexValue lo).isNone
        | _ => true) || hasBadEscape rest

def storeField (fields : FormFields) (key value : List UInt8) : Except FormError FormFields :=
  if key = ascii "ssid" then
    if fields.ssid.isSome then .error .duplicate else .ok { fields with ssid := some value }
  else if key = ascii "password" then
    if fields.password.isSome then .error .duplicate else .ok { fields with password := some value }
  else if key = ascii "token" then
    if fields.token.isSome then .error .duplicate else .ok { fields with token := some value }
  else .ok fields

def parseSegment (fields : FormFields) (segment : List UInt8) : Except FormError FormFields :=
  if segment.isEmpty then .ok fields
  else
    let key := segment.takeWhile (· != '='.toUInt8)
    let value := (segment.dropWhile (· != '='.toUInt8)).drop 1
    match percentDecode key 32 with
    | none => .error .malformed
    | some key =>
        match percentDecode value kFormFieldCap with
        | none => .error (if hasBadEscape value then .malformed else .fieldTooLong)
        | some value => storeField fields key value

def parseSegments (fields : FormFields) : List (List UInt8) → Except FormError FormFields
  | [] => .ok fields
  | segment :: rest =>
      match parseSegment fields segment with
      | .error e => .error e
      | .ok fields => parseSegments fields rest

/-- Into a form just made, as every caller passes one. -/
def parseWifiForm (body : List UInt8) : FormError × WifiForm :=
  match parseSegments ⟨none, none, none⟩ (splitAmp body) with
  | .error e => (e, .empty)
  | .ok fields =>
      match fields.ssid, fields.password with
      | some ssid, some password =>
          (.ok, ⟨ssid, password, fields.token.getD [], fields.token.isSome⟩)
      | _, _ => (.missing, .empty)

example : parseWifiForm (ascii "ssid=My+School&password=p%40ss%26w%3Drd%25") =
    (.ok, ⟨ascii "My School", ascii "p@ss&w=rd%", [], false⟩) := by decide +kernel

example : parseWifiForm (ascii "&&ssid=a&&password=12345678&") =
    (.ok, ⟨ascii "a", ascii "12345678", [], false⟩) := by decide +kernel

/-! ## Renderings -/

/-- The texts that stand for some bytes.  A separator is not reserved here: what is
between the separators has none. -/
inductive Urlencoded : List UInt8 → List UInt8 → Prop where
  | nil : Urlencoded [] []
  | literal {c : UInt8} {bytes text : List UInt8} (plain : c ≠ '+'.toUInt8 ∧ c ≠ '%'.toUInt8)
      (rest : Urlencoded bytes text) : Urlencoded (c :: bytes) (c :: text)
  | space {bytes text : List UInt8} (rest : Urlencoded bytes text) :
      Urlencoded (' '.toUInt8 :: bytes) ('+'.toUInt8 :: text)
  | escape {hi lo high low : UInt8} {bytes text : List UInt8} (first : hexValue hi = some high)
      (second : hexValue lo = some low) (rest : Urlencoded bytes text) :
      Urlencoded (UInt8.ofNat (high.toNat * 16 + low.toNat) :: bytes)
        ('%'.toUInt8 :: hi :: lo :: text)

/-- A key and its value. -/
abbrev FormField := List UInt8 × List UInt8

/-- What a part of the body between two separators says: nothing, or one field. -/
inductive FormSegment : Option FormField → List UInt8 → Prop where
  | empty : FormSegment none []
  | field {key value keyText valueText : List UInt8} (keyRendered : Urlencoded key keyText)
      (closed : '='.toUInt8 ∉ keyText) (valueRendered : Urlencoded value valueText) :
      FormSegment (some (key, value)) (keyText ++ '='.toUInt8 :: valueText)
  | bare {key keyText : List UInt8} (keyRendered : Urlencoded key keyText)
      (closed : '='.toUInt8 ∉ keyText) (nonempty : keyText ≠ []) :
      FormSegment (some (key, [])) keyText

/-- No key and no value is longer than what is decoded of one. -/
def FieldFits (field : Option FormField) : Prop :=
  ∀ pair ∈ field, pair.1.length ≤ 32 ∧ pair.2.length ≤ kFormFieldCap

/-- The values given under a name. -/
def fieldValues (name : List UInt8) (fields : List (Option FormField)) : List (List UInt8) :=
  fields.filterMap fun field => field.bind fun (key, value) =>
    if key = name then some value else none

/-- A segment is a field of that name, however its key is spelled. -/
def FieldNamed (name segment : List UInt8) : Prop :=
  Urlencoded name (segment.takeWhile (· != '='.toUInt8))

/-- Every percent sign stands before two hex digits. -/
def EscapesWhole (text : List UInt8) : Prop :=
  ∀ before after, text = before ++ '%'.toUInt8 :: after →
    ∃ hi lo rest, after = hi :: lo :: rest ∧ (hexValue hi).isSome ∧ (hexValue lo).isSome

/-! ## The decoder -/

theorem joined_nibbles : ∀ high < 16, ∀ low < 16,
    UInt8.ofNat high <<< 4 ||| UInt8.ofNat low = UInt8.ofNat (high * 16 + low) := by
  decide +kernel

theorem hexValue_all {c : UInt8} : (hexValue c).all (· < 16) = true := by
  refine @forall_byte (fun c => (hexValue c).all (· < 16) = true) ?_ c
  decide +kernel

theorem hexValue_lt {c digit : UInt8} (value : hexValue c = some digit) : digit.toNat < 16 := by
  have small := @hexValue_all c
  rw [value] at small
  exact of_decide_eq_true small

theorem escaped_byte {hi lo high low : UInt8} (first : hexValue hi = some high)
    (second : hexValue lo = some low) :
    high <<< 4 ||| low = UInt8.ofNat (high.toNat * 16 + low.toNat) := by
  have joined := joined_nibbles high.toNat (hexValue_lt first) low.toNat (hexValue_lt second)
  rwa [UInt8.ofNat_toNat, UInt8.ofNat_toNat] at joined

theorem percentDecodeLoop_rendered {cap : Nat} {bytes text : List UInt8}
    (rendered : Urlencoded bytes text) {out : List UInt8} (fits : out.length + bytes.length ≤ cap) :
    percentDecodeLoop cap out text = some (out ++ bytes) := by
  induction rendered generalizing out with
  | nil => simp [percentDecodeLoop]
  | literal plain rest ih =>
      rw [List.length_cons] at fits
      unfold percentDecodeLoop
      rw [if_neg plain.1, if_neg plain.2, if_neg (by omega),
        ih (by simp only [List.length_append, List.length_singleton]; omega)]
      simp
  | space rest ih =>
      rw [List.length_cons] at fits
      unfold percentDecodeLoop
      rw [if_pos rfl, if_neg (by omega),
        ih (by simp only [List.length_append, List.length_singleton]; omega)]
      simp
  | escape first second rest ih =>
      rw [List.length_cons] at fits
      unfold percentDecodeLoop
      rw [if_neg (by decide), if_pos rfl]
      simp only [first, second]
      rw [if_neg (by omega), ih (by simp only [List.length_append, List.length_singleton]; omega),
        escaped_byte first second]
      simp

theorem percentDecodeLoop_some {cap : Nat} {text out result : List UInt8}
    (bounded : out.length ≤ cap) (decoded : percentDecodeLoop cap out text = some result) :
    ∃ bytes, Urlencoded bytes text ∧ result = out ++ bytes ∧ result.length ≤ cap := by
  have room {out : List UInt8} (c : UInt8) (below : ¬ out.length ≥ cap) :
      (out ++ [c]).length ≤ cap := by
    rw [List.length_append, List.length_singleton]
    omega
  fun_induction percentDecodeLoop cap out text with
  | case1 out =>
      cases decoded
      exact ⟨[], .nil, (List.append_nil _).symm, bounded⟩
  | case2 | case4 | case6 | case7 | case8 => cases decoded
  | case3 out rest below ih =>
      obtain ⟨bytes, rendered, rfl, fits⟩ := ih (room _ below) decoded
      exact ⟨_, .space rendered, List.append_assoc .., fits⟩
  | case5 out hi lo rest high low second first below _ ih =>
      obtain ⟨bytes, rendered, rfl, fits⟩ := ih (room _ below) decoded
      refine ⟨_, .escape first second rendered, ?_, fits⟩
      rw [List.append_assoc, escaped_byte first second]
      rfl
  | case9 out c rest plus percent below ih =>
      obtain ⟨bytes, rendered, rfl, fits⟩ := ih (room _ below) decoded
      exact ⟨_, .literal ⟨plus, percent⟩ rendered, List.append_assoc .., fits⟩

/-- The decoder takes the texts that stand for no more bytes than the cap. -/
theorem percentDecode_eq_some_iff {text bytes : List UInt8} {cap : Nat} :
    percentDecode text cap = some bytes ↔ Urlencoded bytes text ∧ bytes.length ≤ cap := by
  constructor
  · intro decoded
    obtain ⟨read, rendered, rfl, fits⟩ := percentDecodeLoop_some (Nat.zero_le cap) decoded
    exact ⟨rendered, fits⟩
  · rintro ⟨rendered, fits⟩
    exact percentDecodeLoop_rendered rendered (by simpa using fits)

theorem Urlencoded.eq_nil {bytes : List UInt8} (rendered : Urlencoded bytes []) : bytes = [] := by
  cases rendered
  rfl

/-! ## One segment -/

theorem splitAmp_eq (body : List UInt8) : splitAmp body = body.splitOn '&'.toUInt8 := by
  induction body with
  | nil => rfl
  | cons c rest ih =>
      rw [splitAmp, List.splitOn_cons_eq_if_modifyHead, ih]
      simp only [beq_iff_eq]

theorem takeWhile_key {keyText : List UInt8} (closed : '='.toUInt8 ∉ keyText) (rest : List UInt8) :
    (keyText ++ '='.toUInt8 :: rest).takeWhile (· != '='.toUInt8) = keyText ∧
      (keyText ++ '='.toUInt8 :: rest).dropWhile (· != '='.toUInt8) = '='.toUInt8 :: rest := by
  have plain : ∀ c ∈ keyText, (c != '='.toUInt8) = true := by
    intro c member
    exact bne_iff_ne.mpr fun same => closed (same ▸ member)
  rw [List.takeWhile_append_of_pos plain, List.dropWhile_append_of_pos plain]
  constructor
  · rw [List.takeWhile_cons_of_neg (by decide), List.append_nil]
  · exact List.dropWhile_cons_of_neg (by decide)

theorem takeWhile_bare {keyText : List UInt8} (closed : '='.toUInt8 ∉ keyText) :
    keyText.takeWhile (· != '='.toUInt8) = keyText ∧
      keyText.dropWhile (· != '='.toUInt8) = [] := by
  have plain : ∀ c ∈ keyText, (c != '='.toUInt8) = true := by
    intro c member
    exact bne_iff_ne.mpr fun same => closed (same ▸ member)
  exact ⟨List.takeWhile_eq_self_iff.mpr plain, List.dropWhile_eq_nil_iff.mpr plain⟩

/-- What a segment does to the fields read before it. -/
def applyField (fields : FormFields) : Option FormField → Except FormError FormFields
  | none => .ok fields
  | some (key, value) => storeField fields key value

theorem parseSegment_rendered {field : Option FormField} {segment : List UInt8}
    (rendered : FormSegment field segment) (fits : FieldFits field) (fields : FormFields) :
    parseSegment fields segment = applyField fields field := by
  cases rendered with
  | empty => rfl
  | @field _ _ _ valueText keyRendered closed valueRendered =>
      obtain ⟨keyFits, valueFits⟩ := fits _ rfl
      obtain ⟨keyPart, valuePart⟩ := takeWhile_key closed valueText
      rw [parseSegment, if_neg (by simp)]
      simp only [keyPart, valuePart, List.drop_succ_cons, List.drop_zero,
        percentDecode_eq_some_iff.mpr ⟨keyRendered, keyFits⟩,
        percentDecode_eq_some_iff.mpr ⟨valueRendered, valueFits⟩, applyField]
  | bare keyRendered closed nonempty =>
      obtain ⟨keyFits, -⟩ := fits _ rfl
      obtain ⟨keyPart, valuePart⟩ := takeWhile_bare closed
      rw [parseSegment, if_neg (by simpa using nonempty)]
      simp only [keyPart, valuePart, List.drop_nil,
        percentDecode_eq_some_iff.mpr ⟨keyRendered, keyFits⟩,
        percentDecode_eq_some_iff.mpr ⟨.nil, Nat.zero_le _⟩, applyField]

theorem parseSegment_ok {fields next : FormFields} {segment : List UInt8}
    (parsed : parseSegment fields segment = .ok next) :
    ∃ field, FormSegment field segment ∧ FieldFits field ∧ applyField fields field = .ok next := by
  rw [parseSegment] at parsed
  split at parsed
  · case isTrue empty =>
      rw [List.isEmpty_iff.mp empty]
      exact ⟨none, .empty, nofun, parsed⟩
  · case isFalse nonempty =>
      dsimp only at parsed
      split at parsed
      · cases parsed
      split at parsed
      · cases parsed
      · case h_2 key keyRead _ value valueRead =>
          rw [percentDecode_eq_some_iff] at keyRead valueRead
          have closed : '='.toUInt8 ∉ segment.takeWhile (· != '='.toUInt8) := by
            intro member
            simpa using List.mem_takeWhile_imp member
          refine ⟨some (key, value), ?_, ?_, parsed⟩
          · have split := List.takeWhile_append_dropWhile (p := (· != '='.toUInt8)) (l := segment)
            generalize segment.takeWhile (· != '='.toUInt8) = keyText at keyRead closed split
            cases found : segment.dropWhile (· != '='.toUInt8) with
            | nil =>
                rw [found] at split valueRead
                rw [List.append_nil] at split
                rw [valueRead.1.eq_nil, ← split]
                exact .bare keyRead.1 closed (by simpa [split] using nonempty)
            | cons c rest =>
                have equals : c = '='.toUInt8 := by
                  have head := List.head?_dropWhile_not (· != '='.toUInt8) segment
                  rw [found] at head
                  simpa using head
                rw [found] at split valueRead
                rw [← split, equals]
                exact .field keyRead.1 closed valueRead.1
          · rintro _ ⟨⟩
            exact ⟨keyRead.2, valueRead.2⟩

/-! ## All segments -/

def formNames : List (List UInt8) := [ascii "ssid", ascii "password", ascii "token"]

def FormFields.get (fields : FormFields) (name : List UInt8) : Option (List UInt8) :=
  if name = ascii "ssid" then fields.ssid
  else if name = ascii "password" then fields.password
  else if name = ascii "token" then fields.token
  else none

/-- The fields hold what has been read under their names. -/
def FormFields.Holds (fields : FormFields) (read : List (Option FormField)) : Prop :=
  ∀ name ∈ formNames, fieldValues name read = (fields.get name).toList

theorem forall_formNames {property : List UInt8 → Prop} :
    (∀ name ∈ formNames, property name) ↔
      property (ascii "ssid") ∧ property (ascii "password") ∧ property (ascii "token") := by
  simp [formNames]

section Names

variable {fields : FormFields}

@[simp] theorem get_ssid : fields.get (ascii "ssid") = fields.ssid := rfl

@[simp] theorem get_password : fields.get (ascii "password") = fields.password := rfl

@[simp] theorem get_token : fields.get (ascii "token") = fields.token := rfl

end Names

theorem names_distinct : (ascii "ssid" ≠ ascii "password" ∧ ascii "ssid" ≠ ascii "token") ∧
    (ascii "password" ≠ ascii "ssid" ∧ ascii "password" ≠ ascii "token") ∧
      ascii "token" ≠ ascii "ssid" ∧ ascii "token" ≠ ascii "password" := by decide

def FormFields.put (fields : FormFields) (name value : List UInt8) : FormFields :=
  if name = ascii "ssid" then { fields with ssid := some value }
  else if name = ascii "password" then { fields with password := some value }
  else if name = ascii "token" then { fields with token := some value }
  else fields

theorem storeField_eq (fields : FormFields) (key value : List UInt8) :
    storeField fields key value =
      if (fields.get key).isSome then .error .duplicate else .ok (fields.put key value) := by
  rw [storeField, FormFields.get, FormFields.put]
  split
  · rfl
  split
  · rfl
  split <;> rfl

theorem get_put (fields : FormFields) (key value : List UInt8) : ∀ name ∈ formNames,
    (fields.put key value).get name = if key = name then some value else fields.get name := by
  rw [forall_formNames, FormFields.put]
  split
  · case isTrue same => simp [same, FormFields.get, names_distinct]
  split
  · case isTrue same => simp [same, FormFields.get, names_distinct]
  split
  · simp [FormFields.get, names_distinct]
  · exact ⟨rfl, rfl, rfl⟩

theorem storeField_ok {fields next : FormFields} {key value : List UInt8}
    (stored : storeField fields key value = .ok next) :
    fields.get key = none ∧ next = fields.put key value := by
  rw [storeField_eq] at stored
  split at stored
  · cases stored
  · case isFalse fresh =>
      cases stored
      exact ⟨Option.not_isSome_iff_eq_none.mp fresh, rfl⟩

theorem storeField_exists {fields : FormFields} {key : List UInt8}
    (fresh : key ∈ formNames → fields.get key = none) (value : List UInt8) :
    ∃ next, storeField fields key value = .ok next := by
  have unset : fields.get key = none := by
    by_cases known : key ∈ formNames
    · exact fresh known
    · simp only [formNames, List.mem_cons, List.not_mem_nil, or_false, not_or] at known
      simp [FormFields.get, known]
  exact ⟨fields.put key value, by simp [storeField_eq, unset]⟩

theorem fieldValues_append (name : List UInt8) (read later : List (Option FormField)) :
    fieldValues name (read ++ later) = fieldValues name read ++ fieldValues name later :=
  List.filterMap_append ..

theorem FormFields.Holds.applied {fields next : FormFields} {read : List (Option FormField)}
    {field : Option FormField} (holds : fields.Holds read)
    (applied : applyField fields field = .ok next) : next.Holds (read ++ [field]) := by
  intro name known
  rw [fieldValues_append, holds name known]
  cases field with
  | none =>
      cases applied
      simp [fieldValues]
  | some pair =>
      obtain ⟨key, value⟩ := pair
      obtain ⟨fresh, rfl⟩ := storeField_ok applied
      rw [get_put fields key value name known]
      split
      · case isTrue same =>
          subst same
          rw [fresh]
          simp [fieldValues]
      · case isFalse other => simp [fieldValues, other]

theorem applyField_exists {fields : FormFields} {read later : List (Option FormField)}
    {field : Option FormField} (holds : fields.Holds read)
    (single : ∀ name ∈ formNames, (fieldValues name (read ++ field :: later)).length ≤ 1) :
    ∃ next, applyField fields field = .ok next := by
  cases field with
  | none => exact ⟨fields, rfl⟩
  | some pair =>
      obtain ⟨key, value⟩ := pair
      refine storeField_exists (fun known => ?_) value
      have once := single key known
      rw [fieldValues_append, holds key known] at once
      cases unset : fields.get key with
      | none => rfl
      | some other => simp [unset, fieldValues] at once

/-- The segments are renderings of the fields, one by one. -/
def Renders (fields : List (Option FormField)) (segments : List (List UInt8)) : Prop :=
  List.Forall₂ (fun field segment => FormSegment field segment ∧ FieldFits field) fields segments

theorem parseSegments_rendered {given : List (Option FormField)}
    {segments : List (List UInt8)} (rendered : Renders given segments) {fields : FormFields}
    {read : List (Option FormField)} (holds : fields.Holds read)
    (single : ∀ name ∈ formNames, (fieldValues name (read ++ given)).length ≤ 1) :
    ∃ final, parseSegments fields segments = .ok final ∧ final.Holds (read ++ given) := by
  induction rendered generalizing fields read with
  | nil => exact ⟨fields, rfl, by rwa [List.append_nil]⟩
  | @cons field segment given segments here _ ih =>
      obtain ⟨next, applied⟩ := applyField_exists holds single
      obtain ⟨final, parsed, after⟩ := ih (holds.applied applied)
        (by simpa only [List.append_assoc, List.singleton_append] using single)
      refine ⟨final, ?_, ?_⟩
      · simp only [parseSegments, parseSegment_rendered here.1 here.2, applied, parsed]
      · simpa only [List.append_assoc, List.singleton_append] using after

theorem parseSegments_ok {segments : List (List UInt8)} {fields final : FormFields}
    {read : List (Option FormField)} (holds : fields.Holds read)
    (parsed : parseSegments fields segments = .ok final) :
    ∃ given, Renders given segments ∧ final.Holds (read ++ given) := by
  induction segments generalizing fields read with
  | nil =>
      cases parsed
      exact ⟨[], .nil, by rwa [List.append_nil]⟩
  | cons segment rest ih =>
      simp only [parseSegments] at parsed
      split at parsed
      · cases parsed
      · case h_2 next first =>
          obtain ⟨field, rendered, fits, applied⟩ := parseSegment_ok first
          obtain ⟨given, renders, after⟩ := ih (holds.applied applied) parsed
          refine ⟨field :: given, .cons ⟨rendered, fits⟩ renders, ?_⟩
          simpa only [List.append_assoc, List.singleton_append] using after

theorem holds_fresh : FormFields.Holds ⟨none, none, none⟩ [] := by
  rw [FormFields.Holds, forall_formNames]
  exact ⟨rfl, rfl, rfl⟩

theorem storeField_error {fields : FormFields} {key value : List UInt8} {e : FormError}
    (refused : storeField fields key value = .error e) : e = .duplicate := by
  rw [storeField_eq] at refused
  split at refused <;> cases refused
  rfl

theorem parseSegments_error {segments : List (List UInt8)} {fields : FormFields} {e : FormError}
    (refused : parseSegments fields segments = .error e) : e ≠ .ok := by
  induction segments generalizing fields with
  | nil => cases refused
  | cons segment rest ih =>
      simp only [parseSegments] at refused
      split at refused
      · case h_1 first =>
          cases refused
          simp only [parseSegment] at first
          split at first
          · cases first
          split at first
          · cases first
            nofun
          split at first
          · cases first
            split <;> nofun
          · rw [storeField_error first]
            nofun
      · exact ih refused

/-- A form is read if and only if its body renders fields with one network name, one
password and at most one token. -/
theorem parseWifiForm_eq_ok_iff {body : List UInt8} {form : WifiForm} :
    parseWifiForm body = (.ok, form) ↔ ∃ given, ∃ token : Option (List UInt8),
      Renders given (splitAmp body) ∧ fieldValues (ascii "ssid") given = [form.ssid] ∧
        fieldValues (ascii "password") given = [form.password] ∧
        fieldValues (ascii "token") given = token.toList ∧
        form.token = token.getD [] ∧ form.haveToken = token.isSome := by
  constructor
  · intro parsed
    rw [parseWifiForm] at parsed
    split at parsed
    · case h_1 e failed => exact absurd (Prod.mk.inj parsed).1 (parseSegments_error failed)
    · case h_2 fields read =>
        obtain ⟨given, renders, holds⟩ := parseSegments_ok holds_fresh read
        obtain ⟨ssid, password, token⟩ := forall_formNames.mp holds
        split at parsed
        · case h_1 ssidRead passwordRead =>
            cases parsed
            refine ⟨given, fields.token, renders, ?_, ?_, token, rfl, rfl⟩
            · rw [List.nil_append] at ssid
              rw [ssid, get_ssid, ssidRead]
              rfl
            · rw [List.nil_append] at password
              rw [password, get_password, passwordRead]
              rfl
        · cases parsed
  · rintro ⟨given, token, renders, ssid, password, tokens, text, present⟩
    have single : ∀ name ∈ formNames, (fieldValues name ([] ++ given)).length ≤ 1 := by
      rw [forall_formNames, List.nil_append, ssid, password, tokens]
      exact ⟨Nat.le_refl 1, Nat.le_refl 1, token.length_toList_le⟩
    obtain ⟨fields, parsed, holds⟩ := parseSegments_rendered renders holds_fresh single
    obtain ⟨ssidRead, passwordRead, tokenRead⟩ := forall_formNames.mp holds
    rw [List.nil_append] at ssidRead passwordRead
    rw [ssid, get_ssid, eq_comm, Option.toList_eq_singleton_iff] at ssidRead
    rw [password, get_password, eq_comm, Option.toList_eq_singleton_iff] at passwordRead
    have same : fields.token = token := by
      rw [List.nil_append, tokens, get_token] at tokenRead
      simpa only [Option.head?_toList] using (congrArg List.head? tokenRead).symm
    rw [parseWifiForm, parsed]
    simp only [ssidRead, passwordRead, same, ← text, ← present]

/-! ## Bodies that are refused -/

theorem parseWifiForm_error {body : List UInt8} (refused : (parseWifiForm body).1 ≠ .ok) :
    (parseWifiForm body).2 = .empty := by
  rw [parseWifiForm] at refused ⊢
  split
  · rfl
  · case h_2 fields read =>
      simp only [read] at refused
      split
      · case h_1 ssid password => simp [ssid, password] at refused
      · rfl

theorem Urlencoded.unique {first second text : List UInt8} (one : Urlencoded first text)
    (other : Urlencoded second text) : first = second := by
  have cap : first.length ≤ max first.length second.length := Nat.le_max_left ..
  have decoded := percentDecode_eq_some_iff.mpr ⟨one, cap⟩
  rw [percentDecode_eq_some_iff.mpr ⟨other, Nat.le_max_right ..⟩] at decoded
  exact (Option.some.inj decoded).symm

/-- The key of a field is the name of its segment. -/
theorem FormSegment.named_iff {key value segment : List UInt8}
    (rendered : FormSegment (some (key, value)) segment) (name : List UInt8) :
    FieldNamed name segment ↔ key = name := by
  have keyText : Urlencoded key (segment.takeWhile (· != '='.toUInt8)) := by
    cases rendered with
    | @field _ _ _ valueText keyRendered closed _ =>
        rwa [(takeWhile_key closed valueText).1]
    | bare keyRendered closed _ => rwa [(takeWhile_bare closed).1]
  constructor
  · exact keyText.unique
  · rintro rfl
    exact keyText

theorem FormSegment.field_of_named {field : Option FormField}
    {name segment : List UInt8} (rendered : FormSegment field segment) (nonempty : name ≠ [])
    (named : FieldNamed name segment) : ∃ value, field = some (name, value) := by
  cases field with
  | none =>
      cases rendered
      exact absurd named.eq_nil nonempty
  | some pair =>
      obtain ⟨key, value⟩ := pair
      rw [(rendered.named_iff name).mp named]
      exact ⟨value, rfl⟩

theorem formNames_nonempty : ∀ name ∈ formNames, name ≠ [] := by decide

theorem Renders.sublist {given : List (Option FormField)}
    {segments part : List (List UInt8)} (rendered : Renders given segments)
    (within : part.Sublist segments) : ∃ chosen, chosen.Sublist given ∧ Renders chosen part := by
  induction within generalizing given with
  | slnil => exact ⟨[], List.nil_sublist given, .nil⟩
  | cons segment _ ih =>
      cases rendered with
      | cons here rest =>
          obtain ⟨chosen, sub, renders⟩ := ih rest
          exact ⟨chosen, sub.cons _, renders⟩
  | cons_cons segment _ ih =>
      cases rendered with
      | @cons field _ _ _ here rest =>
          obtain ⟨chosen, sub, renders⟩ := ih rest
          exact ⟨field :: chosen, sub.cons_cons _, .cons here renders⟩

theorem Renders.repeated {given : List (Option FormField)}
    {segments : List (List UInt8)} {name first second : List UInt8}
    (rendered : Renders given segments) (nonempty : name ≠ [])
    (twice : [first, second].Sublist segments) (one : FieldNamed name first)
    (other : FieldNamed name second) : 2 ≤ (fieldValues name given).length := by
  obtain ⟨chosen, sub, renders⟩ := rendered.sublist twice
  cases renders with
  | cons here rest =>
      cases rest with
      | cons there none =>
          cases none
          obtain ⟨value, rfl⟩ := here.1.field_of_named nonempty one
          obtain ⟨another, rfl⟩ := there.1.field_of_named nonempty other
          have both := (sub.filterMap fun field => field.bind fun (key, value) =>
            if key = name then some value else none).length_le
          simpa [fieldValues] using both

theorem Renders.missing {given : List (Option FormField)}
    {segments : List (List UInt8)} {name : List UInt8} (rendered : Renders given segments)
    (unnamed : ∀ segment ∈ segments, ¬ FieldNamed name segment) : fieldValues name given = [] := by
  induction rendered with
  | nil => rfl
  | @cons field segment given segments here _ ih =>
      rw [List.forall_mem_cons] at unnamed
      have rest := ih unnamed.2
      cases field with
      | none => simpa [fieldValues] using rest
      | some pair =>
          obtain ⟨key, value⟩ := pair
          have other : key ≠ name := fun same => unnamed.1 ((here.1.named_iff name).mpr same)
          simpa [fieldValues, other] using rest

theorem EscapesWhole.append {first second : List UInt8} (one : EscapesWhole first)
    (other : EscapesWhole second) : EscapesWhole (first ++ second) := by
  intro before after same
  rcases List.append_eq_append_iff.mp same with ⟨more, rfl, rest⟩ | ⟨more, here, rest⟩
  · exact other more after rest
  · cases more with
    | nil => exact other [] after rest.symm
    | cons c more =>
        rw [List.cons_append, List.cons.injEq] at rest
        obtain ⟨rfl, rfl⟩ := rest
        obtain ⟨hi, lo, tail, rfl, digits⟩ := one before more here
        exact ⟨hi, lo, tail ++ second, rfl, digits⟩

theorem EscapesWhole.single {c : UInt8} (plain : c ≠ '%'.toUInt8) : EscapesWhole [c] := by
  intro before after same
  rw [eq_comm, List.append_eq_singleton_iff] at same
  rcases same with ⟨-, same⟩ | ⟨-, same⟩
  · exact absurd (List.cons.inj same).1.symm plain
  · cases same

theorem EscapesWhole.escape {hi lo : UInt8} (first : (hexValue hi).isSome)
    (second : (hexValue lo).isSome) : EscapesWhole ['%'.toUInt8, hi, lo] := by
  have plain {c : UInt8} (digit : (hexValue c).isSome) : EscapesWhole [c] := by
    refine .single fun same => ?_
    rw [same] at digit
    exact absurd digit (by decide)
  intro before after same
  cases before with
  | nil =>
      cases same
      exact ⟨hi, lo, [], rfl, first, second⟩
  | cons c before => exact (plain first).append (plain second) before after (List.cons.inj same).2

theorem Urlencoded.escapesWhole {bytes text : List UInt8} (rendered : Urlencoded bytes text) :
    EscapesWhole text := by
  induction rendered with
  | nil => 
      intro before after same
      simp at same
  | literal plain _ ih => exact (EscapesWhole.single plain.2).append ih
  | space _ ih => exact (EscapesWhole.single (by decide)).append ih
  | escape first second _ ih =>
      exact (EscapesWhole.escape (by rw [first]; rfl) (by rw [second]; rfl)).append ih

theorem FormSegment.escapesWhole {field : Option FormField} {segment : List UInt8}
    (rendered : FormSegment field segment) : EscapesWhole segment := by
  cases rendered with
  | empty => exact Urlencoded.nil.escapesWhole
  | field keyRendered _ valueRendered =>
      exact keyRendered.escapesWhole.append
        ((EscapesWhole.single (by decide)).append valueRendered.escapesWhole)
  | bare keyRendered => exact keyRendered.escapesWhole

theorem Renders.escapesWhole {given : List (Option FormField)}
    {segments : List (List UInt8)} (rendered : Renders given segments) :
    ∀ segment ∈ segments, EscapesWhole segment := by
  induction rendered with
  | nil => simp
  | cons here _ ih => exact List.forall_mem_cons.mpr ⟨here.1.escapesWhole, ih⟩

theorem escapesWhole_intercalate {segments : List (List UInt8)}
    (whole : ∀ segment ∈ segments, EscapesWhole segment) :
    EscapesWhole (['&'.toUInt8].intercalate segments) := by
  induction segments with
  | nil => exact Urlencoded.nil.escapesWhole
  | cons segment rest ih =>
      rw [List.forall_mem_cons] at whole
      cases rest with
      | nil =>
          rw [List.intercalate_singleton]
          exact whole.1
      | cons next rest =>
          rw [List.intercalate_cons_cons]
          exact (whole.1.append (.single (by decide))).append (ih whole.2)

theorem parseWifiForm_renders {body : List UInt8} (accepted : (parseWifiForm body).1 = .ok) :
    ∃ given, Renders given (splitAmp body) ∧
      (∀ name ∈ formNames, (fieldValues name given).length ≤ 1) ∧
      fieldValues (ascii "ssid") given ≠ [] ∧ fieldValues (ascii "password") given ≠ [] := by
  have parsed : parseWifiForm body = (.ok, (parseWifiForm body).2) := Prod.ext accepted rfl
  obtain ⟨given, token, renders, ssid, password, tokens, -⟩ := parseWifiForm_eq_ok_iff.mp parsed
  refine ⟨given, renders, ?_, by simp [ssid], by simp [password]⟩
  rw [forall_formNames, ssid, password, tokens]
  exact ⟨Nat.le_refl 1, Nat.le_refl 1, token.length_toList_le⟩

/-- The setup form is read back exactly, in whatever order and spelling it comes, and
nothing is kept of one that is refused. -/
theorem parseWifiForm_exact :
    (∀ (ssid password : List UInt8) (token : Option (List UInt8))
      (given : List (Option FormField)) (segments : List (List UInt8)),
      Renders given segments → (∀ segment ∈ segments, '&'.toUInt8 ∉ segment) →
      fieldValues (ascii "ssid") given = [ssid] →
      fieldValues (ascii "password") given = [password] →
      fieldValues (ascii "token") given = token.toList →
        parseWifiForm (['&'.toUInt8].intercalate segments) =
          (.ok, ⟨ssid, password, token.getD [], token.isSome⟩)) ∧
    (∀ body : List UInt8, (parseWifiForm body).1 ≠ .ok → (parseWifiForm body).2 = .empty) ∧
    (∀ (body name first second : List UInt8), name ∈ formNames →
      [first, second].Sublist (splitAmp body) → FieldNamed name first → FieldNamed name second →
        (parseWifiForm body).1 ≠ .ok) ∧
    (∀ body name : List UInt8, name = ascii "ssid" ∨ name = ascii "password" →
      (∀ segment ∈ splitAmp body, ¬ FieldNamed name segment) → (parseWifiForm body).1 ≠ .ok) ∧
    ∀ body : List UInt8, ¬ EscapesWhole body → (parseWifiForm body).1 ≠ .ok := by
  refine ⟨?_, fun body => parseWifiForm_error, ?_, ?_, ?_⟩
  · intro ssid password token given segments renders apart ssidGiven passwordGiven tokenGiven
    have nonempty : segments ≠ [] := by
      rintro rfl
      cases renders
      cases ssidGiven
    have segmented : splitAmp (['&'.toUInt8].intercalate segments) = segments := by
      rw [splitAmp_eq, List.splitOn_intercalate _ apart nonempty]
    rw [← segmented] at renders
    exact parseWifiForm_eq_ok_iff.mpr
      ⟨given, token, renders, ssidGiven, passwordGiven, tokenGiven, rfl, rfl⟩
  · intro body name first second known twice one other accepted
    obtain ⟨given, renders, single, -⟩ := parseWifiForm_renders accepted
    have both := renders.repeated (formNames_nonempty name known) twice one other
    exact absurd (single name known) (by omega)
  · intro body name required unnamed accepted
    obtain ⟨given, renders, -, ssid, password⟩ := parseWifiForm_renders accepted
    have missing := renders.missing unnamed
    rcases required with rfl | rfl
    · exact ssid missing
    · exact password missing
  · intro body broken accepted
    obtain ⟨given, renders, -⟩ := parseWifiForm_renders accepted
    apply broken
    have joined := @List.intercalate_splitOn _ body _ _ '&'.toUInt8
    rw [← joined, ← splitAmp_eq]
    exact escapesWhole_intercalate renders.escapesWhole

theorem parseWifiForm_exact_sample :
    parseWifiForm (ascii "ssid=a+b&&password") = (.ok, ⟨ascii "a b", [], [], false⟩) ∧
      (parseWifiForm (ascii "ssid=a&password=%4")).1 ≠ .ok := by
  have rendered {bytes text : List UInt8} (decoded : percentDecode text 32 = some bytes) :
      Urlencoded bytes text := (percentDecode_eq_some_iff.mp decoded).1
  have fits {key value : List UInt8} (small : key.length ≤ 32 ∧ value.length ≤ kFormFieldCap) :
      FieldFits (some (key, value)) := by
    rintro _ ⟨⟩
    exact small
  have name : Urlencoded (ascii "ssid") (ascii "ssid") := rendered (by decide +kernel)
  have value : Urlencoded (ascii "a b") (ascii "a+b") := rendered (by decide +kernel)
  have secret : Urlencoded (ascii "password") (ascii "password") := rendered (by decide +kernel)
  have renders : Renders
      [some (ascii "ssid", ascii "a b"), none, some (ascii "password", [])]
      [ascii "ssid" ++ '='.toUInt8 :: ascii "a+b", [], ascii "password"] :=
    .cons ⟨.field name (by decide +kernel) value, fits (by decide +kernel)⟩
      (.cons ⟨.empty, nofun⟩
        (.cons ⟨.bare secret (by decide +kernel) (by decide), fits (by decide +kernel)⟩ .nil))
  have body : ascii "ssid=a+b&&password" = ['&'.toUInt8].intercalate
      [ascii "ssid" ++ '='.toUInt8 :: ascii "a+b", [], ascii "password"] := by decide +kernel
  constructor
  · rw [body]
    exact parseWifiForm_exact.1 _ _ none _ _ renders (by decide +kernel) (by decide +kernel)
      (by decide +kernel) (by decide +kernel)
  · refine parseWifiForm_exact.2.2.2.2 _ fun whole => ?_
    obtain ⟨hi, lo, rest, same, -⟩ :=
      whole (ascii "ssid=a&password=") (ascii "4") (by decide +kernel)
    exact absurd (congrArg List.length same) (by simp [ascii])

end Presence.Firmware
