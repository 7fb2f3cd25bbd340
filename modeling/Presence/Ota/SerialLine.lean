import Presence.Firmware.SetupLabel
import Presence.Ota.Manifest
import Presence.Ota.Terminal

namespace Presence.Ota.Loader

open Presence.Data Presence.Firmware

/-! # The serial loader

`serial_ota.py` sends an image to a bench terminal in chunks of 4096 bytes, one for each
`OTA NEXT`; `benchSerialOta` and `applyOta` of `main.cpp` take it.  The line has a
direction of bytes and one of lines; other tasks print lines of their own.  No board is
reset on the way, and a line that was sent in one piece does not pause for a second.
-/

def space : UInt8 := ' '.toUInt8

def newline : UInt8 := '\n'.toUInt8

structure Package where
  version : List UInt8
  image : List UInt8
  sha256 : Sha256
  signature : Signature

def Package.header (package : Package) : List UInt8 :=
  ascii "OTA " ++ package.version ++ space :: (asciiNumerals.text package.image.length ++
    space :: (toHex package.sha256.toList ++ space :: toHex package.signature.toList))

def Package.offer (package : Package) : Offer :=
  ⟨package.version, package.image.length, package.sha256, package.signature⟩

/-! ## The terminal -/

def isSpace (c : UInt8) : Bool := c == space || decide (9 ≤ c ∧ c ≤ 13)

/-- `String::trim`. -/
def trim (line : List UInt8) : List UInt8 :=
  ((line.dropWhile isSpace).reverse.dropWhile isSpace).reverse

/-- What the C functions behind `String` see of a text. -/
def cstr (line : List UInt8) : List UInt8 := line.takeWhile (· != 0)

/-- `atol`, which stops at the ends of a `long`. -/
def toInt (text : List UInt8) : Int :=
  let number (digits : List UInt8) : Nat := readFrom 0 (asciiNumerals.scan digits).1
  match text.dropWhile isSpace with
  | [] => 0
  | c :: rest =>
      if c = '-'.toUInt8 then max (-2 ^ 31) (-(number rest : Int))
      else min (2 ^ 31 - 1) (number (if c = '+'.toUInt8 then rest else c :: rest))

/-- `indexOf` and `substring`: the text before the next blank and the one behind it. -/
def field (line : List UInt8) : Option (List UInt8 × List UInt8) :=
  match line.dropWhile (· != space) with
  | [] => none
  | _ :: rest => some (line.takeWhile (· != space), rest)

def parseHeader (line : List UInt8) : Option Offer := do
  let (version, rest) ← field (line.drop 4)
  let (sizeText, rest) ← field rest
  let (shaText, signatureText) ← field rest
  let size := toInt sizeText
  if size ≤ 0 then none
  else
    let sha256 ← decodeHexExact shaText 32
    let signature ← decodeHexExact signatureText 64
    return ⟨version, size.toNat, sha256, signature⟩

structure Board where
  release : Release
  firmwareVersion : List UInt8

/-- The part of `applyOta` that comes before the first byte is asked for. -/
def openOta (release : Release) (guard : OtaGuard) (offer : Offer) (flashing : Flashing) :
    Option (List FlashCall × OtaResult) :=
  if isUnusableKey release.publicKey then
    some ([], .rejected "no usable release key compiled in")
  else if offer.size = 0 then some ([], .rejected "empty image")
  else if guard.check offer.version offer.sha256 ≠ .accept then
    some ([], .rejected (otaCandidateName (guard.check offer.version offer.sha256)))
  else if flashing.slotSize < offer.size then
    some ([], .rejected "image larger than the OTA slot")
  else if !flashing.memory then some ([], .transient "out of memory")
  else if !flashing.begun then
    some (if flashing.erased then [.eraseIdle] else [], .transient "esp_ota_begin failed")
  else none

/-- An `applyOta` that returned, with the guard before it. -/
structure Update where
  guard : OtaGuard
  offer : Offer
  flashing : Flashing
  outcome : Outcome
  calls : List FlashCall
  result : OtaResult

inductive Doing where
  | idle
  | loading (offer : Offer) (flashing : Flashing) (written got : List UInt8)
  | restarting

def verdictLine : OtaResult → List UInt8
  | .applied => ascii "OTA OK"
  | .transient reason => ascii "OTA REJECT " ++ ascii reason
  | .rejected reason => ascii "OTA REJECT " ++ ascii reason

def malformedLine : List UInt8 := ascii "OTA REJECT malformed header"

def nextLine : List UInt8 := ascii "OTA NEXT"

def benchStatus (board : Board) (guard : OtaGuard) (tag : List UInt8) : List UInt8 :=
  ascii "OTA " ++ tag ++ ascii " running=" ++ board.firmwareVersion ++
    ascii " floor=" ++ formatOtaVersion guard.st.floor ++
    ascii " awaiting=" ++ (if guard.awaiting then ascii "1" else ascii "0") ++
    ascii " pending=" ++ (if guard.st.hasPending then formatOtaVersion guard.st.pendingVersion
      else ascii "-") ++
    ascii " bad=" ++ if guard.st.hasBad then toHex (guard.st.badSha.toList.take 4) else ascii "-"

/-! ## The host -/

inductive Exit where
  | accepted
  | rejected (reason : List UInt8)
  | unexpected (line : List UInt8)
  | timedOut
deriving DecidableEq

inductive Host where
  | waiting (sent : Nat)
  | done (exit : Exit)
deriving DecidableEq

def isOta (line : List UInt8) : Bool := (ascii "OTA ").isPrefixOf line

def Host.reads (package : Package) (host : Host) (line : List UInt8) : Host × List UInt8 :=
  match host with
  | .done _ => (host, [])
  | .waiting sent =>
      if !isOta line then (host, [])
      else if line = nextLine then
        if sent < package.image.length then
          (.waiting (min (sent + kOtaChunk) package.image.length),
            (package.image.drop sent).take kOtaChunk)
        else (host, [])
      else if line = ascii "OTA OK" then (.done .accepted, [])
      else if (ascii "OTA REJECT").isPrefixOf line then (.done (.rejected (line.drop 11)), [])
      else (.done (.unexpected line), [])

/-! ## Both, and the line between them -/

structure Bench where
  guard : OtaGuard
  doing : Doing
  updates : List Update
  /-- What reached the flash and NVS. -/
  calls : List FlashCall
  toTerminal : List UInt8
  toHost : List (List UInt8)
  host : Host

namespace Bench

def start (package : Package) (guard : OtaGuard) : Bench where
  guard
  doing := .idle
  updates := []
  calls := []
  toTerminal := package.header ++ [newline]
  toHost := []
  host := .waiting 0

def say (bench : Bench) (line : List UInt8) : Bench :=
  { bench with toHost := bench.toHost ++ [line] }

/-- `applyOta` returns. -/
def ends (bench : Bench) (offer : Offer) (flashing : Flashing) (outcome : Outcome)
    (done : OtaGuard × List FlashCall × OtaResult) : Bench :=
  { bench with
    guard := done.1
    doing := if done.2.2 = .applied then .restarting else .idle
    updates := bench.updates ++ [⟨bench.guard, offer, flashing, outcome, done.2.1, done.2.2⟩]
    calls := bench.calls ++ done.2.1
    toHost := bench.toHost ++ [verdictLine done.2.2] }

def benchSerialOta (board : Board) (bench : Bench) (line : List UInt8) (flashing : Flashing)
    (outcome : Outcome) : Bench :=
  if line = ascii "OTA STATUS" then bench.say (benchStatus board bench.guard (ascii "STATUS"))
  else if line = ascii "OTA HEALTHY" then
    let (guard, calls) := bench.guard.onHealthy outcome
    { bench with guard, calls := bench.calls ++ calls.map FlashCall.guard }.say (benchStatus board
      guard (if guard.healthy then ascii "CONFIRMED" else ascii "NOT-CONFIRMED"))
  else if !isOta line then bench
  else
    match parseHeader line with
    | none => bench.say malformedLine
    | some offer =>
        match openOta board.release bench.guard offer flashing with
        | some (calls, result) =>
            bench.ends offer flashing outcome (bench.guard, calls, result)
        | none => { bench with doing := .loading offer flashing [] [] }.say nextLine

/-- One line of the console.  What the labelling commands and `BENCH-SECRET` do is no
update, and they print no line that starts with `OTA`. -/
def serialCommands (board : Board) (bench : Bench) (line : List UInt8) (flashing : Flashing)
    (outcome : Outcome) : Bench :=
  match parseSetupCommand line, parseBenchSecretCommand line with
  | .none, .notOurs => bench.benchSerialOta board (cstr line) flashing outcome
  | _, _ => bench

end Bench

inductive Input where
  | hostReads
  | hostTimesOut
  | chatter (line : List UInt8)
  | command (flashing : Flashing) (outcome : Outcome)
  | takes (count : Nat)
  /-- The chunk goes into the flash; `held` is what the flash then holds of each byte. -/
  | stores (written : Bool) (held : Nat → UInt8 → UInt8) (outcome : Outcome)
  | terminalTimesOut (outcome : Outcome)

/-- The chunk that the terminal waits for. -/
def want (offer : Offer) (written : List UInt8) : Nat := min (offer.size - written.length) kOtaChunk

def Bench.step (board : Board) (package : Package) (bench : Bench) : Input → Option Bench
  | .hostReads =>
      match bench.host, bench.toHost with
      | .done _, _ | _, [] => none
      | .waiting _, line :: toHost =>
          let (host, sent) := bench.host.reads package line
          some { bench with host, toHost, toTerminal := bench.toTerminal ++ sent }
  | .hostTimesOut =>
      match bench.host with
      | .done _ => none
      | .waiting _ => some { bench with host := .done .timedOut }
  | .chatter line => if isOta line then none else some (bench.say line)
  | .command flashing outcome =>
      match bench.doing with
      | .idle =>
          match bench.toTerminal.dropWhile (· != newline) with
          | [] => none
          | _ :: toTerminal =>
              let line := trim (bench.toTerminal.takeWhile (· != newline))
              some ({ bench with toTerminal }.serialCommands board line flashing outcome)
      | _ => none
  | .takes count =>
      match bench.doing with
      | .loading offer flashing written got =>
          if 0 < count ∧ count ≤ bench.toTerminal.length ∧
              got.length + count ≤ want offer written then
            some { bench with
              doing := .loading offer flashing written (got ++ bench.toTerminal.take count)
              toTerminal := bench.toTerminal.drop count }
          else none
      | _ => none
  | .stores good held outcome =>
      match bench.doing with
      | .loading offer flashing written got =>
          if got.length ≠ want offer written then none
          else if !good then
            let flashing := { flashing with transfer := .writeFailed }
            some (bench.ends offer flashing outcome
              (storeOta board.release bench.guard offer flashing outcome))
          else
            let written := written ++ got
            if written.length < offer.size then
              some ({ bench with doing := .loading offer flashing written [] }.say nextLine)
            else
              let content := fun i => held i (written.getD i 0)
              let flashing := { flashing with transfer := .complete content }
              some (bench.ends offer flashing outcome
                (storeOta board.release bench.guard offer flashing outcome))
      | _ => none
  | .terminalTimesOut outcome =>
      match bench.doing with
      | .loading offer flashing written got =>
          if got.length = want offer written then none
          else
            let flashing := { flashing with transfer := .truncated }
            some (bench.ends offer flashing outcome
              (storeOta board.release bench.guard offer flashing outcome))
      | _ => none

/-! ## The header is understood -/

structure Package.Sendable (package : Package) : Prop where
  version : (parse package.version).isSome = true
  nonempty : package.image ≠ []
  fits : package.image.length < 2 ^ 31

/-- A byte that ends no field and no line. -/
def isInner (c : UInt8) : Bool := c != space && c != newline && c != 0 && !isSpace c

theorem isInner_hexDigit : ∀ byte : UInt8,
    isInner ((ascii "0123456789abcdef").getD (byte >>> 4).toNat 0) = true ∧
      isInner ((ascii "0123456789abcdef").getD (byte &&& 0x0F).toNat 0) = true := by
  refine forall_byte ?_
  decide +kernel

theorem decodeHexExact_toHex {count : Nat} (data : Vector UInt8 count) :
    decodeHexExact (toHex data.toList) count = some data :=
  decodeHexExact_vector (by simp [toHex]) (decodeHexPairs_toHex data.toList)

theorem isInner_digit : ∀ c : UInt8, (asciiNumerals.value c).isSome = true → isInner c = true := by
  refine forall_byte ?_
  decide +kernel

theorem isInner_toHex (data : List UInt8) : ∀ c ∈ toHex data, isInner c = true := by
  intro c member
  obtain ⟨byte, -, digit⟩ := List.mem_flatMap.mp member
  obtain ⟨high, low⟩ := isInner_hexDigit byte
  obtain rfl | same := List.mem_cons.mp digit
  · exact high
  · rw [List.mem_singleton.mp same]
    exact low

theorem isInner_text (number : Nat) : ∀ c ∈ asciiNumerals.text number, isInner c = true := by
  intro c member
  apply isInner_digit
  by_contra other
  exact asciiNumerals.not_mem_text (Option.not_isSome_iff_eq_none.mp other) number member

theorem isInner_version {version : List UInt8} (parsed : (parse version).isSome = true) :
    ∀ c ∈ version, isInner c = true := by
  obtain ⟨code, accepted⟩ := Option.isSome_iff_exists.mp parsed
  intro c member
  by_cases dot : c = '.'.toUInt8
  · rw [dot]
    decide
  · apply isInner_digit
    by_contra other
    exact not_mem_version (Option.not_isSome_iff_eq_none.mp other) dot accepted member

theorem ne_space_of_isInner {c : UInt8} (inner : isInner c = true) : (c != space) = true := by
  simp only [isInner, Bool.and_eq_true] at inner
  exact inner.1.1.1

theorem field_inner {first : List UInt8} (inner : ∀ c ∈ first, isInner c = true)
    (rest : List UInt8) : field (first ++ space :: rest) = some (first, rest) := by
  have plain : ∀ c ∈ first, (c != space) = true := fun c member =>
    ne_space_of_isInner (inner c member)
  have behind : (first ++ space :: rest).dropWhile (· != space) = space :: rest := by
    rw [List.dropWhile_append_of_pos plain]
    rfl
  have before : (first ++ space :: rest).takeWhile (· != space) = first := by
    rw [List.takeWhile_append_of_pos plain]
    simp
  simp only [field, behind, before]

theorem toInt_text {number : Nat} (bounded : number < 2 ^ 31) :
    toInt (asciiNumerals.text number) = number := by
  have scanned := asciiNumerals.scan_text_of_nat number
  have inner := isInner_text number
  cases text : asciiNumerals.text number with
  | nil =>
      rw [text] at scanned
      have empty := (canonical_decimalDigits number).nonempty
      exact absurd (Prod.mk.inj scanned).1.symm empty
  | cons c rest =>
      rw [text] at scanned inner
      have digit : (asciiNumerals.value c).isSome = true := by
        by_contra other
        exact asciiNumerals.text_ne_cons (Option.not_isSome_iff_eq_none.mp other) number text
      have front : isSpace c = false := by
        have whole := inner c List.mem_cons_self
        simp only [isInner, Bool.and_eq_true, Bool.not_eq_true'] at whole
        exact whole.2
      have minus : c ≠ '-'.toUInt8 := by
        intro same
        rw [same] at digit
        exact absurd digit (by decide)
      have plus : c ≠ '+'.toUInt8 := by
        intro same
        rw [same] at digit
        exact absurd digit (by decide)
      rw [toInt, List.dropWhile_cons_of_neg (by simp [front])]
      simp only [if_neg minus, if_neg plus, scanned, readFrom_decimalDigits]
      omega

variable {package : Package}

theorem parseHeader_header (sendable : package.Sendable) :
    parseHeader package.header = some package.offer := by
  have version := field_inner (isInner_version sendable.version)
    (asciiNumerals.text package.image.length ++
      space :: (toHex package.sha256.toList ++ space :: toHex package.signature.toList))
  have size := field_inner (isInner_text package.image.length)
    (toHex package.sha256.toList ++ space :: toHex package.signature.toList)
  have sha := field_inner (isInner_toHex package.sha256.toList) (toHex package.signature.toList)
  have positive : 0 < package.image.length := List.length_pos_iff.mpr sendable.nonempty
  have behind : package.header.drop 4 = package.version ++ space ::
      (asciiNumerals.text package.image.length ++
        space :: (toHex package.sha256.toList ++ space :: toHex package.signature.toList)) := by
    simp [Package.header, ascii]
  rw [parseHeader, behind, version]
  simp only [Option.bind_eq_bind, Option.bind_some, size, sha, toInt_text sendable.fits,
    decodeHexExact_toHex]
  rw [if_neg (by omega)]
  rfl

/-- A byte that a line keeps where it is. -/
theorem header_bytes (sendable : package.Sendable) :
    ∀ c ∈ package.header, (c != newline) = true ∧ (c != 0) = true := by
  have inner {c : UInt8} (some : isInner c = true) : (c != newline) = true ∧ (c != 0) = true := by
    simp only [isInner, Bool.and_eq_true] at some
    exact ⟨some.1.1.2, some.1.2⟩
  have blank : (space != newline) = true ∧ (space != 0) = true := by decide
  have digits {data : List UInt8} : ∀ c ∈ toHex data, (c != newline) = true ∧ (c != 0) = true :=
    fun c member => inner (isInner_toHex data c member)
  simp only [Package.header]
  refine List.forall_mem_append.mpr ⟨List.forall_mem_append.mpr ⟨by decide +kernel,
    fun c member => inner (isInner_version sendable.version c member)⟩, ?_⟩
  refine List.forall_mem_cons.mpr ⟨blank, List.forall_mem_append.mpr ⟨fun c member =>
    inner (isInner_text _ c member), ?_⟩⟩
  exact List.forall_mem_cons.mpr ⟨blank, List.forall_mem_append.mpr ⟨digits,
    List.forall_mem_cons.mpr ⟨blank, digits⟩⟩⟩

theorem trim_header : trim package.header = package.header := by
  have front : package.header.dropWhile isSpace = package.header := rfl
  obtain ⟨rest, last, ends⟩ : ∃ rest last, toHex package.signature.toList = rest ++ [last] := by
    have some : toHex package.signature.toList ≠ [] := by
      intro empty
      have long := congrArg List.length empty
      simp [toHex] at long
    exact ⟨_, _, (List.dropLast_append_getLast some).symm⟩
  have inner : isSpace last = false := by
    have whole := isInner_toHex _ last (ends ▸ List.mem_append_right rest List.mem_cons_self)
    simp only [isInner, Bool.and_eq_true, Bool.not_eq_true'] at whole
    exact whole.2
  have back : package.header.reverse.dropWhile isSpace = package.header.reverse := by
    simp only [Package.header, ends, List.reverse_append, List.reverse_cons, List.reverse_nil,
      List.nil_append, List.append_assoc, List.cons_append]
    rw [List.dropWhile_cons_of_neg (by simp [inner])]
  rw [trim, front, back, List.reverse_reverse]

theorem cstr_header (sendable : package.Sendable) : cstr package.header = package.header := by
  have all : (package.header ++ []).takeWhile (· != 0) = package.header ++ [].takeWhile (· != 0) :=
    List.takeWhile_append_of_pos fun c member => (header_bytes sendable c member).2
  simpa [cstr] using all

/-- The header is not taken for another command. -/
theorem serialCommands_header (sendable : package.Sendable) (board : Board) (bench : Bench)
    (flashing : Flashing) (outcome : Outcome) :
    bench.serialCommands board package.header flashing outcome =
      match openOta board.release bench.guard package.offer flashing with
      | some (calls, result) =>
          bench.ends package.offer flashing outcome (bench.guard, calls, result)
      | none => { bench with doing := .loading package.offer flashing [] [] }.say nextLine := by
  have setup : parseSetupCommand package.header = .none := rfl
  have secret : parseBenchSecretCommand package.header = .notOurs := rfl
  have long : 190 < package.header.length := by
    simp [Package.header, toHex, ascii]
    omega
  have status : package.header ≠ ascii "OTA STATUS" := by
    intro same
    rw [same] at long
    exact absurd long (by decide)
  have healthy : package.header ≠ ascii "OTA HEALTHY" := by
    intro same
    rw [same] at long
    exact absurd long (by decide)
  have ota : isOta package.header = true := rfl
  rw [Bench.serialCommands, setup, secret]
  simp only [Bench.benchSerialOta, cstr_header sendable, if_neg status, if_neg healthy, ota,
    Bool.not_true, Bool.false_eq_true, if_false, parseHeader_header sendable]

theorem takeWhile_header (sendable : package.Sendable) :
    (package.header ++ [newline]).takeWhile (· != newline) = package.header ∧
      (package.header ++ [newline]).dropWhile (· != newline) = [newline] := by
  have plain := fun c member => (header_bytes sendable c member).1
  rw [List.takeWhile_append_of_pos plain, List.dropWhile_append_of_pos plain]
  simp

theorem applyOta_eq (release : Release) (guard : OtaGuard) (offer : Offer) (flashing : Flashing)
    (outcome : Outcome) :
    applyOta release guard offer flashing outcome =
      match openOta release guard offer flashing with
      | some (calls, result) => (guard, calls, result)
      | none => storeOta release guard offer flashing outcome := by
  simp only [applyOta, openOta]
  by_cases key : isUnusableKey release.publicKey = true
  · rw [if_pos key, if_pos key]
  rw [if_neg key, if_neg key]
  by_cases empty : offer.size = 0
  · rw [if_pos empty, if_pos empty]
  rw [if_neg empty, if_neg empty]
  by_cases refused : guard.check offer.version offer.sha256 ≠ .accept
  · rw [if_pos refused, if_pos refused]
  rw [if_neg refused, if_neg refused]
  by_cases large : flashing.slotSize < offer.size
  · rw [if_pos large, if_pos large]
  rw [if_neg large, if_neg large]
  cases flashing.memory with
  | false => rfl
  | true =>
      cases flashing.begun with
      | false => rfl
      | true => rfl

end Presence.Ota.Loader
