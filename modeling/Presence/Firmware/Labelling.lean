import Presence.Firmware.SetupLabel

namespace Presence.Firmware.SetupLabel

open Presence.Data

/-! # Labelling a terminal

`label` of `setup_label.py` on one end of the USB line, `serialCommands` and
`handleSetupKey` of `main.cpp` on the other.  A line is lost as a whole, or arrives.
The terminal's log lines come in between.
-/

/-- The ASCII part of what `str.split` and `str.strip` take for white space. -/
def isWhite (c : UInt8) : Bool := decide (9 ≤ c ∧ c ≤ 13 ∨ 28 ≤ c ∧ c ≤ 32)

def words (line : List UInt8) : List (List UInt8) :=
  (line.splitOnP isWhite).filter fun word => !word.isEmpty

/-- `f.split("=", 1)` of a word that has an equals sign. -/
def binding (word : List UInt8) : Option (List UInt8 × List UInt8) :=
  if word.contains '='.toUInt8 then
    some (word.takeWhile (· != '='.toUInt8), (word.dropWhile (· != '='.toUInt8)).drop 1)
  else none

/-- The last one wins. -/
def lookup (fields : List (List UInt8 × List UInt8)) (name : List UInt8) : Option (List UInt8) :=
  (fields.reverse.find? (·.1 == name)).map (·.2)

def strip (text : List UInt8) : List UInt8 :=
  ((text.dropWhile isWhite).reverse.dropWhile isWhite).reverse

def parseMac (text : List UInt8) : Option Mac :=
  decodeHexExact ((strip text).filter fun c => c != ':'.toUInt8 && c != '-'.toUInt8) 6

def identify (ident : List UInt8) : Option Mac × Bool :=
  let fields := (words ident).tail.filterMap binding
  (parseMac ((lookup fields (ascii "mac")).getD []),
    lookup fields (ascii "key") == some (ascii "present"))

inductive LabelExit where
  | labelled (mac : Mac) (password : List UInt8)
  | refused (reply : List UInt8)
  | hasKey (mac : Mac)
  | notAMac
  | timedOut
deriving DecidableEq

inductive Labeller where
  | asking
  | keyed (mac : Mac) (password : List UInt8)
  | done (exit : LabelExit)
deriving DecidableEq

def idCommand : List UInt8 := ascii "SETUP-ID"

def keyCommand (password : List UInt8) : List UInt8 := ascii "SETUP-KEY " ++ password

structure Job where
  factoryKey : Vector UInt8 32
  replace : Bool
  mac : Mac

/-- What NVS makes of a write: whether it said so, and what it holds afterwards. -/
structure Saving where
  saved : Bool
  holds : Option SetupApKey
deriving DecidableEq

/-- The host reads a line, and may send one. -/
def Labeller.reads (job : Job) (host : Labeller) (line : List UInt8) :
    Labeller × List (List UInt8) :=
  match host with
  | .asking =>
      if !(ascii "SETUP-ID ").isPrefixOf line then (.asking, [])
      else
        match identify line with
        | (none, _) => (.done .notAMac, [])
        | (some mac, present) =>
            if present && !job.replace then (.done (.hasKey mac), [])
            else
              let password := derive job.factoryKey mac
              (.keyed mac password, [keyCommand password])
  | .keyed mac password =>
      if !(ascii "SETUP-KEY ").isPrefixOf line then (host, [])
      else if line ≠ ascii "SETUP-KEY OK" then (.done (.refused line), [])
      else (.done (.labelled mac password), [])
  | .done _ => (host, [])

def handleSetupKey (store : Option SetupApKey) (key : List UInt8) (nvs : Saving) :
    Option SetupApKey × List UInt8 :=
  match makeSetupKey key with
  | none => (store, ascii "SETUP-KEY REJECT not a setup key (xxxx-xxxx-xxxx-xxxx)")
  | some record =>
      (nvs.holds,
        if nvs.saved && nvs.holds == some record then ascii "SETUP-KEY OK"
        else ascii "SETUP-KEY REJECT could not store it in NVS")

def haveSetupKey (store : Option SetupApKey) : Bool := (loadUsableSetupKey store).isSome

/-- What the terminal answers a line that is no bench command. -/
def serialCommands (mac : Mac) (store : Option SetupApKey) (line : List UInt8) (nvs : Saving) :
    Option SetupApKey × List (List UInt8) :=
  match parseSetupCommand line with
  | .id => (store, [setupIdLine mac (haveSetupKey store)])
  | .setKey key =>
      let (store, reply) := handleSetupKey store key nvs
      (store, [reply])
  | .malformed => (store, [ascii "SETUP REJECT unknown command"])
  | .none => (store, [])

structure Desk where
  store : Option SetupApKey
  toTerminal : List (List UInt8)
  toHost : List (List UInt8)
  host : Labeller
deriving DecidableEq

def Desk.start (store : Option SetupApKey) : Desk := ⟨store, [], [], .asking⟩

inductive Event where
  | resends
  | hostReads
  | hostTimesOut
  | terminalReads (nvs : Saving)
  | lost
  | chatter (line : List UInt8)

def Desk.step (job : Job) (desk : Desk) : Event → Option Desk
  | .resends =>
      if desk.host = .asking then some { desk with toTerminal := desk.toTerminal ++ [idCommand] }
      else none
  | .hostReads =>
      match desk.toHost with
      | [] => none
      | line :: toHost =>
          let (host, sent) := desk.host.reads job line
          some { desk with host, toHost, toTerminal := desk.toTerminal ++ sent }
  | .hostTimesOut =>
      match desk.host with
      | .done _ => none
      | _ => some { desk with host := .done .timedOut }
  | .terminalReads nvs =>
      match desk.toTerminal with
      | [] => none
      | line :: toTerminal =>
          let (store, replies) := serialCommands job.mac desk.store line nvs
          some { desk with store, toTerminal, toHost := desk.toHost ++ replies }
  | .lost =>
      match desk.toTerminal with
      | [] => none
      | _ :: toTerminal => some { desk with toTerminal }
  | .chatter line =>
      if (ascii "SETUP-").isPrefixOf line then none
      else some { desk with toHost := desk.toHost ++ [line] }

/-! ## The line that identifies a terminal -/

theorem upperHex_byte : ∀ byte : UInt8,
    let high := (ascii "0123456789ABCDEF").getD (byte >>> 4).toNat 0
    let low := (ascii "0123456789ABCDEF").getD (byte &&& 0x0F).toNat 0
    (nibble high = some (byte >>> 4) ∧ nibble low = some (byte &&& 0x0F)) ∧
      isWhite high = false ∧ isWhite low = false ∧
      (high != ':'.toUInt8 && high != '-'.toUInt8) = true ∧
      (low != ':'.toUInt8 && low != '-'.toUInt8) = true := by
  refine forall_byte ?_
  decide +kernel

theorem upperHex_plain {data : List UInt8} {c : UInt8} (member : c ∈ upperHex data) :
    isWhite c = false ∧ (c != ':'.toUInt8 && c != '-'.toUInt8) = true := by
  obtain ⟨byte, -, digit⟩ := List.mem_flatMap.mp member
  obtain ⟨-, highWhite, lowWhite, high, low⟩ := upperHex_byte byte
  obtain rfl | same := List.mem_cons.mp digit
  · exact ⟨highWhite, high⟩
  · rw [List.mem_singleton.mp same]
    exact ⟨lowWhite, low⟩

theorem strip_plain {text : List UInt8} (plain : ∀ c ∈ text, isWhite c = false) :
    strip text = text := by
  have kept {some : List UInt8} (none : ∀ c ∈ some, isWhite c = false) :
      some.dropWhile isWhite = some := by
    cases some with
    | nil => rfl
    | cons c rest => rw [List.dropWhile_cons_of_neg (by simp [none])]
  rw [strip, kept plain, kept (by simpa using plain), List.reverse_reverse]

theorem parseMac_deviceSerial (mac : Mac) : parseMac (deviceSerial mac) = some mac := by
  have plain : ∀ c ∈ upperHex mac.toList, isWhite c = false := fun c member =>
    (upperHex_plain member).1
  have all : (upperHex mac.toList).filter (fun c => c != ':'.toUInt8 && c != '-'.toUInt8) =
      upperHex mac.toList :=
    List.filter_eq_self.mpr fun c member => (upperHex_plain member).2
  rw [parseMac, deviceSerial, strip_plain plain, all]
  exact decodeHexExact_vector (by simp [upperHex])
    (decodeHexPairs_flatMap (fun byte => (upperHex_byte byte).1) mac.toList)

/-- Words that are set apart by one blank each. -/
theorem words_blank {first : List UInt8} (plain : ∀ c ∈ first, isWhite c = false)
    (nonempty : first ≠ []) (rest : List UInt8) :
    words (first ++ ' '.toUInt8 :: rest) = first :: words rest := by
  rw [words, List.splitOnP_append_cons_of_forall_mem plain _ (by decide), List.filter_cons_of_pos
    (by simpa using nonempty), words]

theorem words_last {word : List UInt8} (plain : ∀ c ∈ word, isWhite c = false)
    (nonempty : word ≠ []) : words word = [word] := by
  rw [words, List.splitOnP_eq_singleton plain, List.filter_cons_of_pos (by simpa using nonempty)]
  rfl

theorem identify_setupIdLine (mac : Mac) (present : Bool) :
    identify (setupIdLine mac present) = (some mac, present) := by
  let key := if present then ascii "key=present" else ascii "key=absent"
  have serial : ∀ c ∈ ascii "mac=" ++ deviceSerial mac, isWhite c = false :=
    List.forall_mem_append.mpr ⟨by decide +kernel, fun c member => (upperHex_plain member).1⟩
  have ssid : ∀ c ∈ ascii "ssid=" ++ softApSsid mac, isWhite c = false :=
    List.forall_mem_append.mpr ⟨by decide +kernel, List.forall_mem_append.mpr
      ⟨by decide +kernel, fun c member => (upperHex_plain member).1⟩⟩
  have apart : setupIdLine mac present = ascii "SETUP-ID" ++ ' '.toUInt8 ::
      ((ascii "mac=" ++ deviceSerial mac) ++ ' '.toUInt8 ::
        ((ascii "ssid=" ++ softApSsid mac) ++ ' '.toUInt8 :: key)) := by
    cases present <;> simp [setupIdLine, key, ascii]
  have split : words (setupIdLine mac present) = [ascii "SETUP-ID",
      ascii "mac=" ++ deviceSerial mac, ascii "ssid=" ++ softApSsid mac, key] := by
    rw [apart, words_blank (by decide +kernel) (by decide), words_blank serial (by simp [ascii]),
      words_blank ssid (by simp [ascii]), words_last (by cases present <;> decide +kernel)
        (by cases present <;> decide)]
  have fields : (words (setupIdLine mac present)).tail.filterMap binding =
      [(ascii "mac", deviceSerial mac), (ascii "ssid", softApSsid mac),
        (ascii "key", if present then ascii "present" else ascii "absent")] := by
    rw [split]
    cases present <;> rfl
  rw [identify, fields]
  cases present
  · exact Prod.ext (parseMac_deviceSerial mac) rfl
  · exact Prod.ext (parseMac_deviceSerial mac) rfl

/-! ## What a session keeps -/

variable {job : Job} {desk next final : Desk} {event : Event} {initial : Option SetupApKey}

def Job.password (job : Job) : List UInt8 := derive job.factoryKey job.mac

def Job.record (job : Job) : SetupApKey := setupKeyRecord job.password

/-- The host may send the key. -/
def Job.Allowed (job : Job) (initial : Option SetupApKey) : Prop :=
  haveSetupKey initial = true → job.replace = true

def isKeyReply (line : List UInt8) : Bool := (ascii "SETUP-KEY ").isPrefixOf line

def isIdReply (line : List UInt8) : Bool := (ascii "SETUP-ID ").isPrefixOf line

/-- How often the key was sent and not answered to the end. -/
def Desk.keys (job : Job) (desk : Desk) : Nat :=
  desk.toTerminal.count (keyCommand job.password) + desk.toHost.countP isKeyReply

structure Session (job : Job) (initial : Option SetupApKey) (desk : Desk) : Prop where
  commands : ∀ line ∈ desk.toTerminal, line = idCommand ∨ line = keyCommand job.password
  asking : desk.host = .asking → desk.keys job = 0
  keyed : ∀ mac password, desk.host = .keyed mac password →
    mac = job.mac ∧ password = job.password ∧ job.Allowed initial ∧ desk.keys job ≤ 1
  identified : desk.host = .asking → ∀ line ∈ desk.toHost, isIdReply line = true →
    line = setupIdLine job.mac (haveSetupKey initial)
  untouched : desk.host = .asking → desk.store = initial
  stored : (∃ mac password, desk.host = .keyed mac password) → ascii "SETUP-KEY OK" ∈ desk.toHost →
    desk.store = some job.record
  printed : ∀ mac password, desk.host = .done (.labelled mac password) →
    mac = job.mac ∧ password = job.password ∧ job.Allowed initial ∧
      desk.store = some job.record ∧ keyCommand job.password ∉ desk.toTerminal
  protect : ¬ job.Allowed initial → desk.store = initial ∧ keyCommand job.password ∉ desk.toTerminal

theorem password_valid (job : Job) : validSetupKey job.password = true := derive_valid _ _

theorem idCommand_ne_keyCommand (password : List UInt8) : idCommand ≠ keyCommand password := by
  intro same
  have head := congrArg (fun line => line.getD 6 0) same
  simp [idCommand, keyCommand, ascii] at head
  exact absurd head (by decide)

theorem parse_idCommand : parseSetupCommand idCommand = .id := by
  decide

theorem parse_keyCommand {password : List UInt8} (nonempty : password ≠ []) :
    parseSetupCommand (keyCommand password) = .setKey password := by
  have long : (keyCommand password).length > 10 := by
    have positive := List.length_pos_iff.mpr nonempty
    simp only [keyCommand, List.length_append]
    exact Nat.lt_add_of_pos_right positive
  have front : (ascii "SETUP-").isPrefixOf (keyCommand password) = true := rfl
  have other : (keyCommand password == ascii "SETUP-ID") = false :=
    beq_false_of_ne fun same => idCommand_ne_keyCommand password same.symm
  have key : (ascii "SETUP-KEY ").isPrefixOf (keyCommand password) = true := rfl
  rw [parseSetupCommand, front, other, key, if_neg (by simp), if_neg (by simp), if_pos ⟨long, rfl⟩]
  rfl

theorem serialCommands_id (mac : Mac) (store : Option SetupApKey) (nvs : Saving) :
    serialCommands mac store idCommand nvs = (store, [setupIdLine mac (haveSetupKey store)]) := by
  rw [serialCommands, parse_idCommand]

theorem serialCommands_key (job : Job) (store : Option SetupApKey) (nvs : Saving) :
    ∃ reply, serialCommands job.mac store (keyCommand job.password) nvs = (nvs.holds, [reply]) ∧
      isKeyReply reply = true ∧ (reply = ascii "SETUP-KEY OK" → nvs.holds = some job.record) := by
  have nonempty : job.password ≠ [] := by
    intro empty
    have long := length_of_valid (password_valid job)
    simp [empty] at long
  have made : makeSetupKey job.password = some job.record := by
    rw [makeSetupKey, password_valid, if_pos rfl]
    rfl
  rw [serialCommands, parse_keyCommand nonempty]
  simp only [handleSetupKey, made]
  by_cases good : (nvs.saved && nvs.holds == some job.record) = true
  · rw [if_pos good]
    refine ⟨_, rfl, by decide, fun _ => ?_⟩
    simp only [Bool.and_eq_true, beq_iff_eq] at good
    exact good.2
  · rw [if_neg good]
    exact ⟨_, rfl, by decide, fun same => absurd same (by decide)⟩

theorem setupIdLine_isIdReply (mac : Mac) (present : Bool) :
    isIdReply (setupIdLine mac present) = true ∧ isKeyReply (setupIdLine mac present) = false := by
  cases present <;> exact ⟨rfl, rfl⟩

theorem okLine_isKeyReply : isKeyReply (ascii "SETUP-KEY OK") = true := rfl

/-- A line that does not start with `SETUP-` is neither reply. -/
theorem not_reply {line : List UInt8} (other : (ascii "SETUP-").isPrefixOf line = false) :
    isIdReply line = false ∧ isKeyReply line = false := by
  have apart (more : List UInt8) : (ascii "SETUP-" ++ more).isPrefixOf line = false := by
    by_contra longer
    obtain ⟨rest, rfl⟩ := List.isPrefixOf_iff_prefix.mp (Bool.of_not_eq_false longer)
    have front : (ascii "SETUP-").isPrefixOf (ascii "SETUP-" ++ more ++ rest) = true :=
      List.isPrefixOf_iff_prefix.mpr ⟨more ++ rest, by simp⟩
    exact absurd (front.symm.trans other) (by decide)
  exact ⟨apart (ascii "ID "), apart (ascii "KEY ")⟩

theorem session_start (job : Job) (initial : Option SetupApKey) :
    Session job initial (.start initial) where
  commands := by simp [Desk.start]
  asking _ := rfl
  keyed := by simp [Desk.start]
  identified := by simp [Desk.start]
  untouched _ := rfl
  stored := by simp [Desk.start]
  printed := by simp [Desk.start]
  protect _ := ⟨rfl, by simp [Desk.start]⟩

theorem Session.resends (session : Session job initial desk) (asking : desk.host = .asking) :
    Session job initial { desk with toTerminal := desk.toTerminal ++ [idCommand] } := by
  have other : (idCommand == keyCommand job.password) = false :=
    beq_false_of_ne (idCommand_ne_keyCommand _)
  have same : Desk.keys job { desk with toTerminal := desk.toTerminal ++ [idCommand] } =
      desk.keys job := by
    simp [Desk.keys, List.count_append, List.count_singleton, other]
  have absent (earlier : keyCommand job.password ∉ desk.toTerminal) :
      keyCommand job.password ∉ desk.toTerminal ++ [idCommand] := by
    simpa using ⟨earlier, (idCommand_ne_keyCommand _).symm⟩
  exact {
    commands := List.forall_mem_append.mpr ⟨session.commands, by simp⟩
    asking := fun waits => same.trans (session.asking waits)
    keyed := fun mac password keyed => by rw [same]; exact session.keyed mac password keyed
    identified := session.identified
    untouched := session.untouched
    stored := session.stored
    printed := fun mac password done => by
      have host : desk.host = _ := done
      rw [asking] at host
      cases host
    protect := fun forbidden => (session.protect forbidden).imp_right absent }

/-- The host has given up, or ends with anything but a label. -/
theorem Session.ends (session : Session job initial desk) {exit : LabelExit}
    (other : ∀ mac password, exit ≠ .labelled mac password) (toHost : List (List UInt8)) :
    Session job initial { desk with host := .done exit, toHost } where
  commands := session.commands
  asking := nofun
  keyed := nofun
  identified := nofun
  untouched := nofun
  stored := nofun
  printed mac password done := absurd (Labeller.done.inj done) (other mac password)
  protect := session.protect

/-- A line that the host skips. -/
theorem Session.skips (session : Session job initial desk) {line : List UInt8}
    {toHost : List (List UInt8)} (first : desk.toHost = line :: toHost) :
    Session job initial { desk with toHost } := by
  have less : Desk.keys job { desk with toHost } ≤ desk.keys job := by
    simp only [Desk.keys, first, List.countP_cons]
    omega
  exact {
    commands := session.commands
    asking := fun waits => Nat.le_zero.mp (less.trans (session.asking waits).le)
    keyed := fun mac password keyed => by
      obtain ⟨own, derived, allowed, once⟩ := session.keyed mac password keyed
      exact ⟨own, derived, allowed, less.trans once⟩
    identified := fun waits other member =>
      session.identified waits other (first ▸ List.mem_cons_of_mem _ member)
    untouched := session.untouched
    stored := fun keyed member =>
      session.stored keyed (first ▸ List.mem_cons_of_mem _ member)
    printed := session.printed
    protect := session.protect }

theorem Session.sends (session : Session job initial desk) (asking : desk.host = .asking)
    {line : List UInt8} {toHost : List (List UInt8)} (first : desk.toHost = line :: toHost)
    (allowed : job.Allowed initial) :
    Session job initial { desk with
      host := .keyed job.mac job.password, toHost
      toTerminal := desk.toTerminal ++ [keyCommand job.password] } := by
  have none := session.asking asking
  simp only [Desk.keys, first, List.countP_cons, Nat.add_eq_zero_iff] at none
  obtain ⟨unsent, unanswered, -⟩ := none
  exact {
    commands := List.forall_mem_append.mpr ⟨session.commands, by simp⟩
    asking := nofun
    keyed := fun mac password keyed => by
      cases keyed
      exact ⟨rfl, rfl, allowed, by simp [Desk.keys, List.count_append, unsent, unanswered]⟩
    identified := nofun
    untouched := nofun
    stored := fun _ member =>
      absurd okLine_isKeyReply (List.countP_eq_zero.mp unanswered _ member)
    printed := nofun
    protect := fun forbidden => absurd allowed forbidden }

theorem Session.prints (session : Session job initial desk) {mac : Mac} {password : List UInt8}
    (keyed : desk.host = .keyed mac password) {toHost : List (List UInt8)}
    (first : desk.toHost = ascii "SETUP-KEY OK" :: toHost) :
    Session job initial { desk with host := .done (.labelled mac password), toHost } := by
  obtain ⟨own, derived, allowed, once⟩ := session.keyed mac password keyed
  have held := session.stored ⟨mac, password, keyed⟩ (first ▸ List.mem_cons_self)
  simp only [Desk.keys, first, List.countP_cons, okLine_isKeyReply, if_true] at once
  have gone : keyCommand job.password ∉ desk.toTerminal := List.count_eq_zero.mp (by omega)
  exact {
    commands := session.commands
    asking := nofun
    keyed := nofun
    identified := nofun
    untouched := nofun
    stored := by simp
    printed := fun mac' password' done => by
      cases done
      exact ⟨own, derived, allowed, held, gone⟩
    protect := session.protect }

theorem Session.hostReads (session : Session job initial desk) {line : List UInt8}
    {toHost : List (List UInt8)} (first : desk.toHost = line :: toHost) :
    Session job initial { desk with
      host := (desk.host.reads job line).1, toHost
      toTerminal := desk.toTerminal ++ (desk.host.reads job line).2 } := by
  have skipped := session.skips first
  cases host : desk.host with
  | asking =>
      simp only [Labeller.reads]
      by_cases identifies : isIdReply line = true
      · have own := session.identified host line (first ▸ List.mem_cons_self) identifies
        rw [isIdReply] at identifies
        simp only [identifies, Bool.not_true, Bool.false_eq_true, if_false]
        rw [own, identify_setupIdLine]
        by_cases kept : (haveSetupKey initial && !job.replace) = true
        · simp only [kept, if_true, List.append_nil]
          exact session.ends (by simp) toHost
        · simp only [kept, Bool.false_eq_true, if_false]
          refine session.sends host first fun present => ?_
          simpa [present] using kept
      · rw [isIdReply] at identifies
        simp only [identifies, Bool.not_false, if_true, List.append_nil]
        exact host ▸ skipped
  | keyed mac password =>
      simp only [Labeller.reads]
      by_cases replies : isKeyReply line = true
      · rw [isKeyReply] at replies
        simp only [replies, Bool.not_true, Bool.false_eq_true, if_false]
        by_cases ok : line = ascii "SETUP-KEY OK"
        · simp only [ok, ne_eq, not_true_eq_false, if_false, List.append_nil]
          exact session.prints host (ok ▸ first)
        · simp only [ok, ne_eq, not_false_eq_true, if_true, List.append_nil]
          exact session.ends (by simp) toHost
      · rw [isKeyReply] at replies
        simp only [replies, Bool.not_false, if_true, List.append_nil]
        exact host ▸ skipped
  | done exit =>
      simp only [Labeller.reads, List.append_nil]
      exact host ▸ skipped

/-- The terminal hears less than was sent. -/
theorem Session.lost (session : Session job initial desk) {line : List UInt8}
    {toTerminal : List (List UInt8)} (first : desk.toTerminal = line :: toTerminal) :
    Session job initial { desk with toTerminal } := by
  have less : Desk.keys job { desk with toTerminal } ≤ desk.keys job := by
    simp only [Desk.keys, first, List.count_cons]
    omega
  have absent (earlier : keyCommand job.password ∉ desk.toTerminal) :
      keyCommand job.password ∉ toTerminal := by
    rw [first] at earlier
    exact fun member => earlier (List.mem_cons_of_mem _ member)
  exact {
    commands := fun other member =>
      session.commands other (first ▸ List.mem_cons_of_mem _ member)
    asking := fun waits => Nat.le_zero.mp (less.trans (session.asking waits).le)
    keyed := fun mac password keyed => by
      obtain ⟨own, derived, allowed, once⟩ := session.keyed mac password keyed
      exact ⟨own, derived, allowed, less.trans once⟩
    identified := session.identified
    untouched := session.untouched
    stored := session.stored
    printed := fun mac password done => by
      obtain ⟨own, derived, allowed, held, gone⟩ := session.printed mac password done
      exact ⟨own, derived, allowed, held, absent gone⟩
    protect := fun forbidden => (session.protect forbidden).imp_right absent }

/-- The terminal prints a line that answers no `SETUP-KEY`. -/
theorem Session.speaks (session : Session job initial desk) {line : List UInt8}
    (other : isKeyReply line = false)
    (identifies : isIdReply line = true → desk.host = .asking →
      line = setupIdLine job.mac (haveSetupKey initial)) :
    Session job initial { desk with toHost := desk.toHost ++ [line] } := by
  have same : Desk.keys job { desk with toHost := desk.toHost ++ [line] } = desk.keys job := by
    simp [Desk.keys, List.countP_append, other]
  exact {
    commands := session.commands
    asking := fun waits => same.trans (session.asking waits)
    keyed := fun mac password keyed => by rw [same]; exact session.keyed mac password keyed
    identified := fun waits => List.forall_mem_append.mpr
      ⟨session.identified waits, by simpa using fun reply => identifies reply waits⟩
    untouched := session.untouched
    stored := fun keyed member => by
      obtain old | last := List.mem_append.mp member
      · exact session.stored keyed old
      · rw [← List.mem_singleton.mp last, okLine_isKeyReply] at other
        cases other
    printed := session.printed
    protect := session.protect }

theorem Session.stores (session : Session job initial desk) {toTerminal : List (List UInt8)}
    (first : desk.toTerminal = keyCommand job.password :: toTerminal) (nvs : Saving)
    {reply : List UInt8} (answers : isKeyReply reply = true)
    (honest : reply = ascii "SETUP-KEY OK" → nvs.holds = some job.record) :
    Session job initial { desk with
      store := nvs.holds, toTerminal, toHost := desk.toHost ++ [reply] } := by
  have sent : keyCommand job.password ∈ desk.toTerminal := first ▸ List.mem_cons_self
  have same : Desk.keys job { desk with
      store := nvs.holds, toTerminal, toHost := desk.toHost ++ [reply] } = desk.keys job := by
    simp only [Desk.keys, first, List.count_cons_self, List.countP_append, List.countP_singleton,
      answers, if_true]
    omega
  have some : desk.keys job ≠ 0 := by
    simp only [Desk.keys, first, List.count_cons_self]
    omega
  exact {
    commands := fun other member =>
      session.commands other (first ▸ List.mem_cons_of_mem _ member)
    asking := fun waits => absurd (session.asking waits) some
    keyed := fun mac password keyed => by rw [same]; exact session.keyed mac password keyed
    identified := fun waits => absurd (session.asking waits) some
    untouched := fun waits => absurd (session.asking waits) some
    stored := fun keyed member => by
      obtain ⟨mac, password, host⟩ := keyed
      obtain ⟨-, -, -, once⟩ := session.keyed mac password host
      simp only [Desk.keys, first, List.count_cons_self] at once
      have none : desk.toHost.countP isKeyReply = 0 := by omega
      obtain old | last := List.mem_append.mp member
      · exact absurd okLine_isKeyReply (List.countP_eq_zero.mp none _ old)
      · exact honest (List.mem_singleton.mp last).symm
    printed := fun mac password done => absurd sent (session.printed mac password done).2.2.2.2
    protect := fun forbidden => absurd sent (session.protect forbidden).2 }

theorem Session.step (session : Session job initial desk)
    (taken : desk.step job event = some next) : Session job initial next := by
  cases event with
  | resends =>
      simp only [Desk.step, Option.ite_none_right_eq_some, Option.some.injEq] at taken
      exact taken.2 ▸ session.resends taken.1
  | hostReads =>
      simp only [Desk.step] at taken
      split at taken
      · cases taken
      · rename_i line toHost first
        cases taken
        exact session.hostReads first
  | hostTimesOut =>
      simp only [Desk.step] at taken
      split at taken
      · cases taken
      · cases taken
        exact session.ends (by simp) desk.toHost
  | terminalReads nvs =>
      simp only [Desk.step] at taken
      split at taken
      · cases taken
      · rename_i line toTerminal first
        cases taken
        obtain rfl | rfl := session.commands line (first ▸ List.mem_cons_self)
        · rw [serialCommands_id]
          obtain ⟨-, other⟩ := setupIdLine_isIdReply job.mac (haveSetupKey desk.store)
          refine (session.lost first).speaks other fun _ waits => ?_
          rw [session.untouched waits]
        · obtain ⟨reply, answer, answers, honest⟩ := serialCommands_key job desk.store nvs
          rw [answer]
          exact session.stores first nvs answers honest
  | lost =>
      simp only [Desk.step] at taken
      split at taken
      · cases taken
      · rename_i line toTerminal first
        cases taken
        exact session.lost first
  | chatter line =>
      simp only [Desk.step] at taken
      split at taken
      · cases taken
      · rename_i other
        cases taken
        obtain ⟨noId, noKey⟩ := not_reply (Bool.of_not_eq_true other)
        exact session.speaks noKey fun reply => absurd (noId.symm.trans reply) (by decide)

/-- A printed label opens the setup network of the terminal on the line, and without
`--replace` a key that is in use stays. -/
theorem label_opens_network (job : Job) (initial : Option SetupApKey) (events : List Event)
    (final : Desk) (ran : run (Desk.step job) (.start initial) events = some final) :
    (∀ mac password, final.host = .done (.labelled mac password) →
      mac = job.mac ∧ password = derive job.factoryKey job.mac ∧
        ∃ record, loadUsableSetupKey final.store = some record ∧ keyText record = password) ∧
      (haveSetupKey initial = true → job.replace = false →
        final.store = initial ∧ ∀ mac password, final.host ≠ .done (.labelled mac password)) := by
  have session : Session job initial final := run_invariant
    (fun state input next holds taken => Session.step holds taken) (session_start job initial) ran
  constructor
  · intro mac password done
    obtain ⟨own, derived, -, held, -⟩ := session.printed mac password done
    refine ⟨own, derived, job.record, ?_, ?_⟩
    · rw [held]
      exact loadUsable_record (password_valid job)
    · rw [derived]
      exact keyText_record (password_valid job)
  · intro used keeps
    have forbidden : ¬ job.Allowed initial := by
      intro allowed
      rw [allowed used] at keeps
      cases keeps
    refine ⟨(session.protect forbidden).1, fun mac password done => ?_⟩
    exact forbidden (session.printed mac password done).2.2.1

def goldenJob : Job :=
  ⟨Vector.ofFn fun i : Fin 32 => UInt8.ofNat i, false, #v[0x24, 0x6F, 0x28, 0xA1, 0xB2, 0xC3]⟩

def goldenPassword : List UInt8 := ascii "usty-qc6e-hs6z-52yd"

/-- The golden vector, with one command lost and one asked twice. -/
theorem label_opens_network_golden :
    ∃ record, loadUsableSetupKey (some (setupKeyRecord goldenPassword)) = some record ∧
      keyText record = goldenPassword :=
  let record := setupKeyRecord goldenPassword
  have ran : run (Desk.step goldenJob) (.start none)
      [.resends, .lost, .resends, .resends, .chatter (ascii "state: PROVISION"),
        .terminalReads ⟨false, none⟩, .terminalReads ⟨false, none⟩, .hostReads, .hostReads,
        .terminalReads ⟨true, some record⟩, .hostReads, .hostReads] =
      some ⟨some record, [], [], .done (.labelled goldenJob.mac goldenPassword)⟩ := by
    decide +kernel
  ((label_opens_network goldenJob none _ _ ran).1 _ _ rfl).2.2

end Presence.Firmware.SetupLabel
