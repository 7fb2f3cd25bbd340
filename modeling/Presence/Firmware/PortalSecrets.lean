import Presence.Data.Machine
import Presence.Firmware.WifiPortal

namespace Presence.Firmware

open Presence.Data

/-! # What the portal does not tell

Its responses depend on the password and the token of a form through nothing but the
results of the checks and of the stores.
-/

/-- The checks cannot tell two forms apart, which name the same network. -/
structure SameVerdicts (first second : List UInt8) : Prop where
  form : (parseWifiForm first).1 = (parseWifiForm second).1
  ssid : (parseWifiForm first).2.ssid = (parseWifiForm second).2.ssid
  field : (makeCredentials (parseWifiForm first).2.ssid (parseWifiForm first).2.password).1 =
    (makeCredentials (parseWifiForm second).2.ssid (parseWifiForm second).2.password).1
  token : (makeTokenRecord (parseWifiForm first).2.token).1 =
    (makeTokenRecord (parseWifiForm second).2.token).1

/-- Equal, or two forms for `/save`. -/
inductive SameRequest : HttpRequest → HttpRequest → Prop where
  | same (req : HttpRequest) : SameRequest req req
  | save {first second : List UInt8} (verdicts : SameVerdicts first second) :
      SameRequest ⟨ascii "POST", ascii "/save", first⟩ ⟨ascii "POST", ascii "/save", second⟩

/-- What happens to the portal in two runs at once.  The stores return the same. -/
inductive SameInput : PortalInput → PortalInput → Prop where
  | same (input : PortalInput) : SameInput input input
  | request {first second : HttpRequest} (requests : SameRequest first second) (parsed : HttpParse)
      (nowMs : UInt32) : SameInput (.request parsed first nowMs) (.request parsed second nowMs)

section Forms

variable {portal : WifiPortal} {first second : WifiForm}

theorem finish_ssid (ssid : first.ssid = second.ssid) (prefill : List UInt8) (nowMs : UInt32)
    (stored : Bool) :
    portal.finish first prefill nowMs stored = portal.finish second prefill nowMs stored := by
  rw [WifiPortal.finish, WifiPortal.finish, ssid]

theorem storeWifi_alike (ssid : first.ssid = second.ssid) (prefill : List UInt8) (nowMs : UInt32)
    (creds others : WifiCredentials) (stored : Bool) :
    Calling.Alike Eq (portal.storeWifi first prefill nowMs creds stored)
      (portal.storeWifi second prefill nowMs others stored) := by
  have finished (stored : Bool) : Calling.Alike Eq (portal.finish first prefill nowMs stored)
      (portal.finish second prefill nowMs stored) := by
    rw [finish_ssid ssid]
    exact .refl (fun _ => rfl) _
  rw [WifiPortal.storeWifi, WifiPortal.storeWifi]
  split
  · intro saved
    dsimp only
    split
    · exact finished
    · exact finished false
  · exact finished false

theorem storeToken_alike (ssid : first.ssid = second.ssid) (prefill : List UInt8) (nowMs : UInt32)
    (creds others : WifiCredentials) (tok other : ProvisionTokenRecord) :
    Calling.Alike Eq (portal.storeToken first prefill nowMs creds tok)
      (portal.storeToken second prefill nowMs others other) := by
  rw [WifiPortal.storeToken, WifiPortal.storeToken]
  split
  · intro saved
    dsimp only
    split
    · exact storeWifi_alike ssid prefill nowMs creds others
    · exact storeWifi_alike ssid prefill nowMs creds others false
  · exact storeWifi_alike ssid prefill nowMs creds others false

end Forms

/-- Whether a token was given at all is one of the results. -/
theorem token_empty_iff (token : List UInt8) :
    (trimSpaces token).isEmpty = true ↔ (makeTokenRecord token).1 = .missing := by
  rw [makeTokenRecord_fst, validateProvisionToken, List.isEmpty_iff, ← List.length_eq_zero_iff]
  split
  · case isTrue empty => simp [empty]
  · case isFalse given =>
      refine ⟨fun empty => absurd empty given, fun missing => ?_⟩
      split at missing
      · cases missing
      split at missing <;> cases missing

theorem save_alike {first second : List UInt8} (verdicts : SameVerdicts first second)
    (portal : WifiPortal) (method path : List UInt8) (nowMs : UInt32) :
    Calling.Alike Eq (portal.save ⟨method, path, first⟩ nowMs)
      (portal.save ⟨method, path, second⟩ nowMs) := by
  have empty := (token_empty_iff (parseWifiForm first).2.token).trans
    (by rw [verdicts.token, ← token_empty_iff])
  obtain ⟨parse, ssid, field, token⟩ := verdicts
  rw [WifiPortal.save, WifiPortal.save]
  split
  · rfl
  generalize parseWifiForm first = one at parse ssid field token empty ⊢
  generalize parseWifiForm second = other at parse ssid field token empty ⊢
  obtain ⟨fe, form⟩ := one
  obtain ⟨_, twin⟩ := other
  dsimp only at parse ssid field token empty ⊢
  subst parse
  split
  · rfl
  rw [ssid] at field ⊢
  generalize makeCredentials twin.ssid form.password = made at field ⊢
  generalize makeCredentials twin.ssid twin.password = madeTwin at field ⊢
  obtain ⟨ve, creds⟩ := made
  obtain ⟨_, others⟩ := madeTwin
  dsimp only at field ⊢
  subst field
  split
  · rfl
  simp only [empty]
  split
  · exact storeWifi_alike ssid _ nowMs creds others true
  generalize makeTokenRecord form.token = record at token ⊢
  generalize makeTokenRecord twin.token = recordTwin at token ⊢
  obtain ⟨te, tok⟩ := record
  obtain ⟨_, otherTok⟩ := recordTwin
  dsimp only at token ⊢
  subst token
  split
  · rfl
  · exact storeToken_alike ssid _ nowMs creds others tok otherTok

theorem handle_alike {first second : HttpRequest} (requests : SameRequest first second)
    (portal : WifiPortal) (parsed : HttpParse) (nowMs : UInt32) :
    Calling.Alike Eq (portal.handle parsed first nowMs) (portal.handle parsed second nowMs) := by
  cases requests with
  | same => exact .refl (fun _ => rfl) _
  | save verdicts =>
      unfold WifiPortal.handle
      split
      · rfl
      cases parsed with
      | incomplete | bad | tooLarge => rfl
      | ok =>
          have routed : routePortal (ascii "POST") (ascii "/save") = .save := by decide
          simp only [routed]
          exact save_alike verdicts portal _ _ nowMs

/-- Two runs that are equally far with requests that are alike. -/
def SameTask (first second : PortalTask) : Prop :=
  first.portal = second.portal ∧ Option.Rel (Calling.Alike Eq) first.handling second.handling

theorem sameTask_refl (task : PortalTask) : SameTask task task := by
  refine ⟨rfl, ?_⟩
  cases task.handling with
  | none => exact .none
  | some handling => exact .some (.refl (fun _ => rfl) handling)

theorem couples_act : Couples PortalTask.act PortalTask.act SameInput SameTask := by
  rintro ⟨portal, handling⟩ ⟨_, twin⟩ input other ⟨rfl, alike⟩ inputs
  cases inputs with
  | request requests parsed nowMs =>
      cases alike with
      | none => exact ⟨⟨rfl, .some (handle_alike requests portal parsed nowMs)⟩, rfl⟩
      | some alike => exact ⟨⟨rfl, .some alike⟩, rfl⟩
  | same input =>
      cases alike with
      | none => exact ⟨sameTask_refl _, rfl⟩
      | @some rest restTwin alike =>
          cases input with
          | returned result =>
              cases rest <;> cases restTwin <;> try contradiction
              · exact ⟨⟨rfl, .some alike⟩, rfl⟩
              · exact ⟨⟨rfl, .some (alike result)⟩, rfl⟩
          | reply =>
              cases rest <;> cases restTwin <;> try contradiction
              · cases alike
                exact ⟨sameTask_refl _, rfl⟩
              · exact ⟨⟨rfl, .some alike⟩, rfl⟩
          | restart => exact ⟨sameTask_refl _, rfl⟩
          | _ => exact ⟨⟨rfl, .some alike⟩, rfl⟩

/-- The portal never tells a password or a token: two runs that differ in these alone get the
same responses, byte for byte. -/
theorem portal_keeps_secrets (start : PortalTask) {first second : List PortalInput}
    (inputs : List.Forall₂ SameInput first second) :
    answers PortalTask.act start first = answers PortalTask.act start second :=
  couples_act.answers inputs (sameTask_refl start)

/-- A visit of two requests, the second one after the form was stored. -/
def secretVisit (password : List UInt8) : List PortalInput :=
  [.setTokenField true .optional, .begin 0 (ascii "http://192.168.4.1/"),
    .request .ok ⟨ascii "POST", ascii "/save",
      ascii "ssid=office&token=&password=" ++ password⟩ 5,
    .returned true, .returned true, .reply,
    .request .ok ⟨ascii "GET", ascii "/", []⟩ 6, .reply]

theorem portal_keeps_secrets_sample :
    answers PortalTask.act ⟨.make true (ascii "presence-0A0B0C") 900000 1500, none⟩
        (secretVisit (ascii "correct+horse")) =
      answers PortalTask.act ⟨.make true (ascii "presence-0A0B0C") 900000 1500, none⟩
        (secretVisit (ascii "%73esame+%26+more")) := by
  have verdicts : SameVerdicts (ascii "ssid=office&token=&password=" ++ ascii "correct+horse")
      (ascii "ssid=office&token=&password=" ++ ascii "%73esame+%26+more") :=
    ⟨by decide +kernel, by decide +kernel, by decide +kernel, by decide +kernel⟩
  exact portal_keeps_secrets _ (.cons (.same _) (.cons (.same _)
    (.cons (.request (.save verdicts) .ok 5) (.cons (.same _) (.cons (.same _) (.cons (.same _)
      (.cons (.same _) (.cons (.same _) .nil))))))))

end Presence.Firmware
