import Presence.Firmware.Credentials

namespace Presence.Firmware

open Presence.Data

/-! # The pages of the setup portal

What `wifi_provision.h` writes to the browser.  The name of a network can hold any
byte; between tags it is escaped.
-/

def escapeByte (c : UInt8) : List UInt8 :=
  if c = '&'.toUInt8 then ascii "&amp;"
  else if c = '<'.toUInt8 then ascii "&lt;"
  else if c = '>'.toUInt8 then ascii "&gt;"
  else if c = '"'.toUInt8 then ascii "&quot;"
  else if c = '\''.toUInt8 then ascii "&#39;"
  else [c]

def htmlEscape (s : List UInt8) : List UInt8 := s.flatMap escapeByte

/-- `std::to_string` of a number that is not negative. -/
def stdToString (number : Nat) : List UInt8 := asciiNumerals.text number

def httpResponse (status : Nat) (reason body : List UInt8) (includeBody : Bool)
    (extraHeaders : List UInt8) : List UInt8 :=
  ascii "HTTP/1.1 " ++ stdToString status ++ ascii " " ++ reason ++
    ascii "\r\nContent-Type: text/html; charset=utf-8\r\n" ++
    ascii "Cache-Control: no-store\r\n" ++
    ascii "Content-Security-Policy: default-src 'none'; style-src 'unsafe-inline'; " ++
    ascii "form-action 'self'\r\n" ++
    ascii "X-Content-Type-Options: nosniff\r\n" ++
    ascii "Referrer-Policy: no-referrer\r\n" ++
    ascii "Connection: close\r\n" ++
    extraHeaders ++ ascii "Content-Length: " ++ stdToString body.length ++ ascii "\r\n\r\n" ++
    if includeBody then body else []

def portalPage (title inner : List UInt8) : List UInt8 :=
  ascii "<!doctype html><html lang=\"en\"><head><meta charset=\"utf-8\">" ++
    ascii "<meta name=\"viewport\" content=\"width=device-width,initial-scale=1\">" ++
    ascii "<title>" ++ htmlEscape title ++ ascii "</title><style>" ++
    ascii "body\x7bfont-family:system-ui,sans-serif;max-width:26rem;margin:2rem auto;" ++
    ascii "padding:0 1rem;color:#222\x7d" ++
    ascii "label\x7bdisplay:block;margin-top:1rem;font-weight:600\x7d" ++
    ascii "input\x7bwidth:100%;box-sizing:border-box;padding:.6rem;font-size:1rem;" ++
    ascii "margin-top:.3rem\x7d" ++
    ascii "button\x7bmargin-top:1.5rem;padding:.7rem 1.2rem;font-size:1rem\x7d" ++
    ascii ".err\x7bbackground:#fde8e8;border:1px solid #e0a0a0;padding:.6rem;margin-top:1rem\x7d" ++
    ascii ".muted\x7bcolor:#666;font-size:.9rem\x7d" ++
    ascii "</style></head><body>" ++ inner ++ ascii "</body></html>"

/-- Whether the form asks for the provisioning token. -/
inductive TokenField where
  /-- There is no field, and one that is sent is ignored. -/
  | hidden
  | required
  /-- An empty one keeps the token that is stored. -/
  | optional
deriving DecidableEq

/-- An error that is not there is an empty one. -/
def portalFormPage (apSsid prefillSsid error : List UInt8) (token : TokenField) : List UInt8 :=
  portalPage (ascii "Terminal Wi-Fi setup") (
    ascii "<h1>Connect this terminal to Wi-Fi</h1><p class=\"muted\">Terminal " ++
      htmlEscape apSsid ++ ascii "</p>" ++
      (if error.isEmpty then []
      else ascii "<p class=\"err\" role=\"alert\">" ++ htmlEscape error ++ ascii "</p>") ++
      ascii "<form method=\"post\" action=\"/save\">" ++
      ascii "<label for=\"ssid\">Network name (SSID)</label>" ++
      ascii "<input id=\"ssid\" name=\"ssid\" maxlength=\"32\" required " ++
      ascii "autocapitalize=\"none\" autocorrect=\"off\" value=\"" ++
      htmlEscape prefillSsid ++ ascii "\">" ++
      ascii "<label for=\"password\">Password</label>" ++
      ascii "<input id=\"password\" name=\"password\" type=\"password\" maxlength=\"64\" " ++
      ascii "autocomplete=\"off\">" ++
      ascii "<p class=\"muted\">Leave the password empty only for an open network.</p>" ++
      (if token = .hidden then []
      else
        ascii "<label for=\"token\">Provisioning token</label>" ++
          ascii "<input id=\"token\" name=\"token\" type=\"password\" maxlength=\"80\" " ++
          ascii "autocomplete=\"off\" " ++
          ascii "autocapitalize=\"none\" autocorrect=\"off\" spellcheck=\"false\"" ++
          (if token = .required then ascii " required>" else ascii ">") ++
          (if token = .required then
            ascii "<p class=\"muted\">The 64-character code from this terminal's installation " ++
              ascii "sheet.</p>"
          else
            ascii "<p class=\"muted\">A token is already stored. " ++
              ascii "Leave this empty to keep it.</p>")) ++
      ascii "<button type=\"submit\">Save and restart</button>" ++
      ascii "</form>")

def portalSavedPage (ssid : List UInt8) : List UInt8 :=
  portalPage (ascii "Saved") (
    ascii "<h1>Saved</h1><p>The terminal is restarting to join <strong>" ++ htmlEscape ssid ++
      ascii "</strong>. This setup network will disappear.</p>" ++
      ascii "<p class=\"muted\">If the terminal cannot join that network, this setup network " ++
      ascii "comes back after a few minutes, with the same password. " ++
      ascii "Holding its BOOT button for 10 seconds also starts setup again.</p>")

/-- No tag and no attribute value starts or ends in an escaped text. -/
theorem htmlEscape_plain (s : List UInt8) :
    ∀ c ∈ htmlEscape s, c ≠ '<'.toUInt8 ∧ c ≠ '>'.toUInt8 ∧ c ≠ '"'.toUInt8 ∧ c ≠ '\''.toUInt8 := by
  have escaped {c : UInt8} : ∀ b ∈ escapeByte c,
      b ≠ '<'.toUInt8 ∧ b ≠ '>'.toUInt8 ∧ b ≠ '"'.toUInt8 ∧ b ≠ '\''.toUInt8 := by
    refine @forall_byte (fun c => ∀ b ∈ escapeByte c, b ≠ '<'.toUInt8 ∧ b ≠ '>'.toUInt8 ∧
      b ≠ '"'.toUInt8 ∧ b ≠ '\''.toUInt8) ?_ c
    decide +kernel
  intro c member
  obtain ⟨source, -, here⟩ := List.mem_flatMap.mp member
  exact escaped c here

end Presence.Firmware
