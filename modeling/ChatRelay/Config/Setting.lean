import ChatRelay.Error
import ChatRelay.Text.Blank
import ChatRelay.Text.Lowercase
import ChatRelay.Url.Basic

/-!
# Single settings

## Main definitions

* `Setting.requireText`, `Setting.requireBaseUrl` — what every vendor's settings must have
* `Setting.withoutSlashes` — the address to which the path of a request is added
* `Setting.summary` — how settings are shown to people
-/

namespace ChatRelay

namespace Setting

/-- The context of an error about a setting of a vendor. -/
def context (field vendor : String) : ErrorContext :=
  { field := some ("config." ++ field), source := some (Text.lowercase vendor ++ "_config") }

/-- A text that must not be blank. -/
def requireText (value field vendor : String) : Result Unit :=
  if Text.isBlankText value then
    .error (.configuration (field ++ " is required") (context field vendor))
  else .ok ()

/-- An address that requests can be sent to. -/
def requireBaseUrl (url vendor : String) : Result Unit :=
  match Url.parse url with
  | .error fault =>
    .error (.configuration ("invalid base_url '" ++ url ++ "': " ++ fault.message)
      (context "base_url" vendor))
  | .ok u =>
    if u.scheme == "http" || u.scheme == "https" then .ok ()
    else .error (.configuration ("base_url must use http or https, got '" ++ u.scheme ++ "'")
      (context "base_url" vendor))

/-- The address without slashes at its end. -/
def withoutSlashes (url : String) : String :=
  String.ofList (url.toList.reverse.dropWhile (· == '/')).reverse

/-- A character inside quotes: quotes and backslashes are escaped, control characters too. -/
def quotedChar (c : Char) : List Char :=
  if c = '"' || c = '\\' then ['\\', c]
  else if c = '\n' then ['\\', 'n']
  else if c = '\r' then ['\\', 'r']
  else if c = '\t' then ['\\', 't']
  else if c = '\x00' then ['\\', '0']
  else if c.toNat < 32 || c.toNat = 127 then
    "\\u\x7b".toList ++ Nat.toDigits 16 c.toNat ++ "\x7d".toList
  else [c]

/-- A text in quotes. -/
def quoted (s : String) : String :=
  "\"" ++ String.ofList (s.toList.flatMap quotedChar) ++ "\""

/-- How settings are shown to people: their title and some fields. An API key is never shown, only
that there may be one. -/
def summary (title : String) (fields : List (String × String)) : String :=
  title ++ " \x7b " ++
    ", ".intercalate ((fields ++ [("api_key", quoted "<redacted>")]).map fun (k, v) =>
      k ++ ": " ++ v) ++ ", .. \x7d"

/-- Whether a text occurs in another. -/
def occursIn (part : List Char) : List Char → Bool
  | [] => part.isEmpty
  | c :: cs => part.isPrefixOf (c :: cs) || occursIn part cs

end Setting

end ChatRelay
