import ChatRelay.Url.Host

/-!
# Addresses

Whether a text is an absolute address, as the URL standard has it: which scheme it uses, whether it
names a host, or what is wrong with it.

## Main definitions

* `Url` — scheme and presence of a host
* `Url.parse` — the address of a text, or its first fault
-/

namespace ChatRelay

/-- What is known of a well-formed address. -/
structure Url where
  scheme : String
  hasHost : Bool
deriving DecidableEq, Repr

namespace Url

/-- The schemes of the web, whose addresses always name a host. -/
def webSchemes : List String := ["http", "https", "ws", "wss", "ftp"]

/-- The characters that count: none of the control characters and blanks at the ends, no tabs and
line ends anywhere. -/
def relevant (s : String) : List Char :=
  let outer (c : Char) : Bool := c.toNat ≤ 0x20
  ((s.toList.dropWhile outer).reverse.dropWhile outer).reverse.filter fun c =>
    c != '\t' && c != '\n' && c != '\r'

/-- The scheme in small letters and what follows its colon. -/
def scheme? (cs : List Char) : Option (String × List Char) :=
  match cs with
  | [] => none
  | c :: _ =>
    let part (c : Char) : Bool := c.isAlphanum || c == '+' || c == '-' || c == '.'
    match c.isAlpha, cs.dropWhile part with
    | true, ':' :: rest => some (String.ofList ((cs.takeWhile part).map Char.toLower), rest)
    | _, _ => none

def isSlash (c : Char) : Bool := c == '/' || c == '\\'

/-- The character that ends an authority. -/
def endsAuthority (web : Bool) (c : Char) : Bool :=
  c == '/' || c == '?' || c == '#' || (web && c == '\\')

/-- What follows the last `@`, and what stands before it, if there is one. -/
def splitUser (cs : List Char) : Option (List Char × List Char) :=
  if cs.contains '@' then
    let back := cs.reverse
    some (((back.dropWhile (· != '@')).drop 1).reverse, (back.takeWhile (· != '@')).reverse)
  else none

/-- The characters up to a colon outside brackets, and those from it on. -/
def splitPort (inside : Bool) : List Char → List Char × List Char
  | [] => ([], [])
  | c :: cs =>
    if c == ':' && !inside then ([], c :: cs)
    else
      let inside := if c == '[' then true else if c == ']' then false else inside
      let (host, port) := splitPort inside cs
      (c :: host, port)

/-- A port is a number below 65536; it may be left out after its colon. -/
def checkPort (digits : List Char) : Except Fault Unit :=
  match Text.digitsIn? 10 digits with
  | some n => if n ≤ 65535 then .ok () else .error .port
  | none => .error .port

/-- User, host and port of an address. Tells whether a host is named. -/
def checkAuthority (web : Bool) (rest : List Char) : Except Fault Bool := do
  let authority := rest.takeWhile fun c => !endsAuthority web c
  let after := rest.drop authority.length
  let user := splitUser authority
  let (hostPort, hasUser) :=
    match user with
    | none => (authority, false)
    | some (user, hostPort) => (hostPort, !user.isEmpty)
  if user.isSome && !hasUser && hostPort.isEmpty && !after.isEmpty then throw .emptyHost
  let (host, port) := splitPort false hostPort
  if web then
    if host.isEmpty then throw .emptyHost
    checkHost host
  else
    checkOpaqueHost host
    if host.isEmpty && !port.isEmpty then throw .emptyHost
  checkPort (port.drop 1)
  if host.isEmpty && hasUser then throw .emptyHost
  return !host.isEmpty

/-- The host of an address of a file, which may be left out. -/
def checkFile (rest : List Char) : Except Fault Bool :=
  match rest with
  | a :: b :: rest =>
    if isSlash a && isSlash b then
      let host := rest.takeWhile fun c => !endsAuthority true c
      let isDrive :=
        match host with
        | [l, m] => l.isAlpha && (m == ':' || m == '|')
        | _ => false
      if host.isEmpty || isDrive then .ok false else (checkHost host).map fun _ => true
    else .ok false
  | _ => .ok false

/-- The address that a text is, or what is wrong with it. -/
def parse (s : String) : Except Fault Url :=
  match scheme? (relevant s) with
  | none => .error .relative
  | some (scheme, rest) =>
    if scheme == "file" then (checkFile rest).map fun h => ⟨scheme, h⟩
    else if webSchemes.contains scheme then
      (checkAuthority true (rest.dropWhile isSlash)).map fun h => ⟨scheme, h⟩
    else
      match rest with
      | '/' :: '/' :: rest => (checkAuthority false rest).map fun h => ⟨scheme, h⟩
      | _ => .ok ⟨scheme, false⟩

end Url

end ChatRelay
