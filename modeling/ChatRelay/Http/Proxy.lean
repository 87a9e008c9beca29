import ChatRelay.Error
import ChatRelay.Url.Basic

/-!
# Proxies

The address of a proxy may leave out its scheme, which is then HTTP.
-/

namespace ChatRelay.Http

/-- The address of a proxy as it is understood: as it stands if it has a host, else with a scheme in
front. -/
def proxyUrl? (proxy : String) : Option Url :=
  let withScheme := (Url.parse ("http://" ++ proxy)).toOption.filter (·.hasHost)
  match Url.parse proxy with
  | .ok url => if url.hasHost then some url else withScheme
  | .error .relative => withScheme
  | .error _ => none

/-- A proxy must be reached by HTTP. -/
def requireProxy : Option String → Result Unit
  | none => .ok ()
  | some proxy =>
    match proxyUrl? proxy with
    | some url =>
      if url.scheme == "http" || url.scheme == "https" then .ok () else .error (invalid proxy)
    | none => .error (invalid proxy)
where
  /-- The error of a proxy that cannot be used. -/
  invalid (proxy : String) : Error :=
    .configuration ("invalid proxy URL '" ++ proxy ++ "': " ++ connectionErrorText) {}

end ChatRelay.Http
