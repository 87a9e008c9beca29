import ChatRelay.Error
import ChatRelay.Text.Blank

/-!
# The environment of a program

What settings may come from besides a document: environment variables and the keyring of the
operating system.
-/

namespace ChatRelay

/-- Environment variables by name, and secrets by service and user. -/
structure Environment where
  values : List (String × String) := []
  keyring : List ((String × String) × String) := []
deriving Repr, Inhabited

namespace Environment

/-- The service under which API keys are kept. -/
def keyringService : String := "eino-ext"

def valueOf? (e : Environment) (name : String) : Option String :=
  e.values.lookup name

/-- The API key of a user of the keyring, else that of a variable; a blank one counts as none. -/
def apiKey? (e : Environment) (user name : String) : Option String :=
  ((e.keyring.lookup (keyringService, user)).filter (!Text.isBlankText ·)).or
    ((e.valueOf? name).filter (!Text.isBlankText ·))

/-- The API key of a vendor, or the error that says where to put one. -/
def requireApiKey (e : Environment) (vendor user name : String) : Result String :=
  match e.apiKey? user name with
  | some key => .ok key
  | none => .error (.configuration ("no API key found for " ++ vendor)
      { field := some "config.api_key"
        details := some ("set " ++ name ++ " or a keyring entry") })

end Environment

end ChatRelay
