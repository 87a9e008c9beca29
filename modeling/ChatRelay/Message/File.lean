import ChatRelay.Error
import ChatRelay.Message.Basic
import ChatRelay.Text.Base64
import ChatRelay.Text.Lowercase

/-!
# Parts from files

A picture or a sound from a file is put into a message as data; its type follows from the end of the
file's name.
-/

namespace ChatRelay

namespace Media

/-- The end of a file name after its last point. A point at the very front does not count. -/
def fileExtension (name : String) : String :=
  let back := name.toList.reverse
  let suffix := back.takeWhile (· != '.')
  match back.drop suffix.length with
  | _ :: _ :: _ => String.ofList suffix.reverse
  | _ => ""

/-- The types of media by the ends of file names. -/
def typesByExtension : List (String × String) :=
  [("png", "image/png"), ("jpg", "image/jpeg"), ("jpeg", "image/jpeg"), ("webp", "image/webp"),
    ("gif", "image/gif"), ("mp3", "audio/mpeg"), ("wav", "audio/wav"), ("ogg", "audio/ogg"),
    ("m4a", "audio/mp4"), ("mp4", "video/mp4")]

/-- The type that a file name stands for; capital letters do not matter. -/
def typeOfName (name : String) : String :=
  (typesByExtension.lookup (Text.lowercase (fileExtension name))).getD "application/octet-stream"

/-- The data of a file with a name; `none` stands for a file that cannot be read. -/
def ofFile (name : String) : Option (List UInt8) → Result Media
  | none => .error (.file systemErrorText)
  | some bytes => .ok (ofBase64 (Base64.encode bytes) (typeOfName name))

end Media

end ChatRelay
