import Sparring.Config.Decoding
import Sparring.Engine.Call
import Sparring.Files
import Sparring.Text.Utf8

/-!
# Finding the configuration

A configuration file that is named must be there; the usual one counts only if it is, and without
either the stock configuration stands. What goes wrong is told as a chain of causes, outermost
first.
-/

namespace Sparring

/-- Why a file cannot be read as text. -/
inductive ReadFault where
  | path (fault : PathFault)
  | isDirectory
  | notText
deriving DecidableEq, Repr

/-- The wording of a fault. -/
def ReadFault.message : ReadFault → String
  | path .notFound => "No such file or directory (os error 2)"
  | path .notADirectory => "Not a directory (os error 20)"
  | path .zeroCharacter => "file name contained an unexpected NUL byte"
  | isDirectory => "Is a directory (os error 21)"
  | notText => "stream did not contain valid UTF-8"

/-- The text of a file. -/
def Files.readText (files : Files) (path : String) : Except ReadFault String :=
  match files path with
  | .error fault => .error (.path fault)
  | .ok .directory => .error .isDirectory
  | .ok (.file content _) =>
    match decodeUtf8? content with
    | some text => .ok (String.ofList text)
    | none => .error .notText

/-- Why there is no configuration. -/
inductive ConfigError where
  /-- A document is no configuration. -/
  | invalid (e : DecodeError)
  /-- A file cannot be read. -/
  | unreadable (path : String) (fault : ReadFault)
  /-- The document in a file is no configuration. -/
  | invalidFile (path : String) (e : DecodeError)
deriving DecidableEq

namespace ConfigError

/-- The cause that a document is no configuration, with what is wrong where there are words for
it. -/
def invalidCauses (e : DecodeError) : Causes := "invalid configuration" :: e.detail?.toList

/-- The causes of an error. -/
def causes : ConfigError → Causes
  | invalid e => invalidCauses e
  | unreadable path fault => ["failed to read config file " ++ path, fault.message]
  | invalidFile path e => ("in " ++ path) :: invalidCauses e

end ConfigError

namespace Config

/-- The configuration in a file. -/
def load (files : Files) (path : String) : Except ConfigError Config :=
  match files.readText path with
  | .error fault => .error (.unreadable path fault)
  | .ok text =>
    match read text with
    | .ok config => .ok config
    | .error e => .error (.invalidFile path e)

/-- The file that counts, if any: the one that is named, or else the usual one if it is there. -/
def choose (files : Files) (named usual : Option String) : Option String :=
  named <|> usual.filter files.has

/-- The configuration in the file that counts, or the stock configuration. -/
def discover (files : Files) (named usual : Option String) : Except ConfigError Config :=
  match choose files named usual with
  | some path => load files path
  | none => .ok stock

end Config

end Sparring
