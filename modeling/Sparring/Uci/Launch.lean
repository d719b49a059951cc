import Sparring.Engine.Call
import Sparring.Engine.Settings
import Sparring.Files

/-!
# Launching a program

Whether an engine can be launched. A program with a slash in its name is the file that the path
leads to; one without is looked for on the search path, where nothing is known to be.
-/

namespace Sparring.Uci

/-- Why a program cannot be launched. -/
inductive LaunchError where
  | notFound
  | denied
  | notADirectory
  /-- The program or an argument has a zero character. -/
  | zeroCharacter
deriving DecidableEq, Repr

/-- The wording of an error. -/
def LaunchError.message : LaunchError → String
  | notFound => "No such file or directory (os error 2)"
  | denied => "Permission denied (os error 13)"
  | notADirectory => "Not a directory (os error 20)"
  | zeroCharacter => "nul byte found in provided data"

/-- Why what a path leads to cannot be launched, if so. -/
def LaunchError.ofNode? : Except PathFault FileNode → Option LaunchError
  | .ok (.file _ true) => none
  | .ok _ => some denied
  | .error .notFound => some notFound
  | .error .notADirectory => some notADirectory
  | .error .zeroCharacter => some zeroCharacter

/-- Why a program cannot be launched, if so. -/
def launchError? (files : Files) (program : String) (args : List String) : Option LaunchError :=
  if (program :: args).any (·.toList.contains '\x00') then some .zeroCharacter
  else if program.toList.contains '/' then LaunchError.ofNode? (files program)
  else if program = "." ∨ program = ".." then some .denied
  else some .notFound

/-- Why the engine of the settings cannot be launched, if so. -/
def launchFailure? (files : Files) (s : EngineSettings) : Option Causes :=
  (launchError? files s.program s.args).map fun e => ["failed to launch " ++ s.program, e.message]

end Sparring.Uci
