import Sparring.Startup

/-!
# The program

Reads the arguments, finds the configuration, and then answers requests: each line of the input is
the target of a `GET`, and each answer is a line with the status and the body. What carries the
lines is left to the surroundings, and the engines are rehearsed, as this program starts no other.
-/

namespace Sparring

/-- What a path leads to. Behind a file nothing can be opened, and then the error has a path; a
directory is opened and cannot be read. -/
def look (path : String) : IO (Except PathFault FileNode) := do
  try
    return .ok (.file (← IO.FS.readBinFile path).toList false)
  catch
    | .noFileOrDirectory .. => return .error .notFound
    | .inappropriateType (some _) .. => return .error .notADirectory
    | .invalidArgument .. => return .error .zeroCharacter
    | _ => return .ok .directory

/-- The file system, as far as it is known at the given paths. -/
def lookAt (paths : List String) : IO Files := do
  let known ← paths.mapM fun path => return (path, ← look path)
  return fun path => (known.lookup path).getD (.error .notFound)

/-- Answers requests until the input ends or a violation ends the process. -/
def serve (input : IO.FS.Stream) (start : Session Unit Rehearsal) : IO UInt32 := do
  let mut s := start
  let mut line ← input.getLine
  while ¬ line.isEmpty do
    let target := String.ofList (line.toList.takeWhile (¬ isLineBreak ·))
    let (report, next) := s.step (.http ⟨"GET", target⟩)
    if next.service.aborted then return 134
    if let .response _ r := report then
      IO.println (toString r.status ++ " " ++ r.body.render)
    s := next
    line ← input.getLine
  return 0

/-- Starts the program and serves if it comes to that. -/
def start (args : List String) : IO UInt32 := do
  match CommandLine.read args with
  | .error e =>
    IO.print (StartOutcome.early e).output
    if let .misuse m := e then IO.eprintln m.message
    return ((StartOutcome.early e).exitCode?.getD 0).toUInt32
  | .ok c =>
    let home ← IO.getEnv "HOME"
    let files ← lookAt (c.config.toList ++ (home.map Startup.usualConfig).toList)
    match Startup.configure files home c with
    | .error e =>
      IO.eprintln (StartError.config e).causes.text
      return 1
    | .ok config =>
      let (outcome, s) :=
        Startup.launch config (Startup.session () (Rehearsal.new "e2e4" false) config)
      match outcome with
      | .serving => serve (← IO.getStdin) s
      | .failed e =>
        IO.eprintln e.causes.text
        return 1
      | other => return (other.exitCode?.getD 134).toUInt32

end Sparring

/-- The entry point of the program. -/
def main (args : List String) : IO UInt32 := Sparring.start args
