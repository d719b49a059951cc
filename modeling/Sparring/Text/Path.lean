/-!
# Paths

A path is text with slashes. Joining puts a file name behind a directory; nothing is looked up
and nothing is normalized.
-/

namespace Sparring

/-- A path that starts at the root. -/
def isAbsolutePath (path : String) : Bool := path.toList.head? = some '/'

/-- The path of `file` seen from `dir`. An absolute `file` stands for itself, and one slash
separates the two unless `dir` is empty or ends in one already. -/
def joinPath (dir file : String) : String :=
  if isAbsolutePath file then file
  else
    match dir.toList.getLast? with
    | none => file
    | some '/' => dir ++ file
    | some _ => dir ++ "/" ++ file

end Sparring
