/-!
Where a log file can be made, on a machine of which only some directories are
known: a file needs a directory to stand in, and is none itself.
-/

namespace ScriptHost.Console

inductive FileError where
  | missing
  | isDirectory
  deriving DecidableEq, Repr

def FileError.message : FileError → String
  | missing => "No such file or directory (os error 2)"
  | isDirectory => "Is a directory (os error 21)"

/-- The directories of every machine. The empty path before a leading `/` is the root. -/
def commonDirectories : List String :=
  ["", ".", "..", "/dev", "/etc", "/home", "/opt", "/root", "/tmp", "/usr", "/var", "/var/log",
    "/var/tmp"]

/-- The directory a path names a file in, and the file's name. -/
def splitPath (path : String) : String × String :=
  let name := (path.toList.reverse.takeWhile (· != '/')).reverse
  match (path.toList.reverse.dropWhile (· != '/')).reverse with
  | [] => (".", String.ofList name)
  | directory => (String.ofList directory.dropLast, String.ofList name)

/-- Why no file can be made at `path`, if so. -/
def fileError? (directories : List String) (path : String) : Option FileError :=
  let (directory, name) := splitPath path
  if path.isEmpty || !directories.contains directory then some .missing
  else if name.isEmpty || name = "." || name = ".." || directories.contains path then
    some .isDirectory
  else none

end ScriptHost.Console
