import BlockScript.CommandLine

/-!
# The program

Reads the path that the command names, carries the command out, and prints what it leaves behind.
-/

namespace BlockScript.CommandLine

/-- The number of a system error, which is reported with either sign. -/
def errorNumber (code : UInt32) : UInt32 := min code (0 - code)

def contentOfError : IO.Error → FileContent
  | .noFileOrDirectory _ _ _ => .missing PathError.absent.reason
  | .inappropriateType _ code details =>
    match errorNumber code with
    | 20 => .missing PathError.notDirectory.reason
    | 21 => Place.outside.content
    | _ => .unreadable details
  | .invalidArgument _ code details =>
    match errorNumber code with
    | 36 => .missing PathError.nameTooLong.reason
    | _ => .unreadable details
  | .userError _ => .unreadable "stream did not contain valid UTF-8"
  | e => .unreadable (toString e)

def readContent (path : String) : IO FileContent := do
  try
    return .text (← IO.FS.readFile path)
  catch e => return contentOfError e

end BlockScript.CommandLine

open BlockScript.CommandLine in
def main (args : List String) : IO UInt32 := do
  let command := Command.ofArgs args
  let content ←
    match command.path? with
    | some path => readContent path
    | none => pure (.missing "")
  let result := respond content command
  IO.print result.stdout
  IO.eprint result.stderr
  return UInt32.ofNat (result.code % 256).toNat
