import BlockScript.Directory
import BlockScript.Interpreter

/-!
# The command line

The arguments are read as a command. What the program prints and the status it ends with are a
function of the command and of what the one path holds that it names.
-/

namespace BlockScript.CommandLine

structure Result where
  /-- Exit status; the system keeps its lowest eight bits. -/
  code : Int := 0
  stdout : String := ""
  stderr : String := ""
deriving DecidableEq, Repr, Inhabited

inductive Command where
  | usage
  | version
  | run (path : String) (exitAsReturn : Bool)
  | runNothing
  | eval (code : String)
  | evalNothing
  /-- Run the file at a path if there is one; otherwise the argument is not understood. -/
  | shorthand (argument : String)
deriving DecidableEq, Repr, Inhabited

namespace Command

/-- Of the arguments of `run`, the first without a dash is the path; options may stand anywhere. -/
def ofRunArgs (args : List String) : Command :=
  match args.find? fun arg => !arg.startsWith "-" with
  | some path => run path (args.contains "--legacy-exit")
  | none => runNothing

def ofArgs : List String → Command
  | [] => usage
  | command :: rest =>
    if command = "run" then ofRunArgs rest
    else if command = "eval" then
      match rest with
      | code :: _ => eval code
      | [] => evalNothing
    else if ["help", "--help", "-h"].contains command then usage
    else if ["version", "--version", "-V"].contains command then version
    else shorthand command

def path? : Command → Option String
  | run path _ => some path
  | shorthand argument => some argument
  | _ => none

end Command

def usageText : String :=
  "Tide interpreter\n\nUsage: tide <command> [options]\n\nCommands:\n" ++
  "  run <file>       Run a source file\n" ++
  "  eval <code>      Evaluate code and print the result\n" ++
  "  help             Show this help message\n" ++
  "  version          Show version information\n\nOptions:\n" ++
  "  --legacy-exit    EXIT unwinds as RETURN\n\n" ++
  "Set TIDE_LOG (e.g. TIDE_LOG=tide_eval=debug) for evaluation traces.\n"

def versionText : String := "tide 0.1.0-alpha.1\n"

/-- Runs a source text. With `echo`, a final value that is set is printed molded. -/
def runSource (source : String) (exitAsReturn echo : Bool) : Result :=
  let start := Interpreter.initial Interpreter.callLimit exitAsReturn
  let (outcome, s) := Interpreter.run source start
  match outcome with
  | .ok (.value v) =>
    let shown := if echo && !v.isUnset then s!"== {s.heap.mold v}\n" else ""
    { stdout := s.output ++ shown }
  | .ok completion => { code := completion.exitCode, stdout := s.output }
  | .error (.raised e) => { code := 1, stdout := s.output, stderr := e.render }
  | .error (.read e) =>
    { code := 1
      stdout := s.output
      stderr := s!"Error: syntax error\n{e.span.render}: {e.message}\n" }
  | .error .outOfFuel => { code := 1, stdout := s.output, stderr := "error: out of fuel\n" }

def runFile (path : String) (exitAsReturn : Bool) : FileContent → Result
  | .text source => runSource source exitAsReturn false
  | .missing reason => { code := 1, stderr := s!"error: cannot read '{path}': {reason}\n" }
  | .unreadable reason => { code := 1, stderr := s!"error: cannot read '{path}': {reason}\n" }

def respond (content : FileContent) : Command → Result
  | .usage => { stdout := usageText }
  | .version => { stdout := versionText }
  | .run path exitAsReturn => runFile path exitAsReturn content
  | .runNothing =>
    { code := 1
      stderr := "error: missing file path\nUsage: tide run <file.tide> [--legacy-exit]\n" }
  | .eval code => runSource code false true
  | .evalNothing => { code := 1, stderr := "Usage: tide eval <code>\n" }
  | .shorthand argument =>
    match content with
    | .missing _ => { code := 1, stdout := usageText, stderr := s!"Unknown command: {argument}\n" }
    | content => runFile argument false content

/-- The whole program, from its arguments and what paths hold. -/
def respondIn (files : String → FileContent) (args : List String) : Result :=
  let command := Command.ofArgs args
  respond ((command.path?.map files).getD (.missing "")) command

end BlockScript.CommandLine
