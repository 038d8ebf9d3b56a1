import BlockScript.Expression
import BlockScript.Heap.Snapshot

/-!
# Interpreters

An interpreter is an evaluation state that starts with the constants, the datatypes and the natives
bound in its root frame. Running a source text reads it, evaluates it, and says how it ended.
-/

namespace BlockScript

/-- How a run that did not fail ended. -/
inductive Completion where
  | value (v : Value)
  | quit (payload : Value)
deriving Inhabited

namespace Completion

/-- The exit status: the integer that a quit asks for, if it fits in 32 bits, and 0 for a value. -/
def exitCode : Completion → Int
  | quit (.integer n) =>
    if Int32.minValue.toInt ≤ n.toInt ∧ n.toInt ≤ Int32.maxValue.toInt then n.toInt else 1
  | _ => 0

end Completion

inductive RunError where
  | read (error : ReadError)
  | raised (error : EvalError)
  | outOfFuel

namespace Interpreter

def callLimit : Nat := 10000

/-- Greatest call depth of a test, where a runaway recursion should end soon. -/
def testCallLimit : Nat := 500

/-- A bound on nesting and repetition that no practical run reaches. -/
def fuel : Nat := 1000000000000

/-- What is bound before a program runs: constants, datatypes, natives. -/
def rootFields : List (String × Value) :=
  [("none", .none), ("true", .logic true), ("false", .logic false), ("on", .logic true),
    ("off", .logic false), ("yes", .logic true), ("no", .logic false)] ++
  Kind.all.map (fun kind => (kind.name, .datatype kind)) ++
  Native.all.map fun native => (native.name, .function (.native native))

def initial (limit : Nat) (exitAsReturn : Bool) : State where
  heap := { frames := #[.ofFields rootFields] }
  env := { root := 0 }
  calls := { limit := some limit }
  exitAsReturn

def standard : Evaluator := evaluator fuel

/-- The error of an exit that nothing claimed. -/
def uncaught (h : Heap) (exit : Thrown) : Cause :=
  match exit.reserved? with
  | some .break => .noLoopForBreak
  | some .continue => .noLoopForContinue
  | some .return => .notInFunction
  | some .exit => .notInFunction
  | _ => .noCatch (h.mold exit.name)

/-- Evaluates a block at the top level: a quit ends the run, any other exit is an error. -/
def complete (ev : Evaluator) (block : BlockRef) : EvalM Completion := fun s =>
  match ev.all block s with
  | .ok value s => .ok (.value value) s
  | .error (.thrown exit) s =>
    if exit.isNamed .quit then .ok (.quit exit.payload) s
    else .error (.raised { cause := uncaught s.heap exit }) s
  | .error exit s => .error exit s

def loadSource (source : String) (s : State) : Except ReadError (BlockRef × State) :=
  match Datum.read source with
  | .error e => .error e
  | .ok data =>
    let (block, heap) := s.heap.loadBlock data
    .ok (block, { s with heap })

def run (source : String) (s : State) : Except RunError Completion × State :=
  match loadSource source s with
  | .error e => (.error (.read e), s)
  | .ok (block, s) =>
    match complete standard block s with
    | .ok completion s => (.ok completion, s)
    | .error (.raised e) s => (.error (.raised e), s)
    | .error _ s => (.error .outOfFuel, s)

end Interpreter

end BlockScript
