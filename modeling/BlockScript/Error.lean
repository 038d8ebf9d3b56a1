/-!
# Raised errors

What can go wrong while a block is evaluated. The cause decides the identifier and the wording; the
error adds the calls that were running when it was raised and any notes. Two error values are equal
when their causes are.
-/

namespace BlockScript

/-- Why an evaluation failed. Texts inside a cause are already molded or formed. -/
inductive Cause where
  | noValue (word : String)
  | needValue (word : String)
  | lockedWord (word : String)
  | invalidPath (path segment : String)
  | noArg (function argument : String)
  | expectArg (function argument got : String)
  | invalidArg (value : String)
  | badRefines
  | invalidSpec (reason : String)
  | pastEnd
  | guarded
  | noReturn
  | cannotUse (operation kind : String)
  | useEval (kind : String)
  | stackOverflow (limit : Nat)
  | unreadable (message : String)
  | zeroDivide
  | overflow
  | useFail
  | limitedFailInput
  | user (message : String)
  | noLoopForBreak
  | noLoopForContinue
  | notInFunction
  | noCatch (name : String)
deriving DecidableEq, Repr, Inhabited

namespace Cause

/-- The name a program sees as the `id` of the error. -/
def id : Cause → String
  | noValue _ => "no-value"
  | needValue _ => "need-value"
  | lockedWord _ => "locked-word"
  | invalidPath _ _ => "invalid-path"
  | noArg _ _ => "no-arg"
  | expectArg _ _ _ => "expect-arg"
  | invalidArg _ => "invalid-arg"
  | badRefines => "bad-refines"
  | invalidSpec _ => "bad-func-def"
  | pastEnd => "past-end"
  | guarded => "protected"
  | noReturn => "no-return"
  | cannotUse _ _ => "cannot-use"
  | useEval _ => "use-eval"
  | stackOverflow _ => "stack-overflow"
  | unreadable _ => "syntax"
  | zeroDivide => "zero-divide"
  | overflow => "overflow"
  | useFail => "use-fail"
  | limitedFailInput => "limited-fail-input"
  | user _ => "user"
  | noLoopForBreak => "no-loop"
  | noLoopForContinue => "no-loop"
  | notInFunction => "not-in-func"
  | noCatch _ => "no-catch"

def message : Cause → String
  | noValue word => s!"{word} has no value"
  | needValue word => s!"{word} needs a value"
  | lockedWord word => s!"protected word - cannot modify: {word}"
  | invalidPath path segment => s!"cannot access {segment} in path {path}"
  | noArg function argument => s!"{function} is missing its {argument} argument"
  | expectArg function argument got =>
    s!"{function} does not allow {got} for its {argument} argument"
  | invalidArg value => s!"invalid argument: {value}"
  | badRefines => "incompatible or invalid refinements"
  | invalidSpec reason => s!"invalid function spec: {reason}"
  | pastEnd => "out of range or past end"
  | guarded => "protected value or series - cannot modify"
  | noReturn => "block did not return a value"
  | cannotUse operation kind => s!"cannot use {operation} on {kind} value"
  | useEval kind => s!"use DO only on blocks or parens, not {kind}"
  | stackOverflow limit => s!"maximum recursion depth exceeded (limit: {limit})"
  | unreadable message => s!"syntax error: {message}"
  | zeroDivide => "attempt to divide by zero"
  | overflow => "math or number overflow"
  | useFail => "use FAIL (instead of THROW) to raise errors"
  | limitedFailInput => "FAIL only accepts strings, scalars, parens and non-function words"
  | user message => message
  | noLoopForBreak => "no loop to break from"
  | noLoopForContinue => "no loop to continue"
  | notInFunction => "return or exit not in function"
  | noCatch name => s!"no catch for throw: {name}"

end Cause

/-- The names of the running calls, innermost first. -/
abbrev Backtrace := List String

/-- One line per call, under a heading; nothing at all for no calls. -/
def Backtrace.render (calls : Backtrace) : String :=
  if calls.isEmpty then ""
  else
    let line := fun (entry : String × Nat) => s!"  {entry.2}: {entry.1}\n"
    "stack backtrace:\n" ++ String.join (calls.zipIdx.map line)

structure EvalError where
  cause : Cause
  /-- Absent until the error leaves the first running call. -/
  backtrace : Option Backtrace := none
  notes : List String := []
deriving DecidableEq, Repr, Inhabited

namespace EvalError

def message (e : EvalError) : String := e.cause.message

def id (e : EvalError) : String := e.cause.id

def withNote (e : EvalError) (note : String) : EvalError := { e with notes := e.notes ++ [note] }

/-- The report for a terminal: identifier and message, the notes, the running calls. -/
def render (e : EvalError) : String :=
  s!"** {e.id}: {e.message}\n" ++ String.join (e.notes.map fun note => s!"   note: {note}\n") ++
    (e.backtrace.getD []).render

end EvalError

end BlockScript
