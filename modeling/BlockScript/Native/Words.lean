import BlockScript.Evaluator

/-!
# Words, text and types

Setting and getting words, molding, forming and printing values, and telling what they are.
-/

namespace BlockScript.Words

def set (args : Args) : EvalM Value := do
  match args.value 0 with
  | .word _ name =>
    assignWord name (args.value 1)
    return args.value 1
  | v => raiseType "set" "word" v

/-- The value of a word, which must be bound but may be unset. -/
def get (args : Args) : EvalM Value := do
  match args.value 0 with
  | .word _ name =>
    match ← lookup name with
    | some value => return value
    | none => raise (.noValue name)
  | v => raiseType "get" "word" v

def hasValue (args : Args) : EvalM Value := do
  match args.value 0 with
  | .word _ name => return .logic (!(← fetch name).isUnset)
  | _ => return .logic false

def form (args : Args) : EvalM Value := do newText (← formValue (args.value 0))

def mold (args : Args) : EvalM Value := do newText (← moldValue (args.value 0))

/-- Prints a line; a block is reduced first. -/
def printLine (ev : Evaluator) (args : Args) : EvalM Value := do
  let value ←
    match args.value 0 with
    | .block r => ev.reduce r
    | v => pure v
  print (← formValue value)
  return .unset

def typeOf (args : Args) : EvalM Value := return .datatype (args.value 0).kind

def isNone (args : Args) : EvalM Value := return .logic (args.value 0).isNone

def isUnset (args : Args) : EvalM Value := return .logic (args.value 0).isUnset

def isError (args : Args) : EvalM Value := return .logic ((args.value 0).kind == .error)

end BlockScript.Words
