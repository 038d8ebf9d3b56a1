import BlockScript.Evaluator

/-!
# Handlers

What is done with a caught exit or a trapped error: a block is evaluated, a function is applied to
as many of the payload and the name as it takes.
-/

namespace BlockScript

inductive Handler where
  | block (ref : BlockRef)
  | function (f : Function)
deriving DecidableEq, Repr

namespace Handler

/-- The handler that a value is; the construct that takes it is named for the error. -/
def ofValue (construct : String) : Value → EvalM Handler
  | .block r => return .block r
  | .function f => return .function f
  | v => raiseType construct "handler" v

def ofRefinement (construct : String) : Option Value → EvalM (Option Handler)
  | none => return none
  | some v => some <$> ofValue construct v

/-- Runs a handler. An error has no name, so a function of two parameters gets only the error. -/
def run (ev : Evaluator) (payload : Value) (name : Option Value) : Handler → EvalM Value
  | block r => ev.all r
  | function f =>
    match f.handlerShape with
    | .nullary => ev.apply f []
    | .unary => ev.apply f [payload]
    | .binary => ev.apply f (payload :: name.toList)

end Handler

end BlockScript
