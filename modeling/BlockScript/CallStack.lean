import BlockScript.Error

/-!
# The call stack

The names of the functions that are running, natives included. Its depth is bounded, and it is what
a backtrace is taken from.
-/

namespace BlockScript

structure CallStack where
  /-- Names of the running calls, innermost last; empty for a function called without a word. -/
  names : Array String := #[]
  /-- Greatest depth; no bound if absent. -/
  limit : Option Nat := none
deriving DecidableEq, Repr, Inhabited

namespace CallStack

def depth (c : CallStack) : Nat := c.names.size

def isEmpty (c : CallStack) : Bool := c.names.isEmpty

def push (c : CallStack) (name : String) : Except Cause CallStack :=
  match c.limit with
  | some limit =>
    if c.depth < limit then .ok { c with names := c.names.push name }
    else .error (.stackOverflow limit)
  | none => .ok { c with names := c.names.push name }

def pop (c : CallStack) : CallStack := { c with names := c.names.pop }

def truncate (c : CallStack) (depth : Nat) : CallStack := { c with names := c.names.take depth }

/-- The running calls, innermost first. -/
def capture (c : CallStack) : Backtrace :=
  c.names.toList.reverse.map fun name => if name.isEmpty then "<anonymous>" else name

/-- Gives an error the running calls, unless there are none or it has a backtrace already. -/
def attach (c : CallStack) (e : EvalError) : EvalError :=
  if c.isEmpty || e.backtrace.isSome then e else { e with backtrace := some c.capture }

end CallStack

end BlockScript
