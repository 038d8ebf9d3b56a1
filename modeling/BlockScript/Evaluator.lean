import BlockScript.State

/-!
# Evaluators

What natives and expressions need from the evaluator as a whole: to evaluate the next expression of
a block, and to run a function on its arguments. Both come with a bound on how deep they may nest
and how often a loop may run. Everything that evaluates code is written against this interface; the
one evaluator that implements it is put together at the end.
-/

namespace BlockScript

/-- The arguments of a call, by position of the parameter. The place of a refinement is true when it
was used and none otherwise. -/
abbrev Args := Array Value

namespace Args

def value (args : Args) (position : Nat) : Value := args.getD position .none

def refined (args : Args) (position : Nat) : Bool :=
  match args[position]? with
  | some (.logic true) => true
  | _ => false

/-- The first argument of the refinement at a position, if it was used. -/
def refinement? (args : Args) (position : Nat) : Option Value :=
  if args.refined position then some (args.value (position + 1)) else none

end Args

/-- The arguments of a function that takes values by position; missing ones are none and those that
it has no parameter for are dropped. -/
def Function.positional (f : Function) (values : List Value) : Args :=
  ((values ++ List.replicate f.arity Value.none).take f.arity).toArray

structure Evaluator where
  /-- Evaluates the expression at an absolute position of a block's series: its value and the
  position after it, or nothing at the tail. -/
  next : BlockRef → Nat → EvalM (Option (Value × Nat))
  invoke : String → Function → Args → EvalM Value
  /-- Bound on the repetitions of a loop. -/
  fuel : Nat

namespace Evaluator

variable {β : Type}

/-- Applies a function to values, as a call without a name. -/
def apply (ev : Evaluator) (f : Function) (values : List Value) : EvalM Value :=
  ev.invoke "" f (f.positional values)

/-- Folds over the values of the expressions from a position on, until there are no more or the
fold is done. -/
def foldFrom (ev : Evaluator) (block : BlockRef) (f : β → Value → ForInStep β) :
    Nat → Nat → β → EvalM β
  | 0, _, _ => throw .outOfFuel
  | fuel + 1, index, acc => do
    match ← ev.next block index with
    | none => return acc
    | some (value, next) =>
      match f acc value with
      | .done acc => return acc
      | .yield acc => ev.foldFrom block f fuel next acc

/-- Folds over the values of the expressions from the position of a block on. -/
def fold (ev : Evaluator) (block : BlockRef) (f : β → Value → ForInStep β) (start : β) : EvalM β :=
  ev.foldFrom block f ev.fuel block.index start

/-- The value of the last expression, or unset for an empty block. -/
def all (ev : Evaluator) (block : BlockRef) : EvalM Value :=
  ev.fold block (fun _ value => .yield value) .unset

def reduce (ev : Evaluator) (block : BlockRef) : EvalM Value := do
  newBlock (← ev.fold block (fun values value => .yield (values.push value)) #[])

/-- Evaluates a block, unless it is to be taken as it is; any other value is itself. -/
def branch (ev : Evaluator) (only : Bool) : Value → EvalM Value
  | .block r => if only then return .block r else ev.all r
  | v => return v

end Evaluator

def expectBlock (function argument : String) : Value → EvalM BlockRef
  | .block r => return r
  | v => raiseType function argument v

def expectInteger (function argument : String) : Value → EvalM Int64
  | .integer n => return n
  | v => raiseType function argument v

end BlockScript
