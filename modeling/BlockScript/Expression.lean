import BlockScript.Call

/-!
# Expressions

An expression is a term followed by any number of operators, each with a term behind it; operators
have no precedence and are applied from left to right. The evaluator is the fixed point of the
evaluation of one expression, bounded in depth by its fuel.
-/

namespace BlockScript

/-- Selects with the segments of a path one by one; a function met on the way is applied, with the
segments that are left as its refinements. -/
def selectPath (ev : Evaluator) (segments : List Segment) (block : BlockRef) (position : Nat) :
    Value → Segment → List Segment → EvalM (Value × Nat)
  | .function f, here, rest => call ev (here.name?.getD "") f rest block position
  | value, _, [] => return (value, position)
  | value, _, segment :: rest => do
    selectPath ev segments block position (← Path.select segments value segment) segment rest

def pathTerm (ev : Evaluator) (segments : List Segment) (block : BlockRef) (position : Nat) :
    EvalM (Value × Nat) := do
  let value ← Path.head segments
  match segments with
  | [] => return (value, position)
  | head :: rest => selectPath ev segments block position value head rest

/-- The value to be assigned, which must be there and be set. -/
def assigned (ev : Evaluator) (target : String) (block : BlockRef) (position : Nat) :
    EvalM (Value × Nat) := do
  match ← ev.next block position with
  | none => raise (.needValue target)
  | some (value, position) =>
    if value.isUnset then raise (.needValue target) else return (value, position)

/-- Evaluates a term: one item, with what it takes from the position after it. -/
def term (ev : Evaluator) (block : BlockRef) (position : Nat) : Value → EvalM (Value × Nat)
  | .word .word name => do
    match ← lookupSet name with
    | .function f => call ev name f [] block position
    | value => return (value, position)
  | .word .setWord name => do
    let (value, position) ← assigned ev name block position
    assignWord name value
    return (value, position)
  | .word .getWord name => do return (← fetch name, position)
  | .word .litWord name => return (.word .word name, position)
  | .path .path segments => pathTerm ev segments block position
  | .path .setPath segments => do
    let (value, position) ← assigned ev (PathKind.setPath.mold segments) block position
    Path.set segments value
    return (value, position)
  | .path .getPath segments => do return (← Path.get segments, position)
  | .path .litPath segments => return (.path .path segments, position)
  | .paren body => do return (← ev.all body, position)
  | value => return (value, position)

def operatorAt (block : BlockRef) (position : Nat) : EvalM (Option (String × Function)) := do
  match (← getHeap).item? block position with
  | some (.word .word name) =>
    match ← lookup name with
    | some (.function f) => return if f.isOperator then some (name, f) else none
    | _ => return none
  | _ => return none

/-- Applies the operators from a position on to the value of the term before them. -/
def operators (ev : Evaluator) (block : BlockRef) : Nat → Value → Nat → EvalM (Value × Nat)
  | 0, _, _ => throw .outOfFuel
  | fuel + 1, left, position => do
    match ← operatorAt block position with
    | none => return (left, position)
    | some (name, f) =>
      match (← getHeap).item? block (position + 1) with
      | none => raise (.noArg name "value2")
      | some operand =>
        let (right, position) ← term ev block (position + 2) operand
        let value ← ev.invoke name f (f.positional [left, right])
        operators ev block fuel value position

/-- Evaluates the expression at a position: its value and the position after it, or nothing at the
tail. -/
def expression (ev : Evaluator) (block : BlockRef) (position : Nat) :
    EvalM (Option (Value × Nat)) := do
  match (← getHeap).item? block position with
  | none => return none
  | some item =>
    let (value, position) ← term ev block (position + 1) item
    return some (← operators ev block ev.fuel value position)

/-- The evaluator that nests at most `fuel` expressions deep. -/
def evaluator (fuel : Nat) : Evaluator where
  next block position :=
    match fuel with
    | 0 => throw .outOfFuel
    | fuel + 1 => expression (evaluator fuel) block position
  invoke name f args :=
    match fuel with
    | 0 => throw .outOfFuel
    | fuel + 1 => invoke (evaluator fuel) name f args
  fuel

end BlockScript
