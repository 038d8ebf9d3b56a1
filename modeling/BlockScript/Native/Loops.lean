import BlockScript.Evaluator

/-!
# Loops

A loop claims the break and the continue thrown by what it evaluates: a break ends it with the
payload, a continue goes on to the next repetition. Every other exit leaves the loop.
-/

namespace BlockScript.Loops

/-- What one repetition says about the loop. -/
inductive Turn where
  | finished
  | broken (payload : Value)
  | ran (value : Value)

/-- What a loop makes of an exit; it leaves all but its own two alone. -/
def claimed (exit : Thrown) : Option Turn :=
  if exit.isNamed .break then some (.broken exit.payload)
  else if exit.isNamed .continue then some (.ran .unset)
  else none

/-- One repetition; a step without a value ends the loop. -/
def turn : EvalM (Option Value) → EvalM Turn :=
  claiming (fun _ exit => claimed exit) fun value => (value.map Turn.ran).getD .finished

/-- Repeats a step until it ends the loop; the result is that of the last repetition. -/
def untilFinished (step : EvalM (Option Value)) : Nat → Value → EvalM Value
  | 0, _ => throw .outOfFuel
  | fuel + 1, result => do
    match ← turn step with
    | .finished => return result
    | .broken payload => return payload
    | .ran value => untilFinished step fuel value

def times (ev : Evaluator) (body : BlockRef) : Nat → Value → EvalM Value
  | 0, result => return result
  | count + 1, result => do
    match ← turn (some <$> ev.all body) with
    | .finished => return result
    | .broken payload => return payload
    | .ran value => times ev body count value

def loopTimes (ev : Evaluator) (args : Args) : EvalM Value := do
  let count ← expectInteger "loop" "count" (args.value 0)
  let body ← expectBlock "loop" "body" (args.value 1)
  times ev body count.toInt.toNat .none

def whileTrue (ev : Evaluator) (args : Args) : EvalM Value := do
  let condition ← expectBlock "while" "condition" (args.value 0)
  let body ← expectBlock "while" "body" (args.value 1)
  let step := do
    if (← ev.all condition).isTruthy then return some (← ev.all body) else return none
  untilFinished step ev.fuel .none

def forever (ev : Evaluator) (args : Args) : EvalM Value := do
  let body ← expectBlock "forever" "body" (args.value 0)
  untilFinished (some <$> ev.all body) ev.fuel .none

end BlockScript.Loops
