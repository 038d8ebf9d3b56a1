import BlockScript.Native.Handler

/-!
# Raising and recovering

Fail raises an error. Trap and attempt evaluate a block under a recovery point: trap turns an error
into a value or hands it to a handler, attempt turns it into none.
-/

namespace BlockScript.Raising

def trap (ev : Evaluator) (args : Args) : EvalM Value := do
  let block ← expectBlock "trap" "block" (args.value 0)
  let handler ← Handler.ofRefinement "trap" (args.refinement? 1)
  match ← guarded (ev.all block) with
  | .ok value => return value
  | .error e =>
    match handler with
    | none => return .error e
    | some handler => handler.run ev (.error e) none

def attempt (ev : Evaluator) (args : Args) : EvalM Value := do
  let block ← expectBlock "attempt" "block" (args.value 0)
  match ← guarded (ev.all block) with
  | .ok value => return value
  | .error _ => return .none

/-- What a message given as a block may be made of: no word that would run a function. -/
def allowed (env : Environment) (h : Heap) : Value → Bool
  | .text _ => true
  | .integer _ => true
  | .decimal _ => true
  | .paren _ => true
  | .word .word name =>
    match env.lookup h name with
    | some (.function _) => false
    | _ => true
  | _ => false

/-- Raises an error value as it is, or an error with a message. -/
def fail (ev : Evaluator) (args : Args) : EvalM Value := do
  match args.value 0 with
  | .error e => throw (.raised e)
  | .text id => raise (.user ((← getHeap).text id))
  | .block r =>
    let s ← get
    if (s.heap.tail r).all (allowed s.env s.heap) then
      raise (.user (← formValue (← ev.reduce r)))
    else raise .limitedFailInput
  | v => raiseType "fail" "reason" v

end BlockScript.Raising
