import BlockScript.Native.Run

/-!
# Calls

Arguments are gathered from the items after the function: first those of the fixed parameters, then
those of each refinement named in the call, in the order of the call. The places of refinements that
were not used, and of their parameters, hold none.
-/

namespace BlockScript

/-- Claims the return or exit of a function's body; its payload is the result. -/
def claimReturn : EvalM Value → EvalM Value :=
  claiming (fun _ exit =>
    if exit.isNamed .return || exit.isNamed .exit then some exit.payload else none) id

/-- Runs a function's body in a new frame of its parameters. -/
def runBody (ev : Evaluator) (params : List Param) (body : BlockRef) (args : Args) :
    EvalM Value := do
  let frame ← alloc (·.newFrame (.ofFields ((params.map (·.name)).zip args.toList)))
  claimReturn (withScope frame (ev.all body))

def Function.run (ev : Evaluator) (args : Args) : Function → EvalM Value
  | .native n => n.run ev args
  | .user _ params body => runBody ev params body args

def invoke (ev : Evaluator) (name : String) (f : Function) (args : Args) : EvalM Value :=
  withCall name (f.run ev args)

def gatherArg (ev : Evaluator) (function : String) (param : Param) (block : BlockRef)
    (position : Nat) : EvalM (Value × Nat) := do
  let missing := Cause.noArg function param.name
  match param.kind with
  | .literal =>
    match (← getHeap).item? block position with
    | some item => return (item, position + 1)
    | none => raise missing
  | .get =>
    match (← getHeap).item? block position with
    | some (.word .word name) => return (← fetch name, position + 1)
    | some (.word .getWord name) => return (← fetch name, position + 1)
    | some item => return (item, position + 1)
    | none => raise missing
  | _ =>
    match ← ev.next block position with
    | some step => return step
    | none => raise missing

/-- Arguments gathered so far, and the position after the last one. -/
structure Gathered where
  args : Args
  position : Nat

def gatherParams (ev : Evaluator) (function : String) (block : BlockRef) (gathered : Gathered)
    (params : List (Nat × Param)) : EvalM Gathered :=
  params.foldlM (fun gathered (slot, param) => do
    let (value, position) ← gatherArg ev function param block gathered.position
    return ⟨gathered.args.setIfInBounds slot value, position⟩) gathered

/-- Gathers the arguments of the refinements that a call names; `used` are those named before. -/
def gatherRefinements (ev : Evaluator) (name : String) (f : Function) (block : BlockRef) :
    List Nat → List Segment → Gathered → EvalM Gathered
  | _, [], gathered => return gathered
  | used, segment :: segments, gathered => do
    match segment.name?.bind f.refinement? with
    | none => raise (.invalidPath name segment.mold)
    | some slot =>
      if used.contains slot then raise .badRefines
      else
        let gathered := { gathered with args := gathered.args.setIfInBounds slot (.logic true) }
        let gathered ← gatherParams ev name block gathered (f.refinementParams slot)
        gatherRefinements ev name f block (slot :: used) segments gathered

/-- Gathers the arguments of a function from a position on and runs it. -/
def call (ev : Evaluator) (name : String) (f : Function) (refinements : List Segment)
    (block : BlockRef) (position : Nat) : EvalM (Value × Nat) := do
  let gathered ←
    gatherParams ev name block ⟨Array.replicate f.arity .none, position⟩ f.fixedParams
  let gathered ← gatherRefinements ev name f block [] refinements gathered
  return (← ev.invoke name f gathered.args, gathered.position)

end BlockScript
