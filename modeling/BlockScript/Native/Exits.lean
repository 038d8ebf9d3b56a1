import BlockScript.Native.Handler

/-!
# Exits

Break, continue, return, exit, quit and throw leave what is running under a name, with a payload.
Catch claims exits by their name. A quit is claimed only when asked for, whatever else is.
-/

namespace BlockScript.Exits

variable {α : Type}

def throwReserved (own : ReservedExit) (payload : Option Value) : EvalM α :=
  throwExit (.reserved own (payload.getD .unset))

/-- The payload follows either of two refinements. -/
def breakLoop (args : Args) : EvalM Value :=
  throwReserved .break ((args.refinement? 0).or (args.refinement? 2))

def continueLoop : EvalM Value := throwReserved .continue none

def returnValue (args : Args) : EvalM Value := throwReserved .return (some (args.value 0))

def exitFunction (args : Args) : EvalM Value := do
  let own : ReservedExit := if (← get).exitAsReturn then .return else .exit
  throwReserved own (args.refinement? 0)

def quit (args : Args) : EvalM Value := throwReserved .quit (args.refinement? 0)

def throwValue (args : Args) : EvalM Value := do
  match args.value 0, args.refinement? 1 with
  | .error _, _ => raise .useFail
  | _, some (.block _) => raise (.invalidArg "block! throw name")
  | payload, name => throwExit ⟨name.getD .none, payload⟩

structure CatchFilter where
  names : Option Value
  quit : Bool
  any : Bool

/-- The names that a filter lists: the items of a block as it stands, or the one name. -/
def CatchFilter.listed (h : Heap) : Value → List Value
  | .block r => h.tail r
  | name => [name]

/-- Without names and without `any`, only exits without a name are claimed. -/
def CatchFilter.claims (filter : CatchFilter) (h : Heap) (exit : Thrown) : Bool :=
  if exit.isNamed .quit then filter.quit
  else
    filter.any ||
      match filter.names with
      | some names => (CatchFilter.listed h names).any (h.equal · exit.name)
      | none => exit.isUnnamed

def CatchFilter.ofArgs (args : Args) : CatchFilter :=
  { names := args.refinement? 1, quit := args.refined 3, any := args.refined 4 }

/-- A list of names may hold no block. -/
def checkNames : Option Value → EvalM Unit
  | some (.block r) => do
    match ((← getHeap).tail r).find? (·.kind == .block) with
    | some nested => raise (.invalidArg (← moldValue nested))
    | none => return
  | _ => return

/-- Names and `any` exclude each other. -/
def CatchFilter.check (filter : CatchFilter) : EvalM Unit :=
  if filter.any && filter.names.isSome then raise .badRefines else checkNames filter.names

/-- Evaluates; an exit that the filter claims becomes a result. -/
def catching (filter : CatchFilter) : EvalM α → EvalM (Except Thrown α) :=
  claiming (fun h exit => if filter.claims h exit then some (.error exit) else none) .ok

def catchThrown (ev : Evaluator) (args : Args) : EvalM Value := do
  let block ← expectBlock "catch" "block" (args.value 0)
  let filter := CatchFilter.ofArgs args
  filter.check
  let handler ← Handler.ofRefinement "catch" (args.refinement? 5)
  match ← catching filter (ev.all block) with
  | .ok value => return value
  | .error exit =>
    match handler with
    | none => return exit.payload
    | some handler => handler.run ev exit.payload (some exit.name)

end BlockScript.Exits
