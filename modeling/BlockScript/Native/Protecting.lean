import BlockScript.Heap.Protection
import BlockScript.Native.Handler
import BlockScript.Path

/-!
# Protecting

Protect and unprotect act on the field that a word or path names, on the container of any other
value, or on every word or value of a list. There is no way to show a hidden field again.
-/

namespace BlockScript.Protecting

/-- How a call reads its argument. -/
structure Target where
  flags : ProtectFlags
  words : Bool
  values : Bool
deriving DecidableEq, Repr

def walking (walk : ProtectWalk) (step : ProtectWalk → ProtectWalk) : EvalM (List Container) :=
  modifyGet fun s =>
    let walk := step { walk with heap := s.heap }
    (walk.visited, { s with heap := walk.heap })

/-- The field that a word or path names; other values and unbound words name none. -/
def binding? : Value → EvalM (Option (FrameId × Nat))
  | .word _ name => do
    let s ← get
    return s.env.resolve s.heap name
  | .path _ segments => Path.field? segments
  | _ => return none

/-- Marks the field that a value names, going on with the containers already visited. -/
def protectBinding (flags : ProtectFlags) (visited : List Container) (v : Value) :
    EvalM (List Container) := do
  match ← binding? v with
  | none => return visited
  | some (id, index) => walking { flags, heap := {}, visited } (·.protectField id index)

def protectValue (flags : ProtectFlags) (visited : List Container) (v : Value) :
    EvalM (List Container) :=
  walking { flags, heap := {}, visited } (·.protectValue v)

/-- The value that an item of a list refers to: the value of a word, the result of a path, where a
function met on the way is applied, or the item itself. -/
def referenced (ev : Evaluator) : Value → EvalM Value
  | .word _ name => do return (← lookup name).getD .none
  | .path _ segments => do ev.all (← alloc (·.newBlock #[.path .path segments]))
  | v => return v

def apply (ev : Evaluator) (target : Target) (v : Value) : EvalM Value := do
  let flags := target.flags
  let container := do
    if flags.hide then raise .badRefines
    else let _ ← protectValue flags [] v
  match v with
  | .word _ _ => let _ ← protectBinding flags [] v
  | .path _ _ => let _ ← protectBinding flags [] v
  | .block r =>
    let items := (← getHeap).tail r
    if target.words then let _ ← items.foldlM (protectBinding flags) []
    else if target.values then
      let _ ← items.foldlM (fun visited item => do
        protectValue flags visited (← referenced ev item)) []
    else container
  | _ => container
  return v

def protect (ev : Evaluator) (args : Args) : EvalM Value :=
  let hide := args.refined 4
  apply ev
    { flags := { set := true, deep := args.refined 1, hide, word := !hide }
      words := args.refined 2
      values := args.refined 3 }
    (args.value 0)

def unprotect (ev : Evaluator) (args : Args) : EvalM Value :=
  apply ev
    { flags := { deep := args.refined 1, word := true }
      words := args.refined 2
      values := args.refined 3 }
    (args.value 0)

end BlockScript.Protecting
