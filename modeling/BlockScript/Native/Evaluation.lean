import BlockScript.Datum.Reader
import BlockScript.Evaluator

/-!
# Evaluation on request

Do, reduce, also and comment, and the makers of functions and objects.
-/

namespace BlockScript.Evaluation

def doValue (ev : Evaluator) (args : Args) : EvalM Value := do
  match args.value 0 with
  | .block r => ev.all r
  | .paren r => ev.all r
  | .none => return .none
  | .text id =>
    match Datum.read ((← getHeap).text id) with
    | .ok data => ev.all (← alloc (·.loadBlock data))
    | .error e => raise (.unreadable e.message)
  | .error _ => raise .useFail
  | v => raise (.useEval v.kind.name)

def reduce (ev : Evaluator) (args : Args) : EvalM Value := do
  ev.reduce (← expectBlock "reduce" "block" (args.value 0))

def also (args : Args) : EvalM Value := return args.value 0

def comment : EvalM Value := return .unset

def param? : Value → Option Param
  | .word .word name => some ⟨name, .normal⟩
  | .word .litWord name => some ⟨name, .literal⟩
  | .word .getWord name => some ⟨name, .get⟩
  | .word .refinement name => some ⟨name, .refinement⟩
  | _ => none

/-- Whether an item of a function's spec is a note on the function or on a type. -/
def isNote : Value → Bool
  | .text _ => true
  | .block _ => true
  | _ => false

/-- The parameters of a function's spec. Notes are skipped, and no name may occur twice. -/
def params (h : Heap) : List Param → List Value → Except Cause (List Param)
  | found, [] => .ok found.reverse
  | found, item :: items =>
    match param? item with
    | some p =>
      if found.any (·.name == p.name) then .error (.invalidSpec p.name)
      else params h (p :: found) items
    | none =>
      if isNote item then params h found items else .error (.invalidSpec (h.mold item))

def func (args : Args) : EvalM Value := do
  let spec ← expectBlock "func" "spec" (args.value 0)
  let body ← expectBlock "func" "body" (args.value 1)
  let h ← getHeap
  match params h [] (h.tail spec) with
  | .ok params => return .function (← alloc (·.newFunction params body))
  | .error cause => raise cause

def does (args : Args) : EvalM Value := do
  let body ← expectBlock "does" "body" (args.value 0)
  return .function (← alloc (·.newFunction [] body))

/-- The distinct names of the set-words among the items, in order of their first occurrence. -/
def fieldNames (items : List Value) : List String :=
  (items.filterMap fun
    | .word .setWord name => some name
    | _ => none).eraseDups

/-- Makes an object: the set-words of its body are its fields, and the body is evaluated with the
object as the innermost scope. -/
def object (ev : Evaluator) (args : Args) : EvalM Value := do
  let body ← expectBlock "object" "body" (args.value 0)
  let names := fieldNames ((← getHeap).tail body)
  let id ← alloc (·.newFrame (.ofFields (names.map (·, .none))))
  let _ ← withScope id (ev.all body)
  return .object id

end BlockScript.Evaluation
