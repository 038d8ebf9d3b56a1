import BlockScript.CallStack
import BlockScript.Environment
import BlockScript.Heap.Equality
import BlockScript.Heap.Mold
import BlockScript.Recovery

/-!
# Evaluation state

What a running program has: heap, environment, call stack, recovery points and the text printed so
far. An evaluation ends with a value or leaves early, in one of two ways that are never mixed: an
exit was thrown, or an error was raised. The state survives both.

Scopes, calls and recovery points are brackets around a piece of evaluation: what is pushed before
it is removed after it, however it ended.
-/

namespace BlockScript

structure State where
  heap : Heap := {}
  env : Environment
  calls : CallStack := {}
  recovery : RecoveryStack := {}
  output : String := ""
  /-- The exit of a function is thrown under the name of a return. -/
  exitAsReturn : Bool := false
deriving Inhabited

/-- How an evaluation ends without a value. -/
inductive Exit where
  | thrown (exit : Thrown)
  | raised (error : EvalError)
  | outOfFuel
deriving Inhabited

abbrev EvalM := EStateM Exit State

variable {α β : Type}

def raise (cause : Cause) : EvalM α := throw (.raised { cause })

def throwExit (exit : Thrown) : EvalM α := throw (.thrown exit)

/-- Raises the error of an argument whose datatype a function does not take. -/
def raiseType (function argument : String) (v : Value) : EvalM α :=
  raise (.expectArg function argument v.kind.name)

/-! ## The heap -/

def getHeap : EvalM Heap := do return (← get).heap

def modifyHeap (change : Heap → Heap) : EvalM Unit :=
  modify fun s => { s with heap := change s.heap }

def alloc (make : Heap → α × Heap) : EvalM α :=
  modifyGet fun s =>
    let (made, heap) := make s.heap
    (made, { s with heap })

def newBlock (items : Array Value) : EvalM Value := do
  return .block (← alloc (·.newBlock items))

def newText (content : String) : EvalM Value := alloc (·.newText content)

def editBlock (id : Nat) (change : Array Value → Array Value) : EvalM Unit := do
  if (← getHeap).isBlockProtected id then raise .guarded
  else modifyHeap (·.editBlock id change)

def editText (id : TextId) (change : String → String) : EvalM Unit := do
  if (← getHeap).isTextProtected id then raise .guarded
  else modifyHeap (·.editText id change)

def assignField (id : FrameId) (index : Nat) (value : Value) : EvalM Unit := do
  match ((← getHeap).frame id).denied? index with
  | some denied => raise denied.cause
  | none => modifyHeap (·.modifyFrame id (·.put index value))

def moldValue (v : Value) : EvalM String := do return (← getHeap).mold v

def formValue (v : Value) : EvalM String := do return (← getHeap).form v

def print (line : String) : EvalM Unit :=
  modify fun s => { s with output := (s.output ++ line).push '\n' }

/-! ## Words -/

def lookup (name : String) : EvalM (Option Value) := do
  let s ← get
  return s.env.lookup s.heap name

/-- The value of a word, which must have one that is set. -/
def lookupSet (name : String) : EvalM Value := do
  match ← lookup name with
  | some .unset => raise (.noValue name)
  | some value => return value
  | none => raise (.noValue name)

/-- The value of a word, unset if it is bound nowhere. -/
def fetch (name : String) : EvalM Value := do return (← lookup name).getD .unset

/-- Where an assignment to a word goes, or why it is refused. -/
def assignmentSlot (name : String) : EvalM (Except WriteDenied Slot) := do
  let s ← get
  return s.env.slot s.heap name

def assignWord (name : String) (value : Value) : EvalM Unit := do
  match ← assignmentSlot name with
  | .error denied => raise denied.cause
  | .ok slot => modify fun s => { s with heap := s.env.write s.heap name value slot }

/-! ## Brackets -/

def withScope (frame : FrameId) (body : EvalM α) : EvalM α := fun s =>
  match body { s with env := s.env.push frame } with
  | .ok value s => .ok value { s with env := s.env.pop }
  | .error exit s => .error exit { s with env := s.env.pop }

/-- Evaluates; a thrown exit that is claimed becomes a result. -/
def claiming (claim : Heap → Thrown → Option β) (result : α → β) (body : EvalM α) : EvalM β :=
  fun s =>
    match body s with
    | .ok value s => .ok (result value) s
    | .error (.thrown exit) s =>
      match claim s.heap exit with
      | some claimed => .ok claimed s
      | none => .error (.thrown exit) s
    | .error exit s => .error exit s

/-- An error that leaves a call takes the running calls with it. -/
def attachCalls (calls : CallStack) : Exit → Exit
  | .raised e => .raised (calls.attach e)
  | exit => exit

/-- Evaluates inside a call. When the call stack is full an error is raised instead. -/
def withCall (name : String) (body : EvalM α) : EvalM α := fun s =>
  match s.calls.push name with
  | .error cause => .error (.raised (s.calls.attach { cause })) s
  | .ok calls =>
    match body { s with calls } with
    | .ok value s => .ok value { s with calls := s.calls.pop }
    | .error exit s => .error (attachCalls s.calls exit) { s with calls := s.calls.pop }

/-- Arms a recovery point at the present depths; its token. -/
def armPoint : EvalM Nat :=
  modifyGet fun s =>
    let (point, recovery) := s.recovery.arm s.env.depth s.calls.depth
    (point.token, { s with recovery })

/-- Retires a point on the normal way out. -/
def State.disarm (s : State) (token : Nat) : State :=
  { s with recovery := (s.recovery.retire token).2 }

/-- Retires a point that an error has reached: scopes and calls above its depths are removed. -/
def State.land (s : State) (token : Nat) : State :=
  match s.recovery.retire token with
  | (none, recovery) => { s with recovery }
  | (some point, recovery) =>
    { s with
      recovery
      env := s.env.truncate point.scopeDepth
      calls := s.calls.truncate point.callDepth }

/-- Evaluates under a recovery point: a raised error becomes a result, a thrown exit passes. -/
def guarded (body : EvalM α) : EvalM (Except EvalError α) := do
  let token ← armPoint
  fun s =>
    match body s with
    | .ok value s => .ok (.ok value) (s.disarm token)
    | .error (.raised e) s => .ok (.error e) (s.land token)
    | .error exit s => .error exit (s.disarm token)

end BlockScript
