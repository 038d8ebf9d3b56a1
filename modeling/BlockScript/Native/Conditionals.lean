import BlockScript.Native.Handler
import BlockScript.Path

/-!
# Conditionals

All and any fold over the values of a block's expressions. Case takes them in pairs of a condition
and a body, and evaluates the body's expression even when the condition is false. Switch compares a
value with the items of a block and evaluates the block after the first match.
-/

namespace BlockScript.Conditionals

/-- The last value, or none as soon as one is false. -/
def allOf (ev : Evaluator) (args : Args) : EvalM Value := do
  let block ← expectBlock "all" "block" (args.value 0)
  ev.fold block (fun _ value => if value.isTruthy then .yield value else .done .none) (.logic true)

/-- The first value that is true and set, or none. -/
def anyOf (ev : Evaluator) (args : Args) : EvalM Value := do
  let block ← expectBlock "any" "block" (args.value 0)
  ev.fold block
    (fun _ value => if value.isTruthy && !value.isUnset then .done value else .yield .none) .none

/-- Goes through the pairs from a position on. The result is that of the last true pair so far. -/
def casePairs (ev : Evaluator) (block : BlockRef) (all only : Bool) :
    Nat → Nat → Value → EvalM Value
  | 0, _, _ => throw .outOfFuel
  | fuel + 1, index, result => do
    match ← ev.next block index with
    | none => return result
    | some (condition, index) =>
      if condition.isUnset then raise .noReturn
      else
        match ← ev.next block index with
        | none => raise .pastEnd
        | some (body, index) =>
          if condition.isTruthy then
            let result ← ev.branch only body
            if all then casePairs ev block all only fuel index result else return result
          else casePairs ev block all only fuel index result

def caseOf (ev : Evaluator) (args : Args) : EvalM Value := do
  let block ← expectBlock "case" "block" (args.value 0)
  casePairs ev block (args.refined 1) (args.refined 2) ev.fuel block.index .none

/-- What an item of the cases is compared as: parens, get-words and get-paths are evaluated. -/
def candidate (ev : Evaluator) : Value → EvalM Value
  | .paren r => ev.all r
  | .word .getWord name => fetch name
  | .path .getPath segments => Path.get segments
  | item => return item

/-- The first block among the items from a position on, and the position after it. -/
def nextBody? (h : Heap) (cases : BlockRef) (index : Nat) : Option (BlockRef × Nat) :=
  ((h.items cases.id).toList.drop index).zipIdx index |>.findSome? fun (item, position) =>
    match item with
    | .block body => some (body, position + 1)
    | _ => none

/-- Goes through the cases from a position on. The result is that of the last body that was run, or
the item matched if no body follows it, and the item that the cases end on, or none. -/
def switchItems (ev : Evaluator) (value : Value) (cases : BlockRef) (all strict : Bool) :
    Nat → Nat → Option Value → Value → EvalM (Option Value × Value)
  | 0, _, _, _ => throw .outOfFuel
  | fuel + 1, index, found, trailing => do
    match (← getHeap).item? cases index with
    | none => return (found, trailing)
    | some (.block _) => switchItems ev value cases all strict fuel (index + 1) found .none
    | some item =>
      let compared ← candidate ev item
      let h ← getHeap
      if h.equalIn strict value compared then
        match nextBody? h cases (index + 1) with
        | none => return (some compared, compared)
        | some (body, index) =>
          let result ← ev.all body
          if all then switchItems ev value cases all strict fuel index (some result) compared
          else return (some result, compared)
      else switchItems ev value cases all strict fuel (index + 1) found compared

def switchOn (ev : Evaluator) (args : Args) : EvalM Value := do
  let cases ← expectBlock "switch" "cases" (args.value 1)
  let (found, trailing) ←
    switchItems ev (args.value 0) cases (args.refined 4) (args.refined 5) ev.fuel cases.index
      none .none
  match found, args.refinement? 2 with
  | some result, _ => return result
  | none, some default => ev.branch false default
  | none, none => return trailing

/-- The truth of a condition, which must be set. -/
def truth (function : String) (v : Value) : EvalM Bool :=
  if v.isUnset then raiseType function "condition" v else return v.isTruthy

def ifTrue (ev : Evaluator) (args : Args) : EvalM Value := do
  if ← truth "if" (args.value 0) then ev.branch (args.refined 2) (args.value 1)
  else return .none

def either (ev : Evaluator) (args : Args) : EvalM Value := do
  let chosen := if ← truth "either" (args.value 0) then args.value 1 else args.value 2
  ev.branch (args.refined 3) chosen

def ifFalse (ev : Evaluator) (args : Args) : EvalM Value := do
  if ← truth "unless" (args.value 0) then return .none
  else ev.branch (args.refined 2) (args.value 1)

end BlockScript.Conditionals
