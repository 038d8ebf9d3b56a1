import BlockScript.Evaluator
import BlockScript.Heap.Copy
import BlockScript.Path

/-!
# Series and objects

Reading and changing blocks and strings, copying, and the words of an object. What is added to a
string is formed first; what is added to a block is the items of a block, unless the block is to be
added as it is.
-/

namespace BlockScript.SeriesAccess

/-- The items that a value adds to a block. -/
def spliced (h : Heap) (only : Bool) : Value → List Value
  | .block r => if only then [.block r] else h.tail r
  | v => [v]

def append (args : Args) : EvalM Value := do
  match args.value 0 with
  | .block r =>
    let items := spliced (← getHeap) (args.refined 2) (args.value 1)
    editBlock r.id (· ++ items)
    return .block r
  | .text id =>
    let addition ← formValue (args.value 1)
    editText id (· ++ addition)
    return .text id
  | v => raiseType "append" "series" v

/-- Inserts at the position, or at the tail if that lies before it; the result is the position after
what was inserted. Strings have no position and are added to at their head. -/
def insert (args : Args) : EvalM Value := do
  match args.value 0 with
  | .block r =>
    let h ← getHeap
    let items := spliced h (args.refined 2) (args.value 1)
    let start := min r.index (h.items r.id).size
    editBlock r.id fun own => own.take start ++ items ++ own.drop start
    return .block { r with index := start + items.length }
  | .text id =>
    let addition ← formValue (args.value 1)
    editText id (addition ++ ·)
    return .text id
  | v => raiseType "insert" "series" v

def poke (args : Args) : EvalM Value := do
  match args.value 0 with
  | .block r =>
    let place ← expectInteger "poke" "index" (args.value 1)
    pokeItem r place (args.value 2)
    return args.value 2
  | v => raiseType "poke" "series" v

def clear (args : Args) : EvalM Value := do
  match args.value 0 with
  | .block r =>
    editBlock r.id (·.take r.index)
    return .block r
  | .text id =>
    editText id fun _ => ""
    return .text id
  | .none => return .none
  | v => raiseType "clear" "series" v

/-- The item or character at a place counted from 1; none outside. -/
def pickFrom (function : String) (place : Int64) : Value → EvalM Value
  | .block r => return (← getHeap).pick r place
  | .paren r => return (← getHeap).pick r place
  | .text id => do
    let chars := ((← getHeap).text id).toList
    let picked := if 1 ≤ place.toInt then chars[place.toInt.toNat - 1]? else none
    match picked with
    | some c => newText c.toString
    | none => return .none
  | v => raiseType function "series" v

def first (args : Args) : EvalM Value := pickFrom "first" 1 (args.value 0)

def pick (args : Args) : EvalM Value := do
  let place ← expectInteger "pick" "index" (args.value 1)
  pickFrom "pick" place (args.value 0)

def lengthOf (args : Args) : EvalM Value := do
  let h ← getHeap
  let count := fun (n : Nat) => (return .integer (Int64.ofNat n) : EvalM Value)
  match args.value 0 with
  | .block r => count (h.length r)
  | .paren r => count (h.length r)
  | .text id => count (h.text id).length
  | .object id => count (h.frame id).words.length
  | v => raiseType "length?" "series" v

def copy (args : Args) : EvalM Value :=
  alloc fun h => if args.refined 1 then h.deepCopy (args.value 0) else h.shallowCopy (args.value 0)

def wordsOf (args : Args) : EvalM Value := do
  match args.value 0 with
  | .object id =>
    newBlock (((← getHeap).frame id).words.map (Value.word .word)).toArray
  | v => raiseType "words-of" "object" v

end BlockScript.SeriesAccess
