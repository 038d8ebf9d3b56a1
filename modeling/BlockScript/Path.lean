import BlockScript.State

/-!
# Paths

A path selects step by step: a field of an object, an item of a block by its place or after an equal
word, the identifier or message of an error. Writing through a path selects with all segments but
the last and writes what the last one names.
-/

namespace BlockScript

namespace Heap

/-- The item at a place counted from 1 at the position of a reference; none outside the block. -/
def pick (h : Heap) (r : BlockRef) (place : Int64) : Value :=
  if 1 ≤ place.toInt then (h.item? r (r.index + (place.toInt.toNat - 1))).getD .none else .none

/-- The item after the first one equal to a key; none if there is no such item. -/
def selectAfter (h : Heap) (r : BlockRef) (key : Value) : Value :=
  (((h.tail r).dropWhile fun item => !h.equal item key).drop 1).headD .none

end Heap

/-- Replaces the item at a place counted from 1 at the position of a reference. -/
def pokeItem (r : BlockRef) (place : Int64) (value : Value) : EvalM Unit := do
  if place.toInt < 1 then raise .pastEnd
  else
    let position := r.index + (place.toInt.toNat - 1)
    let h ← getHeap
    if h.isBlockProtected r.id then raise .guarded
    else if position < (h.items r.id).size then editBlock r.id (·.setIfInBounds position value)
    else raise .pastEnd

namespace Path

variable {α : Type}

def refuse (segments : List Segment) (segment : String) : EvalM α :=
  raise (.invalidPath (PathKind.path.mold segments) segment)

def head (segments : List Segment) : EvalM Value :=
  match segments with
  | .name name :: _ => lookupSet name
  | .index n :: _ => refuse segments (Segment.index n).mold
  | [] => refuse segments "none"

/-- One step of a selection. The whole path is given for the error. -/
def select (segments : List Segment) (container : Value) (segment : Segment) : EvalM Value := do
  match container, segment with
  | .object id, .name name =>
    match ((← getHeap).frame id).get? name with
    | some value => return value
    | none => refuse segments segment.mold
  | .block r, .index place => return (← getHeap).pick r place
  | .paren r, .index place => return (← getHeap).pick r place
  | .block r, .name name => return (← getHeap).selectAfter r (.word .word name)
  | .error e, .name "id" => return .word .word e.id
  | .error e, .name "message" => newText e.message
  | _, _ => refuse segments segment.mold

/-- Selects with every segment, never applying a function. -/
def get (segments : List Segment) : EvalM Value := do
  (segments.drop 1).foldlM (select segments) (← head segments)

/-- The container selected by all segments but the last, and the last. -/
def target (segments : List Segment) : EvalM (Value × Segment) :=
  match segments.getLast? with
  | none => refuse segments "none"
  | some last =>
    let front := segments.dropLast
    if front.isEmpty then refuse segments last.mold
    else do return (← (front.drop 1).foldlM (select segments) (← head segments), last)

def set (segments : List Segment) (value : Value) : EvalM Unit := do
  let (container, last) ← target segments
  match container, last with
  | .object id, .name name =>
    match ((← getHeap).frame id).find? name with
    | some index => assignField id index value
    | none => refuse segments last.mold
  | .block r, .index place => pokeItem r place value
  | _, _ => refuse segments last.mold

def field? (segments : List Segment) : EvalM (Option (FrameId × Nat)) := do
  match ← target segments with
  | (.object id, .name name) => return (((← getHeap).frame id).find? name).map (id, ·)
  | _ => return none

end Path

end BlockScript
