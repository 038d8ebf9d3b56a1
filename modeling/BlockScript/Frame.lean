import BlockScript.Value

/-!
# Frames

A frame is a list of named fields: of an object, of a running function's parameters, or of the
program's global words. A locked field refuses assignment, a hidden one is not found by name, and a
protected frame accepts no new field. Fields are only ever added, at the end.
-/

namespace BlockScript

structure Field where
  name : String
  value : Value
  locked : Bool := false
  hidden : Bool := false
deriving Inhabited

inductive WriteDenied where
  | lockedField (name : String)
  | guardedFrame
deriving DecidableEq, Repr

def WriteDenied.cause : WriteDenied → Cause
  | .lockedField name => .lockedWord name
  | .guardedFrame => .guarded

structure Frame where
  fields : Array Field := #[]
  isProtected : Bool := false
deriving Inhabited

namespace Frame

def ofFields (fields : List (String × Value)) : Frame :=
  { fields := (fields.map fun (name, value) => { name, value : Field }).toArray }

def size (f : Frame) : Nat := f.fields.size

def isEmpty (f : Frame) : Bool := f.fields.isEmpty

def find? (f : Frame) (name : String) : Option Nat :=
  f.fields.findIdx? fun field => field.name == name && !field.hidden

/-- The value at an index, hidden or not. -/
def value? (f : Frame) (index : Nat) : Option Value := f.fields[index]?.map (·.value)

def get? (f : Frame) (name : String) : Option Value := (f.find? name).bind f.value?

/-- The visible names and their values, in order of definition. -/
def visible (f : Frame) : List (String × Value) :=
  f.fields.toList.filterMap fun field =>
    if field.hidden then none else some (field.name, field.value)

def words (f : Frame) : List String := f.visible.map (·.1)

def modify (f : Frame) (index : Nat) (change : Field → Field) : Frame :=
  { f with fields := f.fields.modify index change }

/-- Why the field at an index cannot be assigned, if it cannot. -/
def denied? (f : Frame) (index : Nat) : Option WriteDenied :=
  match f.fields[index]? with
  | none => some .guardedFrame
  | some field => if field.locked then some (.lockedField field.name) else none

def put (f : Frame) (index : Nat) (value : Value) : Frame := f.modify index ({ · with value })

def push (f : Frame) (name : String) (value : Value) : Frame :=
  { f with fields := f.fields.push { name, value } }

/-- Replaces the value at an index, unless that field is locked. -/
def assign (f : Frame) (index : Nat) (value : Value) : Except WriteDenied Frame :=
  match f.denied? index with
  | some denied => .error denied
  | none => .ok (f.put index value)

/-- Assigns the visible field with a name, or adds one; also the index of that field. -/
def define (f : Frame) (name : String) (value : Value) : Except WriteDenied (Nat × Frame) :=
  match f.find? name with
  | some index => (f.assign index value).map (index, ·)
  | none => if f.isProtected then .error .guardedFrame else .ok (f.size, f.push name value)

end Frame

end BlockScript
