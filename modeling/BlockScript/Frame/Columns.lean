import BlockScript.Frame

/-!
# Frames in two arrays

A frame that keeps the names and marks of its fields in one array, and their values in another.
The value of a field is read and written at the index where its name was found, which may be past
the end of the values: nothing but the way in which such frames are made rules that out.
-/

namespace BlockScript

/-- The name of a field and its marks. -/
structure Key where
  name : String
  locked : Bool := false
  hidden : Bool := false
deriving DecidableEq, Repr, Inhabited

structure Columns where
  keys : Array Key := #[]
  values : Array Value := #[]
  isProtected : Bool := false
deriving Inhabited

namespace Columns

/-- There is no value at an index that was to be read or written. -/
structure Missing where
  index : Nat
deriving DecidableEq, Repr, Inhabited

def push (c : Columns) (name : String) (value : Value) : Columns :=
  { c with keys := c.keys.push { name }, values := c.values.push value }

def ofFields (fields : List (String × Value)) : Columns :=
  fields.foldl (fun c (name, value) => c.push name value) {}

def size (c : Columns) : Nat := c.keys.size

def isEmpty (c : Columns) : Bool := c.keys.isEmpty

def find? (c : Columns) (name : String) : Option Nat :=
  c.keys.findIdx? fun key => key.name == name && !key.hidden

/-- The value at an index, hidden or not. -/
def value? (c : Columns) (index : Nat) : Option Value := c.values[index]?

def get? (c : Columns) (name : String) : Except Missing (Option Value) :=
  match c.find? name with
  | none => .ok none
  | some index =>
    match c.values[index]? with
    | some value => .ok (some value)
    | none => .error ⟨index⟩

/-- The visible names, in order of definition. -/
def words (c : Columns) : List String :=
  c.keys.toList.filterMap fun key => if key.hidden then none else some key.name

/-- The visible names and their values, as far as there is a value for each key. -/
def visible (c : Columns) : List (String × Value) :=
  (c.keys.toList.zip c.values.toList).filterMap fun (key, value) =>
    if key.hidden then none else some (key.name, value)

def put (c : Columns) (index : Nat) (value : Value) : Except Missing Columns :=
  if index < c.values.size then .ok { c with values := c.values.setIfInBounds index value }
  else .error ⟨index⟩

/-- Replaces the value at an index, unless that field is locked. -/
def assign (c : Columns) (index : Nat) (value : Value) :
    Except Missing (Except WriteDenied Columns) :=
  match c.keys[index]? with
  | none => .ok (.error .guardedFrame)
  | some key =>
    if key.locked then .ok (.error (.lockedField key.name)) else (c.put index value).map .ok

/-- Assigns the visible field with a name, or adds one; also the index of that field. -/
def define (c : Columns) (name : String) (value : Value) :
    Except Missing (Except WriteDenied (Nat × Columns)) :=
  match c.find? name with
  | some index => (c.assign index value).map (·.map (index, ·))
  | none =>
    if c.isProtected then .ok (.error .guardedFrame) else .ok (.ok (c.size, c.push name value))

def modify (c : Columns) (index : Nat) (change : Key → Key) : Columns :=
  { c with keys := c.keys.modify index change }

/-- Changes every key, and whether the frame accepts new fields. -/
def modifyAll (c : Columns) (change : Key → Key) (isProtected : Bool) : Columns :=
  { c with keys := c.keys.map change, isProtected }

end Columns

/-- The name and the marks of a field, without its value. -/
def Field.key (field : Field) : Key :=
  { name := field.name, locked := field.locked, hidden := field.hidden }

/-- The two arrays that hold the fields of a frame. -/
def Frame.columns (f : Frame) : Columns :=
  { keys := f.fields.map Field.key, values := f.fields.map (·.value), isProtected := f.isProtected }

/-- The fields of two arrays, as far as there is a value for each key. -/
def Columns.frame (c : Columns) : Frame where
  fields := c.keys.zipWith (fun key value =>
    { name := key.name, value, locked := key.locked, hidden := key.hidden }) c.values
  isProtected := c.isProtected

end BlockScript
