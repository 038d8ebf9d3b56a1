import BlockScript.Error
import BlockScript.Function
import BlockScript.Word

/-!
# Values

A value is a small cell. Blocks, parens, strings and objects live in the heap and a value only
refers to them, so two values can share one; everything else is the value itself.
-/

namespace BlockScript

abbrev TextId := Nat

abbrev FrameId := Nat

inductive Value where
  /-- The result of an empty block and of most side effects. -/
  | unset
  | none
  | logic (flag : Bool)
  | integer (n : Int64)
  | decimal (x : Float)
  | text (id : TextId)
  | block (ref : BlockRef)
  | paren (ref : BlockRef)
  | word (kind : WordKind) (name : String)
  | path (kind : PathKind) (segments : List Segment)
  | object (id : FrameId)
  | function (function : Function)
  | error (error : EvalError)
  | datatype (kind : Kind)
deriving Inhabited

namespace Value

def kind : Value → Kind
  | unset => .unset
  | none => .none
  | logic _ => .logic
  | integer _ => .integer
  | decimal _ => .decimal
  | text _ => .string
  | block _ => .block
  | paren _ => .paren
  | word kind _ => kind.kind
  | path kind _ => kind.kind
  | object _ => .object
  | function _ => .function
  | error _ => .error
  | datatype _ => .datatype

/-- In a condition only `none` and `false` count as false; unset counts as true. -/
def isTruthy : Value → Bool
  | none => false
  | logic false => false
  | _ => true

def isUnset : Value → Bool
  | unset => true
  | _ => false

def isNone : Value → Bool
  | none => true
  | _ => false

def wordName? : Value → Option String
  | word _ name => some name
  | _ => Option.none

/-- Whether a value is a plain or quoted word with a name. -/
def isWordNamed (name : String) : Value → Bool
  | word .word own => own == name
  | word .litWord own => own == name
  | _ => false

end Value

/-- The exits that loops, functions and the top level know by name. -/
inductive ReservedExit where
  | break | continue | return | exit | quit
deriving DecidableEq, Repr

namespace ReservedExit

def all : List ReservedExit := [.break, .continue, .return, .exit, .quit]

def name : ReservedExit → String
  | .break => "break"
  | .continue => "continue"
  | .return => "return"
  | .exit => "exit"
  | .quit => "quit"

end ReservedExit

/-- An exit on its way to the construct that claims it. Its name is a word, or `none`. -/
structure Thrown where
  name : Value
  payload : Value
deriving Inhabited

namespace Thrown

def reserved (own : ReservedExit) (payload : Value) : Thrown := ⟨.word .word own.name, payload⟩

def isNamed (t : Thrown) (own : ReservedExit) : Bool := t.name.isWordNamed own.name

def isUnnamed (t : Thrown) : Bool := t.name.isNone

def reserved? (t : Thrown) : Option ReservedExit := ReservedExit.all.find? t.isNamed

end Thrown

end BlockScript
