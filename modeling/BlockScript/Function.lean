import BlockScript.Native

/-!
# Functions

A function is a native, or a parameter list with a block of code. Parameters before the first
refinement are filled at every call; those after a refinement belong to it and are filled when it is
named in the call.
-/

namespace BlockScript

/-- A block or paren as a value holds it: a series and a position in it. Several references may
share one series, and a position may lie past the end of its series. -/
structure BlockRef where
  id : Nat
  index : Nat := 0
deriving DecidableEq, Repr, Inhabited

inductive Function where
  | native (native : Native)
  /-- Made by a program; the number tells it from all others. -/
  | user (id : Nat) (params : List Param) (body : BlockRef)
deriving DecidableEq, Repr

/-- How many values a function takes when it handles a caught exit or a trapped error. -/
inductive HandlerShape where
  | nullary
  | unary
  | binary
deriving DecidableEq, Repr

namespace Function

def params : Function → List Param
  | native n => n.params
  | user _ params _ => params

def isOperator : Function → Bool
  | native n => n.isOperator
  | user _ _ _ => false

def body? : Function → Option BlockRef
  | native _ => none
  | user _ _ body => some body

def isSame : Function → Function → Bool
  | native a, native b => a == b
  | user a _ _, user b _ _ => a == b
  | _, _ => false

/-- Number of parameters, refinements included. -/
def arity (f : Function) : Nat := f.params.length

def isRefinementAt (f : Function) (position : Nat) : Bool :=
  (f.params[position]?.map (·.kind == .refinement)).getD false

def fixedArity (f : Function) : Nat := (f.params.takeWhile (·.kind != .refinement)).length

def refinement? (f : Function) (name : String) : Option Nat :=
  f.params.findIdx? fun p => p.kind == .refinement && p.name == name

/-- The parameters that belong to the refinement at a position, with their positions. -/
def refinementParams (f : Function) (position : Nat) : List (Nat × Param) :=
  ((f.params.drop (position + 1)).takeWhile (·.kind != .refinement)).zipIdx (position + 1)
    |>.map fun (p, slot) => (slot, p)

def fixedParams (f : Function) : List (Nat × Param) :=
  (f.params.takeWhile (·.kind != .refinement)).zipIdx.map fun (p, slot) => (slot, p)

/-- A refinement is never filled by a handler's caller, so the parameters that count are those
before it. -/
def handlerShape (f : Function) : HandlerShape :=
  if f.arity = 0 ∨ f.isRefinementAt 0 then .nullary
  else if f.arity = 1 ∨ f.isRefinementAt 1 then .unary
  else .binary

end Function

end BlockScript
