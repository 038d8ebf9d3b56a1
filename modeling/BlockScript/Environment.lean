import BlockScript.Heap

/-!
# Environments

Words are bound dynamically: a stack of frames is searched from the innermost scope outwards, and
the root frame, which is never popped, comes last. Assigning a word that is bound nowhere defines it
in the root.
-/

namespace BlockScript

structure Environment where
  root : FrameId
  /-- The scopes above the root, innermost first. -/
  inner : List FrameId := []
deriving DecidableEq, Repr, Inhabited

inductive Slot where
  | field (id : FrameId) (index : Nat)
  | newInRoot
deriving DecidableEq, Repr

namespace Environment

/-- All scopes, innermost first. -/
def scopes (env : Environment) : List FrameId := env.inner ++ [env.root]

/-- Number of scopes, the root included. -/
def depth (env : Environment) : Nat := env.inner.length + 1

def push (env : Environment) (frame : FrameId) : Environment :=
  { env with inner := frame :: env.inner }

/-- Removes the innermost scope; the root stays. -/
def pop (env : Environment) : Environment := { env with inner := env.inner.tail }

/-- Removes the scopes above a depth; the root stays. -/
def truncate (env : Environment) (depth : Nat) : Environment :=
  { env with inner := env.inner.drop (env.depth - max depth 1) }

def resolve (env : Environment) (h : Heap) (name : String) : Option (FrameId × Nat) :=
  let bound := fun (id : FrameId) => ((h.frame id).find? name).map (id, ·)
  (env.inner.findSome? bound).or (bound env.root)

/-- The value of the innermost visible field with a name. -/
def lookup (env : Environment) (h : Heap) (name : String) : Option Value :=
  let held := fun (id : FrameId) => (h.frame id).get? name
  (env.inner.findSome? held).or (held env.root)

/-- Where an assignment to a name goes, or why it is refused. -/
def slot (env : Environment) (h : Heap) (name : String) : Except WriteDenied Slot :=
  match env.resolve h name with
  | some (id, index) =>
    match (h.frame id).denied? index with
    | some denied => .error denied
    | none => .ok (.field id index)
  | none => if (h.frame env.root).isProtected then .error .guardedFrame else .ok .newInRoot

def write (env : Environment) (h : Heap) (name : String) (value : Value) : Slot → Heap
  | .field id index => h.modifyFrame id (·.put index value)
  | .newInRoot => h.modifyFrame env.root (·.push name value)

/-- Assigns through the binding of a name, or adds it to the root. -/
def assign (env : Environment) (h : Heap) (name : String) (value : Value) :
    Except WriteDenied Heap :=
  (env.slot h name).map (env.write h name value)

end Environment

end BlockScript
