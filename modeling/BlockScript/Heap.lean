import BlockScript.Datum
import BlockScript.Frame

/-!
# The heap

The containers that values refer to: block series, text series and frames, each with a number.
Containers are only ever added, and numbers are never used twice.
-/

namespace BlockScript

/-- The contents of a block, paren or string. -/
structure Series (α : Type) where
  data : α
  isProtected : Bool := false
deriving Inhabited

structure Heap where
  blocks : Array (Series (Array Value)) := #[]
  texts : Array (Series String) := #[]
  frames : Array Frame := #[]
  functions : Nat := 0
deriving Inhabited

inductive Container where
  | block (id : Nat)
  | text (id : TextId)
  | object (id : FrameId)
deriving DecidableEq, Repr

namespace Heap

/-! ## Block series -/

/-- All items of a series, whatever the position of a reference. -/
def items (h : Heap) (id : Nat) : Array Value := (h.blocks[id]?.map (·.data)).getD #[]

def isBlockProtected (h : Heap) (id : Nat) : Bool := (h.blocks[id]?.map (·.isProtected)).getD false

/-- The items from the position of a reference to the tail; none when it lies past the tail. -/
def tail (h : Heap) (r : BlockRef) : List Value := (h.items r.id).toList.drop r.index

def length (h : Heap) (r : BlockRef) : Nat := (h.items r.id).size - r.index

def item? (h : Heap) (r : BlockRef) (position : Nat) : Option Value := (h.items r.id)[position]?

def newBlock (h : Heap) (items : Array Value) : BlockRef × Heap :=
  (⟨h.blocks.size, 0⟩, { h with blocks := h.blocks.push { data := items } })

/-- Changes the items of a series, protected or not. -/
def editBlock (h : Heap) (id : Nat) (change : Array Value → Array Value) : Heap :=
  { h with blocks := h.blocks.modify id fun s => { s with data := change s.data } }

def protectBlock (h : Heap) (id : Nat) (on : Bool) : Heap :=
  { h with blocks := h.blocks.modify id ({ · with isProtected := on }) }

/-! ## Text series -/

def text (h : Heap) (id : TextId) : String := (h.texts[id]?.map (·.data)).getD ""

def isTextProtected (h : Heap) (id : TextId) : Bool := (h.texts[id]?.map (·.isProtected)).getD false

def newText (h : Heap) (content : String) : Value × Heap :=
  (.text h.texts.size, { h with texts := h.texts.push { data := content } })

/-- Changes a text, protected or not. -/
def editText (h : Heap) (id : TextId) (change : String → String) : Heap :=
  { h with texts := h.texts.modify id fun s => { s with data := change s.data } }

def protectText (h : Heap) (id : TextId) (on : Bool) : Heap :=
  { h with texts := h.texts.modify id ({ · with isProtected := on }) }

/-! ## Frames and functions -/

def frame (h : Heap) (id : FrameId) : Frame := h.frames.getD id {}

def newFrame (h : Heap) (frame : Frame) : FrameId × Heap :=
  (h.frames.size, { h with frames := h.frames.push frame })

def modifyFrame (h : Heap) (id : FrameId) (change : Frame → Frame) : Heap :=
  { h with frames := h.frames.modify id change }

/-- A function told apart from all that were made before. -/
def newFunction (h : Heap) (params : List Param) (body : BlockRef) : Function × Heap :=
  (.user h.functions params body, { h with functions := h.functions + 1 })

/-! ## Data -/

mutual

/-- Places a datum in the heap: every string, block and paren becomes a new container. -/
def load (h : Heap) : Datum → Value × Heap
  | .integer n => (.integer n, h)
  | .decimal x => (.decimal x, h)
  | .text content => h.newText content
  | .word kind name => (.word kind name, h)
  | .path kind segments => (.path kind segments, h)
  | .block items =>
    let (values, h) := h.loadItems items #[]
    let (ref, h) := h.newBlock values
    (.block ref, h)
  | .paren items =>
    let (values, h) := h.loadItems items #[]
    let (ref, h) := h.newBlock values
    (.paren ref, h)

/-- Places data in the heap, in order, after the values already placed. -/
def loadItems (h : Heap) : List Datum → Array Value → Array Value × Heap
  | [], placed => (placed, h)
  | item :: items, placed =>
    let (value, h) := h.load item
    h.loadItems items (placed.push value)

end

def loadBlock (h : Heap) (items : List Datum) : BlockRef × Heap :=
  let (values, h) := h.loadItems items #[]
  h.newBlock values

/-- Number of containers that a walk can descend into. -/
def containerCount (h : Heap) : Nat := h.blocks.size + h.frames.size

def itemCount (h : Heap) : Nat := h.blocks.foldl (fun n s => n + s.data.size) 0

end Heap

end BlockScript
