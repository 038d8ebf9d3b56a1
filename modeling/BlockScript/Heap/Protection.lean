import BlockScript.Heap

/-!
# Protection walks

A walk protects or unprotects the container of a value; a deep walk goes on into everything that can
be reached from it. Blocks are entered from the position of the reference that reached them, objects
at all their fields, hidden ones included. Each container is entered at most once, so a walk ends on
cyclic graphs.
-/

namespace BlockScript

/-- What a walk changes. -/
structure ProtectFlags where
  set : Bool := false
  deep : Bool := false
  /-- Hide fields. There is no way back. -/
  hide : Bool := false
  word : Bool := false
deriving DecidableEq, Repr, Inhabited

/-- A walk under way: the heap as changed so far and the containers already entered. -/
structure ProtectWalk where
  flags : ProtectFlags
  heap : Heap
  visited : List Container := []

namespace ProtectWalk

def markField (flags : ProtectFlags) (field : Field) : Field :=
  { field with
    locked := if flags.word then flags.set else field.locked
    hidden := field.hidden || (flags.hide && flags.set) }

def protectBlock (w : ProtectWalk) (id : Nat) : ProtectWalk :=
  { w with heap := w.heap.protectBlock id w.flags.set }

def protectText (w : ProtectWalk) (id : TextId) : ProtectWalk :=
  { w with heap := w.heap.protectText id w.flags.set }

def protectFrame (w : ProtectWalk) (id : FrameId) : ProtectWalk :=
  let mark := fun (f : Frame) =>
    { f with fields := f.fields.map (markField w.flags), isProtected := w.flags.set }
  { w with heap := w.heap.modifyFrame id mark }

def enter (w : ProtectWalk) (c : Container) : ProtectWalk :=
  { w with visited := c :: w.visited }

/-- Walks a value. The fuel bounds how many more containers can be entered on the way down. -/
def walk : Nat → ProtectWalk → Value → ProtectWalk
  | 0, w, _ => w
  | fuel + 1, w, v =>
    let series := fun (r : BlockRef) =>
      let self := Container.block r.id
      if self ∈ w.visited then w
      else
        let w := w.protectBlock r.id
        if w.flags.deep then (w.heap.tail r).foldl (walk fuel) (w.enter self) else w
    match v with
    | .block r => series r
    | .paren r => series r
    | .text id => w.protectText id
    | .object id =>
      let self := Container.object id
      if self ∈ w.visited then w
      else
        let w := w.protectFrame id
        if w.flags.deep then
          ((w.heap.frame id).fields.toList.map (·.value)).foldl (walk fuel) (w.enter self)
        else w
    | _ => w

def protectValue (w : ProtectWalk) (v : Value) : ProtectWalk :=
  walk (w.heap.containerCount + 1) w v

/-- Marks one field of a frame; a deep walk goes on into its value. -/
def protectField (w : ProtectWalk) (id : FrameId) (index : Nat) : ProtectWalk :=
  let marked :=
    { w with heap := w.heap.modifyFrame id (·.modify index (markField w.flags)) }
  match (w.heap.frame id).value? index with
  | some v => if w.flags.deep then marked.protectValue v else marked
  | none => marked

def visitedCount (w : ProtectWalk) : Nat := w.visited.length

end ProtectWalk

end BlockScript
