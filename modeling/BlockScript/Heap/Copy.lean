import BlockScript.Heap

/-!
# Copies

A shallow copy is a new container with the same items. A deep copy also copies the blocks and parens
inside, each of them once: a series that was met before is not copied again, so a cyclic block
copies to a cyclic block. The position of the first reference that meets a series decides which of
its items are copied.
-/

namespace BlockScript

namespace Heap

/-- A new container with the items from the position on, the same text, or the visible fields. -/
def shallowCopy (h : Heap) : Value → Value × Heap
  | .block r =>
    let (ref, h) := h.newBlock (h.tail r).toArray
    (.block ref, h)
  | .paren r =>
    let (ref, h) := h.newBlock (h.tail r).toArray
    (.paren ref, h)
  | .text id => h.newText (h.text id)
  | .object id =>
    let (copy, h) := h.newFrame (.ofFields (h.frame id).visible)
    (.object copy, h)
  | v => (v, h)

/-- A deep copy under way: the heap, and the copy of each series met so far. -/
structure Copying where
  heap : Heap
  copies : List (Nat × BlockRef) := []

def Copying.allot (c : Copying) (id : Nat) : BlockRef × Copying :=
  let (copy, heap) := c.heap.newBlock #[]
  (copy, { heap, copies := (id, copy) :: c.copies })

def Copying.fill (c : Copying) (copy : BlockRef) (items : Array Value) : Copying :=
  { c with heap := c.heap.editBlock copy.id fun _ => items }

/-- Copies a value. The fuel bounds how many more series can be entered on the way down. -/
def copyDeep : Nat → Copying → Value → Value × Copying
  | 0, c, v => (v, c)
  | fuel + 1, c, v =>
    let series := fun (r : BlockRef) =>
      match c.copies.lookup r.id with
      | some copy => (copy, c)
      | none =>
        let items := c.heap.tail r
        let (copy, c) := c.allot r.id
        let copyItem := fun (state : Array Value × Copying) (item : Value) =>
          let (value, c) := copyDeep fuel state.2 item
          (state.1.push value, c)
        let (values, c) := items.foldl copyItem (#[], c)
        (copy, c.fill copy values)
    match v with
    | .block r =>
      let (copy, c) := series r
      (.block copy, c)
    | .paren r =>
      let (copy, c) := series r
      (.paren copy, c)
    | leaf =>
      let (copy, heap) := c.heap.shallowCopy leaf
      (copy, { c with heap })

def deepCopy (h : Heap) (v : Value) : Value × Heap :=
  let (copy, c) := copyDeep (h.blocks.size + 1) { heap := h } v
  (copy, c.heap)

end Heap

end BlockScript
