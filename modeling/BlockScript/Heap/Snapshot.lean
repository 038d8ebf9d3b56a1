import BlockScript.Heap.Mold

/-!
# Snapshots

A snapshot is a finite tree that pictures a value with everything that can be reached from it.
Containers are numbered from 1 in the order in which they are first met, depth first; a container
that is met again is only named by its number.
-/

namespace BlockScript

inductive Snapshot where
  /-- Unset and none. -/
  | bare (kind : Kind)
  /-- A value with a text: molded, or the name of a word. -/
  | leaf (kind : Kind) (text : String)
  | text (number : Nat) (isProtected : Bool) (content : String)
  /-- A block or paren: the position of this reference and all items of the series. -/
  | series (kind : Kind) (number : Nat) (isProtected : Bool) (position : Nat)
      (items : List Snapshot)
  | object (number : Nat) (isProtected : Bool)
      (fields : List (String × Bool × Bool × Snapshot))
  /-- A container pictured before, with the position of a block reference. -/
  | again (kind : Kind) (number : Nat) (position : Option Nat)
  | function (params : List Param) (isOperator : Bool) (body : Option Snapshot)
  | error (id message : String)
  | path (kind : Kind) (segments : List Snapshot)
deriving Inhabited

namespace Snapshot

def segment : Segment → Snapshot
  | .name word => .leaf .word word
  | .index n => .leaf .integer (Digits.intText n.toInt)

/-- The containers met so far, latest first; a container's number is its place from the end. -/
abbrev Numbering := List Container

def number? (seen : Numbering) (c : Container) : Option Nat :=
  (seen.idxOf? c).map (seen.length - ·)

/-- Pictures a value. The fuel bounds how much deeper the picture can get. -/
def ofValue (h : Heap) : Nat → Numbering → Value → Snapshot × Numbering
  | 0, seen, v => (.bare v.kind, seen)
  | fuel + 1, seen, v =>
    let several := fun (seen : Numbering) (values : List Value) =>
      let (pictures, seen) := values.foldl (fun (done, seen) value =>
        let (picture, seen) := ofValue h fuel seen value
        (picture :: done, seen)) ([], seen)
      (pictures.reverse, seen)
    let series := fun (kind : Kind) (r : BlockRef) =>
      let self := Container.block r.id
      match number? seen self with
      | some number => (.again kind number (some r.index), seen)
      | none =>
        let (items, seen') := several (self :: seen) (h.items r.id).toList
        (.series kind (seen.length + 1) (h.isBlockProtected r.id) r.index items, seen')
    match v with
    | .unset => (.bare .unset, seen)
    | .none => (.bare .none, seen)
    | .block r => series .block r
    | .paren r => series .paren r
    | .text id =>
      match number? seen (.text id) with
      | some number => (.again .string number none, seen)
      | none =>
        (.text (seen.length + 1) (h.isTextProtected id) (h.text id), .text id :: seen)
    | .object id =>
      match number? seen (.object id) with
      | some number => (.again .object number none, seen)
      | none =>
        let frame := h.frame id
        let fields := frame.fields.toList
        let (values, seen') := several (.object id :: seen) (fields.map (·.value))
        let picture := fun (field : Field) (value : Snapshot) =>
          (field.name, field.locked, field.hidden, value)
        (.object (seen.length + 1) frame.isProtected (List.zipWith picture fields values), seen')
    | .function f =>
      match f.body? with
      | none => (.function f.params f.isOperator none, seen)
      | some body =>
        let (picture, seen) := ofValue h fuel seen (.block body)
        (.function f.params f.isOperator (some picture), seen)
    | .word kind name => (.leaf kind.kind name, seen)
    | .path kind segments => (.path kind.kind (segments.map segment), seen)
    | .error e => (.error e.id e.message, seen)
    | scalar => (.leaf scalar.kind (h.moldLeaf scalar), seen)

end Snapshot

/-- Pictures of several values with one numbering. A function and its body make two levels of a
picture, so each container can add two. -/
def Heap.snapshots (h : Heap) (values : List Value) : List Snapshot :=
  let fuel := 2 * h.containerCount + 2
  (values.foldl (fun (done, seen) value =>
    let (picture, seen) := Snapshot.ofValue h fuel seen value
    (picture :: done, seen)) (([], []) : List Snapshot × Snapshot.Numbering)).1.reverse

end BlockScript
