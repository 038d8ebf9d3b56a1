import BlockScript.Decimal.Text
import BlockScript.Heap
import BlockScript.Text.Quoted

/-!
# Mold and form

Two ways to write a value as text. Molding writes what the reader would read; forming drops the
quotes of strings and the brackets of blocks. A container that is met again inside itself is written
as `...`, so rendering ends on cyclic graphs too, while a container that is merely shared is written
in full wherever it occurs.
-/

namespace BlockScript

inductive Style where
  | mold | form
deriving DecidableEq, Repr

namespace Heap

def moldLeaf (h : Heap) : Value → String
  | .unset => "#[unset]"
  | .none => "none"
  | .logic flag => if flag then "true" else "false"
  | .integer n => Digits.intText n.toInt
  | .decimal x => Decimal.text x
  | .text id => Text.quote (h.text id)
  | .word kind name => kind.mold name
  | .path kind segments => kind.mold segments
  | .function f => "make function! [" ++ " ".intercalate (f.params.map (·.name)) ++ "]"
  | .error e => s!"make error! [id: {e.id} message: " ++ Text.quote e.message ++ "]"
  | .datatype kind => kind.name
  | .block _ => ""
  | .paren _ => ""
  | .object _ => ""

/-- A value that contains no others, formed: words lose their decoration, strings their quotes,
errors show their message and unset nothing. -/
def formLeaf (h : Heap) : Value → String
  | .unset => ""
  | .text id => h.text id
  | .word _ name => name
  | .error e => e.message
  | v => h.moldLeaf v

/-- Renders a value inside the containers of `path`. The fuel bounds how many more containers can
be entered. -/
def render (h : Heap) : Nat → Style → List Container → Value → String
  | 0, _, _, _ => ""
  | fuel + 1, style, path, v =>
    let items := fun (style : Style) (r : BlockRef) =>
      let self := Container.block r.id
      if self ∈ path then "..."
      else " ".intercalate ((h.tail r).map (h.render fuel style (self :: path)))
    match v with
    | .block r =>
      match style with
      | .mold => "[" ++ items .mold r ++ "]"
      | .form => items .form r
    | .paren r => "(" ++ items .mold r ++ ")"
    | .object id =>
      let self := Container.object id
      if self ∈ path then "make object! [...]"
      else
        let field := fun (entry : String × Value) =>
          entry.1 ++ ": " ++ h.render fuel .mold (self :: path) entry.2
        "make object! [" ++ " ".intercalate ((h.frame id).visible.map field) ++ "]"
    | leaf =>
      match style with
      | .mold => h.moldLeaf leaf
      | .form => h.formLeaf leaf

/-- Every container is entered at most once on a path, and a leaf may end it. -/
def renderFuel (h : Heap) : Nat := h.containerCount + 1

def mold (h : Heap) (v : Value) : String := h.render h.renderFuel .mold [] v

def form (h : Heap) (v : Value) : String := h.render h.renderFuel .form [] v

end Heap

end BlockScript
