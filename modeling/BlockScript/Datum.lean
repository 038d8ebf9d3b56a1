import BlockScript.Word

/-!
# Data

A datum is one item of a source text: a literal, a word, a path, or a block or paren with the data
inside it. Data are finite trees; only evaluation makes sharing and cycles.
-/

namespace BlockScript

inductive Datum where
  | integer (n : Int64)
  | decimal (x : Float)
  | text (content : String)
  | block (items : List Datum)
  | paren (items : List Datum)
  | word (kind : WordKind) (name : String)
  | path (kind : PathKind) (segments : List Segment)
deriving Repr, Inhabited

namespace Datum

def kind : Datum → Kind
  | integer _ => .integer
  | decimal _ => .decimal
  | text _ => .string
  | block _ => .block
  | paren _ => .paren
  | word kind _ => kind.kind
  | path kind _ => kind.kind

mutual

/-- The names in a datum, in source order. -/
def symbols : Datum → List String
  | block items => symbolsOf items
  | paren items => symbolsOf items
  | word _ name => [name]
  | path _ segments => segments.filterMap Segment.name?
  | integer _ => []
  | decimal _ => []
  | text _ => []

def symbolsOf : List Datum → List String
  | [] => []
  | item :: items => symbols item ++ symbolsOf items

end

end Datum

end BlockScript
