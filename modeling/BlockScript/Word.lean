import BlockScript.Kind
import BlockScript.Decimal.Digits

/-!
# Words and paths

A word is a name with a flavour; the flavour decides what evaluation does with it. A path is a list
of segments with a flavour of its own. A segment is a name or a number.
-/

namespace BlockScript

inductive WordKind where
  /-- Looked up; a function found is applied. -/
  | word
  /-- Assigns the next expression. -/
  | setWord
  /-- Fetched, never applied. -/
  | getWord
  /-- Evaluates to the plain word. -/
  | litWord
  /-- Names an optional part of a function. -/
  | refinement
deriving DecidableEq, Repr, Inhabited

inductive PathKind where
  | path | setPath | getPath | litPath
deriving DecidableEq, Repr, Inhabited

inductive Segment where
  | name (text : String)
  | index (n : Int64)
deriving DecidableEq, Repr, Inhabited

def WordKind.kind : WordKind → Kind
  | .word => .word
  | .setWord => .setWord
  | .getWord => .getWord
  | .litWord => .litWord
  | .refinement => .refinement

def PathKind.kind : PathKind → Kind
  | .path => .path
  | .setPath => .setPath
  | .getPath => .getPath
  | .litPath => .litPath

def WordKind.mold (kind : WordKind) (name : String) : String :=
  match kind with
  | .word => name
  | .setWord => name ++ ":"
  | .getWord => ":" ++ name
  | .litWord => "'" ++ name
  | .refinement => "/" ++ name

namespace Segment

def name? : Segment → Option String
  | name text => some text
  | index _ => none

def mold : Segment → String
  | name text => text
  | index n => Digits.intText n.toInt

end Segment

/-- A path with its decoration, segments joined by slashes. -/
def PathKind.mold (kind : PathKind) (segments : List Segment) : String :=
  let body := "/".intercalate (segments.map Segment.mold)
  match kind with
  | .path => body
  | .setPath => body ++ ":"
  | .getPath => ":" ++ body
  | .litPath => "'" ++ body

end BlockScript
