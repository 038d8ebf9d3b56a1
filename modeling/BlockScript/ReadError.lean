import BlockScript.Span

/-!
# Read errors

Why a source text could not be read, and which bytes of it are to blame.
-/

namespace BlockScript

namespace ReadError

inductive Cause where
  /-- The source ends inside a block or paren; the closer that is missing. -/
  | unclosedDelimiter (close : Char)
  /-- A closer that does not match the innermost opener. -/
  | unexpectedDelimiter (found : Char)
  | unterminatedString
  | invalidNumber (text : String)
  | malformedPath (text : String)
  | invalidWord (text : String)
deriving DecidableEq, Repr, Inhabited

namespace Cause

def id : Cause → String
  | unclosedDelimiter _ => "unclosed-delimiter"
  | unexpectedDelimiter _ => "unexpected-delimiter"
  | unterminatedString => "unterminated-string"
  | invalidNumber _ => "invalid-number"
  | malformedPath _ => "malformed-path"
  | invalidWord _ => "invalid-word"

def message : Cause → String
  | unclosedDelimiter close => s!"missing closing `{close}`"
  | unexpectedDelimiter found => s!"unexpected `{found}`"
  | unterminatedString => "unterminated string"
  | invalidNumber text => s!"invalid number: {text}"
  | malformedPath text => s!"malformed path: {text}"
  | invalidWord text => s!"invalid word: {text}"

end Cause

end ReadError

structure ReadError where
  cause : ReadError.Cause
  span : Span
deriving DecidableEq, Repr, Inhabited

namespace ReadError

def id (e : ReadError) : String := e.cause.id

def message (e : ReadError) : String := e.cause.message

end ReadError

end BlockScript
