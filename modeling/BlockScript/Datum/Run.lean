import BlockScript.Datum
import BlockScript.ReadError
import BlockScript.Decimal.Text

/-!
# Runs

A run is a maximal piece of source text without blanks, delimiters and quotes. It is a number when
it starts like one. Otherwise a mark in front (`'` or `:`) or a colon behind gives it a flavour, and
what remains is a word, a refinement or, with slashes inside, a path.
-/

namespace BlockScript.Datum

/-- What the marks around a word or path say about it. -/
inductive Flavour where
  | plain | set | get | lit
deriving DecidableEq, Repr

def Flavour.wordKind : Flavour → WordKind
  | .plain => .word
  | .set => .setWord
  | .get => .getWord
  | .lit => .litWord

def Flavour.pathKind : Flavour → PathKind
  | .plain => .path
  | .set => .setPath
  | .get => .getPath
  | .lit => .litPath

/-- Takes the marks off a run. A mark in front hides a colon behind. -/
def splitFlavour : List Char → Flavour × List Char
  | '\'' :: body => (.lit, body)
  | ':' :: body => (.get, body)
  | run => if run.getLast? = some ':' then (.set, run.dropLast) else (.plain, run)

/-- Whether a run starts like a number: a digit, a sign or point before a digit, or a sign and a
point before a digit. -/
def looksNumeric : List Char → Bool
  | [] => false
  | a :: rest =>
    Digits.isDigit a ||
      match rest with
      | [] => false
      | b :: rest =>
        ((a == '+' || a == '-' || a == '.') && Digits.isDigit b) ||
          ((a == '+' || a == '-') && b == '.' && (rest.head?.map Digits.isDigit).getD false)

def fitInteger? (n : Int) : Option Int64 :=
  if Int64.minValue.toInt ≤ n ∧ n ≤ Int64.maxValue.toInt then some (Int64.ofInt n) else none

/-- An optional sign and at least one digit, within 64 bits. -/
def readInteger? (cs : List Char) : Option Int64 :=
  let (negative, digits) := Decimal.splitSign cs
  if digits.isEmpty || !digits.all Digits.isDigit then none
  else fitInteger? (if negative then -(Digits.value digits : Int) else Digits.value digits)

/-- A run read as a number: an integer, or a decimal if a point or exponent mark occurs in it. -/
def readNumber? (run : List Char) : Option Datum :=
  match readInteger? run with
  | some n => some (integer n)
  | none =>
    if run.any fun c => c == '.' || c == 'e' || c == 'E' then (Decimal.read? run).map decimal
    else none

/-- A name holds none of the marks and does not start with a digit. -/
def isName (body : List Char) : Bool :=
  !body.isEmpty && !(body.any fun c => c == ':' || c == '\'' || c == '/') &&
    !((body.head?.map Digits.isDigit).getD false)

/-- A segment of a path: an integer, unless it is the head, or a name. -/
def readSegment? (head : Bool) (body : List Char) : Option Segment :=
  if looksNumeric body then if head then none else (readInteger? body).map Segment.index
  else if isName body then some (.name (String.ofList body))
  else none

def readSegments? (body : List Char) : Option (List Segment) :=
  match body.splitOn '/' with
  | [] => none
  | head :: rest =>
    (readSegment? true head).bind fun first =>
      (rest.mapM (readSegment? false)).map (first :: ·)

def readWord (kind : WordKind) (body : List Char) : Except ReadError.Cause Datum :=
  if isName body then .ok (word kind (String.ofList body))
  else .error (.invalidWord (String.ofList body))

/-- The datum that a run stands for. A single or double slash is a word, and a slash in front of
a plain run makes it a refinement. -/
def ofRun (run : List Char) : Except ReadError.Cause Datum :=
  if looksNumeric run then
    match readNumber? run with
    | some number => .ok number
    | none => .error (.invalidNumber (String.ofList run))
  else
    let (flavour, body) := splitFlavour run
    if flavour = .plain ∧ body.head? = some '/' then
      if body = ['/'] ∨ body = ['/', '/'] then .ok (word .word (String.ofList body))
      else readWord .refinement body.tail
    else if body.contains '/' && body != ['/'] && body != ['/', '/'] then
      match readSegments? body with
      | some segments => .ok (path flavour.pathKind segments)
      | none => .error (.malformedPath (String.ofList run))
    else readWord flavour.wordKind body

end BlockScript.Datum
