import BlockScript.Datum.Run
import BlockScript.Decimal.Nearest
import BlockScript.Evaluator

/-!
# Operators

Arithmetic is exact on integers and raises an overflow where the result does not fit; a division
that leaves a remainder, and any operation with a decimal, is decimal. Numbers are ordered with
numbers and strings with strings, the latter by their lower case.
-/

namespace BlockScript.Operators

/-- An integer result, which must fit in 64 bits. -/
def ofInt (n : Int) : Except Cause Value :=
  match Datum.fitInteger? n with
  | some n => .ok (.integer n)
  | none => .error .overflow

/-- A decimal result, which must be finite. -/
def ofFloat (x : Float) : Except Cause Value :=
  if x.isFinite then .ok (.decimal x) else .error .overflow

inductive Arithmetic where
  | add | subtract | multiply | divide
deriving DecidableEq, Repr

def Arithmetic.operator : Arithmetic → Operator
  | .add => .add
  | .subtract => .subtract
  | .multiply => .multiply
  | .divide => .divide

/-- A division without a remainder is an integer, any other a decimal. -/
def divideIntegers (a b : Int64) : Except Cause Value :=
  if b.toInt = 0 then .error .zeroDivide
  else if a.toInt.tmod b.toInt = 0 then ofInt (a.toInt.tdiv b.toInt)
  else .ok (.decimal (Decimal.nearest a / Decimal.nearest b))

def onIntegers (a b : Int64) : Arithmetic → Except Cause Value
  | .add => ofInt (a.toInt + b.toInt)
  | .subtract => ofInt (a.toInt - b.toInt)
  | .multiply => ofInt (a.toInt * b.toInt)
  | .divide => divideIntegers a b

def onDecimals (a b : Float) : Arithmetic → Except Cause Value
  | .add => ofFloat (a + b)
  | .subtract => ofFloat (a - b)
  | .multiply => ofFloat (a * b)
  | .divide => if b == 0.0 then .error .zeroDivide else ofFloat (a / b)

/-- Arithmetic on two numbers. When an operand is no number, the left one is to blame if it is
none. -/
def compute (op : Arithmetic) (a b : Value) : Except Cause Value :=
  match a, b with
  | .integer a, .integer b => onIntegers a b op
  | .integer a, .decimal b => onDecimals (Decimal.nearest a) b op
  | .decimal a, .integer b => onDecimals a (Decimal.nearest b) op
  | .decimal a, .decimal b => onDecimals a b op
  | .integer _, b => .error (.cannotUse op.operator.symbol b.kind.name)
  | .decimal _, b => .error (.cannotUse op.operator.symbol b.kind.name)
  | a, _ => .error (.cannotUse op.operator.symbol a.kind.name)

def compareFloats (a b : Float) : Option Ordering :=
  if a < b then some .lt else if a == b then some .eq else if b < a then some .gt else none

def order? (h : Heap) (a b : Value) : Option Ordering :=
  match a, b with
  | .integer a, .integer b => some (compare a.toInt b.toInt)
  | .integer a, .decimal b => compareFloats (Decimal.nearest a) b
  | .decimal a, .integer b => compareFloats a (Decimal.nearest b)
  | .decimal a, .decimal b => compareFloats a b
  | .text a, .text b => some (compare (Text.lower (h.text a)) (Text.lower (h.text b)))
  | _, _ => none

/-- A comparison that holds for some of the three orders. -/
def holds (h : Heap) (op : Operator) (accepts : Ordering → Bool) (a b : Value) :
    Except Cause Value :=
  match order? h a b with
  | some order => .ok (.logic (accepts order))
  | none => .error (.cannotUse op.symbol b.kind.name)

def apply (h : Heap) (a b : Value) : Operator → Except Cause Value
  | .add => compute .add a b
  | .subtract => compute .subtract a b
  | .multiply => compute .multiply a b
  | .divide => compute .divide a b
  | .equal => .ok (.logic (h.equal a b))
  | .strictEqual => .ok (.logic (h.strictEqual a b))
  | .notEqual => .ok (.logic (!h.equal a b))
  | .less => holds h .less (·.isLT) a b
  | .greater => holds h .greater (·.isGT) a b
  | .lessEqual => holds h .lessEqual (·.isLE) a b
  | .greaterEqual => holds h .greaterEqual (·.isGE) a b

def run (op : Operator) (args : Args) : EvalM Value := do
  match apply (← getHeap) (args.value 0) (args.value 1) op with
  | .ok value => return value
  | .error cause => raise cause

def negation (args : Args) : EvalM Value := return .logic (!(args.value 0).isTruthy)

end BlockScript.Operators
