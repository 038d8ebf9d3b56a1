import BlockScript.SymbolTable

/-!
# Symbol tables with an index

A symbol table that finds a text without a search: it keeps the number of each text beside the
texts. Numbers have 32 bits, so such a table can become full.
-/

namespace BlockScript

structure IndexedSymbols where
  texts : Array String := #[]
  /-- Each text with its number, latest first. -/
  numbers : List (String × Nat) := []
deriving DecidableEq, Repr, Inhabited

namespace IndexedSymbols

/-- How many texts can have a number. -/
def capacity : Nat := UInt32.size

/-- There is no number left for a new text. -/
structure Full where
  count : Nat
deriving DecidableEq, Repr, Inhabited

def Full.message (full : Full) : String :=
  s!"interner exceeded capacity: {full.count} strings, max is {capacity - 1}"

/-- Gives a text the next number. -/
def add (t : IndexedSymbols) (text : String) : IndexedSymbols :=
  { texts := t.texts.push text, numbers := (text, t.texts.size) :: t.numbers }

def initial : IndexedSymbols := reservedSymbols.foldl add {}

def find? (t : IndexedSymbols) (text : String) : Option Nat := t.numbers.lookup text

/-- The text with a number; the empty text for a number that was never handed out. -/
def lookup (t : IndexedSymbols) (number : Nat) : String := t.texts.getD number ""

def size (t : IndexedSymbols) : Nat := t.texts.size

def isEmpty (t : IndexedSymbols) : Bool := t.size == 0

/-- The number of a text, which is added when it is new. -/
def intern (t : IndexedSymbols) (text : String) : Except Full (Nat × IndexedSymbols) :=
  match t.find? text with
  | some number => .ok (number, t)
  | none => if t.size < capacity then .ok (t.size, t.add text) else .error ⟨t.size⟩

end IndexedSymbols

end BlockScript
