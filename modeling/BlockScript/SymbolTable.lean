/-!
# Symbol tables

A symbol table numbers distinct texts in the order in which they are first met. Every table starts
with the same reserved texts, so their numbers are the same in all tables; the empty text is 0.
-/

namespace BlockScript

def reservedSymbols : Array String :=
  #["", "break", "continue", "return", "exit", "quit", "none", "true", "false", "on", "off", "yes",
    "no", "id", "message"]

structure SymbolTable where
  texts : Array String := reservedSymbols
deriving DecidableEq, Repr, Inhabited

namespace SymbolTable

def initial : SymbolTable := {}

def find? (t : SymbolTable) (text : String) : Option Nat := t.texts.idxOf? text

/-- The text with a number; the empty text for a number that was never handed out. -/
def lookup (t : SymbolTable) (index : Nat) : String := t.texts.getD index ""

def size (t : SymbolTable) : Nat := t.texts.size

def isEmpty (t : SymbolTable) : Bool := t.size == 0

/-- The number of a text, which is added at the end when it is new. -/
def intern (t : SymbolTable) (text : String) : Nat × SymbolTable :=
  match t.find? text with
  | some index => (index, t)
  | none => (t.size, ⟨t.texts.push text⟩)

def internAll (t : SymbolTable) (texts : List String) : SymbolTable :=
  texts.foldl (fun t text => (t.intern text).2) t

end SymbolTable

end BlockScript
