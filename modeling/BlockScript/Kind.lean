/-!
# Datatypes

The closed list of datatypes a value can have. A datatype is itself a value, written with its name.
-/

namespace BlockScript

inductive Kind where
  | unset | none | logic | integer | decimal | string | block | paren
  | word | setWord | getWord | litWord | refinement
  | path | setPath | getPath | litPath
  | object | function | error | datatype
deriving DecidableEq, Repr, Inhabited

namespace Kind

def all : List Kind :=
  [unset, none, logic, integer, decimal, string, block, paren, word, setWord, getWord, litWord,
    refinement, path, setPath, getPath, litPath, object, function, error, datatype]

def name : Kind → String
  | unset => "unset!"
  | none => "none!"
  | logic => "logic!"
  | integer => "integer!"
  | decimal => "decimal!"
  | string => "string!"
  | block => "block!"
  | paren => "paren!"
  | word => "word!"
  | setWord => "set-word!"
  | getWord => "get-word!"
  | litWord => "lit-word!"
  | refinement => "refinement!"
  | path => "path!"
  | setPath => "set-path!"
  | getPath => "get-path!"
  | litPath => "lit-path!"
  | object => "object!"
  | function => "function!"
  | error => "error!"
  | datatype => "datatype!"

def ofName? (name : String) : Option Kind := all.find? (·.name == name)

def index (k : Kind) : Nat := all.idxOf k

theorem mem_all (k : Kind) : k ∈ all := by cases k <;> simp [all]

theorem ofName?_name (k : Kind) : ofName? k.name = some k := by cases k <;> rfl

end Kind

end BlockScript
