/-!
# Natives

The functions that exist before any program runs: their names and parameter lists. What each of them
does is in the modules of the folder of the same name.
-/

namespace BlockScript

/-- How a parameter receives its argument. -/
inductive ParamKind where
  /-- The value of the next expression. -/
  | normal
  /-- The next item as it stands. -/
  | literal
  /-- The next item, or the value of the word that it is. -/
  | get
  /-- True when the refinement was named in the call. -/
  | refinement
deriving DecidableEq, Repr, Inhabited

structure Param where
  name : String
  kind : ParamKind := .normal
deriving DecidableEq, Repr, Inhabited

/-- The functions written between their two arguments. -/
inductive Operator where
  | add | subtract | multiply | divide
  | equal | strictEqual | notEqual | less | greater | lessEqual | greaterEqual
deriving DecidableEq, Repr

namespace Operator

def all : List Operator :=
  [add, subtract, multiply, divide, equal, strictEqual, notEqual, less, greater, lessEqual,
    greaterEqual]

def symbol : Operator → String
  | add => "+"
  | subtract => "-"
  | multiply => "*"
  | divide => "/"
  | equal => "="
  | strictEqual => "=="
  | notEqual => "<>"
  | less => "<"
  | greater => ">"
  | lessEqual => "<="
  | greaterEqual => ">="

end Operator

inductive Native where
  -- exits
  | breakLoop | continueLoop | returnValue | exitFunction | quit | throwValue | catchThrown
  -- raising and recovering
  | trap | attempt | fail
  -- protection
  | protect | unprotect
  -- conditionals
  | allOf | anyOf | caseOf | switchOn | ifTrue | either | ifFalse
  -- loops
  | loopTimes | whileTrue | forever
  -- evaluation
  | doValue | reduce | also | comment | func | does | object | context
  -- series and objects
  | append | insert | poke | clear | first | pick | lengthOf | copy | wordsOf
  -- operators
  | operator (op : Operator) | negation
  -- words, text and types
  | set | get | hasValue | form | mold | print | typeOf | isNone | isUnset | isError
deriving DecidableEq, Repr

namespace Native

def all : List Native :=
  [breakLoop, continueLoop, returnValue, exitFunction, quit, throwValue, catchThrown,
    trap, attempt, fail, protect, unprotect,
    allOf, anyOf, caseOf, switchOn, ifTrue, either, ifFalse,
    loopTimes, whileTrue, forever,
    doValue, reduce, also, comment, func, does, object, context,
    append, insert, poke, clear, first, pick, lengthOf, copy, wordsOf] ++
  Operator.all.map operator ++
  [negation, set, get, hasValue, form, mold, print, typeOf, isNone, isUnset, isError]

def name : Native → String
  | breakLoop => "break"
  | continueLoop => "continue"
  | returnValue => "return"
  | exitFunction => "exit"
  | quit => "quit"
  | throwValue => "throw"
  | catchThrown => "catch"
  | trap => "trap"
  | attempt => "attempt"
  | fail => "fail"
  | protect => "protect"
  | unprotect => "unprotect"
  | allOf => "all"
  | anyOf => "any"
  | caseOf => "case"
  | switchOn => "switch"
  | ifTrue => "if"
  | either => "either"
  | ifFalse => "unless"
  | loopTimes => "loop"
  | whileTrue => "while"
  | forever => "forever"
  | doValue => "do"
  | reduce => "reduce"
  | also => "also"
  | comment => "comment"
  | func => "func"
  | does => "does"
  | object => "object"
  | context => "context"
  | append => "append"
  | insert => "insert"
  | poke => "poke"
  | clear => "clear"
  | first => "first"
  | pick => "pick"
  | lengthOf => "length?"
  | copy => "copy"
  | wordsOf => "words-of"
  | operator op => op.symbol
  | negation => "not"
  | set => "set"
  | get => "get"
  | hasValue => "value?"
  | form => "form"
  | mold => "mold"
  | print => "print"
  | typeOf => "type?"
  | isNone => "none?"
  | isUnset => "unset?"
  | isError => "error?"

def isOperator : Native → Bool
  | operator _ => true
  | _ => false

private def normal (name : String) : Param := ⟨name, .normal⟩

private def optional (name : String) : Param := ⟨name, .refinement⟩

def params : Native → List Param
  | breakLoop => [optional "with", normal "value", optional "return", normal "value"]
  | continueLoop => []
  | returnValue => [normal "value"]
  | exitFunction => [optional "with", normal "value"]
  | quit => [optional "return", normal "value"]
  | throwValue => [normal "value", optional "name", normal "word"]
  | catchThrown =>
    [normal "block", optional "name", normal "names", optional "quit", optional "any",
      optional "with", normal "handler"]
  | trap => [normal "block", optional "with", normal "handler"]
  | attempt => [normal "block"]
  | fail => [normal "reason"]
  | protect =>
    [normal "value", optional "deep", optional "words", optional "values", optional "hide"]
  | unprotect => [normal "value", optional "deep", optional "words", optional "values"]
  | allOf => [normal "block"]
  | anyOf => [normal "block"]
  | caseOf => [normal "block", optional "all", optional "only"]
  | switchOn =>
    [normal "value", normal "cases", optional "default", normal "case", optional "all",
      optional "strict"]
  | ifTrue => [normal "condition", normal "branch", optional "only"]
  | either =>
    [normal "condition", normal "true-branch", normal "false-branch", optional "only"]
  | ifFalse => [normal "condition", normal "branch", optional "only"]
  | loopTimes => [normal "count", normal "body"]
  | whileTrue => [normal "condition", normal "body"]
  | forever => [normal "body"]
  | doValue => [normal "value"]
  | reduce => [normal "block"]
  | also => [normal "value1", normal "value2"]
  | comment => [⟨"value", .literal⟩]
  | func => [normal "spec", normal "body"]
  | does => [normal "body"]
  | object => [normal "body"]
  | context => [normal "body"]
  | append => [normal "series", normal "value", optional "only"]
  | insert => [normal "series", normal "value", optional "only"]
  | poke => [normal "series", normal "index", normal "value"]
  | clear => [normal "series"]
  | first => [normal "series"]
  | pick => [normal "series", normal "index"]
  | lengthOf => [normal "series"]
  | copy => [normal "value", optional "deep"]
  | wordsOf => [normal "object"]
  | operator _ => [normal "value1", normal "value2"]
  | negation => [normal "value"]
  | set => [normal "word", normal "value"]
  | get => [normal "word"]
  | hasValue => [normal "word"]
  | form => [normal "value"]
  | mold => [normal "value"]
  | print => [normal "value"]
  | typeOf => [normal "value"]
  | isNone => [normal "value"]
  | isUnset => [normal "value"]
  | isError => [normal "value"]

end Native

end BlockScript
