/-!
# Quoted text

A text between double quotes. A caret escapes what could not stand there as it is: the quote, the
caret itself, line ends and tabs.
-/

namespace BlockScript.Text

def escapeChar : Char → List Char
  | '"' => ['^', '"']
  | '^' => ['^', '^']
  | '\n' => ['^', '/']
  | '\t' => ['^', '-']
  | c => [c]

def quote (text : String) : String :=
  String.ofList ('"' :: text.toList.flatMap escapeChar ++ ['"'])

end BlockScript.Text
