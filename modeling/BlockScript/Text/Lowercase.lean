import BlockScript.Text.CaseTable

/-!
# Lower case

Full lower case of a text: each character is mapped alone, except for the capital I with a dot,
which becomes two characters, and the capital sigma, which takes its final form at the end of a
word. A sigma ends a word when the nearest unskipped character before it has case and the nearest
one after it has none.
-/

namespace BlockScript.Text

def lowerChar (c : Char) : Char :=
  if c.toNat < 0x80 then c.toLower
  else
    match lowerRanges.find? fun r =>
        r.first ≤ c.toNat && c.toNat ≤ r.last && (c.toNat - r.first) % r.step == 0 with
    | some r => Char.ofNat ((c.toNat : Int) + r.offset).toNat
    | none => c

def isCased (c : Char) : Bool := inRanges casedRanges c.toNat

def isSkipped (c : Char) : Bool := inRanges skippedRanges c.toNat

/-- Whether the first character that is not skipped has case. -/
def meetsCased (cs : List Char) : Bool := ((cs.dropWhile isSkipped).head?.map isCased).getD false

/-- The lower case of a text, given the characters before it, nearest first. -/
def lowerFrom (before : List Char) : List Char → List Char
  | [] => []
  | c :: rest =>
    let lower :=
      if c == 'Σ' then [if meetsCased before && !meetsCased rest then 'ς' else 'σ']
      else if c == 'İ' then ['i', Char.ofNat 0x307]
      else [lowerChar c]
    lower ++ lowerFrom (c :: before) rest

def lower (text : String) : String := String.ofList (lowerFrom [] text.toList)

end BlockScript.Text
