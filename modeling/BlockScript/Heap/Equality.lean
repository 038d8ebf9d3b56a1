import BlockScript.Decimal.Nearest
import BlockScript.Heap
import BlockScript.Text.Lowercase

/-!
# Equality

Coerced equality ignores the case of strings, the flavour of words and paths, and the difference
between integers and decimals; strict equality ignores none of them. Blocks are equal when their
items from the position on are. A pair of references that is met again while it is being compared
is taken to be equal, which is right because a difference would show elsewhere; so comparing ends
on cyclic blocks.
-/

namespace BlockScript

namespace Heap

/-- Equality of values that are not both blocks or both parens. -/
def leavesEqual (h : Heap) (strict : Bool) : Value → Value → Bool
  | .unset, .unset => true
  | .none, .none => true
  | .logic a, .logic b => a == b
  | .integer a, .integer b => a == b
  | .decimal a, .decimal b => a == b
  | .integer a, .decimal b => !strict && Decimal.nearest a == b
  | .decimal a, .integer b => !strict && Decimal.nearest b == a
  | .text a, .text b =>
    a == b ||
      if strict then h.text a == h.text b else Text.lower (h.text a) == Text.lower (h.text b)
  | .word ka a, .word kb b => a == b && (!strict || ka == kb)
  | .path ka a, .path kb b => (!strict || ka == kb) && a == b
  | .object a, .object b => a == b
  | .function a, .function b => a.isSame b
  | .error a, .error b => a.cause == b.cause
  | .datatype a, .datatype b => a == b
  | _, _ => false

def blockPair? : Value → Value → Option (BlockRef × BlockRef)
  | .block r, .block s => some (r, s)
  | .paren r, .paren s => some (r, s)
  | _, _ => none

/-- Equality of two values inside the comparisons of `path`. The fuel bounds how many more pairs of
blocks can be entered. -/
def same (h : Heap) (strict : Bool) : Nat → List (BlockRef × BlockRef) → Value → Value → Bool
  | 0, _, _, _ => true
  | fuel + 1, path, a, b =>
    match blockPair? a b with
    | none => h.leavesEqual strict a b
    | some (r, s) =>
      h.length r == h.length s &&
        ((r, s) ∈ path ||
          ((h.tail r).zip (h.tail s)).all fun (x, y) => h.same strict fuel ((r, s) :: path) x y)

/-- References are those in the heap and the two compared, so this bounds the pairs of them. -/
def pairFuel (h : Heap) : Nat := (h.itemCount + 2) * (h.itemCount + 2) + 1

/-- Equality in either mode; fuel is only counted out when there are blocks to enter. -/
def equalIn (h : Heap) (strict : Bool) (a b : Value) : Bool :=
  match blockPair? a b with
  | none => h.leavesEqual strict a b
  | some _ => h.same strict h.pairFuel [] a b

def equal (h : Heap) (a b : Value) : Bool := h.equalIn false a b

def strictEqual (h : Heap) (a b : Value) : Bool := h.equalIn true a b

end Heap

end BlockScript
