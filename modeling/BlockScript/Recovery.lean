/-!
# Recovery points

A recovery point marks a place where a raised error stops, with the depths that the environment and
the call stack had there. Points are retired in the opposite order of their arming, each by the
token it was armed with.
-/

namespace BlockScript

structure RecoveryPoint where
  token : Nat
  scopeDepth : Nat
  callDepth : Nat
deriving DecidableEq, Repr, Inhabited

structure RecoveryStack where
  /-- The armed points, innermost first. -/
  points : List RecoveryPoint := []
  /-- The token of the next point; tokens are never used twice. -/
  nextToken : Nat := 0
deriving DecidableEq, Repr, Inhabited

namespace RecoveryStack

def depth (r : RecoveryStack) : Nat := r.points.length

/-- Arms a new innermost point. -/
def arm (r : RecoveryStack) (scopeDepth callDepth : Nat) : RecoveryPoint × RecoveryStack :=
  let point := ⟨r.nextToken, scopeDepth, callDepth⟩
  (point, { points := point :: r.points, nextToken := r.nextToken + 1 })

/-- Retires the point with a token, which must be the innermost. -/
def retire (r : RecoveryStack) (token : Nat) : Option RecoveryPoint × RecoveryStack :=
  match r.points with
  | point :: outer =>
    if point.token = token then (some point, { r with points := outer }) else (none, r)
  | [] => (none, r)

end RecoveryStack

end BlockScript
