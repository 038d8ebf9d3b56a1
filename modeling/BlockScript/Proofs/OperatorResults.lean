import BlockScript.Native.Run

/-!
# Results of operators

Whatever an operator is given, it gives a number or a truth value when it gives anything. A call of
an operator does no more than to give that value or to raise an error: the state stays as it is.
-/

namespace BlockScript.Operators

inductive IsResult : Value → Prop where
  | integer (n : Int64) : IsResult (.integer n)
  | decimal (x : Float) : IsResult (.decimal x)
  | logic (flag : Bool) : IsResult (.logic flag)

variable {a b v : Value}

theorem IsResult.isUnset (result : IsResult v) : v.isUnset = false := by cases result <;> rfl

theorem ofInt_isResult {n : Int} (done : ofInt n = .ok v) : IsResult v := by
  unfold ofInt at done
  split at done <;> cases done
  exact .integer _

theorem ofFloat_isResult {x : Float} (done : ofFloat x = .ok v) : IsResult v := by
  unfold ofFloat at done
  split at done <;> cases done
  exact .decimal x

theorem compute_isResult {op : Arithmetic} (done : compute op a b = .ok v) : IsResult v := by
  have integers {a b : Int64} (done : onIntegers a b op = .ok v) : IsResult v := by
    cases op with
    | divide =>
      simp only [onIntegers, divideIntegers] at done
      split at done
      · cases done
      · split at done
        · exact ofInt_isResult done
        · cases done
          exact .decimal _
    | _ => exact ofInt_isResult done
  have decimals {a b : Float} (done : onDecimals a b op = .ok v) : IsResult v := by
    cases op with
    | divide =>
      simp only [onDecimals] at done
      split at done
      · cases done
      · exact ofFloat_isResult done
    | _ => exact ofFloat_isResult done
  unfold compute at done
  split at done
  · exact integers done
  · exact decimals done
  · exact decimals done
  · exact decimals done
  all_goals cases done

theorem holds_isResult {h : Heap} {op : Operator} {accepts : Ordering → Bool}
    (done : holds h op accepts a b = .ok v) : IsResult v := by
  unfold holds at done
  split at done <;> cases done
  exact .logic _

/-- What an operator gives is a number or a truth value. -/
theorem apply_isResult {h : Heap} {op : Operator} (done : apply h a b op = .ok v) :
    IsResult v := by
  cases op with
  | add | subtract | multiply | divide => exact compute_isResult done
  | less | greater | lessEqual | greaterEqual => exact holds_isResult done
  | equal | strictEqual | notEqual =>
    cases done
    exact .logic _

/-! ## Calls -/

section Calls

variable (ev : Evaluator) (s : State)

def Yields (op : Operator) (a b v : Value) : Prop :=
  (Native.operator op).run ev #[a, b] s = .ok v s

def Raises (op : Operator) (a b : Value) (cause : Cause) : Prop :=
  (Native.operator op).run ev #[a, b] s = .error (.raised { cause }) s

theorem operator_run (op : Operator) (a b : Value) :
    (Native.operator op).run ev #[a, b] s =
      match apply s.heap a b op with
      | .ok value => .ok value s
      | .error cause => .error (.raised { cause }) s := by
  change (match apply s.heap a b op with
    | .ok value => pure value
    | .error cause => raise cause : EvalM Value) s = _
  cases apply s.heap a b op <;> rfl

variable {ev s} {op : Operator} {cause : Cause}

theorem yields_iff : Yields ev s op a b v ↔ apply s.heap a b op = .ok v := by
  rw [Yields, operator_run]
  cases apply s.heap a b op <;> simp

theorem raises_iff : Raises ev s op a b cause ↔ apply s.heap a b op = .error cause := by
  rw [Raises, operator_run]
  cases apply s.heap a b op <;> simp

end Calls

end BlockScript.Operators
