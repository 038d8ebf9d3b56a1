import BlockScript.Proofs.Routine

/-!
# Items and the expressions they begin

What the items of a block from a position on say about the expression there. A literal is an item
that evaluates to itself and takes nothing from behind it; with no operator after it, it is a whole
expression.
-/

namespace BlockScript

variable {α β : Type} {s t : State} {h : Heap} {block : BlockRef} {position fuel : Nat}
  {ev : Evaluator} {v : Value} {vs : List Value}

theorem bind_of_ok {m : EvalM α} {a : α} (done : m s = .ok a t) (f : α → EvalM β) :
    (m >>= f) s = f a t := by
  simp only [Bind.bind, EStateM.bind, done]

theorem bind_of_error {m : EvalM α} {exit : Exit} (failed : m s = .error exit t)
    (f : α → EvalM β) : (m >>= f) s = .error exit t := by
  simp only [Bind.bind, EStateM.bind, failed]

theorem bind_getHeap (f : Heap → EvalM β) : (getHeap >>= f) s = f s.heap s := rfl

theorem withScope_of_ok {frame : FrameId} {m : EvalM α} {a : α}
    (run : m { s with env := s.env.push frame } = .ok a t) :
    withScope frame m s = .ok a { t with env := t.env.pop } := by
  rw [withScope, run]

theorem withCall_of_ok {function : String} {m : EvalM Value} {calls : CallStack} {v : Value}
    (pushed : s.calls.push function = .ok calls) (run : m { s with calls } = .ok v t) :
    withCall function m s = .ok v { t with calls := t.calls.pop } := by
  rw [withCall, pushed]
  dsimp only
  rw [run]

/-! ## Items -/

def Heap.EndsWith (h : Heap) (block : BlockRef) (position : Nat) (items : List Value) : Prop :=
  (h.items block.id).toList.drop position = items

namespace Heap.EndsWith

theorem item? (ends : h.EndsWith block position vs) : h.item? block position = vs.head? := by
  rw [← show (h.items block.id).toList.drop position = vs from ends, List.head?_drop,
    Heap.item?, Array.getElem?_toList]

theorem tail (ends : h.EndsWith block position (v :: vs)) :
    h.EndsWith block (position + 1) vs := by
  have dropped : (h.items block.id).toList.drop position = v :: vs := ends
  rw [EndsWith, ← List.drop_drop, dropped, List.drop_one, List.tail_cons]

theorem drop {us : List Value} (ends : h.EndsWith block position (us ++ vs)) :
    h.EndsWith block (position + us.length) vs := by
  have dropped : (h.items block.id).toList.drop position = us ++ vs := ends
  rw [EndsWith, ← List.drop_drop, dropped, List.drop_left]

theorem item?_end (ends : h.EndsWith block position vs) :
    h.item? block (position + vs.length) = none := by
  rw [← List.append_nil vs] at ends
  exact ends.drop.item?

end Heap.EndsWith

/-! ## Words -/

theorem lookupSet_of_bound {name : String} (bound : s.env.lookup s.heap name = some v)
    (set : v.isUnset = false) : lookupSet name s = .ok v s := by
  refine bind_of_ok (a := some v) (by rw [← bound]; rfl) _ |>.trans ?_
  cases v with
  | unset => cases set
  | _ => rfl

theorem lookupSet_of_unbound {name : String} (unbound : s.env.lookup s.heap name = none) :
    lookupSet name s = .error (.raised { cause := .noValue name }) s :=
  bind_of_ok (a := none) (by rw [← unbound]; rfl) _

/-! ## Terms -/

/-- Evaluates to itself and takes no item from behind it. -/
def Value.IsLiteral (v : Value) : Prop :=
  ∀ (ev : Evaluator) (block : BlockRef) (position : Nat),
    term ev block position v = pure (v, position)

theorem Value.isLiteral_integer (n : Int64) : (Value.integer n).IsLiteral := fun _ _ _ => rfl

/-- The literals are the values that are neither looked up, assigned nor evaluated. -/
theorem Value.isLiteral_iff :
    v.IsLiteral ↔
      match v with
      | .word kind _ => kind = .refinement
      | .path _ _ | .paren _ => False
      | _ => True := by
  constructor
  · intro literal
    -- with nothing bound and no fuel, all others fail or have another value
    let nothing : State := { env := { root := 0 } }
    have unbound (name : String) : nothing.env.lookup nothing.heap name = .none := by
      simp [nothing, Environment.lookup, Heap.frame, Frame.get?, Frame.find?]
    have failed (name : String) := lookupSet_of_unbound (unbound name)
    have here := congrFun (literal (evaluator 0) ⟨0, 0⟩ 0) nothing
    cases v with
    | word kind name =>
      cases kind with
      | refinement => rfl
      | word => cases (bind_of_error (failed name) _).symm.trans here
      | getWord =>
        have fetched : fetch name nothing = .ok .unset nothing := by
          rw [show fetch name nothing = .ok ((nothing.env.lookup nothing.heap name).getD .unset)
            nothing from rfl, unbound]
          rfl
        cases (bind_of_ok fetched _).symm.trans here
      | _ => cases here
    | path kind segments =>
      have refused (segments : List Segment) :
          ∃ exit, Path.head segments nothing = .error exit nothing := by
        obtain _ | ⟨name | _, _⟩ := segments
        · exact ⟨_, rfl⟩
        · exact ⟨_, failed name⟩
        · exact ⟨_, rfl⟩
      obtain ⟨exit, refused⟩ := refused segments
      cases kind with
      | path => cases (bind_of_error refused _).symm.trans here
      | getPath => cases (bind_of_error (bind_of_error refused _) _).symm.trans here
      | _ => cases here
    | paren body => cases here
    | _ => trivial
  · intro plain
    cases v with
    | word kind name =>
      subst plain
      exact fun _ _ _ => rfl
    | path kind segments => exact plain.elim
    | paren body => exact plain.elim
    | _ => exact fun _ _ _ => rfl

theorem term_function {name : String} {f : Function}
    (bound : s.env.lookup s.heap name = some (.function f)) :
    term ev block position (.word .word name) s = call ev name f [] block position s :=
  bind_of_ok (lookupSet_of_bound bound rfl) _

theorem term_function_path {name : String} {f : Function} (segments : List Segment)
    (bound : s.env.lookup s.heap name = some (.function f)) :
    term ev block position (.path .path (.name name :: segments)) s =
      call ev name f segments block position s := by
  refine (bind_of_ok (lookupSet_of_bound bound rfl) _).trans ?_
  cases segments <;> rfl

/-! ## Expressions -/

def State.operatorAt? (s : State) (block : BlockRef) (position : Nat) :
    Option (String × Function) :=
  match s.heap.item? block position with
  | some (.word .word name) =>
    match s.env.lookup s.heap name with
    | some (.function f) => if f.isOperator then some (name, f) else none
    | _ => none
  | _ => none

theorem operatorAt_apply (block : BlockRef) (position : Nat) (s : State) :
    operatorAt block position s = .ok (s.operatorAt? block position) s := by
  refine (bind_of_ok (m := getHeap) (a := s.heap) rfl _).trans ?_
  unfold State.operatorAt?
  rcases s.heap.item? block position with _ | item
  · rfl
  cases item with
  | word kind name =>
    cases kind with
    | word =>
      refine (bind_of_ok (m := lookup name) (a := s.env.lookup s.heap name) rfl _).trans ?_
      dsimp only
      rcases s.env.lookup s.heap name with _ | found
      · rfl
      · cases found <;> rfl
    | _ => rfl
  | _ => rfl

theorem State.operatorAt?_literal (literal : v.IsLiteral)
    (here : s.heap.item? block position = some v) : s.operatorAt? block position = none := by
  unfold operatorAt?
  rw [here]
  split
  · next name same =>
    cases same
    exact absurd (Value.isLiteral_iff.mp literal) (by simp)
  · rfl

theorem State.operatorAt?_tail (here : s.heap.item? block position = none) :
    s.operatorAt? block position = none := by
  rw [operatorAt?, here]

theorem operators_none (free : s.operatorAt? block position = none) (v : Value) :
    operators ev block (fuel + 1) v position s = .ok (v, position) s :=
  bind_of_ok ((operatorAt_apply block position s).trans (by rw [free])) _

theorem evaluator_fuel (n : Nat) : (evaluator n).fuel = n := by
  cases n <;> rfl

theorem expression_tail (here : s.heap.item? block position = none) :
    expression ev block position s = .ok none s := by
  refine (bind_getHeap _).trans ?_
  rw [here]
  rfl

theorem expression_item (here : s.heap.item? block position = some v) :
    expression ev block position s =
      (term ev block (position + 1) v >>= fun step =>
        some <$> operators ev block ev.fuel step.1 step.2) s := by
  refine (bind_getHeap _).trans ?_
  rw [here]
  rfl

/-- A literal with no operator behind it is a whole expression. -/
theorem expression_literal (literal : v.IsLiteral) (here : s.heap.item? block position = some v)
    (free : s.operatorAt? block (position + 1) = none) (enough : ev.fuel = fuel + 1) :
    expression ev block position s = .ok (some (v, position + 1)) s := by
  refine (expression_item here).trans ?_
  rw [literal, enough]
  refine (bind_of_ok (a := (v, position + 1)) rfl _).trans ?_
  exact bind_of_ok (operators_none free v) _

theorem next_literal (fuel : Nat) (literal : v.IsLiteral)
    (here : s.heap.item? block position = some v)
    (free : s.operatorAt? block (position + 1) = none) :
    (evaluator (fuel + 2)).next block position s = .ok (some (v, position + 1)) s :=
  expression_literal literal here free rfl

theorem next_tail (fuel : Nat) (here : s.heap.item? block position = none) :
    (evaluator (fuel + 1)).next block position s = .ok none s := expression_tail here

/-- A block with one expression has its value. -/
theorem all_single {next : Nat} (first : ev.next block block.index s = .ok (some (v, next)) t)
    (last : ev.next block next t = .ok none t) (enough : ev.fuel = fuel + 2) :
    ev.all block s = .ok v t := by
  rw [Evaluator.all, Evaluator.fold, enough]
  exact (bind_of_ok first _).trans (bind_of_ok last _)

/-! ## Arguments -/

/-- A parameter for which there is no item left is missed, whatever its kind. -/
theorem gatherArg_tail {function : String} (param : Param)
    (ended : s.heap.item? block position = none)
    (next : ev.next block position s = .ok none s) :
    gatherArg ev function param block position s =
      .error (.raised { cause := .noArg function param.name }) s := by
  unfold gatherArg
  cases param.kind with
  | literal => exact (bind_of_ok (m := getHeap) (a := s.heap) rfl _).trans (by rw [ended]; rfl)
  | get => exact (bind_of_ok (m := getHeap) (a := s.heap) rfl _).trans (by rw [ended]; rfl)
  | _ => exact bind_of_ok next _

theorem gatherParams_step {ev : Evaluator} {function : String} {slot next : Nat} {param : Param}
    {gathered : Gathered} {value : Value} (params : List (Nat × Param))
    (taken : gatherArg ev function param block gathered.position s = .ok (value, next) t) :
    gatherParams ev function block gathered ((slot, param) :: params) s =
      gatherParams ev function block ⟨gathered.args.setIfInBounds slot value, next⟩ params t := by
  have step : (gatherArg ev function param block gathered.position >>= fun taken =>
      pure ⟨gathered.args.setIfInBounds slot taken.1, taken.2⟩) s =
      .ok (⟨gathered.args.setIfInBounds slot value, next⟩ : Gathered) t := bind_of_ok taken _
  rw [gatherParams, List.foldlM_cons]
  exact bind_of_ok step _

end BlockScript
