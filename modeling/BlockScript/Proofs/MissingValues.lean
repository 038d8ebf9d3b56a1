import BlockScript.Proofs.Sites

/-!
# Missing values

A block may end in the middle of an expression: behind a function that needs one more argument,
behind an operator, or behind a set-word or set-path. Then the expression fails at once with an
error that names what is missing, however deep inside of it the value was needed. That there was no
item left is not taken for the end of the expression.
-/

namespace BlockScript

variable {s t : State} {block : BlockRef} {position fuel : Nat}

/-! ## At the tail -/

theorem Heap.item?_eq_none_iff {h : Heap} :
    h.item? block position = none ↔ (h.items block.id).size ≤ position :=
  Array.getElem?_eq_none_iff

theorem next_of_size_le (atEnd : (s.heap.items block.id).size ≤ position) :
    (evaluator (fuel + 1)).next block position s = .ok none s :=
  next_tail fuel (Heap.item?_eq_none_iff.mpr atEnd)

theorem gatherArg_of_size_le (function : String) (param : Param)
    (atEnd : (s.heap.items block.id).size ≤ position) :
    gatherArg (evaluator (fuel + 1)) function param block position s =
      .error (.raised { cause := .noArg function param.name }) s :=
  gatherArg_tail param (Heap.item?_eq_none_iff.mpr atEnd) (next_of_size_le atEnd)

theorem assigned_of_size_le (target : String)
    (atEnd : (s.heap.items block.id).size ≤ position) :
    assigned (evaluator (fuel + 1)) target block position s =
      .error (.raised { cause := .needValue target }) s :=
  bind_of_ok (next_of_size_le atEnd) _

theorem operators_of_size_le {ev : Evaluator} {name : String} {f : Function} (left : Value)
    (here : s.operatorAt? block position = some (name, f))
    (atEnd : (s.heap.items block.id).size ≤ position + 1) :
    operators ev block (fuel + 1) left position s =
      .error (.raised { cause := .noArg name "value2" }) s := by
  refine (bind_of_ok ((operatorAt_apply block position s).trans (by rw [here])) _).trans ?_
  refine (bind_of_ok (m := getHeap) (a := s.heap) rfl _).trans ?_
  rw [Heap.item?_eq_none_iff.mpr atEnd]
  rfl

/-! ## Sites -/

inductive Site where
  | expression (position : Nat)
  | term (item : Value) (position : Nat)
  | operators (bound : Nat) (left : Value) (position : Nat)
  | assigned (target : String) (position : Nat)
  | select (path : List Segment) (position : Nat) (value : Value) (here : Segment)
      (rest : List Segment)
  | call (function : String) (f : Function) (segments : List Segment) (position : Nat)
  | refinements (function : String) (f : Function) (used : List Nat) (segments : List Segment)
      (gathered : Gathered)
  | params (function : String) (params : List (Nat × Param)) (gathered : Gathered)
  | argument (function : String) (param : Param) (position : Nat)

def RaisesAt (ev : Evaluator) (block : BlockRef) (s : State) (cause : Cause) (t : State) :
    Site → Prop
  | .expression position => expression ev block position s = .error (.raised { cause }) t
  | .term item position => term ev block position item s = .error (.raised { cause }) t
  | .operators bound left position =>
    operators ev block bound left position s = .error (.raised { cause }) t
  | .assigned target position =>
    assigned ev target block position s = .error (.raised { cause }) t
  | .select path position value here rest =>
    selectPath ev path block position value here rest s = .error (.raised { cause }) t
  | .call function f segments position =>
    call ev function f segments block position s = .error (.raised { cause }) t
  | .refinements function f used segments gathered =>
    gatherRefinements ev function f block used segments gathered s = .error (.raised { cause }) t
  | .params function params gathered =>
    gatherParams ev function block gathered params s = .error (.raised { cause }) t
  | .argument function param position =>
    gatherArg ev function param block position s = .error (.raised { cause }) t

/-- The block ends in the middle of what is evaluated at a site, where a value is still needed: with
what is missing, and the state in which it is. -/
inductive CutShort (block : BlockRef) : Nat → Site → State → Cause → State → Prop
  /-- The first term of an expression is cut short, or an operator behind it. -/
  | first {n position : Nat} {item : Value} {s t : State} {cause : Cause}
      (here : s.heap.item? block position = some item)
      (cut : CutShort block n (.term item (position + 1)) s cause t) :
      CutShort block n (.expression position) s cause t
  | behind {n position next : Nat} {item left : Value} {s t u : State} {cause : Cause}
      (here : s.heap.item? block position = some item)
      (evaluated : term (evaluator n) block (position + 1) item s = .ok (left, next) t)
      (cut : CutShort block n (.operators n left next) t cause u) :
      CutShort block n (.expression position) s cause u
  /-- There is no operand, or it is cut short, or an operator behind it. -/
  | noOperand {n bound position : Nat} {left : Value} {name : String} {f : Function} {s : State}
      (here : s.operatorAt? block position = some (name, f))
      (atEnd : (s.heap.items block.id).size ≤ position + 1) :
      CutShort block n (.operators (bound + 1) left position) s (.noArg name "value2") s
  | operand {n bound position : Nat} {left item : Value} {name : String} {f : Function}
      {s t : State} {cause : Cause} (here : s.operatorAt? block position = some (name, f))
      (present : s.heap.item? block (position + 1) = some item)
      (cut : CutShort block n (.term item (position + 2)) s cause t) :
      CutShort block n (.operators (bound + 1) left position) s cause t
  | operator {n bound position next : Nat} {left item right value : Value} {name : String}
      {f : Function} {s t u w : State} {cause : Cause}
      (here : s.operatorAt? block position = some (name, f))
      (present : s.heap.item? block (position + 1) = some item)
      (evaluated : term (evaluator n) block (position + 2) item s = .ok (right, next) t)
      (applied : (evaluator n).invoke name f (f.positional [left, right]) t = .ok value u)
      (cut : CutShort block n (.operators bound value next) u cause w) :
      CutShort block n (.operators (bound + 1) left position) s cause w
  /-- There is no value to be assigned, or it is cut short. -/
  | noValue {n position : Nat} {target : String} {s : State}
      (atEnd : (s.heap.items block.id).size ≤ position) :
      CutShort block (n + 1) (.assigned target position) s (.needValue target) s
  | value {n position : Nat} {target : String} {s t : State} {cause : Cause}
      (cut : CutShort block n (.expression position) s cause t) :
      CutShort block (n + 1) (.assigned target position) s cause t
  | setWord {n position : Nat} {name : String} {s t : State} {cause : Cause}
      (cut : CutShort block n (.assigned name position) s cause t) :
      CutShort block n (.term (.word .setWord name) position) s cause t
  | setPath {n position : Nat} {segments : List Segment} {s t : State} {cause : Cause}
      (cut : CutShort block n (.assigned (PathKind.setPath.mold segments) position) s cause t) :
      CutShort block n (.term (.path .setPath segments) position) s cause t
  /-- A call is cut short, of a function that a word is bound to or a path leads to. -/
  | word {n position : Nat} {name : String} {f : Function} {s t : State} {cause : Cause}
      (bound : s.env.lookup s.heap name = some (.function f))
      (cut : CutShort block n (.call name f [] position) s cause t) :
      CutShort block n (.term (.word .word name) position) s cause t
  | path {n position : Nat} {value : Value} {here : Segment} {rest : List Segment}
      {s t u : State} {cause : Cause} (head : Path.head (here :: rest) s = .ok value t)
      (cut : CutShort block n (.select (here :: rest) position value here rest) t cause u) :
      CutShort block n (.term (.path .path (here :: rest)) position) s cause u
  | select {n position : Nat} {path : List Segment} {value value' : Value}
      {here segment : Segment} {rest : List Segment} {s t u : State} {cause : Cause}
      (data : ∀ f, value ≠ .function f)
      (selected : Path.select path value segment s = .ok value' t)
      (cut : CutShort block n (.select path position value' segment rest) t cause u) :
      CutShort block n (.select path position value here (segment :: rest)) s cause u
  | function {n position : Nat} {path : List Segment} {f : Function} {here : Segment}
      {rest : List Segment} {s t : State} {cause : Cause}
      (cut : CutShort block n (.call (here.name?.getD "") f rest position) s cause t) :
      CutShort block n (.select path position (.function f) here rest) s cause t
  /-- The parameters of a call are cut short, or those of its refinements. -/
  | fixed {n position : Nat} {function : String} {f : Function} {segments : List Segment}
      {s t : State} {cause : Cause}
      (cut : CutShort block n
        (.params function f.fixedParams ⟨Array.replicate f.arity .none, position⟩) s cause t) :
      CutShort block n (.call function f segments position) s cause t
  | refined {n position : Nat} {function : String} {f : Function} {segments : List Segment}
      {gathered : Gathered} {s t u : State} {cause : Cause}
      (fixed : gatherParams (evaluator n) function block
        ⟨Array.replicate f.arity .none, position⟩ f.fixedParams s = .ok gathered t)
      (cut : CutShort block n (.refinements function f [] segments gathered) t cause u) :
      CutShort block n (.call function f segments position) s cause u
  | refinement {n slot : Nat} {function : String} {f : Function} {used : List Nat}
      {segment : Segment} {segments : List Segment} {gathered : Gathered} {s t : State}
      {cause : Cause} (found : segment.name?.bind f.refinement? = some slot) (fresh : slot ∉ used)
      (cut : CutShort block n (.params function (f.refinementParams slot)
        { gathered with args := gathered.args.setIfInBounds slot (.logic true) }) s cause t) :
      CutShort block n (.refinements function f used (segment :: segments) gathered) s cause t
  | nextRefinement {n slot : Nat} {function : String} {f : Function} {used : List Nat}
      {segment : Segment} {segments : List Segment} {gathered gathered' : Gathered}
      {s t u : State} {cause : Cause} (found : segment.name?.bind f.refinement? = some slot)
      (fresh : slot ∉ used)
      (complete : gatherParams (evaluator n) function block
        { gathered with args := gathered.args.setIfInBounds slot (.logic true) }
        (f.refinementParams slot) s = .ok gathered' t)
      (cut : CutShort block n (.refinements function f (slot :: used) segments gathered') t cause
        u) :
      CutShort block n (.refinements function f used (segment :: segments) gathered) s cause u
  | param {n slot : Nat} {function : String} {param : Param} {params : List (Nat × Param)}
      {gathered : Gathered} {s t : State} {cause : Cause}
      (cut : CutShort block n (.argument function param gathered.position) s cause t) :
      CutShort block n (.params function ((slot, param) :: params) gathered) s cause t
  | nextParam {n slot next : Nat} {function : String} {param : Param}
      {params : List (Nat × Param)} {gathered : Gathered} {value : Value} {s t u : State}
      {cause : Cause}
      (taken : gatherArg (evaluator n) function param block gathered.position s =
        .ok (value, next) t)
      (cut : CutShort block n
        (.params function params ⟨gathered.args.setIfInBounds slot value, next⟩) t cause u) :
      CutShort block n (.params function ((slot, param) :: params) gathered) s cause u
  /-- There is no argument, or it is evaluated and cut short. -/
  | noArgument {n position : Nat} {function : String} {param : Param} {s : State}
      (atEnd : (s.heap.items block.id).size ≤ position) :
      CutShort block (n + 1) (.argument function param position) s (.noArg function param.name) s
  | argument {n position : Nat} {function : String} {param : Param} {s t : State} {cause : Cause}
      (evaluated : param.kind ≠ .literal ∧ param.kind ≠ .get)
      (cut : CutShort block n (.expression position) s cause t) :
      CutShort block (n + 1) (.argument function param position) s cause t

/-! ## Errors -/

theorem operators_operand {ev : Evaluator} {bound : Nat} {left item : Value} {name : String}
    {f : Function} (here : s.operatorAt? block position = some (name, f))
    (present : s.heap.item? block (position + 1) = some item) :
    operators ev block (bound + 1) left position s =
      (do
        let (right, position) ← term ev block (position + 2) item
        let value ← ev.invoke name f (f.positional [left, right])
        operators ev block bound value position) s := by
  refine (bind_of_ok ((operatorAt_apply block position s).trans (by rw [here])) _).trans ?_
  refine (bind_getHeap _).trans ?_
  rw [present]

theorem gatherArg_evaluated {ev : Evaluator} {function : String} {param : Param} {exit : Exit}
    (evaluated : param.kind ≠ .literal ∧ param.kind ≠ .get)
    (failed : ev.next block position s = .error exit t) :
    gatherArg ev function param block position s = .error exit t := by
  unfold gatherArg
  cases kind : param.kind with
  | literal => exact absurd kind evaluated.1
  | get => exact absurd kind evaluated.2
  | _ => exact bind_of_error failed _

theorem gatherRefinements_fresh {ev : Evaluator} {function : String} {f : Function}
    {used : List Nat} {segment : Segment} {slot : Nat} (segments : List Segment)
    (gathered : Gathered) (found : segment.name?.bind f.refinement? = some slot)
    (fresh : slot ∉ used) :
    gatherRefinements ev function f block used (segment :: segments) gathered =
      (do
        let gathered ← gatherParams ev function block
          { gathered with args := gathered.args.setIfInBounds slot (.logic true) }
          (f.refinementParams slot)
        gatherRefinements ev function f block (slot :: used) segments gathered) := by
  rw [gatherRefinements, found]
  exact if_neg (by simpa using fresh)

theorem selectPath_data {ev : Evaluator} {path : List Segment} {value : Value}
    {here segment : Segment} {rest : List Segment} (data : ∀ f, value ≠ .function f) :
    selectPath ev path block position value here (segment :: rest) =
      (Path.select path value segment >>= fun value =>
        selectPath ev path block position value segment rest) := by
  cases value with
  | function f => exact absurd rfl (data f)
  | _ => rfl

/-- What is cut short raises what is missing, and nothing happens after that. -/
theorem CutShort.raises {n : Nat} {site : Site} {cause : Cause}
    (cut : CutShort block n site s cause t) : RaisesAt (evaluator n) block s cause t site := by
  induction cut with
  | first here _ ih => exact (expression_item here).trans (bind_of_error ih _)
  | behind here evaluated _ ih =>
    refine (expression_item here).trans ((bind_of_ok evaluated _).trans ?_)
    rw [map_eq_pure_bind, evaluator_fuel]
    exact bind_of_error ih _
  | noOperand here atEnd => exact operators_of_size_le _ here atEnd
  | operand here present _ ih => exact (operators_operand here present).trans (bind_of_error ih _)
  | operator here present evaluated applied _ ih =>
    exact (operators_operand here present).trans
      ((bind_of_ok evaluated _).trans ((bind_of_ok applied _).trans ih))
  | noValue atEnd => exact assigned_of_size_le _ atEnd
  | value _ ih => exact bind_of_error ih _
  | setWord _ ih => exact bind_of_error ih _
  | setPath _ ih => exact bind_of_error ih _
  | word bound _ ih => exact (term_function bound).trans ih
  | path head _ ih => exact (bind_of_ok head _).trans ih
  | select data selected _ ih =>
    exact (congrFun (selectPath_data data) _).trans ((bind_of_ok selected _).trans ih)
  | @function n position path f here rest s t cause _ ih =>
    cases rest <;> exact ih
  | fixed _ ih => exact bind_of_error ih _
  | refined fixed _ ih => exact (bind_of_ok fixed _).trans (bind_of_error ih _)
  | refinement found fresh _ ih =>
    exact (congrFun (gatherRefinements_fresh _ _ found fresh) _).trans (bind_of_error ih _)
  | nextRefinement found fresh complete _ ih =>
    exact (congrFun (gatherRefinements_fresh _ _ found fresh) _).trans
      ((bind_of_ok complete _).trans ih)
  | param _ ih => exact bind_of_error (bind_of_error ih _) _
  | nextParam taken _ ih => exact (gatherParams_step _ taken).trans ih
  | noArgument atEnd => exact gatherArg_of_size_le _ _ atEnd
  | argument evaluated _ ih => exact gatherArg_evaluated evaluated ih

theorem CutShort.next {cause : Cause}
    (cut : CutShort block fuel (.expression position) s cause t) :
    (evaluator (fuel + 1)).next block position s = .error (.raised { cause }) t := cut.raises

theorem CutShort.missing {n : Nat} {site : Site} {cause : Cause}
    (cut : CutShort block n site s cause t) :
    (∃ function argument, cause = .noArg function argument) ∨
      ∃ target, cause = .needValue target := by
  induction cut with
  | noOperand => exact .inl ⟨_, _, rfl⟩
  | noArgument => exact .inl ⟨_, _, rfl⟩
  | noValue => exact .inr ⟨_, rfl⟩
  | _ => assumption

end BlockScript
