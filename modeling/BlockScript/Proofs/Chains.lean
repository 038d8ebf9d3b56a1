import BlockScript.Proofs.OperatorResults
import BlockScript.Proofs.Sites

/-!
# Chains of operators

Operators have no precedence: a literal followed by operators with literals between them is worth
the left fold of the operations. Whatever takes a whole expression takes a whole chain: a set-word,
a paren, and a parameter whose argument is evaluated.
-/

namespace BlockScript

variable {α : Type} {s t : State} {block : BlockRef} {position fuel : Nat} {first v : Value}

structure Link where
  word : String
  operator : Operator
  operand : Value

def Link.items (link : Link) : List Value := [.word .word link.word, link.operand]

def chain (first : Value) (links : List Link) : List Value := first :: links.flatMap Link.items

theorem length_chain (first : Value) (links : List Link) :
    (chain first links).length = 2 * links.length + 1 := by
  induction links with
  | nil => rfl
  | cons link links ih =>
    simp only [chain, List.flatMap_cons, List.length_cons, List.length_append, Link.items,
      List.length_nil] at ih ⊢
    omega

/-! ## Folds -/

def settle : Except EvalError α → EvalM α
  | .ok a => pure a
  | .error e => throw (.raised e)

theorem bind_of_settle {β γ : Type} {m : EvalM α} {r : Except EvalError β} {g : β → α}
    (same : m t = (do return g (← settle r)) s) (f : α → EvalM γ) :
    (m >>= f) t = (settle r >>= fun b => f (g b)) s := by
  cases r with
  | ok b => exact bind_of_ok (t := s) same f
  | error e => exact bind_of_error (t := s) same f

/-- The error of an operation that fails: its operator is the innermost of the running calls. -/
def State.failure (s : State) (word : String) (cause : Cause) : EvalError :=
  { cause, backtrace := some { s.calls with names := s.calls.names.push word }.capture }

def State.operate (s : State) (left : Value) (link : Link) : Except EvalError Value :=
  match Operators.apply s.heap left link.operand link.operator with
  | .ok value => .ok value
  | .error cause => .error (s.failure link.word cause)

/-- The left fold of the operations of a chain, or the error of the first one that fails. -/
def State.leftFold (s : State) (first : Value) (links : List Link) : Except EvalError Value :=
  links.foldlM s.operate first

/-! ## Calls of operators -/

def CallStack.HasRoom (c : CallStack) : Prop := ∀ limit, c.limit = some limit → c.depth < limit

theorem CallStack.HasRoom.push {c : CallStack} (room : c.HasRoom) (name : String) :
    c.push name = .ok { c with names := c.names.push name } := by
  unfold CallStack.push
  cases limited : c.limit with
  | none => rfl
  | some limit => exact if_pos (room limit limited)

theorem invoke_operator (fuel : Nat) (room : s.calls.HasRoom) (left : Value) (link : Link) :
    (evaluator (fuel + 1)).invoke link.word (.native (.operator link.operator))
        ((Function.native (.operator link.operator)).positional [left, link.operand]) s =
      settle (s.operate left link) s := by
  let args := (Function.native (.operator link.operator)).positional [left, link.operand]
  let inside : State := { s with calls := { s.calls with names := s.calls.names.push link.word } }
  have run : Operators.run link.operator args inside =
      (match Operators.apply s.heap left link.operand link.operator with
        | .ok value => pure value
        | .error cause => raise cause : EvalM Value) inside := rfl
  change withCall link.word (Operators.run link.operator args) s = _
  rw [withCall, room.push]
  dsimp only
  rw [show Operators.run link.operator args _ = _ from run, State.operate]
  cases Operators.apply s.heap left link.operand link.operator with
  | ok value => simp [inside, settle, CallStack.pop, Pure.pure, EStateM.pure]
  | error cause =>
    have raised : raise (α := Value) cause inside = .error (.raised { cause }) inside := rfl
    rw [show settle (.error (s.failure link.word cause)) s =
      .error (.raised (s.failure link.word cause)) s from rfl]
    simp [inside, raised, State.failure, CallStack.pop, attachCalls, CallStack.attach,
      CallStack.isEmpty]

theorem State.leftFold_isUnset {links : List Link} (chained : links ≠ [])
    (folded : s.leftFold first links = .ok v) : v.isUnset = false := by
  induction links generalizing first with
  | nil => exact absurd rfl chained
  | cons link links ih =>
    rw [leftFold, List.foldlM_cons] at folded
    cases operated : s.operate first link with
    | error e =>
      rw [operated] at folded
      cases folded
    | ok value =>
      rw [operated] at folded
      cases links with
      | cons link' links => exact ih (List.cons_ne_nil _ _) folded
      | nil =>
        cases folded
        unfold operate at operated
        split at operated <;> cases operated
        exact (Operators.apply_isResult ‹_›).isUnset

/-! ## Chains in a block -/

/-- From a position on, these items come first, and no operator comes after them. -/
structure State.Spans (s : State) (block : BlockRef) (position : Nat) (items : List Value) :
    Prop where
  begins : ∃ behind, s.heap.EndsWith block position (items ++ behind)
  free : s.operatorAt? block (position + items.length) = none

theorem State.spans_of_endsWith {items : List Value} (ends : s.heap.EndsWith block position items) :
    s.Spans block position items :=
  ⟨⟨[], by rwa [List.append_nil]⟩, State.operatorAt?_tail ends.item?_end⟩

structure State.Links (s : State) (links : List Link) : Prop where
  word : ∀ link ∈ links,
    s.env.lookup s.heap link.word = some (.function (.native (.operator link.operator)))
  operand : ∀ link ∈ links, link.operand.IsLiteral
  room : s.calls.HasRoom

theorem operators_link {ev : Evaluator} {name : String} {f : Function} {left : Value}
    (here : s.operatorAt? block position = some (name, f))
    (operand : s.heap.item? block (position + 1) = some v) (literal : v.IsLiteral) :
    operators ev block (fuel + 1) left position s =
      (ev.invoke name f (f.positional [left, v]) >>= fun value =>
        operators ev block fuel value (position + 2)) s := by
  refine (bind_of_ok ((operatorAt_apply block position s).trans (by rw [here])) _).trans ?_
  refine (bind_of_ok (m := getHeap) (a := s.heap) rfl _).trans ?_
  rw [operand]
  dsimp only
  rw [literal]
  exact bind_of_ok (a := (v, position + 2)) rfl _

theorem operators_chain {fuel' : Nat} {links : List Link} (read : s.Links links)
    (span : s.Spans block position (links.flatMap Link.items)) (enough : links.length < fuel')
    (left : Value) :
    operators (evaluator (fuel + 1)) block fuel' left position s =
      (do return (← settle (s.leftFold left links), position + 2 * links.length)) s := by
  induction links generalizing left position fuel' with
  | nil =>
    obtain ⟨fuel', rfl⟩ := Nat.exists_eq_add_one.mpr enough
    exact operators_none span.free left
  | cons link links ih =>
    obtain ⟨fuel', rfl⟩ := Nat.exists_eq_add_one.mpr (Nat.zero_lt_of_lt enough)
    obtain ⟨behind, ends⟩ := span.begins
    rw [List.flatMap_cons, List.append_assoc] at ends
    have word : s.heap.item? block position = some (.word .word link.word) := ends.item?
    have operand : s.heap.item? block (position + 1) = some link.operand := ends.tail.item?
    have here : s.operatorAt? block position =
        some (link.word, .native (.operator link.operator)) := by
      rw [State.operatorAt?, word]
      dsimp only
      rw [read.word link (by simp)]
      rfl
    have rest : s.Links links :=
      ⟨fun l h => read.word l (by simp [h]), fun l h => read.operand l (by simp [h]), read.room⟩
    have span' : s.Spans block (position + 2) (links.flatMap Link.items) := by
      refine ⟨⟨behind, ends.tail.tail⟩, ?_⟩
      have free := span.free
      rw [List.flatMap_cons, List.length_append, ← Nat.add_assoc] at free
      exact free
    rw [operators_link here operand (read.operand link (by simp))]
    have fold : s.leftFold left (link :: links) =
        s.operate left link >>= fun value => s.leftFold value links := List.foldlM_cons ..
    have invoked := invoke_operator fuel read.room left link
    rw [fold]
    cases operated : s.operate left link with
    | ok value =>
      rw [operated] at invoked
      refine (bind_of_ok (a := value) (t := s) invoked _).trans ?_
      rw [ih rest span' (Nat.lt_of_succ_lt_succ enough) value, List.length_cons, Nat.mul_succ,
        ← Nat.add_assoc, Nat.add_right_comm]
      rfl
    | error e =>
      rw [operated] at invoked
      exact bind_of_error (t := s) invoked _

/-! ## What takes a whole chain -/

section Contexts

variable {links : List Link} (read : s.Links links) (literal : first.IsLiteral)
  (enough : links.length + 2 ≤ fuel)

include read literal enough

theorem next_chain (span : s.Spans block position (chain first links)) :
    (evaluator fuel).next block position s =
      (do
        return some (← settle (s.leftFold first links), position + (2 * links.length + 1))) s := by
  obtain ⟨n, rfl⟩ := Nat.exists_eq_add_of_le' (Nat.le_of_add_left_le enough)
  obtain ⟨behind, ends⟩ := span.begins
  have span' : s.Spans block (position + 1) (links.flatMap Link.items) := by
    refine ⟨⟨behind, ends.tail⟩, ?_⟩
    have free := span.free
    rwa [chain, List.length_cons, ← Nat.add_assoc, Nat.add_right_comm] at free
  refine (expression_item (s := s) ends.item?).trans ?_
  rw [literal]
  refine (bind_of_ok (a := (first, position + 1)) rfl _).trans ?_
  have chained : operators (evaluator (n + 1)) block (n + 1) first (position + 1) s = _ :=
    operators_chain read span' (by omega) first
  rw [show position + 1 + 2 * links.length = position + (2 * links.length + 1) by omega] at chained
  exact bind_of_settle chained _

theorem gatherArg_chain {param : Param} (normal : param.kind = .normal) (function : String)
    (span : s.Spans block position (chain first links)) :
    gatherArg (evaluator fuel) function param block position s =
      (do return (← settle (s.leftFold first links), position + (2 * links.length + 1))) s := by
  unfold gatherArg
  rw [normal]
  exact bind_of_settle (next_chain read literal enough span) _

/-- A call whose last fixed parameter takes the chain, after the arguments before it. -/
theorem call_chain {u : State} {f : Function} {earlier : List (Nat × Param)} {slot start : Nat}
    {last : Param} {args : Args} (params : f.fixedParams = earlier ++ [(slot, last)])
    (normal : last.kind = .normal) (function : String)
    (gathered : gatherParams (evaluator fuel) function block
      ⟨Array.replicate f.arity .none, start⟩ earlier u = .ok ⟨args, position⟩ s)
    (span : s.Spans block position (chain first links)) :
    call (evaluator fuel) function f [] block start u =
      (do
        let v ← settle (s.leftFold first links)
        return (← (evaluator fuel).invoke function f (args.setIfInBounds slot v),
          position + (2 * links.length + 1))) s := by
  have taken := bind_of_settle (gatherArg_chain read literal enough normal function span)
    fun taken => (pure ⟨args.setIfInBounds slot taken.1, taken.2⟩ : EvalM Gathered)
  have fixed : gatherParams (evaluator fuel) function block
      ⟨Array.replicate f.arity .none, start⟩ f.fixedParams u = (do
        let v ← settle (s.leftFold first links)
        return (⟨args.setIfInBounds slot v, position + (2 * links.length + 1)⟩ : Gathered)) s := by
    rw [params, gatherParams, List.foldlM_append]
    exact (bind_of_ok gathered _).trans (bind_of_settle taken _)
  exact bind_of_settle fixed _

theorem next_setWord_chain {name : String} (chained : links ≠ [])
    (ends : s.heap.EndsWith block position (.word .setWord name :: chain first links)) :
    (evaluator (fuel + 1)).next block position s =
      (do
        let v ← settle (s.leftFold first links)
        assignWord name v
        return some (v, position + (2 * links.length + 2))) s := by
  obtain ⟨n, rfl⟩ := Nat.exists_eq_add_of_le' (Nat.le_of_add_left_le enough)
  have span := State.spans_of_endsWith ends.tail
  have value := next_chain read literal enough span
  rw [Nat.add_right_comm, Nat.add_assoc position, Nat.add_right_comm] at value
  refine (expression_item (s := s) ends.item?).trans ?_
  cases folded : s.leftFold first links with
  | error e =>
    rw [folded] at value
    exact bind_of_error (bind_of_error (bind_of_error (t := s) value _) _) _
  | ok v =>
    rw [folded] at value
    have taken : assigned (evaluator (n + 2)) name block (position + 1) s =
        .ok (v, position + (2 * links.length + 2)) s := by
      refine (bind_of_ok (t := s) value _).trans ?_
      dsimp only
      rw [if_neg (by rw [State.leftFold_isUnset chained folded]; exact Bool.false_ne_true)]
      rfl
    have behind : s.heap.item? block (position + (2 * links.length + 2)) = none := by
      have beyond := ends.item?_end
      rwa [List.length_cons, length_chain] at beyond
    cases slotted : s.env.slot s.heap name with
    | error denied =>
      have refused : assignWord name v s = .error (.raised { cause := denied.cause }) s := by
        rw [assignWord_apply, slotted]
      refine (bind_of_error ((bind_of_ok taken _).trans (bind_of_error refused _)) _).trans ?_
      exact (bind_of_error refused _).symm
    | ok slot =>
      let t : State := { s with heap := s.env.write s.heap name v slot }
      have written : assignWord name v s = .ok () t := by rw [assignWord_apply, slotted]
      have free : t.operatorAt? block (position + (2 * links.length + 2)) = none := by
        refine State.operatorAt?_tail ?_
        cases slot <;> exact behind
      refine (bind_of_ok ((bind_of_ok taken _).trans (bind_of_ok written _)) _).trans ?_
      refine Eq.trans ?_ (bind_of_ok written _).symm
      exact bind_of_ok (operators_none free v) _

theorem next_paren_chain {body : BlockRef}
    (ends : s.heap.EndsWith body body.index (chain first links))
    (span : s.Spans block position [.paren body]) :
    (evaluator (fuel + 1)).next block position s =
      (do return some (← settle (s.leftFold first links), position + 1)) s := by
  obtain ⟨n, rfl⟩ := Nat.exists_eq_add_of_le' (Nat.le_of_add_left_le enough)
  obtain ⟨_, item⟩ := span.begins
  have value := next_chain read literal enough (State.spans_of_endsWith ends)
  have behind : s.heap.item? body (body.index + (2 * links.length + 1)) = none := by
    rw [← length_chain first]
    exact ends.item?_end
  have all : (evaluator (n + 2)).all body s = settle (s.leftFold first links) s := by
    refine (bind_of_settle value _).trans ?_
    cases s.leftFold first links with
    | error e => rfl
    | ok v => exact bind_of_ok (next_tail (n + 1) behind) _
  refine (expression_item (s := s) item.item?).trans ?_
  cases folded : s.leftFold first links with
  | error e =>
    rw [folded] at all
    exact bind_of_error (bind_of_error (t := s) all _) _
  | ok v =>
    rw [folded] at all
    have taken : term (evaluator (n + 2)) block (position + 1) (.paren body) s =
        .ok (v, position + 1) s := bind_of_ok (t := s) all _
    refine (bind_of_ok taken _).trans ?_
    exact bind_of_ok (operators_none span.free v) _

end Contexts

/-! ## Chains as a whole -/

structure FoldsLeft (s : State) (first : Value) (links : List Link) (fuel : Nat) : Prop where
  /-- The items behind a chain do not matter, and there need not be any. -/
  spans (block : BlockRef) (position : Nat) :
    s.heap.EndsWith block position (chain first links) → s.Spans block position (chain first links)
  next (block : BlockRef) (position : Nat) : s.Spans block position (chain first links) →
    (evaluator fuel).next block position s =
      (do return some (← settle (s.leftFold first links), position + (2 * links.length + 1))) s
  /-- The first operation that fails decides the error. -/
  fails (done behind : List Link) (link : Link) (left : Value) (cause : Cause) :
    links = done ++ link :: behind → s.leftFold first done = .ok left →
      Operators.apply s.heap left link.operand link.operator = .error cause →
        s.leftFold first links = .error (s.failure link.word cause)
  setWord (name : String) (block : BlockRef) (position : Nat) : links ≠ [] →
    s.heap.EndsWith block position (.word .setWord name :: chain first links) →
      (evaluator (fuel + 1)).next block position s =
        (do
          let v ← settle (s.leftFold first links)
          assignWord name v
          return some (v, position + (2 * links.length + 2))) s
  /-- Any argument that is evaluated is the whole chain. -/
  argument (function : String) (param : Param) (block : BlockRef) (position : Nat) :
    param.kind = .normal → s.Spans block position (chain first links) →
      gatherArg (evaluator fuel) function param block position s =
        (do return (← settle (s.leftFold first links), position + (2 * links.length + 1))) s
  /-- The chain stands behind the other arguments of a function, whose evaluation from some state
  has led to this one. -/
  lastArgument (function : String) (f : Function) (earlier : List (Nat × Param)) (slot : Nat)
      (last : Param) (args : Args) (block : BlockRef) (start position : Nat) (u : State) :
    u.env.lookup u.heap function = some (.function f) →
    f.fixedParams = earlier ++ [(slot, last)] → last.kind = .normal →
    gatherParams (evaluator fuel) function block ⟨Array.replicate f.arity .none, start⟩ earlier u =
      .ok ⟨args, position⟩ s →
    s.Spans block position (chain first links) →
      term (evaluator fuel) block start (.word .word function) u =
        (do
          let v ← settle (s.leftFold first links)
          return (← (evaluator fuel).invoke function f (args.setIfInBounds slot v),
            position + (2 * links.length + 1))) s
  paren (body block : BlockRef) (position : Nat) :
    s.heap.EndsWith body body.index (chain first links) → s.Spans block position [.paren body] →
      (evaluator (fuel + 1)).next block position s =
        (do return some (← settle (s.leftFold first links), position + 1)) s

theorem chains_fold_left {s : State} {first : Value} {links : List Link} {fuel : Nat}
    (read : s.Links links) (literal : first.IsLiteral) (enough : links.length + 2 ≤ fuel) :
    FoldsLeft s first links fuel where
  spans _ _ := State.spans_of_endsWith
  next _ _ := next_chain read literal enough
  fails done behind link left cause whole folded failed := by
    rw [whole, State.leftFold, List.foldlM_append,
      show List.foldlM s.operate first done = .ok left from folded]
    change List.foldlM s.operate left (link :: behind) = _
    rw [List.foldlM_cons, State.operate, failed]
    rfl
  setWord _ _ _ := next_setWord_chain read literal enough
  argument function _ _ _ normal := gatherArg_chain read literal enough normal function
  lastArgument function _ _ _ _ _ _ _ _ _ bound params normal gathered span :=
    (term_function bound).trans
      (call_chain read literal enough params normal function gathered span)
  paren _ _ _ := next_paren_chain read literal enough

def sumTimes : State where
  heap :=
    { blocks := #[{ data :=
        #[.integer 2, .word .word "+", .integer 3, .word .word "*", .integer 4] }]
      frames := #[.ofFields [("+", .function (.native (.operator .add))),
        ("*", .function (.native (.operator .multiply)))]] }
  env := { root := 0 }
  calls := { limit := some 1 }

theorem chains_fold_left_sumTimes :
    sumTimes.Links [⟨"+", .add, .integer 3⟩, ⟨"*", .multiply, .integer 4⟩] ∧
      (Value.integer 2).IsLiteral ∧
      (evaluator 4).next ⟨0, 0⟩ 0 sumTimes = .ok (some (.integer 20, 5)) sumTimes := by
  have read : sumTimes.Links [⟨"+", .add, .integer 3⟩, ⟨"*", .multiply, .integer 4⟩] := by
    refine ⟨fun link h => ?_, fun link h => ?_, fun limit limited => ?_⟩
    · simp only [List.mem_cons, List.not_mem_nil, or_false] at h
      rcases h with rfl | rfl <;> with_unfolding_all rfl
    · simp only [List.mem_cons, List.not_mem_nil, or_false] at h
      rcases h with rfl | rfl <;> exact Value.isLiteral_integer _
    · cases limited
      decide
  have folds : FoldsLeft sumTimes (.integer 2) _ 4 :=
    chains_fold_left read (Value.isLiteral_integer 2) le_rfl
  refine ⟨read, Value.isLiteral_integer 2, (folds.next ⟨0, 0⟩ 0 (folds.spans _ _ rfl)).trans ?_⟩
  rfl

end BlockScript
