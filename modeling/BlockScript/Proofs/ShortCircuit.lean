import BlockScript.Proofs.Progress
import BlockScript.Proofs.RenamedRuns

/-!
# All and any stop early

Reduce, all and any evaluate the expressions of their block one after another, each in the state
that the one before it left. Where a block can be reduced, the values that reduce would collect
decide what all and any give, and at which of them they stop. Where reducing it fails, they fail in
the same way, unless they stop before. As calls they have names of their own, which show in
backtraces and nowhere else.
-/

namespace BlockScript

structure Evaluated where
  value : Value
  after : State

/-- The expressions of a block from a position on, evaluated until the block ends or one of them
exits, or until there were as many as are allowed. -/
inductive Evaluator.Unrolls (ev : Evaluator) (block : BlockRef) :
    Nat → State → Nat → List Evaluated → EStateM.Result Exit State Unit → Prop where
  | outOfFuel (s : State) (position : Nat) :
      Unrolls ev block 0 s position [] (.error .outOfFuel s)
  | tail {bound position : Nat} {s t : State} (ended : ev.next block position s = .ok none t) :
      Unrolls ev block (bound + 1) s position [] (.ok () t)
  | exit {bound position : Nat} {s t : State} {exit : Exit}
      (failed : ev.next block position s = .error exit t) :
      Unrolls ev block (bound + 1) s position [] (.error exit t)
  | more {bound position next : Nat} {s t : State} {value : Value} {evaluated : List Evaluated}
      {ended : EStateM.Result Exit State Unit}
      (here : ev.next block position s = .ok (some (value, next)) t)
      (rest : Unrolls ev block bound t next evaluated ended) :
      Unrolls ev block (bound + 1) s position (⟨value, t⟩ :: evaluated) ended

/-- A construct that stops at the first value of some kind, and otherwise makes something of all
values. It gives up where its block does. -/
inductive EndsEarly (stop : Value → Prop) (early : Value → Value) (full : List Value → Value)
    (evaluated : List Evaluated) :
    EStateM.Result Exit State Unit → EStateM.Result Exit State Value → Prop where
  | early {before behind : List Evaluated} {e : Evaluated}
      {ended : EStateM.Result Exit State Unit} (split : evaluated = before ++ e :: behind)
      (others : ∀ b ∈ before, ¬ stop b.value) (stops : stop e.value) :
      EndsEarly stop early full evaluated ended (.ok (early e.value) e.after)
  | tail {t : State} (others : ∀ b ∈ evaluated, ¬ stop b.value) :
      EndsEarly stop early full evaluated (.ok () t) (.ok (full (evaluated.map (·.value))) t)
  | exit {exit : Exit} {t : State} (others : ∀ b ∈ evaluated, ¬ stop b.value) :
      EndsEarly stop early full evaluated (.error exit t) (.error exit t)

inductive ReduceEnds (evaluated : List Evaluated) :
    EStateM.Result Exit State Unit → EStateM.Result Exit State Value → Prop where
  | block {t : State} {r : BlockRef} {heap : Heap}
      (new : t.heap.newBlock (evaluated.map (·.value)).toArray = (r, heap)) :
      ReduceEnds evaluated (.ok () t) (.ok (.block r) { t with heap })
  | exit {exit : Exit} {t : State} : ReduceEnds evaluated (.error exit t) (.error exit t)

def Value.IsFalse (v : Value) : Prop := v = .none ∨ v = .logic false

def Value.IsChosen (v : Value) : Prop := ¬ v.IsFalse ∧ v ≠ .unset

abbrev AllEnds : List Evaluated → EStateM.Result Exit State Unit →
    EStateM.Result Exit State Value → Prop :=
  EndsEarly Value.IsFalse (fun _ => .none) (·.getLastD (.logic true))

abbrev AnyEnds : List Evaluated → EStateM.Result Exit State Unit →
    EStateM.Result Exit State Value → Prop :=
  EndsEarly Value.IsChosen id fun _ => .none

variable {ev : Evaluator} {block : BlockRef} {bound position : Nat} {s : State} {v : Value}
  {evaluated : List Evaluated} {ended : EStateM.Result Exit State Unit}

theorem Value.isTruthy_eq_false_iff : v.isTruthy = false ↔ v.IsFalse := by
  cases v with
  | none => simp [isTruthy, IsFalse]
  | logic flag => cases flag <;> simp [isTruthy, IsFalse]
  | _ => simp [isTruthy, IsFalse]

theorem Value.isChosen_iff : (v.isTruthy && !v.isUnset) = true ↔ v.IsChosen := by
  have unset : v.isUnset = true ↔ v = .unset := by cases v <;> simp [isUnset]
  rw [IsChosen, ← isTruthy_eq_false_iff, ne_eq, ← unset, Bool.and_eq_true, Bool.not_eq_true',
    Bool.not_eq_false, Bool.not_eq_true]

theorem exists_unrolls (ev : Evaluator) (block : BlockRef) (bound : Nat) (s : State)
    (position : Nat) : ∃ evaluated ended, ev.Unrolls block bound s position evaluated ended := by
  induction bound generalizing s position with
  | zero => exact ⟨[], _, .outOfFuel s position⟩
  | succ bound ih =>
    cases run : ev.next block position s with
    | error exit t => exact ⟨[], _, .exit run⟩
    | ok step t =>
      obtain _ | ⟨value, next⟩ := step
      · exact ⟨[], _, .tail run⟩
      · obtain ⟨evaluated, ended, rest⟩ := ih t next
        exact ⟨⟨value, t⟩ :: evaluated, ended, .more run rest⟩

/-! ## Folds -/

theorem EndsEarly.cons {stop : Value → Prop} {early : Value → Value}
    {full full' : List Value → Value} {outcome : EStateM.Result Exit State Value} {t : State}
    (other : ¬ stop v) (same : ∀ values, full (v :: values) = full' values)
    (ends : EndsEarly stop early full' evaluated ended outcome) :
    EndsEarly stop early full (⟨v, t⟩ :: evaluated) ended outcome := by
  have further {before : List Evaluated} (others : ∀ b ∈ before, ¬ stop b.value) :
      ∀ b ∈ (⟨v, t⟩ :: before : List Evaluated), ¬ stop b.value :=
    List.forall_mem_cons.mpr ⟨other, others⟩
  cases ends with
  | early split others stops => exact .early (congrArg (⟨v, t⟩ :: ·) split) (further others) stops
  | tail others =>
    rw [← same]
    exact .tail (further others)
  | exit others => exact .exit (further others)

namespace Evaluator.Unrolls

/-- A fold that stops at some values, and makes a step of each other one. -/
theorem foldFrom_endsEarly {stop : Value → Prop} {early : Value → Value}
    {f : Value → Value → ForInStep Value} {step : Value → Value → Value}
    (stops : ∀ acc v, stop v → f acc v = .done (early v))
    (goesOn : ∀ acc v, ¬ stop v → f acc v = .yield (step acc v))
    (unrolls : ev.Unrolls block bound s position evaluated ended) (acc : Value) :
    EndsEarly stop early (fun values => values.foldl step acc) evaluated ended
      (ev.foldFrom block f bound position acc s) := by
  have none : ∀ e ∈ ([] : List Evaluated), ¬ stop e.value := by simp
  induction unrolls generalizing acc with
  | outOfFuel => exact .exit none
  | @tail bound position s t run =>
    have here : ev.foldFrom block f (bound + 1) position acc s = .ok acc t := bind_of_ok run _
    rw [here]
    exact .tail none
  | @exit bound position s t exit run =>
    have here : ev.foldFrom block f (bound + 1) position acc s = .error exit t :=
      bind_of_error run _
    rw [here]
    exact .exit none
  | @more bound position next s t value evaluated ended run _ ih =>
    have here : ev.foldFrom block f (bound + 1) position acc s = _ := bind_of_ok run _
    rw [here]
    dsimp only
    by_cases stopped : stop value
    · rw [stops acc value stopped]
      exact .early (List.nil_append _).symm none stopped
    · rw [goesOn acc value stopped]
      exact (ih (step acc value)).cons stopped fun _ => rfl

theorem foldFrom_push (acc : Array Value) :
    ev.Unrolls block bound s position evaluated ended →
    ev.foldFrom block (fun values value => .yield (values.push value)) bound position acc s =
      match ended with
      | .ok () t => .ok (acc ++ (evaluated.map (·.value)).toArray) t
      | .error e t => .error e t := by
  intro unrolls
  induction unrolls generalizing acc with
  | outOfFuel => rfl
  | tail run => exact (bind_of_ok run _).trans (by simp; rfl)
  | exit run => exact bind_of_error run _
  | more run _ ih =>
    refine (bind_of_ok run _).trans ((ih _).trans ?_)
    simp

end Evaluator.Unrolls

/-! ## The three natives -/

namespace Evaluator.Unrolls

variable {args : Args} (taken : args.value 0 = .block block)
  (unrolls : ev.Unrolls block ev.fuel s block.index evaluated ended)

include taken unrolls
theorem reduceEnds : ReduceEnds evaluated ended (Evaluation.reduce ev args s) := by
  have folded := foldFrom_push #[] unrolls
  rw [Array.empty_append] at folded
  have whole : Evaluation.reduce ev args = ev.reduce block := by
    rw [Evaluation.reduce, taken]
    rfl
  rw [whole]
  cases ended with
  | ok _ t =>
    have made : ev.reduce block s = newBlock (evaluated.map (·.value)).toArray t :=
      bind_of_ok folded _
    rw [made]
    exact .block rfl
  | error exit t =>
    have failed : ev.reduce block s = .error exit t := bind_of_error folded _
    rw [failed]
    exact .exit

theorem allEnds : AllEnds evaluated ended (Conditionals.allOf ev args s) := by
  have last (acc : Value) (values : List Value) :
      values.foldl (fun _ v => v) acc = values.getLastD acc := by
    induction values generalizing acc with
    | nil => rfl
    | cons value values ih => exact (ih value).trans (List.getLastD_cons ..).symm
  have folded : EndsEarly Value.IsFalse (fun _ => .none)
      (fun values => values.foldl (fun _ v => v) (.logic true)) evaluated ended
      (Conditionals.allOf ev args s) := by
    rw [allOf_eq_fold taken]
    refine unrolls.foldFrom_endsEarly (fun _ v falls => ?_) (fun _ v holds => ?_) (.logic true)
    · rw [Value.isTruthy_eq_false_iff.mpr falls]
      rfl
    · rw [← Value.isTruthy_eq_false_iff, Bool.not_eq_false] at holds
      rw [holds]
      rfl
  simpa only [last] using folded

theorem anyEnds : AnyEnds evaluated ended (Conditionals.anyOf ev args s) := by
  have rest (values : List Value) : values.foldl (fun _ _ => Value.none) .none = .none := by
    induction values with
    | nil => rfl
    | cons value values ih => exact ih
  have folded : EndsEarly Value.IsChosen id
      (fun values => values.foldl (fun _ _ => Value.none) .none) evaluated ended
      (Conditionals.anyOf ev args s) := by
    rw [anyOf_eq_fold taken]
    refine unrolls.foldFrom_endsEarly (fun _ v chosen => ?_) (fun _ v other => ?_) .none
    · rw [Value.isChosen_iff.mpr chosen]
      rfl
    · rw [← Value.isChosen_iff] at other
      rw [if_neg other]
  simpa only [rest] using folded

end Evaluator.Unrolls

/-! ## Calls -/

def Renaming.asReduce : Renaming where
  name own := if own = "all" ∨ own = "any" then "reduce" else own
  shown own := by
    by_cases other : own = "all" ∨ own = "any"
    · rcases other with rfl | rfl <;> rfl
    · by_cases anonymous : own = ""
      · subst anonymous
        rfl
      · have shown : CallStack.shown own = own :=
          if_neg (by rwa [String.isEmpty_iff])
        rw [shown, if_neg other, shown]

def leaveCall : EStateM.Result Exit State Value → EStateM.Result Exit State Value
  | .ok v t => .ok v { t with calls := t.calls.pop }
  | .error exit t => .error (attachCalls t.calls exit) { t with calls := t.calls.pop }

theorem withCall_of_room {name : String} {calls : CallStack} (room : s.calls.push name = .ok calls)
    (body : EvalM Value) : withCall name body s = leaveCall (body { s with calls }) := by
  rw [withCall, room]
  dsimp only
  cases body { s with calls } <;> rfl

theorem withCall_of_full {name other : String} {cause : Cause}
    (full : s.calls.push name = .error cause) (body : EvalM Value) :
    withCall other body s = .error (.raised (s.calls.attach { cause })) s := by
  have full' : s.calls.push other = .error cause := by
    unfold CallStack.push at full ⊢
    cases limit : s.calls.limit with
    | none =>
      rw [limit] at full
      cases full
    | some n =>
      rw [limit] at full
      dsimp only at full ⊢
      split
      · next room =>
        rw [if_pos room] at full
        cases full
      · next fits =>
        rw [if_neg fits] at full
        exact full
  rw [withCall, full']

/-- How calls of reduce, all and any of a block compare. Names of calls apart, all and any end as
they would in the state that the body of reduce begins in, and there the values of the expressions
decide. -/
inductive CallsCompare (ev : Evaluator) (block : BlockRef) (s : State)
    (reduce all any : EStateM.Result Exit State Value) : Prop where
  | refused {cause : Cause} (full : s.calls.push "reduce" = .error cause)
      (reduce : reduce = .error (.raised (s.calls.attach { cause })) s)
      (all : all = .error (.raised (s.calls.attach { cause })) s)
      (any : any = .error (.raised (s.calls.attach { cause })) s)
  | entered {calls : CallStack} {evaluated : List Evaluated}
      {ended : EStateM.Result Exit State Unit} {r a y : EStateM.Result Exit State Value}
      (room : s.calls.push "reduce" = .ok calls)
      (unrolls : ev.Unrolls block ev.fuel { s with calls } block.index evaluated ended)
      (reduceEnds : ReduceEnds evaluated ended r) (reduce : reduce = leaveCall r)
      (allEnds : AllEnds evaluated ended a) (all : SameButNames .asReduce (leaveCall a) all)
      (anyEnds : AnyEnds evaluated ended y) (any : SameButNames .asReduce (leaveCall y) any)

/-- All and any agree with reduce on the expressions that they evaluate. -/
theorem all_any_agree_with_reduce (fuel : Nat) (block : BlockRef) (s : State) :
    CallsCompare (evaluator fuel) block s
      (invoke (evaluator fuel) "reduce" (.native .reduce) #[.block block] s)
      (invoke (evaluator fuel) "all" (.native .allOf) #[.block block] s)
      (invoke (evaluator fuel) "any" (.native .anyOf) #[.block block] s) := by
  cases room : s.calls.push "reduce" with
  | error cause =>
    exact .refused room (withCall_of_full room _) (withCall_of_full room _)
      (withCall_of_full room _)
  | ok calls =>
    let args : Args := #[.block block]
    have taken : args.value 0 = .block block := rfl
    obtain ⟨evaluated, ended, unrolls⟩ := exists_unrolls (evaluator fuel) block
      (evaluator fuel).fuel { s with calls } block.index
    -- A call of all by the name of reduce begins in the very state in which reduce begins.
    have all : SameButNames .asReduce (leaveCall (Conditionals.allOf (evaluator fuel) args
        { s with calls })) (invoke (evaluator fuel) "all" (.native .allOf) args s) := by
      rw [← withCall_of_room room]
      exact invoke_sameButNames .asReduce fuel (.native .allOf) rfl rfl rfl
    have any : SameButNames .asReduce (leaveCall (Conditionals.anyOf (evaluator fuel) args
        { s with calls })) (invoke (evaluator fuel) "any" (.native .anyOf) args s) := by
      rw [← withCall_of_room room]
      exact invoke_sameButNames .asReduce fuel (.native .anyOf) rfl rfl rfl
    exact .entered room unrolls (unrolls.reduceEnds taken) (withCall_of_room room _)
      (unrolls.allEnds taken) all (unrolls.anyEnds taken) any

end BlockScript
