import BlockScript.Proofs.Calling
import BlockScript.Proofs.Shielding

/-!
# What surrounds a call

A conditional, a catch, a loop in any of its rounds and a function made by a program ask for what
their blocks ask for. So code may be nested to any depth, and what is asked for in the innermost
block is asked for on a path from the outermost.
-/

namespace BlockScript

/-! ## Constructs around a block -/

section Constructs

variable {ev : Evaluator} {args : Args} {s t u : State} {q : Request} {f : Function}
  {c : Native} {block : BlockRef}

inductive Chooses (args : Args) : Native → BlockRef → Prop where
  | ifTrue {block : BlockRef} (known : (args.value 0).isUnset = false)
      (holds : (args.value 0).isTruthy = true) (evaluated : args.refined 2 = false)
      (given : args.value 1 = .block block) : Chooses args .ifTrue block
  | ifFalse {block : BlockRef} (known : (args.value 0).isUnset = false)
      (fails : (args.value 0).isTruthy = false) (evaluated : args.refined 2 = false)
      (given : args.value 1 = .block block) : Chooses args .ifFalse block
  | either {block : BlockRef} (known : (args.value 0).isUnset = false)
      (evaluated : args.refined 3 = false)
      (given : (if (args.value 0).isTruthy then args.value 1 else args.value 2) = .block block) :
      Chooses args .either block

theorem Chooses.run_eq (chooses : Chooses args c block) (ev : Evaluator) :
    c.run ev args = ev.all block := by
  cases chooses with
  | ifTrue known holds evaluated given =>
    simp [Native.run, Conditionals.ifTrue, Conditionals.truth, known, holds, evaluated, given,
      Evaluator.branch]
  | ifFalse known fails evaluated given =>
    simp [Native.run, Conditionals.ifFalse, Conditionals.truth, known, fails, evaluated, given,
      Evaluator.branch]
  | either known evaluated given =>
    simp [Native.run, Conditionals.either, Conditionals.truth, known, evaluated, given,
      Evaluator.branch]

namespace Loops

variable {step : Evaluator → EvalM (Option Value)} {last : Value → EvalM Value} {round left : Nat}
  {result : Value} {v : State}

inductive Evaluates (ev : Evaluator) (s : State) :
    (Evaluator → EvalM (Option Value)) → BlockRef → State → Prop where
  | body {block : BlockRef} : Evaluates ev s (fun ev => some <$> ev.all block) block s
  | condition {condition body : BlockRef} :
      Evaluates ev s
        (fun ev => do
          if (← ev.all condition).isTruthy then return some (← ev.all body) else return none)
        condition s
  | tested {condition body : BlockRef} {v : Value} {t : State}
      (run : ev.all condition s = .ok v t) (holds : v.isTruthy = true) :
      Evaluates ev s
        (fun ev => do
          if (← ev.all condition).isTruthy then return some (← ev.all body) else return none)
        body t

theorem Evaluates.handsOn (evaluates : Evaluates ev s step block t)
    (asks : Asks (fun ev => ev.all block) ev t q u) : HandsOn step ev s q u := by
  cases evaluates with
  | body => exact asks.all_handsOn.bind fun v _ => pure (some v)
  | condition => exact asks.all_handsOn.bind fun v ev =>
      if v.isTruthy then some <$> ev.all _ else pure none
  | @tested condition _ v t run holds =>
    refine .bind_of_ok Asks.all_handsOn run ?_
    simp only [holds, if_true]
    exact asks.all_handsOn.bind fun v _ => pure (some v)

theorem Evaluates.routine (evaluates : Evaluates ev s step block t) :
    Routine ⟨ClaimsNothing, fun _ => True, False⟩ step := by
  cases evaluates with
  | body => exact .map some (.all _)
  | condition | tested => exact .bind (.all _) fun _ => .ite (.map some (.all _)) (.pure none)

theorem turn_handsOn (handed : HandsOn step ev s q u) :
    HandsOn (fun ev => turn (step ev)) ev s q u :=
  handed.bracket fun ev' e after run => ⟨after, by simp only [turn, claiming, run], .refl after⟩

/-- In whatever round of a loop something is asked for, the loop hands its errors on. -/
theorem Begins.handsOn (routine : Routine ⟨ClaimsNothing, fun _ => True, False⟩ step)
    (begins : Begins (step ev) s round t)
    (handed : ∀ result, HandsOn (fun ev => rounds (step ev) last left result) ev t q u) :
    HandsOn (fun ev => rounds (step ev) last (round + left) result) ev s q u := by
  induction begins generalizing left with
  | first => simpa using handed result
  | @next round t t' v before ran ih =>
    rw [Nat.add_right_comm, Nat.add_assoc]
    refine ih fun result => ?_
    simp only [rounds_succ]
    refine .bind_of_ok (fun asks => ?_) ran (handed v)
    exact turn_handsOn (routine.handsOn id (fun _ _ => id) asks.of_claiming)

theorem Repeats.handsOn {l : Native} {r : Repetition} (repeats : Repeats args l r)
    (below : round < r.count ev.fuel) (begins : Begins (r.step ev) s round t)
    (evaluates : Evaluates ev t r.step block v) (asks : Asks (fun ev => ev.all block) ev v q u) :
    HandsOn (fun ev => l.run ev args) ev s q u := by
  obtain ⟨left, more⟩ := Nat.exists_eq_add_of_lt below
  have here (result : Value) :
      HandsOn (fun ev => rounds (r.step ev) r.last (left + 1) result) ev t q u := by
    simp only [rounds_succ]
    exact (turn_handsOn (evaluates.handsOn asks)).bind fun ended ev =>
      afterTurn (r.step ev) r.last left result ended
  have whole :
      HandsOn (fun ev' => rounds (r.step ev') r.last (r.count ev.fuel) .none) ev s q u := by
    rw [more, Nat.add_assoc]
    exact begins.handsOn evaluates.routine here
  simp only [repeats.run_eq, Repetition.runFrom, Nat.sub_zero]
  exact whole.of_fuel (k := fun fuel ev => rounds (r.step ev) r.last (r.count fuel) .none)

end Loops

inductive Surrounds (ev : Evaluator) (args : Args) (s : State) :
    Function → BlockRef → State → Prop where
  | conditional {c : Native} {block : BlockRef} (chooses : Chooses args c block) :
      Surrounds ev args s (.native c) block s
  | catching {block : BlockRef} {handler : Option Handler}
      (call : Exits.CatchCall args s.heap block handler) :
      Surrounds ev args s (.native .catchThrown) block s
  | repeating {l : Native} {r : Loops.Repetition} {round : Nat} {block : BlockRef} {t u : State}
      (repeats : Loops.Repeats args l r) (below : round < r.count ev.fuel)
      (begins : Loops.Begins (r.step ev) s round t)
      (evaluates : Loops.Evaluates ev t r.step block u) : Surrounds ev args s (.native l) block u
  | calling {number : Nat} {params : List Param} {body : BlockRef} :
      Surrounds ev args s (.user number params body) body
        (s.entered ((params.map (·.name)).zip args.toList))

/-- None of these constructs recovers from errors. -/
theorem Surrounds.unguarded (surrounds : Surrounds ev args s f block t) :
    ∀ g, f = .native g → ¬ g.IsGuard := by
  rintro g rfl guard
  cases surrounds with
  | conditional chooses => cases chooses <;> exact guard
  | catching => exact guard
  | repeating repeats => cases repeats <;> exact guard

theorem Surrounds.asks (surrounds : Surrounds ev args s f block t)
    (asks : Asks (fun ev => ev.all block) ev t q u) : Asks (fun ev => f.run ev args) ev s q u := by
  cases surrounds with
  | conditional chooses =>
    simpa only [Function.run, chooses.run_eq] using asks
  | catching call =>
    refine HandsOn.asks (asks.all_handsOn.bracket fun ev' e after run => ⟨after, ?_, .refl after⟩)
    change Exits.catchThrown ev' args s = _
    rw [call.apply, run]
  | repeating repeats below begins evaluates =>
    exact (repeats.handsOn below begins evaluates asks).asks
  | @calling number params =>
    let fields := (params.map (·.name)).zip args.toList
    refine HandsOn.asks (asks.all_handsOn.bracket fun ev' e after run =>
      ⟨{ after with env := after.env.pop }, ?_, rfl, rfl, rfl⟩)
    change claimReturn (withScope s.heap.frames.size (ev'.all block)) (s.withFrame fields) = _
    have left : withScope s.heap.frames.size (ev'.all block) (s.withFrame fields) =
        .error (.raised e) { after with env := after.env.pop } := by
      have run : ev'.all block
          { s.withFrame fields with env := (s.withFrame fields).env.push s.heap.frames.size } =
            .error (.raised e) after := run
      simp only [withScope, run]
    rw [claimReturn_apply, left]

end Constructs

end BlockScript
