import BlockScript.Proofs.Surroundings

/-!
# Trapping what was raised

Between a call of fail and the recovery point that its error lands at, the error may pass calls of
any functions, loops, catches and conditionals. It gets a backtrace where it leaves the call of
fail, if it has none; from there on nothing looks at it, and nothing is evaluated on the way. So a
trap gives back the error that was raised, every further trap gives back the same, and what is
outside of the trap has only been given a value.
-/

namespace BlockScript

/-! ## What a trap gives back -/

/-- The second error is the first one with a backtrace, its own if it had one. -/
structure EvalError.TrappedAs (e e' : EvalError) : Prop where
  cause : e'.cause = e.cause
  notes : e'.notes = e.notes
  traced : e'.backtrace.isSome
  backtrace : e.backtrace.isSome → e'.backtrace = e.backtrace

namespace EvalError.TrappedAs

variable {e e' : EvalError}

theorem refl (traced : e.backtrace.isSome) : e.TrappedAs e := ⟨rfl, rfl, traced, fun _ => rfl⟩

theorem eq_of_isSome (trapped : e.TrappedAs e') (carried : e.backtrace.isSome) : e' = e := by
  obtain ⟨cause, notes, -, backtrace⟩ := trapped
  have backtrace := backtrace carried
  cases e
  cases e'
  cases cause
  cases notes
  cases backtrace
  rfl

/-- Where an error leaves a call it gets a backtrace, if it has none. -/
theorem of_push {c calls : CallStack} {name : String} (pushed : c.push name = .ok calls) :
    e.TrappedAs (calls.attach e) := by
  by_cases carried : e.backtrace.isSome
  · rw [calls.attach_of_isSome carried]
    exact .refl carried
  · rw [CallStack.attach_of_push pushed (by simpa using carried)]
    exact ⟨rfl, rfl, rfl, fun traced => absurd traced carried⟩

theorem equalIn (trapped : e.TrappedAs e') (h : Heap) (strict : Bool) :
    h.equalIn strict (.error e') (.error e) = true :=
  beq_iff_eq.mpr trapped.cause

end EvalError.TrappedAs

/-! ## The way to a call of fail -/

def RaisesAfter {α : Type} (m : EvalM α) (s : State) (e : EvalError) (after : State) : Prop :=
  ∃ t, m s = .error (.raised e) t ∧ SameEffects after t

section Ends

variable {α : Type} {k : Evaluator → EvalM α} {ev : Evaluator} {s u after : State} {q : Request}
  {e : EvalError} {name : String} {calls : CallStack}

/-- An error with a backtrace leaves a call as it is. -/
theorem RaisesAfter.withCall {m : EvalM α} (pushed : s.calls.push name = .ok calls)
    (traced : e.backtrace.isSome) (raises : RaisesAfter m { s with calls } e after) :
    RaisesAfter (withCall name m) s e after := by
  obtain ⟨t, run, effects⟩ := raises
  refine ⟨{ t with calls := t.calls.pop }, ?_, effects.trans ⟨rfl, rfl, rfl⟩⟩
  simp only [BlockScript.withCall, pushed, run, attachCalls, t.calls.attach_of_isSome traced]

theorem HandsOn.raisesAfter (handed : HandsOn k ev s q u)
    (raises : RaisesAfter (q.ask ev) u e after) : RaisesAfter (k ev) s e after := by
  obtain ⟨t, answer, effects⟩ := raises
  obtain ⟨v, run, same⟩ := handed.raises answer
  exact ⟨v, run, effects.trans same⟩

end Ends

def MadeUnder (f : Function) (args : Args) (ev : Evaluator) (s : State) (q : Request) (u : State) :
    Prop :=
  ∃ g block recover, f = .native g ∧ Guards args g block recover ∧
    Asks (fun ev => ev.all block) ev s.armed q u

/-- A function hands on the errors of all that it does not ask for under a recovery point. -/
theorem Function.handsOn {f : Function} {args : Args} {ev : Evaluator} {s u : State} {q : Request}
    (asks : Asks (fun ev => f.run ev args) ev s q u) (exposed : ¬ MadeUnder f args ev s q u) :
    HandsOn (fun ev => f.run ev args) ev s q u := by
  by_cases guard : ∃ g, f = .native g ∧ g.IsGuard
  · obtain ⟨g, rfl, guard⟩ := guard
    rcases g.guard_asks guard asks with ⟨block, recover, guards, under⟩ | handed
    · exact absurd ⟨g, block, recover, rfl, guards, under⟩ exposed
    · exact handed
  · have routine : Routine ⟨f.Claims args, fun _ => True, False⟩ fun ev => f.run ev args :=
      .function f args
    have free (g : Native) (native : f = .native g) : ¬ g.IsGuard :=
      fun recovers => guard ⟨g, native, recovers⟩
    exact routine.handsOn id (Function.not_claims_raised free args) asks

/-- Only trap and attempt evaluate under a recovery point. -/
theorem Function.not_madeUnder {f : Function} {args : Args} {ev : Evaluator} {s u : State}
    {q : Request} (free : ∀ g, f = .native g → ¬ g.IsGuard) : ¬ MadeUnder f args ev s q u := by
  rintro ⟨g, block, recover, rfl, guards, -⟩
  refine free g rfl ?_
  cases guards <;> trivial

namespace Moment

variable {a b c : Moment} {e : EvalError} {r : State}

/-- To answer one request the evaluator makes another, and has armed no recovery point for it. -/
inductive ExposedTo : Moment → Moment → Prop where
  | expression {n : Nat} {block : BlockRef} {position : Nat} {s u : State} {q : Request}
      (asks : Asks (fun ev => expression ev block position) (evaluator n) s q u) :
      ExposedTo ⟨n + 1, .next block position, s⟩ ⟨n, q, u⟩
  | call {n : Nat} {name : String} {f : Function} {args : Args} {calls : CallStack} {s u : State}
      {q : Request} (pushed : s.calls.push name = .ok calls)
      (asks : Asks (fun ev => f.run ev args) (evaluator n) { s with calls } q u)
      (exposed : ¬ MadeUnder f args (evaluator n) { s with calls } q u) :
      ExposedTo ⟨n + 1, .invoke name f args, s⟩ ⟨n, q, u⟩

inductive Fails (e : EvalError) : Moment → Prop where
  | intro {n : Nat} {name : String} {args : Args} {calls : CallStack} {s : State}
      (pushed : s.calls.push name = .ok calls) (given : args.value 0 = .error e) :
      Fails e ⟨n + 1, .invoke name (.native .fail) args, s⟩

def Raises (a : Moment) (e : EvalError) (after : State) : Prop :=
  RaisesAfter (a.request.ask (evaluator a.depth)) a.state e after

theorem Fails.raises (fails : a.Fails e) : ∃ e', e.TrappedAs e' ∧ a.Raises e' a.state := by
  obtain @⟨n, name, args, calls, s, pushed, given⟩ := fails
  have run : (Function.native .fail).run (evaluator n) args { s with calls } =
      .error (.raised e) { s with calls } := by
    simp only [Function.run, Native.run, Raising.fail, given]
    rfl
  refine ⟨calls.attach e, .of_push pushed, { s with calls := calls.pop }, ?_, ⟨rfl, rfl, rfl⟩⟩
  change withCall name ((Function.native .fail).run (evaluator n) args) s = _
  simp only [withCall, pushed, run, attachCalls]

theorem ExposedTo.raises (exposed : a.ExposedTo b) (traced : e.backtrace.isSome)
    (raises : b.Raises e r) : a.Raises e r := by
  cases exposed with
  | @expression n block position s u q asks =>
    have routine : Routine ⟨ClaimsNothing, fun _ => True, False⟩ fun ev =>
        BlockScript.expression ev block position := .expression block position
    exact (routine.handsOn id (fun _ _ => id) asks).raisesAfter raises
  | call pushed asks exposed =>
    exact ((Function.handsOn asks exposed).raisesAfter raises).withCall pushed traced

/-- However many calls and expressions an error passes, it is what comes out of the first. -/
theorem raises_of_exposed (path : Relation.ReflTransGen ExposedTo a c)
    (traced : e.backtrace.isSome) (raises : c.Raises e r) : a.Raises e r := by
  induction path using Relation.ReflTransGen.head_induction_on with
  | refl => exact raises
  | head exposed _ ih => exact exposed.raises traced ih

end Moment

/-! ## Recovery -/

/-- Evaluated under a new recovery point, a block comes to a call of fail in a state, and no other
point is armed on the way. -/
inductive FailsUnder (e : EvalError) (n : Nat) (block : BlockRef) (s : State) : State → Prop where
  | intro {q : Request} {u : State} {c : Moment}
      (asks : Asks (fun ev => ev.all block) (evaluator n) s.armed q u)
      (path : Relation.ReflTransGen Moment.ExposedTo ⟨n, q, u⟩ c) (fails : c.Fails e) :
      FailsUnder e n block s c.state

section Recovery

variable {e e' e'' : EvalError} {n : Nat} {block : BlockRef} {s r : State} {args : Args}
  {g : Native} {recover : Evaluator → EvalError → EvalM Value} {name : String} {calls : CallStack}

/-- The error lands where it is recovered from, and is what is recovered from. -/
theorem FailsUnder.lands (failed : FailsUnder e n block s r)
    (guards : Guards args g block recover) :
    ∃ e' u, e.TrappedAs e' ∧ SameEffects r u ∧
      g.run (evaluator n) args s = recover (evaluator n) e' u := by
  obtain @⟨q, u, c, asks, path, fails⟩ := failed
  obtain ⟨e', trapped, raises⟩ := fails.raises
  have first : RaisesAfter (q.ask (evaluator n)) u e' c.state :=
    Moment.raises_of_exposed path trapped.traced raises
  obtain ⟨t, run, effects⟩ := asks.all_handsOn.raisesAfter first
  have recovers : Recovers ((evaluator n).all block) (recover (evaluator n))
      (g.run (evaluator n) args) := by
    rw [guards.run_eq]
    exact guarded_recovers (fun _ => rfl) fun _ => rfl
  obtain ⟨v, landed, same⟩ := recovers.raised run
  exact ⟨e', v, trapped, effects.trans same, landed⟩

/-- A call that recovers with a value leaves the stacks as they were, and evaluates nothing. -/
theorem FailsUnder.recovers {v : EvalError → Value}
    (failed : FailsUnder e n block { s with calls } r)
    (pushed : s.calls.push name = .ok calls)
    (guards : Guards args g block fun _ e => pure (v e)) :
    ∃ e' t, (evaluator (n + 1)).invoke name (.native g) args s = .ok (v e') t ∧
      e.TrappedAs e' ∧ SameEffects r t ∧ SameStacks s t := by
  obtain ⟨e', u, trapped, effects, run⟩ := failed.lands guards
  have ended : YieldsAfter (g.run (evaluator n) args) { s with calls } (v e') r := ⟨u, run, effects⟩
  obtain ⟨t, answer, same⟩ := ended.withCall pushed
  have answer : (evaluator (n + 1)).invoke name (.native g) args s = .ok (v e') t := answer
  refine ⟨e', t, answer, trapped, same, ?_⟩
  have balanced := (evaluator_balanced (n + 1)).invoke name (.native g) args s
  rwa [endState_ok answer] at balanced

theorem FailsUnder.trap (failed : FailsUnder e n block { s with calls } r)
    (pushed : s.calls.push name = .ok calls) (given : args.value 0 = .block block)
    (unhandled : args.refinement? 1 = none) :
    ∃ e' t, (evaluator (n + 1)).invoke name (.native .trap) args s = .ok (.error e') t ∧
      e.TrappedAs e' ∧ SameEffects r t ∧ SameStacks s t :=
  have guards : Guards args .trap block fun ev => Raising.handle ev none := .trap given unhandled
  failed.recovers pushed guards

inductive TrapsTo (e e' : EvalError) : Prop where
  | intro {n : Nat} {name : String} {args : Args} {calls : CallStack} {block : BlockRef}
      {s t r : State} (pushed : s.calls.push name = .ok calls) (given : args.value 0 = .block block)
      (unhandled : args.refinement? 1 = none) (failed : FailsUnder e n block { s with calls } r)
      (answer : (evaluator (n + 1)).invoke name (.native .trap) args s = .ok (.error e') t) :
      TrapsTo e e'

theorem TrapsTo.trappedAs (traps : TrapsTo e e') : e.TrappedAs e' := by
  obtain ⟨pushed, given, unhandled, failed, answer⟩ := traps
  obtain ⟨e'', t', answer', trapped, -, -⟩ := failed.trap pushed given unhandled
  cases answer.symm.trans answer'
  exact trapped

/-- What has been trapped once is trapped as it is. -/
theorem TrapsTo.again (traps : TrapsTo e e') (more : Relation.ReflTransGen TrapsTo e' e'') :
    e'' = e' := by
  induction more with
  | refl => rfl
  | tail _ next ih =>
    subst ih
    exact next.trappedAs.eq_of_isSome traps.trappedAs.traced

end Recovery

/-! ## Raising and trapping are inverse -/

structure TrapInvertsFail : Prop where
  /-- A trap without handler gives back the error that fail was called with inside of its block.
  Nothing has been evaluated since, and the stacks are as they were: the outer recovery points are
  still armed, and nothing has come to them. -/
  trap (n : Nat) (name : String) (args : Args) (calls : CallStack) (block : BlockRef) (s r : State)
      (e : EvalError) :
    s.calls.push name = .ok calls → args.value 0 = .block block → args.refinement? 1 = none →
    FailsUnder e n block { s with calls } r →
      ∃ e' t, (evaluator (n + 1)).invoke name (.native .trap) args s = .ok (.error e') t ∧
        e.TrappedAs e' ∧ SameEffects r t ∧ SameStacks s t
  attempt (n : Nat) (name : String) (args : Args) (calls : CallStack) (block : BlockRef)
      (s r : State) (e : EvalError) :
    s.calls.push name = .ok calls → args.value 0 = .block block →
    FailsUnder e n block { s with calls } r →
      ∃ t, (evaluator (n + 1)).invoke name (.native .attempt) args s = .ok .none t ∧
        SameEffects r t ∧ SameStacks s t
  /-- A handler is run if it is that of the innermost trap. -/
  handler (n : Nat) (args : Args) (block : BlockRef) (handler : Handler) (s r : State)
      (e : EvalError) :
    args.value 0 = .block block → args.refinement? 1 = some handler.value →
    FailsUnder e n block s r →
      ∃ e' u, e.TrappedAs e' ∧ SameEffects r u ∧
        (Function.native .trap).run (evaluator n) args s =
          handler.run (evaluator n) (.error e') none u
  message (e e' : EvalError) : e.TrappedAs e' → e'.message = e.message ∧ e'.id = e.id
  equal (e e' : EvalError) (h : Heap) : e.TrappedAs e' →
    h.equal (.error e') (.error e) = true ∧ h.strictEqual (.error e') (.error e) = true
  /-- An error that carries a backtrace is given back as it is. -/
  carried (e e' : EvalError) : e.TrappedAs e' → e.backtrace.isSome → e' = e
  /-- To raise and trap once more, any number of times, gives the same. -/
  again (e e' e'' : EvalError) :
    TrapsTo e e' → Relation.ReflTransGen TrapsTo e' e'' → e.TrappedAs e' ∧ e'' = e'
  /-- On the way may be calls of all functions but trap and attempt, and any expressions. -/
  call (n : Nat) (name : String) (f : Function) (args : Args) (calls : CallStack) (s u : State)
      (q : Request) :
    s.calls.push name = .ok calls → (∀ g, f = .native g → ¬ g.IsGuard) →
    Asks (fun ev => f.run ev args) (evaluator n) { s with calls } q u →
      Moment.ExposedTo ⟨n + 1, .invoke name f args, s⟩ ⟨n, q, u⟩
  /-- A block leads to its expressions. -/
  position (n count position : Nat) (block : BlockRef) (s t : State) :
    Comes (evaluator n) block s count position t → count < n →
      Asks (fun ev => ev.all block) (evaluator n) s (.next block position) t
  /-- An expression that names a function leads to its call. -/
  named (n position : Nat) (block : BlockRef) (item : Value) (name : String) (f : Function)
      (refinements : List Segment) (s t u : State) (g g' : Gathered) :
    Names s item name f refinements → s.heap.item? block position = some item →
    gatherParams (evaluator n) name block ⟨Array.replicate f.arity .none, position + 1⟩
      f.fixedParams s = .ok g t →
    gatherRefinements (evaluator n) name f block [] refinements g t = .ok g' u →
      Moment.ExposedTo ⟨n + 1, .next block position, s⟩ ⟨n, .invoke name f g'.args, u⟩
  /-- Conditionals, catches with any refinements, loops in any round and functions made by a program
  lead to what their blocks lead to. -/
  surrounded (n : Nat) (name : String) (f : Function) (args : Args) (calls : CallStack)
      (block : BlockRef) (s t u : State) (q : Request) :
    s.calls.push name = .ok calls → Surrounds (evaluator n) args { s with calls } f block t →
    Asks (fun ev => ev.all block) (evaluator n) t q u →
      Moment.ExposedTo ⟨n + 1, .invoke name f args, s⟩ ⟨n, q, u⟩

theorem trap_inverts_fail : TrapInvertsFail where
  trap n name args calls block s r e pushed given unhandled failed :=
    failed.trap pushed given unhandled
  attempt n name args calls block s r e pushed given failed := by
    obtain ⟨-, t, answer, -, effects, kept⟩ := failed.recovers pushed (.attempt given)
    exact ⟨t, answer, effects, kept⟩
  handler n args block handler s r e given handled failed :=
    have guards : Guards args .trap block fun ev => Raising.handle ev (some handler) :=
      .trap given handled
    failed.lands guards
  message e e' trapped := ⟨congrArg Cause.message trapped.cause, congrArg Cause.id trapped.cause⟩
  equal e e' h trapped := ⟨trapped.equalIn h false, trapped.equalIn h true⟩
  carried e e' trapped := trapped.eq_of_isSome
  again e e' e'' traps more := ⟨traps.trappedAs, traps.again more⟩
  call n name f args calls s u q pushed free asks :=
    .call pushed asks (Function.not_madeUnder free)
  position n count position block s t comes more := comes.asks (by rwa [evaluator_fuel])
  named n position block item name f refinements s t u g g' names here fixed refined :=
    .expression (names.asks here fixed refined)
  surrounded n name f args calls block s t u q pushed surrounds asks :=
    .call pushed (surrounds.asks asks) (Function.not_madeUnder surrounds.unguarded)

/-- The handler further out is not run. -/
example :
    let source := "e: trap [fail {lost}] f: func [v] [loop 2 [catch/any [if true [fail v]]]] " ++
      "trap/with [print e = trap [f e]] [print {further out}]"
    (Interpreter.run source (Interpreter.initial 100 false)).2.output = "true\n" := by
  decide +kernel

end BlockScript
