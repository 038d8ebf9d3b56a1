import BlockScript.Proofs.Catching
import BlockScript.Proofs.Forwarding

/-!
# The rounds of a loop

The loops are one repetition with different steps. What a loop asks the evaluator it asks in one of
its rounds. A break that it meets there ends the loop with the payload, a continue ends the round,
and neither leaves the loop.
-/

namespace BlockScript

variable {α β : Type} {s t u : State} {ev : Evaluator} {k : Evaluator → EvalM α} {q : Request}
  {x : Thrown} {after : State}

/-! ## What is asked -/

namespace Asks

theorem not_of_const (m : EvalM α) : ¬ Asks (fun _ => m) ev s q u :=
  fun ⟨_, _, _, differs⟩ => differs rfl

/-- What the outcome of a sequence depends on is asked by its first or by its second part. -/
theorem of_bind {f : α → Evaluator → EvalM β}
    (asks : Asks (fun ev => k ev >>= fun a => f a ev) ev s q u) :
    Asks k ev s q u ∨ ∃ a t, k ev s = .ok a t ∧ Asks (f a) ev t q u := by
  obtain ⟨ev', fuel, others, differs⟩ := asks
  by_cases same : k ev' s = k ev s
  · simp only [Bind.bind, EStateM.bind, same] at differs
    cases run : k ev s with
    | error exit t =>
      rw [run] at differs
      exact absurd rfl differs
    | ok a t =>
      rw [run] at differs
      exact .inr ⟨a, t, rfl, ev', fuel, others, differs⟩
  · exact .inl ⟨ev', fuel, others, same⟩

/-- What the outcome of a bracket depends on is asked by its body. -/
theorem of_bracket {k' : Evaluator → EvalM β}
    (settle : ∀ ev', k ev' t = k ev t → k' ev' s = k' ev s) (asks : Asks k' ev s q u) :
    Asks k ev t q u := by
  obtain ⟨ev', fuel, others, differs⟩ := asks
  exact ⟨ev', fuel, others, fun same => differs (settle ev' same)⟩

theorem of_claiming {claim : Heap → Thrown → Option β} {result : α → β}
    (asks : Asks (fun ev => claiming claim result (k ev)) ev s q u) : Asks k ev s q u :=
  of_bracket (fun ev' same => by simp only [claiming, same]) asks

theorem of_withCall {name : String} (asks : Asks (fun ev => withCall name (k ev)) ev s q u) :
    ∃ calls, s.calls.push name = .ok calls ∧ Asks k ev { s with calls } q u := by
  cases pushed : s.calls.push name with
  | error cause =>
    obtain ⟨ev', -, -, differs⟩ := asks
    simp only [withCall, pushed] at differs
    exact absurd rfl differs
  | ok calls =>
    exact ⟨calls, rfl, of_bracket (fun ev' same => by simp only [withCall, pushed, same]) asks⟩

end Asks

/-! ## Ends -/

/-- A computation ends with a value, and has had the effects of a state and no others. -/
def YieldsAfter (m : EvalM α) (s : State) (a : α) (after : State) : Prop :=
  ∃ t, m s = .ok a t ∧ SameEffects after t

def ThrowsAfter (m : EvalM α) (s : State) (x : Thrown) (after : State) : Prop :=
  ∃ t, m s = .error (.thrown x) t ∧ SameEffects after t

theorem leavesBy_thrown {m : EvalM α} :
    LeavesBy m s (.thrown x) after ↔ ThrowsAfter m s x after := by
  constructor
  · rintro ⟨_, t, run, ⟨⟩, effects⟩
    exact ⟨t, run, effects⟩
  · rintro ⟨t, run, effects⟩
    exact ⟨_, t, run, .thrown x, effects⟩

/-- An exit that is asked for and not claimed comes out. -/
theorem Asks.throws {claims : Heap → Exit → Prop} (asks : Asks k ev s q u)
    (routine : Routine claims k) (answer : ThrowsAfter (q.ask ev) u x after)
    (unclaimed : ¬ claims after.heap (.thrown x)) : ThrowsAfter (k ev) s x after := by
  obtain ⟨t, answer, effects⟩ := answer
  obtain ⟨asked, -, leaves⟩ := routine.forwards ev s q u asks
  have leaves := leaves ev ⟨rfl, fun _ _ _ => rfl⟩ (.thrown x) t answer (effects.heap ▸ unclaimed)
  obtain ⟨v, run, same⟩ := leavesBy_thrown.mp leaves
  exact ⟨v, run, effects.trans same⟩

theorem YieldsAfter.withCall {m : EvalM α} {name : String} {calls : CallStack} {a : α}
    (pushed : s.calls.push name = .ok calls) (h : YieldsAfter m { s with calls } a after) :
    YieldsAfter (withCall name m) s a after := by
  obtain ⟨t, run, effects⟩ := h
  refine ⟨{ t with calls := t.calls.pop }, ?_, effects.trans ⟨rfl, rfl, rfl⟩⟩
  rw [BlockScript.withCall, pushed]
  dsimp only
  rw [run]

theorem ThrowsAfter.withCall {m : EvalM α} {name : String} {calls : CallStack}
    (pushed : s.calls.push name = .ok calls) (h : ThrowsAfter m { s with calls } x after) :
    ThrowsAfter (withCall name m) s x after :=
  leavesBy_thrown.mp ((leavesBy_thrown.mpr h).withCall pushed)

/-- What a claim lets out it does not claim. -/
theorem claiming_thrown {m : EvalM α} {claim : Heap → Thrown → Option β} {result : α → β}
    (run : claiming claim result m s = .error (.thrown x) t) : claim t.heap x = none := by
  unfold claiming at run
  split at run
  · cases run
  · split at run
    · cases run
    · next unclaimed =>
      cases run
      exact unclaimed
  · next other _ =>
    cases run
    exact absurd rfl (other x)

theorem withCall_thrown {m : EvalM α} {name : String}
    (run : withCall name m s = .error (.thrown x) t) :
    ∃ s' t', m s' = .error (.thrown x) t' := by
  unfold withCall at run
  split at run
  · cases run
  · split at run
    · cases run
    · next exit u body =>
      cases exit with
      | thrown y =>
        cases run
        exact ⟨_, _, body⟩
      | raised e => cases run
      | outOfFuel => cases run

/-! ## Loops -/

namespace Loops

def rounds (step : EvalM (Option Value)) (last : Value → EvalM Value) : Nat → Value → EvalM Value
  | 0, result => last result
  | count + 1, result => do
    match ← turn step with
    | .finished => return result
    | .broken payload => return payload
    | .ran value => rounds step last count value

def afterTurn (step : EvalM (Option Value)) (last : Value → EvalM Value) (left : Nat)
    (result : Value) : Turn → EvalM Value
  | .finished => pure result
  | .broken payload => pure payload
  | .ran value => rounds step last left value

theorem rounds_succ (step : EvalM (Option Value)) (last : Value → EvalM Value) (left : Nat)
    (result : Value) :
    rounds step last (left + 1) result = turn step >>= afterTurn step last left result :=
  congrArg (turn step >>= ·) (funext fun ended => by cases ended <;> rfl)

theorem times_eq_rounds (ev : Evaluator) (body : BlockRef) (count : Nat) (result : Value) :
    times ev body count result = rounds (some <$> ev.all body) pure count result := by
  induction count generalizing result with
  | zero => rfl
  | succ count ih =>
    refine congrArg (turn (some <$> ev.all body) >>= ·) (funext fun turn => ?_)
    cases turn with
    | finished => rfl
    | broken payload => rfl
    | ran value => exact ih value

theorem untilFinished_eq_rounds (step : EvalM (Option Value)) (fuel : Nat) (result : Value) :
    untilFinished step fuel result = rounds step (fun _ => throw .outOfFuel) fuel result := by
  induction fuel generalizing result with
  | zero => rfl
  | succ fuel ih =>
    refine congrArg (turn step >>= ·) (funext fun turn => ?_)
    cases turn with
    | finished => rfl
    | broken payload => rfl
    | ran value => exact ih value

/-- What a loop lets out is neither a break nor a continue. -/
theorem claimed_eq_none (unclaimed : claimed x = none) :
    x.isNamed .break = false ∧ x.isNamed .continue = false := by
  unfold claimed at unclaimed
  split at unclaimed
  · cases unclaimed
  · split at unclaimed
    · cases unclaimed
    · next noBreak noContinue =>
      exact ⟨Bool.eq_false_iff.mpr noBreak, Bool.eq_false_iff.mpr noContinue⟩

theorem claimed_break (named : x.isNamed .break = true) : claimed x = some (.broken x.payload) :=
  if_pos named

theorem claimed_continue (named : x.isNamed .continue = true) : claimed x = some (.ran .unset) := by
  have noBreak : ¬ x.isNamed .break = true :=
    fun broken => absurd (Thrown.eq_of_isNamed named broken) (by decide)
  rw [claimed, if_neg noBreak, if_pos named]

theorem turn_claimed {step : EvalM (Option Value)} {ended : Turn}
    (run : step s = .error (.thrown x) t) (claims : claimed x = some ended) :
    turn step s = .ok ended t := by
  simp only [turn, claiming, run, claims]

section Rounds

variable {step : EvalM (Option Value)} {last : Value → EvalM Value} {count round : Nat}
  {result v : Value}

theorem rounds_succ_broken {payload : Value} (broken : turn step s = .ok (.broken payload) t) :
    rounds step last (count + 1) result s = .ok payload t := by
  change (turn step >>= _) s = _
  simp only [Bind.bind, EStateM.bind, broken]
  rfl

theorem rounds_succ_ran (ran : turn step s = .ok (.ran v) t) :
    rounds step last (count + 1) result s = rounds step last count v t := by
  change (turn step >>= _) s = _
  simp only [Bind.bind, EStateM.bind, ran]

inductive Begins (step : EvalM (Option Value)) (s : State) : Nat → State → Prop where
  | first : Begins step s 0 s
  | next {round : Nat} {t t' : State} {v : Value} (before : Begins step s round t)
      (ran : turn step t = .ok (.ran v) t') : Begins step s (round + 1) t'

theorem Begins.later (ran : turn step s = .ok (.ran v) u) (begins : Begins step u round t) :
    Begins step s (round + 1) t := by
  induction begins with
  | first => exact .next .first ran
  | next _ ran ih => exact .next ih ran

/-- No round lets a break or a continue out. -/
theorem rounds_thrown (lasts : ∀ result s t, last result s ≠ .error (.thrown x) t)
    (run : rounds step last count result s = .error (.thrown x) t) : claimed x = none := by
  induction count generalizing s result with
  | zero => exact absurd run (lasts result s t)
  | succ count ih =>
    rcases bind_eq_error run with here | ⟨ended, u, -, later⟩
    · exact claiming_thrown here
    · cases ended with
      | finished => cases later
      | broken payload => cases later
      | ran v => exact ih later

end Rounds

/-! ### What a loop asks -/

section Asked

variable {step : Evaluator → EvalM (Option Value)} {last : Value → EvalM Value} {count : Nat}
  {result : Value}

/-- What a loop asks it asks in one of its rounds. -/
theorem exists_round (asks : Asks (fun ev => rounds (step ev) last count result) ev s q u) :
    ∃ round t v, round < count ∧ Begins (step ev) s round t ∧ Asks step ev t q u ∧
      rounds (step ev) last count result s = rounds (step ev) last (count - round) v t := by
  induction count generalizing s result with
  | zero => exact absurd asks (Asks.not_of_const _)
  | succ count ih =>
    simp only [rounds_succ] at asks
    rcases Asks.of_bind asks with here | ⟨ended, t, ran, later⟩
    · exact ⟨0, s, result, Nat.succ_pos count, .first, here.of_claiming, rfl⟩
    · cases ended with
      | finished => exact absurd later (Asks.not_of_const _)
      | broken payload => exact absurd later (Asks.not_of_const _)
      | ran v =>
        obtain ⟨round, t', v', below, begins, asks, same⟩ := ih later
        refine ⟨round + 1, t', v', Nat.succ_lt_succ below, begins.later ran, asks, ?_⟩
        rw [rounds_succ_ran ran, same, Nat.succ_sub_succ]

end Asked

/-! ### Calls of loops -/

structure Repetition where
  step : Evaluator → EvalM (Option Value)
  last : Value → EvalM Value
  count : Nat → Nat

inductive Repeats (args : Args) : Native → Repetition → Prop where
  | loopTimes {count : Int64} {body : BlockRef} (number : args.value 0 = .integer count)
      (block : args.value 1 = .block body) :
      Repeats args .loopTimes ⟨fun ev => some <$> ev.all body, pure, fun _ => count.toInt.toNat⟩
  | whileTrue {condition body : BlockRef} (test : args.value 0 = .block condition)
      (block : args.value 1 = .block body) :
      Repeats args .whileTrue
        ⟨fun ev => do
            if (← ev.all condition).isTruthy then return some (← ev.all body) else return none,
          fun _ => throw .outOfFuel, id⟩
  | forever {body : BlockRef} (block : args.value 0 = .block body) :
      Repeats args .forever ⟨fun ev => some <$> ev.all body, fun _ => throw .outOfFuel, id⟩

def Repetition.runFrom (r : Repetition) (ev : Evaluator) (round : Nat) (result : Value) :
    EvalM Value :=
  rounds (r.step ev) r.last (r.count ev.fuel - round) result

end Loops

def Native.IsLoop : Native → Prop
  | .loopTimes | .whileTrue | .forever => True
  | _ => False

namespace Loops

variable {args : Args} {l : Native} {r : Repetition}

theorem Repeats.run_eq (repeats : Repeats args l r) (ev : Evaluator) :
    l.run ev args = r.runFrom ev 0 .none := by
  cases repeats with
  | loopTimes number block =>
    simp only [Native.run, Loops.loopTimes, number, block, expectInteger, expectBlock, pure_bind]
    exact times_eq_rounds ev _ _ _
  | whileTrue test block =>
    simp only [Native.run, Loops.whileTrue, test, block, expectBlock, pure_bind]
    exact untilFinished_eq_rounds _ _ _
  | forever block =>
    simp only [Native.run, Loops.forever, block, expectBlock, pure_bind]
    exact untilFinished_eq_rounds _ _ _

theorem Repeats.routine (repeats : Repeats args l r) : Routine ClaimsNothing r.step := by
  cases repeats with
  | loopTimes _ _ => exact .map some (.all _)
  | whileTrue _ _ =>
    exact .bind (.all _) fun _ => .ite (.bind (.all _) fun _ => .pure _) (.pure none)
  | forever _ => exact .map some (.all _)

theorem Repeats.last_ne (repeats : Repeats args l r) (result : Value) (s t : State) :
    r.last result s ≠ .error (.thrown x) t := by
  cases repeats <;> exact nofun

/-- A loop repeats something, or its arguments are refused. -/
theorem repeats_or_refused (loop : l.IsLoop) (args : Args) :
    (∃ r, Repeats args l r) ∨ ∃ e, ∀ ev, l.run ev args = throw (.raised e) := by
  have integer (function argument : String) (v : Value) :
      (∃ n, v = .integer n) ∨ ∃ e, expectInteger function argument v = throw (.raised e) := by
    cases v <;> first | exact .inl ⟨_, rfl⟩ | exact .inr ⟨_, rfl⟩
  cases l with
  | loopTimes =>
    rcases integer "loop" "count" (args.value 0) with ⟨n, count⟩ | ⟨e, no⟩
    · rcases expectBlock_outcome "loop" "body" (args.value 1) with ⟨body, given⟩ | ⟨e, no⟩
      · exact .inl ⟨_, .loopTimes count given⟩
      · refine .inr ⟨e, fun ev => ?_⟩
        rw [Native.run, Loops.loopTimes, count, no]
        rfl
    · refine .inr ⟨e, fun ev => ?_⟩
      rw [Native.run, Loops.loopTimes, no]
      rfl
  | whileTrue =>
    rcases expectBlock_outcome "while" "condition" (args.value 0) with ⟨condition, test⟩ | ⟨e, no⟩
    · rcases expectBlock_outcome "while" "body" (args.value 1) with ⟨body, given⟩ | ⟨e, no⟩
      · exact .inl ⟨_, .whileTrue test given⟩
      · refine .inr ⟨e, fun ev => ?_⟩
        rw [Native.run, Loops.whileTrue, test, no]
        rfl
    · refine .inr ⟨e, fun ev => ?_⟩
      rw [Native.run, Loops.whileTrue, no]
      rfl
  | forever =>
    rcases expectBlock_outcome "forever" "body" (args.value 0) with ⟨body, given⟩ | ⟨e, no⟩
    · exact .inl ⟨_, .forever given⟩
    · refine .inr ⟨e, fun ev => ?_⟩
      rw [Native.run, Loops.forever, no]
      rfl
  | _ => exact loop.elim

/-- A loop lets neither a break nor a continue out. -/
theorem run_thrown (loop : l.IsLoop) (run : l.run ev args s = .error (.thrown x) t) :
    x.isNamed .break = false ∧ x.isNamed .continue = false := by
  rcases repeats_or_refused loop args with ⟨r, repeats⟩ | ⟨e, refused⟩
  · rw [repeats.run_eq] at run
    exact claimed_eq_none (rounds_thrown repeats.last_ne run)
  · rw [refused] at run
    cases run

/-- An exit that a loop meets meets it in one of its rounds, which it leaves. -/
theorem exists_round_thrown (loop : l.IsLoop) (asks : Asks (fun ev => l.run ev args) ev s q u)
    (answer : ThrowsAfter (q.ask ev) u x after) :
    ∃ r round t, Repeats args l r ∧ round < r.count ev.fuel ∧ Begins (r.step ev) s round t ∧
      Asks r.step ev t q u ∧ ThrowsAfter (r.step ev) t x after ∧
      ∃ v, l.run ev args s = r.runFrom ev round v t := by
  rcases repeats_or_refused loop args with ⟨r, repeats⟩ | ⟨e, refused⟩
  · have rounds : Asks (fun ev' => Loops.rounds (r.step ev') r.last (r.count ev.fuel) .none)
        ev s q u := by
      obtain ⟨ev', fuel, others, differs⟩ := asks
      refine ⟨ev', fuel, others, ?_⟩
      simpa only [repeats.run_eq, Repetition.runFrom, fuel, Nat.sub_zero] using differs
    obtain ⟨round, t, v, below, begins, asks, same⟩ := exists_round rounds
    have thrown := asks.throws repeats.routine answer id
    refine ⟨r, round, t, repeats, below, begins, asks, thrown, v, ?_⟩
    rw [repeats.run_eq, Repetition.runFrom, Repetition.runFrom, Nat.sub_zero, same]
  · simp only [refused] at asks
    exact absurd asks (Asks.not_of_const _)

theorem Repetition.runFrom_broken {ev : Evaluator} {round : Nat} {v : Value}
    (below : round < r.count ev.fuel) (thrown : ThrowsAfter (r.step ev) s x after)
    (named : x.isNamed .break = true) : YieldsAfter (r.runFrom ev round v) s x.payload after := by
  obtain ⟨t, run, effects⟩ := thrown
  obtain ⟨left, more⟩ := Nat.exists_eq_add_of_lt below
  refine ⟨t, ?_, effects⟩
  rw [runFrom, show r.count ev.fuel - round = left + 1 by omega]
  exact rounds_succ_broken (turn_claimed run (claimed_break named))

theorem Repetition.runFrom_continued {ev : Evaluator} {round : Nat} {v : Value}
    (below : round < r.count ev.fuel) (thrown : ThrowsAfter (r.step ev) s x after)
    (named : x.isNamed .continue = true) :
    ∃ t, SameEffects after t ∧ r.runFrom ev round v s = r.runFrom ev (round + 1) .unset t := by
  obtain ⟨t, run, effects⟩ := thrown
  obtain ⟨left, more⟩ := Nat.exists_eq_add_of_lt below
  refine ⟨t, effects, ?_⟩
  rw [runFrom, runFrom, show r.count ev.fuel - round = left + 1 by omega,
    show r.count ev.fuel - (round + 1) = left by omega]
  exact rounds_succ_ran (turn_claimed run (claimed_continue named))

end Loops

end BlockScript
