import BlockScript.Proofs.Progress
import BlockScript.Proofs.Selection

/-!
# Pairs of conditions and bodies

Case takes the expressions of its block in pairs, a condition and a body, whatever tokens they are
made of. Each expression is evaluated in the state that was left by what came before it, so that an
outcome with its last state says that nothing was evaluated twice and nothing in another order.

Behind a false condition the body is evaluated as an expression and then left alone. Behind a true
one it is taken: a block is run, unless it is to be kept as it is, and any other value is itself.
Without all pairs being asked for, a true condition is the last.
-/

namespace BlockScript.Conditionals

inductive BodyTaken (ev : Evaluator) (only : Bool) (s : State) :
    Value → EStateM.Result Exit State Value → Prop where
  | run {r : BlockRef} (evaluated : only = false) : BodyTaken ev only s (.block r) (ev.all r s)
  | kept {v : Value} (plain : only = true ∨ ∀ r, v ≠ .block r) : BodyTaken ev only s v (.ok v s)

/-- From a state and a position on, pairs were gone through to another state and position. For each
pair there is what its body gave, or nothing when the condition was false. -/
inductive PairsPassed (ev : Evaluator) (block : BlockRef) (every only : Bool) :
    State → Nat → List (Option Value) → State → Nat → Prop where
  | nil (s : State) (position : Nat) : PairsPassed ev block every only s position [] s position
  | fails {s t u w : State} {position middle next last : Nat} {condition body : Value}
      {given : List (Option Value)}
      (evaluated : ev.next block position s = .ok (some (condition, middle)) t)
      (fails : condition.isTruthy = false)
      (evaluated' : ev.next block middle t = .ok (some (body, next)) u)
      (rest : PairsPassed ev block every only u next given w last) :
      PairsPassed ev block every only s position (none :: given) w last
  | holds {s t u v w : State} {position middle next last : Nat} {condition body result : Value}
      {given : List (Option Value)} (further : every = true)
      (evaluated : ev.next block position s = .ok (some (condition, middle)) t)
      (set : condition.isUnset = false) (holds : condition.isTruthy = true)
      (evaluated' : ev.next block middle t = .ok (some (body, next)) u)
      (taken : BodyTaken ev only u body (.ok result v))
      (rest : PairsPassed ev block every only v next given w last) :
      PairsPassed ev block every only s position (some result :: given) w last

inductive PairStops (ev : Evaluator) (block : BlockRef) (every only : Bool) (result : Value)
    (s : State) (position : Nat) : EStateM.Result Exit State Value → Prop where
  /-- There is no pair. -/
  | tail {t : State} (ended : ev.next block position s = .ok none t) :
      PairStops ev block every only result s position (.ok result t)
  | condition {t : State} {exit : Exit} (failed : ev.next block position s = .error exit t) :
      PairStops ev block every only result s position (.error exit t)
  | unset {t : State} {condition : Value} {middle : Nat}
      (evaluated : ev.next block position s = .ok (some (condition, middle)) t)
      (unset : condition.isUnset = true) :
      PairStops ev block every only result s position (.error (.raised { cause := .noReturn }) t)
  | noBody {t u : State} {condition : Value} {middle : Nat}
      (evaluated : ev.next block position s = .ok (some (condition, middle)) t)
      (set : condition.isUnset = false) (ended : ev.next block middle t = .ok none u) :
      PairStops ev block every only result s position (.error (.raised { cause := .pastEnd }) u)
  | body {t u : State} {condition : Value} {middle : Nat} {exit : Exit}
      (evaluated : ev.next block position s = .ok (some (condition, middle)) t)
      (set : condition.isUnset = false) (failed : ev.next block middle t = .error exit u) :
      PairStops ev block every only result s position (.error exit u)
  /-- The condition is true, and no more pairs are asked for. -/
  | decides {t u : State} {condition body : Value} {middle next : Nat}
      {outcome : EStateM.Result Exit State Value} (first : every = false)
      (evaluated : ev.next block position s = .ok (some (condition, middle)) t)
      (set : condition.isUnset = false) (holds : condition.isTruthy = true)
      (evaluated' : ev.next block middle t = .ok (some (body, next)) u)
      (taken : BodyTaken ev only u body outcome) :
      PairStops ev block every only result s position outcome
  | exits {t u w : State} {condition body : Value} {middle next : Nat} {exit : Exit}
      (evaluated : ev.next block position s = .ok (some (condition, middle)) t)
      (set : condition.isUnset = false) (holds : condition.isTruthy = true)
      (evaluated' : ev.next block middle t = .ok (some (body, next)) u)
      (taken : BodyTaken ev only u body (.error exit w)) :
      PairStops ev block every only result s position (.error exit w)

def lastGiven (otherwise : Value) (given : List (Option Value)) : Value :=
  (given.filterMap id).getLastD otherwise

inductive PairsEnd (ev : Evaluator) (block : BlockRef) (every only : Bool) (bound : Nat)
    (otherwise : Value) (s : State) (position : Nat) : EStateM.Result Exit State Value → Prop where
  | stops {t : State} {last : Nat} {given : List (Option Value)}
      {outcome : EStateM.Result Exit State Value}
      (passed : PairsPassed ev block every only s position given t last)
      (within : given.length < bound)
      (stops : PairStops ev block every only (lastGiven otherwise given) t last outcome) :
      PairsEnd ev block every only bound otherwise s position outcome
  | outOfFuel {t : State} {last : Nat} {given : List (Option Value)}
      (passed : PairsPassed ev block every only s position given t last)
      (spent : given.length = bound) :
      PairsEnd ev block every only bound otherwise s position (.error .outOfFuel t)

variable {ev : Evaluator} {block : BlockRef} {every only : Bool} {s t : State}
  {position last bound : Nat} {otherwise result : Value} {given : List (Option Value)}
  {outcome : EStateM.Result Exit State Value}

theorem bodyTaken_iff {body : Value} :
    BodyTaken ev only s body outcome ↔ ev.branch only body s = outcome := by
  constructor
  · rintro (evaluated | plain)
    · rw [evaluated]
      rfl
    · cases body with
      | block r =>
        obtain rfl | other := plain
        · rfl
        · exact (other r rfl).elim
      | _ => rfl
  · rintro rfl
    obtain ⟨r, rfl⟩ | plain := block_or_plain body
    · cases only with
      | false => exact .run rfl
      | true => exact .kept (.inl rfl)
    · cases body with
      | block r => exact (plain r rfl).elim
      | _ => exact .kept (.inr plain)

theorem lastGiven_some (otherwise result : Value) (given : List (Option Value)) :
    lastGiven otherwise (some result :: given) = lastGiven result given := by
  rw [lastGiven, List.filterMap_cons, id_eq]
  exact List.getLastD_cons ..

theorem set_of_false {v : Value} (fails : v.isTruthy = false) : v.isUnset = false := by
  cases v with
  | unset => cases fails
  | _ => rfl

/-! ## What case does -/

theorem PairsPassed.casePairs (bound : Nat) (otherwise : Value)
    (passed : PairsPassed ev block every only s position given t last) :
    casePairs ev block every only (bound + given.length) position otherwise s =
      casePairs ev block every only bound last (lastGiven otherwise given) t := by
  induction passed generalizing otherwise with
  | nil => rfl
  | fails evaluated fails evaluated' _ ih =>
    rw [List.length_cons, ← Nat.add_assoc,
      casePairs_body every only _ otherwise evaluated (set_of_false fails) evaluated', fails]
    exact ih otherwise
  | @holds _ _ _ _ _ _ _ _ _ _ _ result _ further evaluated set holds evaluated' taken _ ih =>
    subst further
    rw [List.length_cons, ← Nat.add_assoc,
      casePairs_body true only _ otherwise evaluated set evaluated', holds, lastGiven_some,
      ← ih result]
    exact bind_of_ok (bodyTaken_iff.mp taken) _

theorem PairStops.casePairs (n : Nat)
    (stops : PairStops ev block every only result s position outcome) :
    casePairs ev block every only (n + 1) position result s = outcome := by
  cases stops with
  | tail ended => exact bind_of_ok ended _
  | condition failed => exact bind_of_error failed _
  | unset evaluated unset => exact (bind_of_ok evaluated _).trans (congrFun (if_pos unset) _)
  | noBody evaluated set ended =>
    exact (casePairs_condition every only n result evaluated set).trans (bind_of_ok ended _)
  | body evaluated set failed =>
    exact (casePairs_condition every only n result evaluated set).trans (bind_of_error failed _)
  | decides first evaluated set holds evaluated' taken =>
    subst first
    rw [casePairs_body false only n result evaluated set evaluated', holds]
    cases outcome with
    | ok value u => exact bind_of_ok (bodyTaken_iff.mp taken) _
    | error exit u => exact bind_of_error (bodyTaken_iff.mp taken) _
  | exits evaluated set holds evaluated' taken =>
    rw [casePairs_body every only n result evaluated set evaluated', holds]
    exact bind_of_error (bodyTaken_iff.mp taken) _

theorem PairsEnd.casePairs
    (ends : PairsEnd ev block every only bound otherwise s position outcome) :
    casePairs ev block every only bound position otherwise s = outcome := by
  cases ends with
  | @stops t last given _ passed within stops =>
    obtain ⟨n, rfl⟩ : ∃ n, bound = n + 1 + given.length := ⟨bound - 1 - given.length, by omega⟩
    rw [passed.casePairs]
    exact stops.casePairs n
  | outOfFuel passed spent =>
    rw [← spent, ← Nat.zero_add (List.length _), passed.casePairs]
    rfl

/-- A first pair that is passed leaves one less to go through. -/
theorem PairsEnd.cons {t : State} {next : Nat} {first : Option Value}
    (pass : ∀ {given : List (Option Value)} {u : State} {last : Nat},
      PairsPassed ev block every only t next given u last →
        PairsPassed ev block every only s position (first :: given) u last)
    (ends : PairsEnd ev block every only bound (lastGiven otherwise [first]) t next outcome) :
    PairsEnd ev block every only (bound + 1) otherwise s position outcome := by
  have onward (given : List (Option Value)) :
      lastGiven otherwise (first :: given) = lastGiven (lastGiven otherwise [first]) given := by
    cases first with
    | none => rfl
    | some result => exact lastGiven_some ..
  cases ends with
  | stops passed within stops =>
    rw [← onward] at stops
    exact .stops (pass passed) (Nat.succ_lt_succ within) stops
  | outOfFuel passed spent => exact .outOfFuel (pass passed) (congrArg (· + 1) spent)

/-- The pairs end in one of the ways. -/
theorem pairsEnd_casePairs (ev : Evaluator) (block : BlockRef) (every only : Bool) (bound : Nat)
    (otherwise : Value) (s : State) (position : Nat) :
    PairsEnd ev block every only bound otherwise s position
      (casePairs ev block every only bound position otherwise s) := by
  induction bound generalizing otherwise s position with
  | zero => exact .outOfFuel (.nil s position) rfl
  | succ n ih =>
    have stop {outcome : EStateM.Result Exit State Value}
        (stops : PairStops ev block every only otherwise s position outcome) :
        PairsEnd ev block every only (n + 1) otherwise s position
          (casePairs ev block every only (n + 1) position otherwise s) :=
      stops.casePairs n ▸ .stops (.nil s position) (Nat.succ_pos n) stops
    have pass {t : State} {next : Nat} {first : Option Value}
        (onward : ∀ {given : List (Option Value)} {u : State} {last : Nat},
          PairsPassed ev block every only t next given u last →
            PairsPassed ev block every only s position (first :: given) u last) :
        PairsEnd ev block every only (n + 1) otherwise s position
          (casePairs ev block every only (n + 1) position otherwise s) := by
      have same := (onward (.nil t next)).casePairs n otherwise
      rw [List.length_singleton] at same
      rw [same]
      exact (ih _ t next).cons onward
    cases run : ev.next block position s with
    | error exit t => exact stop (.condition run)
    | ok step t =>
      obtain _ | ⟨condition, middle⟩ := step
      · exact stop (.tail run)
      cases set : condition.isUnset with
      | true => exact stop (.unset run set)
      | false =>
        cases run' : ev.next block middle t with
        | error exit u => exact stop (.body run set run')
        | ok step u =>
          obtain _ | ⟨body, next⟩ := step
          · exact stop (.noBody run set run')
          cases holds : condition.isTruthy with
          | false => exact pass (.fails run holds run')
          | true =>
            have taken : BodyTaken ev only u body (ev.branch only body u) := bodyTaken_iff.mpr rfl
            cases every with
            | false => exact stop (.decides rfl run set holds run' taken)
            | true =>
              cases ran : ev.branch only body u with
              | error exit w => exact stop (.exits run set holds run' (ran ▸ taken))
              | ok result w => exact pass (.holds rfl run set holds run' (ran ▸ taken))

/-- Case ends exactly as its pairs do, whatever evaluates the expressions and whatever they do to
the block. -/
theorem caseOf_eq_iff {ev : Evaluator} {args : Args} {block : BlockRef}
    (taken : args.value 0 = .block block) (s : State)
    (outcome : EStateM.Result Exit State Value) :
    caseOf ev args s = outcome ↔
      PairsEnd ev block (args.refined 1) (args.refined 2) ev.fuel .none s block.index outcome := by
  have whole : caseOf ev args s = casePairs ev block (args.refined 1) (args.refined 2) ev.fuel
      block.index .none s := by
    rw [caseOf, taken]
    rfl
  rw [whole]
  constructor
  · rintro rfl
    exact pairsEnd_casePairs ev block _ _ _ .none s block.index
  · exact PairsEnd.casePairs

def threePairs : State where
  heap :=
    { blocks := #[{ data := #[.logic false, .block ⟨1, 0⟩, .logic true, .block ⟨2, 0⟩,
          .logic true, .integer 5] },
        { data := #[.integer 1] }, { data := #[.integer 7] }] }
  env := { root := 0 }

theorem caseOf_eq_iff_threePairs :
    let args : Args := #[.block ⟨0, 0⟩, .logic true, .none]
    args.value 0 = .block ⟨0, 0⟩ ∧
      PairsPassed (evaluator 20) ⟨0, 0⟩ true false threePairs 0
        [none, some (.integer 7), some (.integer 5)] threePairs 6 ∧
      caseOf (evaluator 20) args threePairs = .ok (.integer 5) threePairs := by
  intro args
  have taken : args.value 0 = .block ⟨0, 0⟩ := rfl
  have condition₁ : (evaluator 20).next ⟨0, 0⟩ 0 threePairs =
      .ok (some (.logic false, 1)) threePairs := rfl
  have body₁ : (evaluator 20).next ⟨0, 0⟩ 1 threePairs =
      .ok (some (.block ⟨1, 0⟩, 2)) threePairs := rfl
  have condition₂ : (evaluator 20).next ⟨0, 0⟩ 2 threePairs =
      .ok (some (.logic true, 3)) threePairs := rfl
  have body₂ : (evaluator 20).next ⟨0, 0⟩ 3 threePairs =
      .ok (some (.block ⟨2, 0⟩, 4)) threePairs := rfl
  have condition₃ : (evaluator 20).next ⟨0, 0⟩ 4 threePairs =
      .ok (some (.logic true, 5)) threePairs := rfl
  have body₃ : (evaluator 20).next ⟨0, 0⟩ 5 threePairs =
      .ok (some (.integer 5, 6)) threePairs := rfl
  have ran : BodyTaken (evaluator 20) false threePairs (.block ⟨2, 0⟩)
      (.ok (.integer 7) threePairs) := .run rfl
  have kept : BodyTaken (evaluator 20) false threePairs (.integer 5)
      (.ok (.integer 5) threePairs) := .kept (.inr fun _ => nofun)
  have passed : PairsPassed (evaluator 20) ⟨0, 0⟩ true false threePairs 0
      [none, some (.integer 7), some (.integer 5)] threePairs 6 :=
    .fails condition₁ rfl body₁ (.holds rfl condition₂ rfl rfl body₂ ran
      (.holds rfl condition₃ rfl rfl body₃ kept (.nil threePairs 6)))
  have ended : (evaluator 20).next ⟨0, 0⟩ 6 threePairs = .ok none threePairs := rfl
  exact ⟨taken, passed, (caseOf_eq_iff taken threePairs _).mpr
    (.stops passed (by decide) (.tail ended))⟩

end BlockScript.Conditionals
