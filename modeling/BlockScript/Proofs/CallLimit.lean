import BlockScript.Proofs.Calling
import BlockScript.Proofs.Settings

/-!
# The limit of calls

The limit is read where a call begins, and nowhere else. A run in which no call is refused is
therefore the same under every larger limit. On a stack that is within its limit, as all stacks of a
run from such a stack are, a call is refused at the limit and only there; a refused call changes
nothing.
-/

namespace BlockScript

variable {α : Type} {s : State} {m m' : Nat}

/-! ## Refusals -/

namespace CallStack

variable {c : CallStack} {name : String}

/-- Only a stack with a limit refuses, and only when it is that deep or deeper. -/
theorem refuses_iff : c.refuses name = true ↔ ∃ limit, c.limit = some limit ∧ limit ≤ c.depth := by
  unfold refuses push
  cases c.limit with
  | none => simp
  | some limit =>
    by_cases below : c.depth < limit
    · simp [below]
    · simp [below, Nat.le_of_not_lt below]

theorem WithinLimit.refuses_iff (within : c.WithinLimit) (name : String) :
    c.refuses name = true ↔ c.limit = some c.depth := by
  rw [CallStack.refuses_iff]
  constructor
  · rintro ⟨limit, limited, reached⟩
    rw [limited, Nat.le_antisymm reached (within limit limited)]
  · intro limited
    exact ⟨c.depth, limited, le_rfl⟩

theorem WithinLimit.of_depth_le (within : c.WithinLimit) {names : Array String}
    (le : names.size ≤ c.depth) : WithinLimit { c with names } :=
  fun limit limited => le.trans (within limit limited)

end CallStack

/-- A call that begins is on the stack. A call that is refused is not, and nothing else of the state
has changed; the error tells the limit. -/
structure CallStack.Judges (c : CallStack) : Prop where
  refused_iff (name : String) : (∃ cause, c.push name = .error cause) ↔ c.limit = some c.depth
  accepted (name : String) (calls : CallStack) :
    c.push name = .ok calls → calls.WithinLimit ∧ calls.depth = c.depth + 1
  refused (ev : Evaluator) (name : String) (f : Function) (args : Args) (s : State)
      (cause : Cause) : s.calls = c → c.push name = .error cause →
    cause = .stackOverflow c.depth ∧
      invoke ev name f args s = .error (.raised (c.attach { cause })) s
  pop : c.pop.WithinLimit
  truncate (depth : Nat) : (c.truncate depth).WithinLimit

theorem CallStack.WithinLimit.judges {c : CallStack} (within : c.WithinLimit) : c.Judges where
  refused_iff name := by
    rw [← within.refuses_iff name, refuses]
    cases c.push name <;> simp
  accepted name calls pushed := ⟨withinLimit_of_push pushed, depth_of_push pushed⟩
  refused ev name f args s cause same pushed := by
    subst same
    refine ⟨?_, ?_⟩
    · have limited : s.calls.limit = some s.calls.depth := by
        rw [← within.refuses_iff name, refuses, pushed]
      unfold push at pushed
      rw [limited] at pushed
      simp only [Nat.lt_irrefl, if_false, Except.error.injEq] at pushed
      exact pushed.symm
    · rw [invoke, withCall, pushed]
  pop := within.of_depth_le (by simp [depth])
  truncate depth := within.of_depth_le (by simp [CallStack.depth])

/-! ## Runs without refused calls -/

def State.limited (s : State) (limit : Nat) : State :=
  { s with calls := { s.calls with limit := some limit } }

def refusesCall (name : String) (_ : Function) (_ : Args) (s : State) : Bool := s.calls.refuses name

/-- No call is refused, also none whose error is trapped: whatever was done in place of refused
calls, the run would be the same. -/
abbrev NeverRefused (k : Evaluator → EvalM α) (fuel : Nat) (s : State) : Prop :=
  Spares refusesCall k fuel s

section Limits

variable {mode : Bool}

theorem not_renames_same : ¬ Settings.Renames ⟨some m, mode⟩ ⟨some m', mode⟩ := by
  rintro ⟨off, on⟩
  exact Bool.false_ne_true (off.symm.trans on)

/-- A call that the smaller limit allows is allowed by the larger one. -/
theorem callsTrack_of_le (le : m ≤ m') :
    CallsTrack refusesCall ⟨some m, mode⟩ ⟨some m', mode⟩ := by
  intro mark ev ev' hev name f args u accepted
  obtain ⟨calls, pushed⟩ := CallStack.push_of_not_refuses accepted
  have below : u.calls.depth < m := by
    refine Nat.lt_of_not_le fun reached => ?_
    have refused : refusesCall name f args (u.under ⟨some m, mode⟩) = true :=
      CallStack.refuses_iff.mpr ⟨m, rfl, reached⟩
    exact Bool.false_ne_true (accepted.symm.trans refused)
  have pushed' : (u.under ⟨some m', mode⟩).calls.push name = .ok _ := if_pos (below.trans_le le)
  have run : Routine ⟨f.Claims args, fun _ => True, False⟩ fun ev => f.run ev args :=
    .function f args
  have indifferent : Permit.Indifferent ⟨f.Claims args, fun _ => True, False⟩
      ⟨some m, mode⟩ ⟨some m', mode⟩ := ⟨id, fun renames => absurd renames not_renames_same⟩
  exact (run.tracks indifferent hev).withCall pushed pushed'

theorem InStep.eq_afterwards {r r' : EStateM.Result Exit State α}
    (h : InStep ⟨some m, mode⟩ ⟨some m', mode⟩ r r') : r' = afterwards (·.limited m') r := by
  cases h with
  | ok a u => rfl
  | error renamed u =>
    cases renamed with
    | same => rfl
    | left renames => exact absurd renames not_renames_same

end Limits

/-! ## Refusals on the way -/

def misjudges (name : String) (_ : Function) (_ : Args) (s : State) : Bool :=
  s.calls.refuses name != (s.calls.limit == some s.calls.depth)

theorem not_misjudges (within : s.calls.WithinLimit) (name : String) (f : Function)
    (args : Args) : misjudges name f args s = false := by
  have judged : s.calls.refuses name = (s.calls.limit == some s.calls.depth) := by
    rw [Bool.eq_iff_iff, within.refuses_iff, beq_iff_eq]
  rw [misjudges, judged, bne_self_eq_false]

/-- Wherever a run begins within the limit, it stays within it. -/
theorem evaluatorSparing_sameWithinLimit (alarm : EvalM Value) (fuel : Nat) :
    (evaluator fuel).SameWithinLimit (evaluatorSparing misjudges alarm fuel) := by
  induction fuel with
  | zero => exact ⟨fun _ _ _ _ => rfl, fun _ _ _ _ _ => rfl, rfl⟩
  | succ fuel ih =>
    have balanced := evaluator_balanced fuel
    refine ⟨fun block index => ?_, fun name f args s within => ?_, rfl⟩
    · exact (Routine.expression block index).sameWithinLimit balanced ih
    · have body := (Routine.function f args).sameWithinLimit balanced ih
      exact (if_neg (by rw [not_misjudges within]; exact Bool.false_ne_true)).trans
        (body.withCall name s within)

theorem spares_misjudges {k : Evaluator → EvalM α} (routine : Routine ClaimsNothing k)
    (fuel : Nat) (within : s.calls.WithinLimit) : Spares misjudges k fuel s := fun alarm =>
  routine.sameWithinLimit (evaluator_balanced fuel) (evaluatorSparing_sameWithinLimit alarm fuel) s
    within

/-! ## The limit as a whole -/

/-- What the limit of calls does to whatever is evaluated from a state. A limit that no call reached
can be raised unseen; and within the limit, calls are refused at the limit only. -/
structure CallLimit (fuel : Nat) (s : State) (m m' : Nat) : Prop where
  next (block : BlockRef) (index : Nat) :
    NeverRefused (fun ev => ev.next block index) fuel (s.limited m) →
      (evaluator fuel).next block index (s.limited m') =
        afterwards (·.limited m') ((evaluator fuel).next block index (s.limited m))
  all (block : BlockRef) : NeverRefused (fun ev => ev.all block) fuel (s.limited m) →
    (evaluator fuel).all block (s.limited m') =
      afterwards (·.limited m') ((evaluator fuel).all block (s.limited m))
  reduce (block : BlockRef) : NeverRefused (fun ev => ev.reduce block) fuel (s.limited m) →
    (evaluator fuel).reduce block (s.limited m') =
      afterwards (·.limited m') ((evaluator fuel).reduce block (s.limited m))
  invoke (name : String) (f : Function) (args : Args) :
    NeverRefused (fun ev => ev.invoke name f args) fuel (s.limited m) →
      (evaluator fuel).invoke name f args (s.limited m') =
        afterwards (·.limited m') ((evaluator fuel).invoke name f args (s.limited m))
  complete (block : BlockRef) : NeverRefused (fun ev => ev.all block) fuel (s.limited m) →
    Interpreter.complete (evaluator fuel) block (s.limited m') =
      afterwards (·.limited m') (Interpreter.complete (evaluator fuel) block (s.limited m))
  run (source : String) :
    (∀ block t, Interpreter.loadSource source (s.limited m) = .ok (block, t) →
      NeverRefused (fun ev => ev.all block) Interpreter.fuel t) →
    Interpreter.run source (s.limited m') =
      ((Interpreter.run source (s.limited m)).1,
        (Interpreter.run source (s.limited m)).2.limited m')
  judges (c : CallStack) : c.WithinLimit → c.Judges
  judgesNext (block : BlockRef) (index : Nat) :
    s.calls.WithinLimit → Spares misjudges (fun ev => ev.next block index) fuel s
  judgesAll (block : BlockRef) :
    s.calls.WithinLimit → Spares misjudges (fun ev => ev.all block) fuel s
  judgesInvoke (name : String) (f : Function) (args : Args) :
    s.calls.WithinLimit → Spares misjudges (fun ev => ev.invoke name f args) fuel s

theorem call_limit_invisible (fuel : Nat) (s : State) (le : m ≤ m') : CallLimit fuel s m m' := by
  have inStep {α : Type} {k : Evaluator → EvalM α}
      (routine : Routine ⟨ClaimsNothing, fun _ => True, False⟩ k)
      (never : NeverRefused k fuel (s.limited m)) :
      InStep ⟨some m, s.exitAsReturn⟩ ⟨some m', s.exitAsReturn⟩
        (k (evaluator fuel) (s.limited m)) (k (evaluator fuel) (s.limited m')) :=
    Spares.inStep (u := s) never routine (callsTrack_of_le le) id
  exact
    { next := fun block index never => (inStep (.next block index) never).eq_afterwards
      all := fun block never => (inStep (.all block) never).eq_afterwards
      reduce := fun block never => (inStep (.reduce block) never).eq_afterwards
      invoke := fun name f args never => (inStep (.invoke name f args) never).eq_afterwards
      complete := fun block never =>
        (Interpreter.complete_inStep (inStep (.all block) never)).eq_afterwards
      run := fun source never => by
        obtain ⟨v, left, whole⟩ := Interpreter.run_inStep (u := s) fun block t loaded =>
          Spares.inStep (never block _ loaded) (.all block) (callsTrack_of_le le) id
        refine whole.trans (Prod.ext rfl ?_)
        rw [show (Interpreter.run source (s.limited m)).2 = _ from left]
        rfl
      judges := fun _ within => within.judges
      judgesNext := fun block index within => spares_misjudges (.next block index) fuel within
      judgesAll := fun block within => spares_misjudges (.all block) fuel within
      judgesInvoke := fun name f args within => spares_misjudges (.invoke name f args) fuel within }

/-- A program that traps the error of calling a function that is one word, bound to nothing. -/
def calling : State where
  heap :=
    { blocks := #[{ data := #[.word .word "attempt", .block ⟨1, 0⟩] },
        { data := #[.word .word "f"] }, { data := #[.word .word "g"] }]
      frames := #[.ofFields [("attempt", .function (.native .attempt)),
        ("f", .function (.user 0 [] ⟨2, 0⟩))]] }
  env := { root := 0 }

def attempting : State :=
  { calling.limited 2 with calls := { limit := some 2, names := #["attempt"] } }

def attempted : State :=
  { calling.limited 2 with
    heap := { calling.heap with frames := calling.heap.frames.push {} }
    recovery := { nextToken := 1 } }

def unbound : EvalError := { cause := .noValue "g", backtrace := some ["f", "attempt"] }

theorem invoke_attempt {ev : Evaluator} (failed : guarded (ev.all ⟨1, 0⟩) attempting =
      .ok (.error unbound) { attempted with calls := attempting.calls }) :
    invoke ev "attempt" (.native .attempt) #[.block ⟨1, 0⟩] (calling.limited 2) =
      .ok .none attempted := by
  have ran : (Function.native .attempt).run ev #[.block ⟨1, 0⟩] attempting =
      .ok .none { attempted with calls := attempting.calls } := bind_of_ok failed _
  exact withCall_of_ok rfl ran

theorem all_attempt {ev : Evaluator} (inner : Evaluator)
    (next : ∀ position, ev.next ⟨0, 0⟩ position = expression inner ⟨0, 0⟩ position)
    (ran : inner.invoke "attempt" (.native .attempt) #[.block ⟨1, 0⟩] (calling.limited 2) =
      .ok .none attempted)
    (literal : inner.next ⟨0, 0⟩ 1 (calling.limited 2) =
      .ok (some (.block ⟨1, 0⟩, 2)) (calling.limited 2))
    (enough : ev.fuel = 6) (enough' : inner.fuel = 5) :
    ev.all ⟨0, 0⟩ (calling.limited 2) = .ok .none attempted := by
  have bound : (calling.limited 2).env.lookup (calling.limited 2).heap "attempt" =
      some (.function (.native .attempt)) := by with_unfolding_all rfl
  have taken : gatherArg inner "attempt" ⟨"block", .normal⟩ ⟨0, 0⟩ 1 (calling.limited 2) =
      .ok (.block ⟨1, 0⟩, 2) (calling.limited 2) := bind_of_ok literal _
  refine all_single ((congrFun (next 0) _).trans ?_) ((congrFun (next 2) _).trans ?_) enough
  · exact (Names.word bound).expression_call rfl (gatherParams_step [] taken) rfl ran
      (State.operatorAt?_tail rfl) enough'
  · exact expression_tail rfl

theorem call_limit_invisible_calling :
    NeverRefused (fun ev => ev.all ⟨0, 0⟩) 6 (calling.limited 2) ∧
      ¬ NeverRefused (fun ev => ev.all ⟨0, 0⟩) 6 (calling.limited 1) ∧
      (evaluator 6).all ⟨0, 0⟩ (calling.limited 3) =
        afterwards (·.limited 3) ((evaluator 6).all ⟨0, 0⟩ (calling.limited 2)) := by
  have never : NeverRefused (fun ev => ev.all ⟨0, 0⟩) 6 (calling.limited 2) := by
    intro alarm
    have failed : guarded ((evaluator 4).all ⟨1, 0⟩) attempting =
        .ok (.error unbound) { attempted with calls := attempting.calls } := by
      with_unfolding_all rfl
    have spared : guarded ((evaluatorSparing refusesCall alarm 4).all ⟨1, 0⟩) attempting =
        .ok (.error unbound) { attempted with calls := attempting.calls } := by
      with_unfolding_all rfl
    have literal : Value.IsLiteral (.block ⟨1, 0⟩) := fun _ _ _ => rfl
    have free : (calling.limited 2).operatorAt? ⟨0, 0⟩ 2 = none := State.operatorAt?_tail rfl
    have whole : (evaluator 6).all ⟨0, 0⟩ (calling.limited 2) = .ok .none attempted :=
      all_attempt (evaluator 5) (fun _ => rfl) (invoke_attempt failed)
        (next_literal 3 literal rfl free) rfl rfl
    have whole' : (evaluatorSparing refusesCall alarm 6).all ⟨0, 0⟩ (calling.limited 2) =
        .ok .none attempted :=
      all_attempt (evaluatorSparing refusesCall alarm 5) (fun _ => rfl) (invoke_attempt spared)
        (expression_literal literal rfl free rfl) rfl rfl
    exact whole'.trans whole.symm
  have refused : ¬ NeverRefused (fun ev => ev.all ⟨0, 0⟩) 6 (calling.limited 1) := by
    intro never
    have trapped : (evaluator 6).all ⟨0, 0⟩ (calling.limited 1) =
        .ok .none { calling.limited 1 with recovery := { nextToken := 1 } } := by
      with_unfolding_all rfl
    have stopped := (never (stop "")).trans trapped
    have ended : (evaluatorSparing refusesCall (stop "") 6).all ⟨0, 0⟩ (calling.limited 1) =
        .error .outOfFuel { calling.limited 1 with recovery := { nextToken := 1 } } := by
      with_unfolding_all rfl
    cases ended.symm.trans stopped
  exact ⟨never, refused, (call_limit_invisible 6 calling (by decide)).all ⟨0, 0⟩ never⟩

end BlockScript
