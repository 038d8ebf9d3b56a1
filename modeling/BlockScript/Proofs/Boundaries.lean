import BlockScript.Interpreter
import BlockScript.Proofs.Rounds

/-!
# Where exits stop

A break or continue stops at the innermost loop around the code that throws it, a return or exit at
the innermost function made by a program, a quit at the top level. On the way an exit passes through
every construct that does not claim it, unchanged.
-/

namespace BlockScript

variable {s t u : State} {ev : Evaluator} {q : Request} {x : Thrown} {after : State}

/-! ## Functions -/

theorem claimReturn_apply (body : EvalM Value) (s : State) :
    claimReturn body s =
      match body s with
      | .error (.thrown x) t =>
        if x.isNamed .return || x.isNamed .exit then .ok x.payload t else .error (.thrown x) t
      | ended => ended := by
  unfold claimReturn claiming
  cases body s with
  | ok v t => rfl
  | error exit t =>
    cases exit with
    | thrown x =>
      dsimp only
      cases x.isNamed .return || x.isNamed .exit <;> rfl
    | raised e => rfl
    | outOfFuel => rfl

/-- A function made by a program lets neither a return nor an exit out. -/
theorem runBody_thrown {params : List Param} {body : BlockRef} {args : Args}
    (run : runBody ev params body args s = .error (.thrown x) t) :
    x.isNamed .return = false ∧ x.isNamed .exit = false := by
  rcases bind_eq_error run with made | ⟨frame, u, -, claimed⟩
  · cases made
  · have unclaimed := claiming_thrown claimed
    split at unclaimed
    · cases unclaimed
    · next neither => simpa using neither

/-- A return or exit that the body meets ends it. -/
theorem runBody_returns {params : List Param} {body : BlockRef} {args : Args}
    (asks : Asks (fun ev => runBody ev params body args) ev s q u)
    (answer : ThrowsAfter (q.ask ev) u x after)
    (named : x.isNamed .return = true ∨ x.isNamed .exit = true) :
    YieldsAfter (runBody ev params body args) s x.payload after := by
  rcases Asks.of_bind (f := fun frame ev => claimReturn (withScope frame (ev.all body))) asks with
    here | ⟨frame, t, made, inside⟩
  · exact absurd here (Asks.not_of_const _)
  · have inner : Routine ClaimsNothing fun ev => withScope frame (ev.all body) :=
      .withScope frame (.all body)
    obtain ⟨v, run, effects⟩ := inside.of_claiming.throws inner answer id
    refine ⟨v, ?_, effects⟩
    change (alloc _ >>= fun frame => claimReturn (withScope frame (ev.all body))) s = _
    simp only [Bind.bind, EStateM.bind, made]
    rw [claimReturn_apply, run]
    exact if_pos (by simpa using named)

/-! ## The way out -/

def Request.code : (q : Request) → Evaluator → EvalM q.Answer
  | next block index => fun ev => expression ev block index
  | invoke name f args => fun ev => BlockScript.invoke ev name f args

def Request.Claims : Request → Heap → Exit → Prop
  | next _ _ => ClaimsNothing
  | invoke _ f args => f.Claims args

theorem Routine.request (q : Request) : Routine q.Claims q.code := by
  cases q with
  | next block index => exact .expression block index
  | invoke name f args => exact .call name f args

theorem Request.ask_succ (q : Request) (n : Nat) :
    q.ask (evaluator (n + 1)) = q.code (evaluator n) := by
  cases q <;> rfl

/-- An exit is thrown while a request is answered, and nothing on its way out claims it. A catch
that runs its handler has claimed an exit before and claims no other. -/
inductive Passage (x : Thrown) (after : State) : Nat → Request → State → Prop where
  | thrown {n : Nat} {q : Request} {s : State}
      (answer : q.ask (evaluator n) s = .error (.thrown x) after) : Passage x after n q s
  | through {n : Nat} {q q' : Request} {s s' : State}
      (asks : Asks q.code (evaluator n) s q' s')
      (unclaimed : ¬ q.Claims after.heap (.thrown x)) (inner : Passage x after n q' s') :
      Passage x after (n + 1) q s
  | handler {n : Nat} {name : String} {args : Args} {block : BlockRef} {handler : Handler}
      {calls : CallStack} {caught : Thrown} {q' : Request} {s s' t : State}
      (pushed : s.calls.push name = .ok calls)
      (call : Exits.CatchCall args s.heap block (some handler))
      (answer : (evaluator n).all block { s with calls } = .error (.thrown caught) t)
      (claimed : Exits.Claims args t.heap caught)
      (asks : Asks (fun ev => handler.run ev caught.payload (some caught.name)) (evaluator n) t
        q' s')
      (inner : Passage x after n q' s') :
      Passage x after (n + 1) (.invoke name (.native .catchThrown) args) s

theorem Native.IsLoop.not_claims {l : Native} {args : Args} {h : Heap} (loop : l.IsLoop)
    (noBreak : x.isNamed .break = false) (noContinue : x.isNamed .continue = false) :
    ¬ l.Claims args h (.thrown x) := by
  cases l <;> first | exact loop.elim | simp [Native.Claims, noBreak, noContinue]

theorem not_claimsReturn (h : Heap) (noReturn : x.isNamed .return = false)
    (noExit : x.isNamed .exit = false) : ¬ ClaimsReturn h (.thrown x) := by
  simp [ClaimsReturn, noReturn, noExit]

/-- What nothing claims comes out, unchanged. -/
theorem Passage.throws {n : Nat} (passage : Passage x after n q s) :
    ThrowsAfter (q.ask (evaluator n)) s x after := by
  induction passage with
  | thrown answer => exact ⟨_, answer, .refl _⟩
  | @through n q q' s s' asks unclaimed _ ih =>
    rw [Request.ask_succ]
    exact asks.throws (.request q) ih unclaimed
  | @handler n name args block handler calls caught q' s s' t pushed call answer claimed asks _
      ih =>
    have ran : Routine ClaimsNothing fun ev =>
        handler.run ev caught.payload (some caught.name) := .handlerRun _ _ handler
    obtain ⟨v, run, effects⟩ := asks.throws ran ih id
    have inside : ThrowsAfter (Exits.catchThrown (evaluator n) args) { s with calls } x after := by
      refine ⟨v, ?_, effects⟩
      rw [Exits.CatchCall.apply (s := { s with calls }) call, answer]
      dsimp only
      rw [if_pos (Exits.claims_iff.mpr claimed), ← handler.run_eq_answer, run]
    exact inside.withCall pushed

/-! ## Whole programs -/

namespace Interpreter

def Ends (source : String) (s : State) (ended : EStateM.Result Exit State Value) : Prop :=
  ∃ block t, loadSource source s = .ok (block, t) ∧ standard.all block t = ended

theorem complete_eq_ok {block : BlockRef} {completion : Completion} :
    complete ev block s = .ok completion t ↔
      (∃ v, completion = .value v ∧ ev.all block s = .ok v t) ∨
      ∃ x, completion = .quit x.payload ∧ x.isNamed .quit = true ∧
        ev.all block s = .error (.thrown x) t := by
  constructor
  · intro completed
    unfold complete at completed
    split at completed
    · next v u run =>
      cases completed
      exact .inl ⟨v, rfl, run⟩
    · next x u run =>
      split at completed
      · next quit =>
        cases completed
        exact .inr ⟨x, rfl, quit, run⟩
      · cases completed
    · cases completed
  · rintro (⟨v, rfl, run⟩ | ⟨x, rfl, quit, run⟩)
    · rw [complete, run]
    · rw [complete, run]
      exact if_pos quit

theorem complete_ne_thrown (ev : Evaluator) (block : BlockRef) (s t : State) (x : Thrown) :
    complete ev block s ≠ .error (.thrown x) t := by
  intro completed
  unfold complete at completed
  split at completed
  · cases completed
  · split at completed <;> cases completed
  · next other _ =>
    cases completed
    exact other x rfl

theorem run_eq_ok {source : String} {completion : Completion} :
    run source s = (.ok completion, t) ↔
      ∃ block u, loadSource source s = .ok (block, u) ∧
        complete standard block u = .ok completion t := by
  constructor
  · intro ran
    unfold run at ran
    split at ran
    · cases ran
    · next block u loaded =>
      split at ran
      · next completed =>
        cases ran
        exact ⟨block, u, loaded, completed⟩
      · cases ran
      · cases ran
  · rintro ⟨block, u, loaded, completed⟩
    rw [run, loaded]
    dsimp only
    rw [completed]

theorem run_eq_value {source : String} {v : Value} :
    run source s = (.ok (.value v), t) ↔ Ends source s (.ok v t) := by
  rw [run_eq_ok]
  constructor
  · rintro ⟨block, u, loaded, completed⟩
    rcases complete_eq_ok.mp completed with ⟨_, ⟨⟩, ended⟩ | ⟨_, ⟨⟩, -, -⟩
    exact ⟨block, u, loaded, ended⟩
  · rintro ⟨block, u, loaded, ended⟩
    exact ⟨block, u, loaded, complete_eq_ok.mpr (.inl ⟨v, rfl, ended⟩)⟩

theorem run_eq_quit {source : String} {payload : Value} :
    run source s = (.ok (.quit payload), t) ↔
      ∃ x : Thrown, x.isNamed .quit = true ∧ x.payload = payload ∧
        Ends source s (.error (.thrown x) t) := by
  rw [run_eq_ok]
  constructor
  · rintro ⟨block, u, loaded, completed⟩
    rcases complete_eq_ok.mp completed with ⟨_, ⟨⟩, -⟩ | ⟨x, ⟨⟩, quit, ended⟩
    exact ⟨x, quit, rfl, block, u, loaded, ended⟩
  · rintro ⟨x, quit, rfl, block, u, loaded, ended⟩
    exact ⟨block, u, loaded, complete_eq_ok.mpr (.inr ⟨x, rfl, quit, ended⟩)⟩

/-- Any other exit that reaches the top level is an error. -/
theorem run_uncaught {source : String} (ends : Ends source s (.error (.thrown x) t))
    (other : x.isNamed .quit = false) :
    run source s = (.error (.raised { cause := uncaught t.heap x }), t) := by
  obtain ⟨block, u, loaded, ended⟩ := ends
  rw [run, loaded]
  dsimp only
  rw [complete, ended]
  dsimp only
  rw [if_neg (Bool.eq_false_iff.mp other)]

end Interpreter

/-! ## Where exits stop -/

/-- Where each exit stops, however the constructs on its way are nested. -/
structure ExitsStop : Prop where
  function (ev : Evaluator) (name : String) (id : Nat) (params : List Param) (body : BlockRef)
      (args : Args) (s t : State) (x : Thrown) :
    invoke ev name (.user id params body) args s = .error (.thrown x) t →
      x.isNamed .return = false ∧ x.isNamed .exit = false
  loop (ev : Evaluator) (name : String) (l : Native) (args : Args) (s t : State) (x : Thrown) :
    l.IsLoop → invoke ev name (.native l) args s = .error (.thrown x) t →
      x.isNamed .break = false ∧ x.isNamed .continue = false
  rounds (ev : Evaluator) (l : Native) (args : Args) (r : Loops.Repetition) :
    Loops.Repeats args l r → l.run ev args = r.runFrom ev 0 .none
  /-- What nothing on the way claims comes out as it is. -/
  passes (n : Nat) (q : Request) (s : State) (x : Thrown) (after : State) :
    Passage x after n q s → ThrowsAfter (q.ask (evaluator n)) s x after
  /-- A break that reaches a loop ends it with the payload. -/
  breaks (n : Nat) (name : String) (l : Native) (args : Args) (s : State) (q : Request) (u : State)
      (x : Thrown) (after : State) :
    l.IsLoop → Asks (fun ev => invoke ev name (.native l) args) (evaluator n) s q u →
      Passage x after n q u → x.isNamed .break = true →
        YieldsAfter ((evaluator (n + 1)).invoke name (.native l) args) s x.payload after
  /-- A continue that reaches a loop ends one round; the loop goes on with the next, if any. -/
  continues (n : Nat) (name : String) (l : Native) (args : Args) (s : State) (q : Request)
      (u : State) (x : Thrown) (after : State) :
    l.IsLoop → Asks (fun ev => invoke ev name (.native l) args) (evaluator n) s q u →
      Passage x after n q u → x.isNamed .continue = true →
        ∃ calls, s.calls.push name = .ok calls ∧ ∃ r round t, Loops.Repeats args l r ∧
          Loops.Begins (r.step (evaluator n)) { s with calls } round t ∧
          Asks r.step (evaluator n) t q u ∧
          ∃ t', SameEffects after t' ∧
            l.run (evaluator n) args { s with calls } =
              r.runFrom (evaluator n) (round + 1) .unset t'
  /-- A return or exit that reaches a function made by a program ends it with the payload. -/
  returns (n : Nat) (name : String) (id : Nat) (params : List Param) (body : BlockRef) (args : Args)
      (s : State) (q : Request) (u : State) (x : Thrown) (after : State) :
    Asks (fun ev => invoke ev name (.user id params body) args) (evaluator n) s q u →
      Passage x after n q u → x.isNamed .return = true ∨ x.isNamed .exit = true →
        YieldsAfter ((evaluator (n + 1)).invoke name (.user id params body) args) s x.payload after
  /-- Every other exit leaves a loop. -/
  leavesLoop (n : Nat) (name : String) (l : Native) (args : Args) (s : State) (q : Request)
      (u : State) (x : Thrown) (after : State) :
    l.IsLoop → Asks (fun ev => invoke ev name (.native l) args) (evaluator n) s q u →
      Passage x after n q u → x.isNamed .break = false → x.isNamed .continue = false →
        ThrowsAfter ((evaluator (n + 1)).invoke name (.native l) args) s x after
  /-- Every other exit leaves a function made by a program. -/
  leavesFunction (n : Nat) (name : String) (id : Nat) (params : List Param) (body : BlockRef)
      (args : Args) (s : State) (q : Request) (u : State) (x : Thrown) (after : State) :
    Asks (fun ev => invoke ev name (.user id params body) args) (evaluator n) s q u →
      Passage x after n q u → x.isNamed .return = false → x.isNamed .exit = false →
        ThrowsAfter ((evaluator (n + 1)).invoke name (.user id params body) args) s x after
  complete (ev : Evaluator) (block : BlockRef) (s t : State) (x : Thrown) :
    Interpreter.complete ev block s ≠ .error (.thrown x) t
  value (source : String) (s t : State) (v : Value) :
    Interpreter.run source s = (.ok (.value v), t) ↔ Interpreter.Ends source s (.ok v t)
  quit (source : String) (s t : State) (payload : Value) :
    Interpreter.run source s = (.ok (.quit payload), t) ↔
      ∃ x : Thrown, x.isNamed .quit = true ∧ x.payload = payload ∧
        Interpreter.Ends source s (.error (.thrown x) t)
  uncaught (source : String) (s t : State) (x : Thrown) :
    Interpreter.Ends source s (.error (.thrown x) t) → x.isNamed .quit = false →
      Interpreter.run source s =
        (.error (.raised { cause := Interpreter.uncaught t.heap x }), t)

theorem exits_stop : ExitsStop where
  function ev name id params body args s t x run := by
    obtain ⟨s', t', run⟩ := withCall_thrown run
    exact runBody_thrown run
  loop ev name l args s t x loop run := by
    obtain ⟨s', t', run⟩ := withCall_thrown run
    exact Loops.run_thrown loop run
  rounds ev l args r repeats := repeats.run_eq ev
  passes n q s x after passage := passage.throws
  breaks n name l args s q u x after loop asks passage named := by
    obtain ⟨calls, pushed, asks⟩ := asks.of_withCall
    obtain ⟨r, round, t, -, below, -, -, thrown, v, same⟩ :=
      Loops.exists_round_thrown loop asks passage.throws
    have ended : YieldsAfter (l.run (evaluator n) args) { s with calls } x.payload after := by
      obtain ⟨t', run, effects⟩ := Loops.Repetition.runFrom_broken below thrown named
      exact ⟨t', same.trans run, effects⟩
    exact ended.withCall pushed
  continues n name l args s q u x after loop asks passage named := by
    obtain ⟨calls, pushed, asks⟩ := asks.of_withCall
    obtain ⟨r, round, t, repeats, below, begins, here, thrown, v, same⟩ :=
      Loops.exists_round_thrown loop asks passage.throws
    obtain ⟨t', effects, onward⟩ := Loops.Repetition.runFrom_continued below thrown named
    exact ⟨calls, pushed, r, round, t, repeats, begins, here, t', effects, same.trans onward⟩
  returns n name id params body args s q u x after asks passage named := by
    obtain ⟨calls, pushed, asks⟩ := asks.of_withCall
    exact (runBody_returns asks passage.throws named).withCall pushed
  leavesLoop n name l args s q u x after loop asks passage noBreak noContinue :=
    have outer : Passage x after (n + 1) (.invoke name (.native l) args) s :=
      .through asks (loop.not_claims noBreak noContinue) passage
    outer.throws
  leavesFunction n name id params body args s q u x after asks passage noReturn noExit :=
    have outer : Passage x after (n + 1) (.invoke name (.user id params body) args) s :=
      .through asks (not_claimsReturn after.heap noReturn noExit) passage
    outer.throws
  complete := Interpreter.complete_ne_thrown
  value _ _ _ _ := Interpreter.run_eq_value
  quit _ _ _ _ := Interpreter.run_eq_quit
  uncaught _ _ _ _ ends other := Interpreter.run_uncaught ends other

end BlockScript
