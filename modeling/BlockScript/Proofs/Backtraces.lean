import BlockScript.Proofs.Asking
import BlockScript.Proofs.Boundaries
import BlockScript.Proofs.Renaming

/-!
# Backtraces

An error gets a backtrace where it leaves the innermost call around the place that raises it, and
keeps it from there on. The calls are taken from the stack on the way out, after the body has run;
as every body leaves the stack as it found it, they are those that were running when the error was
raised. An error that stops at a recovery point before it has left a call has no backtrace yet, and
one that is raised again has the one that it was trapped with.
-/

namespace BlockScript

variable {α β : Type} {s t u r : State} {ev : Evaluator} {k : Evaluator → EvalM α} {q : Request}
  {e : EvalError}

/-! ## Errors that are handed on -/

/-- Whatever error answers the request in that state, the computation ends with it, unchanged, and
has had the effects of the answer and no others. -/
def HandsOn (k : Evaluator → EvalM α) (ev : Evaluator) (s : State) (q : Request) (u : State) :
    Prop :=
  ∀ ev' : Evaluator, ev'.fuel = ev.fuel →
    (∀ q' t, (q', t) ≠ (q, u) → q'.ask ev' t = q'.ask ev t) →
    ∀ e after, q.ask ev' u = .error (.raised e) after →
      ∃ t, k ev' s = .error (.raised e) t ∧ SameEffects after t

namespace HandsOn

theorem raises {after : State} (handed : HandsOn k ev s q u)
    (answer : q.ask ev u = .error (.raised e) after) :
    ∃ t, k ev s = .error (.raised e) t ∧ SameEffects after t :=
  handed ev rfl (fun _ _ _ => rfl) e after answer

/-- What is handed on is asked for: other errors would come out otherwise. -/
theorem asks (handed : HandsOn k ev s q u) : Asks k ev s q u := by
  refine Classical.byContradiction fun unasked => ?_
  have same (e : EvalError) : ∃ t, k ev s = .error (.raised e) t := by
    let ev' := ev.ending q u (.raised e) u
    have others (q' : Request) (t : State) (other : (q', t) ≠ (q, u)) :
        q'.ask ev' t = q'.ask ev t := ev.ending_other other _ _
    obtain ⟨t, run, -⟩ := handed ev' rfl others e u (ev.ending_self q u _ u)
    have unchanged : k ev' s = k ev s :=
      Classical.byContradiction fun differs => unasked ⟨ev', rfl, others, differs⟩
    exact ⟨t, unchanged ▸ run⟩
  obtain ⟨t, run⟩ := same { cause := .guarded }
  obtain ⟨t', run'⟩ := same { cause := .pastEnd }
  cases run.symm.trans run'

theorem ask (q : Request) (u : State) : HandsOn (fun ev => q.ask ev) ev u q u :=
  fun _ _ _ _ after answer => ⟨after, answer, .refl after⟩

/-- A bracket hands on what its body hands on, if it lets errors out. -/
theorem bracket {k' : Evaluator → EvalM β} (body : HandsOn k ev t q u)
    (leave : ∀ ev' e after, k ev' t = .error (.raised e) after →
      ∃ v, k' ev' s = .error (.raised e) v ∧ SameEffects after v) : HandsOn k' ev s q u := by
  intro ev' fuel others e after answer
  obtain ⟨v, run, effects⟩ := body ev' fuel others e after answer
  obtain ⟨w, out, same⟩ := leave ev' e v run
  exact ⟨w, out, effects.trans same⟩

theorem bind (first : HandsOn k ev s q u) (f : α → Evaluator → EvalM β) :
    HandsOn (fun ev => k ev >>= fun a => f a ev) ev s q u := by
  refine first.bracket fun ev' e after run => ⟨after, ?_, .refl after⟩
  simp only [Bind.bind, EStateM.bind, run]

theorem bind_later {f : α → Evaluator → EvalM β} {a : α} (unasked : ¬ Asks k ev s q u)
    (run : k ev s = .ok a t) (later : HandsOn (f a) ev t q u) :
    HandsOn (fun ev => k ev >>= fun a => f a ev) ev s q u := by
  intro ev' fuel others e after answer
  have first : k ev' s = .ok a t :=
    run ▸ Classical.byContradiction fun differs => unasked ⟨ev', fuel, others, differs⟩
  obtain ⟨v, out, effects⟩ := later ev' fuel others e after answer
  refine ⟨v, ?_, effects⟩
  simp only [Bind.bind, EStateM.bind, first, out]

theorem of_fuel {k : Nat → Evaluator → EvalM α} (handed : HandsOn (k ev.fuel) ev s q u) :
    HandsOn (fun ev => k ev.fuel ev) ev s q u := by
  intro ev' fuel others e after answer
  obtain ⟨t, run, effects⟩ := handed ev' fuel others e after answer
  refine ⟨t, ?_, effects⟩
  dsimp only
  rw [fuel]
  exact run

/-- What comes later hands errors on, even if the first part has asked for the same. -/
theorem bind_of_ok {f : α → Evaluator → EvalM β} {a : α}
    (first : Asks k ev s q u → HandsOn k ev s q u) (run : k ev s = .ok a t)
    (later : HandsOn (f a) ev t q u) : HandsOn (fun ev => k ev >>= fun a => f a ev) ev s q u := by
  by_cases asked : Asks k ev s q u
  · exact (first asked).bind f
  · exact .bind_later asked run later

end HandsOn

/-- Code that makes no calls itself and recovers from no errors hands on all that it asks for. -/
theorem Routine.handsOn {permit : Permit} (routine : Routine permit k) (noCalls : ¬ permit.calls)
    (noClaims : ∀ h e, ¬ permit.claims h (.raised e)) (asks : Asks k ev s q u) :
    HandsOn k ev s q u := by
  induction routine generalizing s with
  | primitive step => exact absurd asks (Asks.not_of_const _)
  | @bind _ _ k f _ _ first rest =>
    rcases Asks.of_bind asks with here | ⟨a, t, run, later⟩
    · exact (first here).bind f
    · exact .bind_of_ok first run (rest a later)
  | look _ _ rest => exact rest s asks
  | fuel _ bounded => exact (bounded ev.fuel asks.of_fuel).of_fuel
  | next block index =>
    obtain ⟨rfl, rfl⟩ := Asks.eq_of_ask (.next block index) asks
    exact .ask _ _
  | invoke name f args =>
    obtain ⟨rfl, rfl⟩ := Asks.eq_of_ask (.invoke name f args) asks
    exact .ask _ _
  | withScope frame _ body =>
    refine (body asks.of_withScope).bracket fun ev' e after run =>
      ⟨{ after with env := after.env.pop }, ?_, rfl, rfl, rfl⟩
    simp only [BlockScript.withScope, run]
  | withCall permitted => exact absurd permitted noCalls
  | guarded claimed => exact absurd (claimed {} { cause := .guarded }) (noClaims _ _)
  | claiming _ _ _ body =>
    refine (body asks.of_claiming).bracket fun ev' e after run => ⟨after, ?_, .refl after⟩
    simp only [BlockScript.claiming, run]

/-- Between what a computation is asked and what it asks for, no calls begin or end. -/
theorem Routine.calls_of_asks {permit : Permit} (routine : Routine permit k)
    (noCalls : ¬ permit.calls) (balanced : ev.Balanced) (asks : Asks k ev s q u) :
    u.calls = s.calls := by
  induction routine generalizing s with
  | primitive step => exact absurd asks (Asks.not_of_const _)
  | bind first _ ih rest =>
    rcases Asks.of_bind asks with here | ⟨a, t, run, later⟩
    · exact ih here
    · have kept := first.keepsStacks balanced s
      rw [endState_ok run] at kept
      exact (rest a later).trans kept.calls
  | look _ _ rest => exact rest s asks
  | fuel _ bounded => exact bounded ev.fuel asks.of_fuel
  | next block index => rw [(Asks.eq_of_ask (.next block index) asks).2]
  | invoke name f args => rw [(Asks.eq_of_ask (.invoke name f args) asks).2]
  | withScope frame _ body =>
    have inside := body asks.of_withScope
    exact inside
  | withCall permitted => exact absurd permitted noCalls
  | guarded _ _ body =>
    have inside := body asks.of_guarded
    exact inside
  | claiming _ _ _ body => exact body asks.of_claiming

/-! ## The way of an error -/

/-- What is evaluated between two calls: an expression, the code of a function, or a block. -/
inductive Code : {α : Type} → (Evaluator → EvalM α) → Prop where
  | expression (block : BlockRef) (position : Nat) : Code fun ev => expression ev block position
  | function (f : Function) (args : Args) : Code fun ev => f.run ev args
  | block (block : BlockRef) : Code fun ev => ev.all block

/-- An error is raised in a state, with these calls running, and comes out of a computation. On its
way it leaves the calls listed, outermost first. -/
inductive Travels (e : EvalError) (r : State) :
    Nat → {α : Type} → (Evaluator → EvalM α) → State → List String → Prop where
  /-- The code raises the error itself. -/
  | raised {n : Nat} {α : Type} {k : Evaluator → EvalM α} {s : State}
      (ends : k (evaluator n) s = .error (.raised e) r)
      (itself : ∀ q u e' after, HandsOn k (evaluator n) s q u →
        q.ask (evaluator n) u ≠ .error (.raised e') after) :
      Travels e r n k s []
  /-- A call is refused as too many are running. -/
  | refused {n : Nat} {α : Type} {k : Evaluator → EvalM α} {s : State} {name : String}
      {f : Function} {args : Args} {cause : Cause}
      (handed : HandsOn k (evaluator (n + 1)) s (.invoke name f args) r)
      (full : r.calls.push name = .error cause) (same : e = r.calls.attach { cause }) :
      Travels e r (n + 1) k s []
  /-- The error comes out of an expression that the code evaluates. -/
  | next {n : Nat} {α : Type} {k : Evaluator → EvalM α} {s u : State} {block : BlockRef}
      {position : Nat} {crossed : List String}
      (handed : HandsOn k (evaluator (n + 1)) s (.next block position) u)
      (inner : Travels e r n (fun ev => expression ev block position) u crossed) :
      Travels e r (n + 1) k s crossed
  /-- The error leaves a call that the code makes. -/
  | call {n : Nat} {α : Type} {k : Evaluator → EvalM α} {s u : State} {name : String}
      {f : Function} {args : Args} {calls : CallStack} {crossed : List String}
      (handed : HandsOn k (evaluator (n + 1)) s (.invoke name f args) u)
      (pushed : u.calls.push name = .ok calls)
      (inner : Travels e r n (fun ev => f.run ev args) { u with calls } crossed) :
      Travels e r (n + 1) k s (name :: crossed)

/-- How an error looks that was raised while some calls were running, after it has left those that
are listed. -/
inductive Arrives (e : EvalError) (running : List String) : List String → EvalError → Prop where
  | inside : Arrives e running [] e
  | kept {crossed : List String} (traced : e.backtrace.isSome) : Arrives e running crossed e
  | given {name : String} {crossed : List String} (untraced : e.backtrace = none) :
      Arrives e running (name :: crossed)
        { e with backtrace := some (running.reverse.map CallStack.shown) }

theorem CallStack.capture_eq (c : CallStack) :
    c.capture = c.names.toList.reverse.map CallStack.shown := rfl

theorem CallStack.attach_of_isSome (c : CallStack) (traced : e.backtrace.isSome) :
    c.attach e = e := by
  rw [attach, traced, Bool.or_true]
  rfl

theorem CallStack.attach_of_push {c calls : CallStack} {name : String}
    (pushed : c.push name = .ok calls) (untraced : e.backtrace = none) :
    calls.attach e = { e with backtrace := some calls.capture } := by
  have some : calls.isEmpty = false := by
    rw [eq_of_push pushed]
    simp [isEmpty]
  rw [attach, some, untraced]
  rfl

/-- Where an error leaves a call, it gets the calls that were running or keeps what it has. -/
theorem Arrives.call {running crossed : List String} {c calls : CallStack} {name : String}
    {e' : EvalError} (arrives : Arrives e running crossed e') (pushed : c.push name = .ok calls)
    (running_eq : running = calls.names.toList ++ crossed) :
    Arrives e running (name :: crossed) (calls.attach e') := by
  by_cases traced : e.backtrace.isSome
  · have same : e' = e := by
      cases arrives with
      | inside => rfl
      | kept _ => rfl
      | given untraced => rw [untraced] at traced; cases traced
    rw [same, calls.attach_of_isSome traced]
    exact .kept traced
  · have untraced : e.backtrace = none := by simpa using traced
    cases arrives with
    | inside =>
      rw [CallStack.attach_of_push pushed untraced, CallStack.capture_eq,
        ← List.append_nil calls.names.toList, ← running_eq]
      exact .given untraced
    | kept traced' => exact absurd traced' traced
    | given _ =>
      rw [calls.attach_of_isSome rfl]
      exact .given untraced

/-! ### Code -/

theorem Code.routine (code : Code k) :
    ∃ claims, Routine ⟨claims, fun _ => True, False⟩ k := by
  cases code with
  | expression block position => exact ⟨ClaimsNothing, .expression block position⟩
  | function f args => exact ⟨f.Claims args, .function f args⟩
  | block block => exact ⟨ClaimsNothing, .all block⟩

theorem Code.calls_of_handsOn {n : Nat} (code : Code k) (handed : HandsOn k (evaluator n) s q u) :
    u.calls = s.calls := by
  obtain ⟨claims, routine⟩ := code.routine
  exact routine.calls_of_asks id (evaluator_balanced n) handed.asks

theorem Code.calls_of_error {n : Nat} {exit : Exit} (code : Code k)
    (ends : k (evaluator n) s = .error exit t) : t.calls = s.calls := by
  obtain ⟨claims, routine⟩ := code.routine
  have kept := routine.keepsStacks (evaluator_balanced n) s
  rw [endState_error ends] at kept
  exact kept.calls

/-- An error that travels out of a computation is what the computation ends with. The calls that
were running when it was raised are those around the computation and those that it has left. -/
theorem Travels.arrives {n : Nat} {crossed : List String} (travels : Travels e r n k s crossed)
    (code : Code k) :
    r.calls.names.toList = s.calls.names.toList ++ crossed ∧
      ∃ e' t, k (evaluator n) s = .error (.raised e') t ∧
        Arrives e r.calls.names.toList crossed e' := by
  induction travels with
  | raised ends itself =>
    exact ⟨by rw [code.calls_of_error ends, List.append_nil], e, r, ends, .inside⟩
  | @refused n _ k s name f args cause handed full same =>
    have answer : Request.ask (evaluator (n + 1)) (.invoke name f args) r =
        .error (.raised e) r := by
      rw [Request.ask_succ, same]
      show withCall name (f.run (evaluator n) args) r = _
      rw [withCall, full]
    obtain ⟨t, run, -⟩ := handed.raises answer
    exact ⟨by rw [code.calls_of_handsOn handed, List.append_nil], e, t, run, .inside⟩
  | @next n _ k s u block position crossed handed inner ih =>
    obtain ⟨running, e', t, run, arrives⟩ := ih (.expression block position)
    obtain ⟨v, out, -⟩ := handed.raises run
    exact ⟨by rw [running, code.calls_of_handsOn handed], e', v, out, arrives⟩
  | @call n _ k s u name f args calls crossed handed pushed inner ih =>
    obtain ⟨running, e', t, run, arrives⟩ := ih (.function f args)
    have left : t.calls = calls := Code.calls_of_error (.function f args) run
    have answer : Request.ask (evaluator (n + 1)) (.invoke name f args) u =
        .error (.raised (calls.attach e')) { t with calls := calls.pop } := by
      rw [Request.ask_succ]
      show withCall name (f.run (evaluator n) args) u = _
      simp only [withCall, pushed, run, attachCalls, left]
    obtain ⟨v, out, -⟩ := handed.raises answer
    refine ⟨?_, _, v, out, arrives.call pushed running⟩
    rw [running, CallStack.eq_of_push pushed, code.calls_of_handsOn handed]
    simp

/-- Every error that a computation ends with was raised somewhere and has travelled from there. -/
theorem exists_travels {n : Nat} (code : Code k)
    (ends : k (evaluator n) s = .error (.raised e) t) :
    ∃ e₀ r crossed, Travels e₀ r n k s crossed := by
  induction n generalizing α s e t with
  | zero =>
    refine ⟨e, t, [], .raised ends fun q u e' after _ answer => ?_⟩
    cases q <;> cases answer
  | succ n ih =>
    by_cases handed : ∃ q u e' after, HandsOn k (evaluator (n + 1)) s q u ∧
        q.ask (evaluator (n + 1)) u = .error (.raised e') after
    · obtain ⟨q, u, e', after, handed, answer⟩ := handed
      rw [Request.ask_succ] at answer
      cases q with
      | next block position =>
        obtain ⟨e₀, r, crossed, inner⟩ := ih (.expression block position) answer
        exact ⟨e₀, r, crossed, .next handed inner⟩
      | invoke name f args =>
        cases pushed : u.calls.push name with
        | error cause => exact ⟨_, u, [], .refused handed pushed rfl⟩
        | ok calls =>
          obtain ⟨e'', after', body⟩ : ∃ e'' after',
              f.run (evaluator n) args { u with calls } = .error (.raised e'') after' := by
            have answer : withCall name (f.run (evaluator n) args) u =
                .error (.raised e') after := answer
            unfold withCall at answer
            rw [pushed] at answer
            dsimp only at answer
            split at answer
            · cases answer
            · next exit after' body =>
              cases exit with
              | raised e'' => exact ⟨e'', after', body⟩
              | thrown x => cases answer
              | outOfFuel => cases answer
          obtain ⟨e₀, r, crossed, inner⟩ := ih (.function f args) body
          exact ⟨e₀, r, name :: crossed, .call handed pushed inner⟩
    · refine ⟨e, t, [], .raised ends fun q u e' after asks answer => handed ?_⟩
      exact ⟨q, u, e', after, asks, answer⟩

/-! ## What is handed on -/

def Native.IsGuard : Native → Prop
  | .trap | .attempt => True
  | _ => False

theorem Native.not_claims_raised {n : Native} (free : ¬ n.IsGuard) (args : Args) (h : Heap)
    (e : EvalError) : ¬ n.Claims args h (.raised e) := by
  rintro (rfl | rfl) <;> exact free trivial

theorem Function.not_claims_raised {f : Function} (free : ∀ n, f = .native n → ¬ n.IsGuard)
    (args : Args) (h : Heap) (e : EvalError) : ¬ f.Claims args h (.raised e) := by
  cases f with
  | native n => exact n.not_claims_raised (free n rfl) args h e
  | user number params body => exact id

/-- What is asked for under a recovery point, or after it. -/
theorem guarded_asks {body : Evaluator → EvalM α}
    {finish : Except EvalError α → Evaluator → EvalM Value}
    (after : ∀ result, Routine ⟨ClaimsNothing, fun _ => True, False⟩ (finish result))
    (asks : Asks (fun ev => guarded (body ev) >>= fun result => finish result ev) ev s q u) :
    Asks body ev s.armed q u ∨
      HandsOn (fun ev => guarded (body ev) >>= fun result => finish result ev) ev s q u := by
  by_cases under : Asks (fun ev => guarded (body ev)) ev s q u
  · exact .inl under.of_guarded
  · rcases Asks.of_bind asks with here | ⟨result, t, run, later⟩
    · exact absurd here under
    · exact .inr (.bind_later under run ((after result).handsOn id (fun _ _ => id) later))

def Raising.settle (recover : EvalError → EvalM Value) : Except EvalError Value → EvalM Value
  | .ok value => pure value
  | .error e => recover e

/-- A call of trap or attempt with arguments that it takes: its block, and what it does with an
error that comes out of it. -/
inductive Guards (args : Args) :
    Native → BlockRef → (Evaluator → EvalError → EvalM Value) → Prop where
  | attempt {block : BlockRef} (given : args.value 0 = .block block) :
      Guards args .attempt block fun _ _ => pure .none
  | trap {block : BlockRef} {handler : Option Handler} (given : args.value 0 = .block block)
      (handled : args.refinement? 1 = handler.map Handler.value) :
      Guards args .trap block fun ev => Raising.handle ev handler

namespace Guards

variable {args : Args} {g : Native} {block : BlockRef}
  {recover : Evaluator → EvalError → EvalM Value}

theorem run_eq (guards : Guards args g block recover) (ev : Evaluator) :
    g.run ev args = guarded (ev.all block) >>= Raising.settle (recover ev) := by
  cases guards with
  | attempt given =>
    simp only [Native.run, Raising.attempt, given, expectBlock, pure_bind]
    refine congrArg _ (funext fun result => ?_)
    cases result <;> rfl
  | trap given handled =>
    simp only [Native.run, Raising.trap, given, handled, Handler.ofRefinement_value, expectBlock,
      pure_bind]
    refine congrArg _ (funext fun result => ?_)
    cases result with
    | ok value => rfl
    | error e => rename_i handler; cases handler <;> rfl

theorem routine (guards : Guards args g block recover) (e : EvalError) :
    Routine ⟨ClaimsNothing, fun _ => True, False⟩ fun ev => recover ev e := by
  cases guards with
  | attempt given => exact .pure _
  | @trap _ handler given handled =>
    cases handler with
    | none => exact .pure _
    | some handler => exact .handlerRun _ _ handler

/-- An error that comes out of the block is what is recovered from. -/
theorem lands (guards : Guards args g block recover) {n : Nat} {crossed : List String}
    (travels : Travels e r n (fun ev => ev.all block) s.armed crossed) :
    r.calls.names.toList = s.calls.names.toList ++ crossed ∧
      ∃ e' u, Arrives e r.calls.names.toList crossed e' ∧
        g.run (evaluator n) args s = recover (evaluator n) e' u := by
  obtain ⟨running, e', t, run, arrives⟩ := travels.arrives (.block block)
  have recovers : Recovers ((evaluator n).all block) (recover (evaluator n))
      (g.run (evaluator n) args) := by
    rw [guards.run_eq]
    exact guarded_recovers (fun _ => rfl) fun _ => rfl
  obtain ⟨u, landed, -⟩ := recovers.raised run
  exact ⟨running, e', u, arrives, landed⟩

end Guards

/-- A guard takes its arguments or refuses them. -/
theorem Native.guards_or_refused {g : Native} (guard : g.IsGuard) (args : Args) :
    (∃ block recover, Guards args g block recover) ∨
      ∃ e, ∀ ev, g.run ev args = throw (.raised e) := by
  cases g with
  | attempt =>
    rcases expectBlock_outcome "attempt" "block" (args.value 0) with ⟨block, given⟩ | ⟨e, no⟩
    · exact .inl ⟨_, _, .attempt given⟩
    · refine .inr ⟨e, fun ev => ?_⟩
      rw [Native.run, Raising.attempt, no]
      rfl
  | trap =>
    rcases expectBlock_outcome "trap" "block" (args.value 0) with ⟨block, given⟩ | ⟨e, no⟩
    · rcases Handler.ofRefinement_outcome "trap" (args.refinement? 1) with
        ⟨handler, handled⟩ | ⟨e, no⟩
      · exact .inl ⟨_, _, .trap given handled⟩
      · refine .inr ⟨e, fun ev => ?_⟩
        rw [Native.run, Raising.trap, given, no]
        rfl
    · refine .inr ⟨e, fun ev => ?_⟩
      rw [Native.run, Raising.trap, no]
      rfl
  | _ => exact guard.elim

/-- What trap or attempt asks for it asks for under its recovery point, or it hands it on: so it is
with what a handler asks for. -/
theorem Native.guard_asks {g : Native} (guard : g.IsGuard) {args : Args}
    (asks : Asks (fun ev => g.run ev args) ev s q u) :
    (∃ block recover, Guards args g block recover ∧
      Asks (fun ev => ev.all block) ev s.armed q u) ∨
      HandsOn (fun ev => g.run ev args) ev s q u := by
  rcases g.guards_or_refused guard args with ⟨block, recover, guards⟩ | ⟨e, refused⟩
  · simp only [guards.run_eq] at asks ⊢
    have after (result : Except EvalError Value) : Routine ⟨ClaimsNothing, fun _ => True, False⟩
        fun ev => Raising.settle (recover ev) result := by
      cases result with
      | ok value => exact .pure value
      | error e => exact guards.routine e
    exact (guarded_asks after asks).imp_left fun under => ⟨block, recover, guards, under⟩
  · simp only [refused] at asks
    exact absurd asks (Asks.not_of_const _)

/-! ## Calls that are refused, errors that are raised again -/

theorem CallStack.push_eq_error {c : CallStack} {name : String} {cause : Cause}
    (full : c.push name = .error cause) :
    ∃ limit, c.limit = some limit ∧ limit ≤ c.depth ∧ cause = .stackOverflow limit := by
  unfold push at full
  split at full
  · next limit bounded =>
    split at full
    · cases full
    · next above =>
      cases full
      exact ⟨limit, bounded, Nat.le_of_not_lt above, rfl⟩
  · cases full

theorem CallStack.backtrace_attach (c : CallStack) (untraced : e.backtrace = none) :
    (c.attach e).backtrace.getD [] = c.names.toList.reverse.map shown := by
  unfold attach
  rw [untraced]
  by_cases empty : c.isEmpty = true
  · have none : c.names = #[] := by simpa [isEmpty] using empty
    simp [empty, untraced, none]
  · simp [empty, capture_eq]

/-- Fail raises an error value itself, as it is. -/
theorem travels_fail {args : Args} {n : Nat} (given : args.value 0 = .error e) :
    Travels e s n (fun ev => (Function.native .fail).run ev args) s [] := by
  have raises : (fun ev => (Function.native .fail).run ev args) = fun _ => throw (.raised e) := by
    funext ev
    simp only [Function.run, Native.run, Raising.fail, given]
  rw [raises]
  exact .raised rfl fun _ _ _ _ handed => absurd handed.asks (Asks.not_of_const _)

/-! ## Whole programs -/

namespace Interpreter

variable {source : String} {block : BlockRef}

theorem run_eq_raised {u : State} :
    run source s = (.error (.raised e), u) ↔
      ∃ block t, loadSource source s = .ok (block, t) ∧
        complete standard block t = .error (.raised e) u := by
  constructor
  · intro ran
    unfold run at ran
    split at ran
    · cases ran
    · next block t loaded =>
      split at ran
      · cases ran
      · next completed =>
        cases ran
        exact ⟨block, t, loaded, completed⟩
      · cases ran
  · rintro ⟨block, t, loaded, completed⟩
    rw [run, loaded]
    dsimp only
    rw [completed]

/-- An error that reaches the host was raised, or stands for an exit that nothing claimed. -/
theorem complete_eq_raised {u : State} (completed : complete ev block t = .error (.raised e) u) :
    ev.all block t = .error (.raised e) u ∨
      ∃ x, ev.all block t = .error (.thrown x) u ∧ e = { cause := uncaught u.heap x } := by
  unfold complete at completed
  split at completed
  · cases completed
  · next x v run =>
    split at completed
    · cases completed
    · cases completed
      exact .inr ⟨x, run, rfl⟩
  · next run =>
    cases completed
    exact .inl run

end Interpreter

/-! ## Backtraces -/

/-- What backtraces show, how errors get them and where they stay without. -/
structure BacktracesShowCalls : Prop where
  /-- An error comes out of code with the calls that were running where it was raised, innermost
  first, once it has left the innermost of them; before that it has none. -/
  arrives {α : Type} (k : Evaluator → EvalM α) (n : Nat) (s r : State) (e : EvalError)
      (crossed : List String) : Code k → Travels e r n k s crossed →
    r.calls.names.toList = s.calls.names.toList ++ crossed ∧
      ∃ e' t, k (evaluator n) s = .error (.raised e') t ∧
        Arrives e r.calls.names.toList crossed e'
  /-- No error comes out of code in another way. -/
  travels {α : Type} (k : Evaluator → EvalM α) (n : Nat) (s t : State) (e' : EvalError) :
    Code k → k (evaluator n) s = .error (.raised e') t →
      ∃ e r crossed, Travels e r n k s crossed ∧ Arrives e r.calls.names.toList crossed e'
  /-- Whatever an expression asks for, its errors are handed on. -/
  expression (block : BlockRef) (position : Nat) (ev : Evaluator) (s u : State) (q : Request) :
    Asks (fun ev => expression ev block position) ev s q u →
      HandsOn (fun ev => BlockScript.expression ev block position) ev s q u
  block (block : BlockRef) (ev : Evaluator) (s u : State) (q : Request) :
    Asks (fun ev => ev.all block) ev s q u → HandsOn (fun ev => ev.all block) ev s q u
  /-- So it is for functions made by a program, loops, catches with their handlers and all other
  natives that do not recover from errors. -/
  function (f : Function) (args : Args) (ev : Evaluator) (s u : State) (q : Request) :
    (∀ g, f = .native g → ¬ g.IsGuard) → Asks (fun ev => f.run ev args) ev s q u →
      HandsOn (fun ev => f.run ev args) ev s q u
  /-- The errors of a handler are handed on as well, those of the guarded block are not. -/
  guard (g : Native) (args : Args) (ev : Evaluator) (s u : State) (q : Request) :
    g.IsGuard → Asks (fun ev => g.run ev args) ev s q u →
      (∃ block recover, Guards args g block recover ∧
        Asks (fun ev => ev.all block) ev s.armed q u) ∨
      HandsOn (fun ev => g.run ev args) ev s q u
  /-- What lands at a recovery point lands there as it came out of the block. -/
  lands (g : Native) (args : Args) (block : BlockRef)
      (recover : Evaluator → EvalError → EvalM Value) (n : Nat) (s r : State) (e : EvalError)
      (crossed : List String) : Guards args g block recover →
    Travels e r n (fun ev => ev.all block) s.armed crossed →
      r.calls.names.toList = s.calls.names.toList ++ crossed ∧
        ∃ e' u, Arrives e r.calls.names.toList crossed e' ∧
          g.run (evaluator n) args s = recover (evaluator n) e' u
  /-- A call that is refused raises an error with the calls that were running then. -/
  refused {α : Type} (k : Evaluator → EvalM α) (n : Nat) (s r : State) (name : String)
      (f : Function) (args : Args) (cause : Cause) :
    HandsOn k (evaluator (n + 1)) s (.invoke name f args) r →
    r.calls.push name = .error cause →
      ∃ e limit, Travels e r (n + 1) k s [] ∧ e.cause = .stackOverflow limit ∧
        r.calls.limit = some limit ∧
        e.backtrace.getD [] = r.calls.names.toList.reverse.map CallStack.shown
  /-- An error value that is raised again is the error that it was, with its backtrace. -/
  fail (args : Args) (n : Nat) (s : State) (e : EvalError) :
    args.value 0 = .error e →
      Travels e s n (fun ev => (Function.native .fail).run ev args) s []
  reachesHost (source : String) (s t r : State) (block : BlockRef) (e : EvalError)
      (crossed : List String) : Interpreter.loadSource source s = .ok (block, t) →
    Travels e r Interpreter.fuel (fun ev => ev.all block) t crossed →
      ∃ e' u, Interpreter.run source s = (.error (.raised e'), u) ∧
        Arrives e r.calls.names.toList crossed e'
  /-- Beside raised errors only exits that nothing claimed are reported, and without backtrace. -/
  host (source : String) (s u : State) (e' : EvalError) :
    Interpreter.run source s = (.error (.raised e'), u) →
      ∃ block t, Interpreter.loadSource source s = .ok (block, t) ∧
        ((∃ x, Interpreter.standard.all block t = .error (.thrown x) u ∧
            e' = { cause := Interpreter.uncaught u.heap x }) ∨
          ∃ e r crossed, Travels e r Interpreter.fuel (fun ev => ev.all block) t crossed ∧
            Arrives e r.calls.names.toList crossed e')

theorem travels_of_ends {n : Nat} {e' : EvalError} (code : Code k)
    (ends : k (evaluator n) s = .error (.raised e') t) :
    ∃ e r crossed, Travels e r n k s crossed ∧ Arrives e r.calls.names.toList crossed e' := by
  obtain ⟨e, r, crossed, travels⟩ := exists_travels code ends
  obtain ⟨-, e'', t', run, arrives⟩ := travels.arrives code
  cases ends.symm.trans run
  exact ⟨e, r, crossed, travels, arrives⟩

theorem backtraces_show_calls : BacktracesShowCalls where
  arrives k n s r e crossed code travels := travels.arrives code
  travels k n s t e' code ends := travels_of_ends code ends
  expression block position ev s u q asks :=
    have routine : Routine ⟨ClaimsNothing, fun _ => True, False⟩ fun ev =>
        BlockScript.expression ev block position := .expression block position
    routine.handsOn id (fun _ _ => id) asks
  block block ev s u q asks :=
    have routine : Routine ⟨ClaimsNothing, fun _ => True, False⟩ fun ev => ev.all block :=
      .all block
    routine.handsOn id (fun _ _ => id) asks
  function f args ev s u q free asks :=
    have routine : Routine ⟨f.Claims args, fun _ => True, False⟩ fun ev => f.run ev args :=
      .function f args
    routine.handsOn id (Function.not_claims_raised free args) asks
  guard g args ev s u q guard asks := g.guard_asks guard asks
  lands g args block recover n s r e crossed guards travels := guards.lands travels
  refused k n s r name f args cause handed full := by
    obtain ⟨limit, bounded, -, rfl⟩ := CallStack.push_eq_error full
    refine ⟨_, limit, .refused handed full rfl, ?_, bounded, r.calls.backtrace_attach rfl⟩
    unfold CallStack.attach
    split <;> rfl
  fail args n s e given := travels_fail given
  reachesHost source s t r block e crossed loaded travels := by
    obtain ⟨-, e', u, run, arrives⟩ := travels.arrives (.block block)
    refine ⟨e', u, Interpreter.run_eq_raised.mpr ⟨block, t, loaded, ?_⟩, arrives⟩
    rw [Interpreter.complete, Interpreter.standard, run]
  host source s u e' ran := by
    obtain ⟨block, t, loaded, completed⟩ := Interpreter.run_eq_raised.mp ran
    refine ⟨block, t, loaded, ?_⟩
    rcases Interpreter.complete_eq_raised completed with ends | uncaught
    · exact .inr (travels_of_ends (.block block) ends)
    · exact .inl uncaught

end BlockScript
