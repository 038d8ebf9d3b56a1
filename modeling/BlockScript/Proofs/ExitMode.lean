import BlockScript.Proofs.Boundaries
import BlockScript.Proofs.Catching
import BlockScript.Proofs.Settings

/-!
# The name of an exit

The exit of a function is thrown under its own name, or under that of a return. Loops claim neither,
functions claim both, and where neither is claimed the error is the same. So only a catch can tell
the two apart, by a list of names or by a handler that is given the name.
-/

namespace BlockScript

variable {α : Type} {mark : String} {σ σ' : Settings} {ev ev' : Evaluator} {s : State}

/-! ## Calls that read names -/

def Exits.readsNames (args : Args) : Bool :=
  args.refined 1 ||
    match args.refinement? 5 with
    | some (.function f) => f.handlerShape == .binary
    | _ => false

theorem Exits.readsNames_iff {args : Args} : readsNames args = true ↔
    Uses args "name" ∨ ∃ f, Gives args "with" (.function f) ∧ f.handlerShape = .binary := by
  have listed : Uses args "name" ↔ args.refined 1 = true := .rfl
  rw [readsNames, Bool.or_eq_true, listed]
  simp only [gives_with]
  cases args.refinement? 5 with
  | none => simp
  | some v => cases v <;> simp

def Function.readsNames (args : Args) : Function → Bool
  | .native .catchThrown => Exits.readsNames args
  | _ => false

/-! ## Functions -/

theorem Thrown.isNamed_reserved (own own' : ReservedExit) (payload : Value) :
    (reserved own payload).isNamed own' = decide (own = own') := by
  cases own <;> cases own' <;> rfl

theorem runBody_tracks (hev : ev.Tracks mark σ σ' ev') (params : List Param) (body : BlockRef)
    (args : Args) :
    Tracks mark σ σ' (runBody ev params body args) (runBody ev' params body args) := by
  refine .bind (.routine (.primitive (.newFrame _)) hev) fun frame => ?_
  refine .claiming (.withScope (.routine (.all body) hev) frame) fun _ h payload => ?_
  simp only [Thrown.isNamed_reserved]
  rfl

theorem Native.indifferent {n : Native} (other : n ≠ .catchThrown) (args : Args) :
    Permit.Indifferent ⟨n.Claims args, fun _ => True, False⟩ σ σ' := by
  refine ⟨id, fun _ h payload => ?_⟩
  cases n with
  | catchThrown => exact absurd rfl other
  | _ => simp [Native.Claims, Thrown.isNamed_reserved]

/-! ## Catch -/

/-- A handler that does not take two values is not given the name. -/
theorem Handler.run_unnamed {handler : Handler}
    (few : ∀ f, handler = .function f → f.handlerShape ≠ .binary) (ev : Evaluator)
    (payload : Value) (name name' : Option Value) :
    handler.run ev payload name = handler.run ev payload name' := by
  cases handler with
  | block r => rfl
  | function f =>
    cases shape : f.handlerShape with
    | nullary => simp only [Handler.run, shape]
    | unary => simp only [Handler.run, shape]
    | binary => exact absurd shape (few f rfl)

/-- Without names an exit is claimed under any name or under none. -/
theorem Exits.CatchFilter.claims_return {filter : CatchFilter} (unlisted : filter.names = none)
    (h : Heap) (payload : Value) :
    filter.claims h (.reserved .return payload) = filter.claims h (.reserved .exit payload) := by
  simp only [claims, unlisted, Thrown.isNamed_reserved]
  rfl

def Exits.respond (ev : Evaluator) (handler : Option Handler) : Except Thrown Value → EvalM Value
  | .ok value => return value
  | .error exit =>
    match handler with
    | none => return exit.payload
    | some handler => handler.run ev exit.payload (some exit.name)

theorem respond_tracks (hev : ev.Tracks mark σ σ' ev') (handler : Option Handler)
    (result : Except Thrown Value) :
    Tracks mark σ σ' (Exits.respond ev handler result) (Exits.respond ev' handler result) := by
  match result, handler with
  | .ok value, _ => exact .routine (.pure value) hev
  | .error exit, none => exact .routine (.pure exit.payload) hev
  | .error exit, some handler => exact .routine (.handlerRun _ _ handler) hev

theorem respond_return {handler : Option Handler}
    (few : ∀ f, handler = some (.function f) → f.handlerShape ≠ .binary) (ev : Evaluator)
    (payload : Value) :
    Exits.respond ev handler (.error (.reserved .return payload)) =
      Exits.respond ev handler (.error (.reserved .exit payload)) := by
  cases handler with
  | none => rfl
  | some handler =>
    exact handler.run_unnamed (fun f same => few f (congrArg some same)) ev payload _ _

theorem catching_tracks (hev : ev.Tracks mark σ σ' ev') {filter : Exits.CatchFilter}
    (unlisted : filter.names = none) {handler : Option Handler}
    (few : ∀ f, handler = some (.function f) → f.handlerShape ≠ .binary) (block : BlockRef) :
    Tracks mark σ σ' (Exits.catching filter (ev.all block) >>= Exits.respond ev handler)
      (Exits.catching filter (ev'.all block) >>= Exits.respond ev' handler) := by
  have all : Tracks mark σ σ' (ev.all block) (ev'.all block) := .routine (.all block) hev
  have responds := respond_tracks hev handler
  intro u
  rcases all u with stopped | inStep
  · exact .inl ((stopped.claiming _ _).bind _)
  · rw [Exits.catching_bind, Exits.catching_bind]
    generalize ev.all block (u.under σ) = r, ev'.all block (u.under σ') = r' at inStep ⊢
    cases inStep with
    | ok value v => exact responds (.ok value) v
    | @error exit _ renamed v =>
      cases renamed with
      | left renames payload =>
        dsimp only [State.under]
        rw [filter.claims_return unlisted, respond_return few]
        split
        · exact responds (.error (.reserved .exit payload)) v
        · exact .inr (.error (.left renames payload) v)
      | same =>
        cases exit with
        | raised e => exact .inr (.error (.same _) v)
        | outOfFuel => exact .inr (.error (.same _) v)
        | thrown exit =>
          dsimp only [State.under]
          split
          · exact responds (.error exit) v
          · exact .inr (.error (.same _) v)

theorem catchThrown_tracks (hev : ev.Tracks mark σ σ' ev') {args : Args}
    (unread : Exits.readsNames args = false) :
    Tracks mark σ σ' (Exits.catchThrown ev args) (Exits.catchThrown ev' args) := by
  have unread : ¬ (Exits.Uses args "name" ∨
      ∃ f, Exits.Gives args "with" (.function f) ∧ f.handlerShape = .binary) :=
    fun reads => Bool.false_ne_true (unread.symm.trans (Exits.readsNames_iff.mpr reads))
  have unlisted : args.refinement? 1 = none := by
    cases given : args.refinement? 1 with
    | none => rfl
    | some names => exact absurd (.inl (Exits.uses_name.mpr ⟨names, given⟩)) unread
  refine .bind (.routine (.expectBlock _ _ _) hev) fun block =>
    .bind (.routine (.checkFilter _) hev) fun _ => ?_
  rcases Handler.ofRefinement_outcome "catch" (args.refinement? 5) with ⟨handler, given⟩ | ⟨e, no⟩
  · rw [given, Handler.ofRefinement_value]
    have few (f : Function) (taken : handler = some (.function f)) : f.handlerShape ≠ .binary := by
      intro binary
      refine unread (.inr ⟨f, Exits.gives_with.mpr ?_, binary⟩)
      rw [given, taken]
      rfl
    exact catching_tracks hev unlisted few block
  · rw [no]
    exact fun u => .inr (.error (.same _) u)

/-! ## Both modes -/

theorem function_tracks (hev : ev.Tracks mark σ σ' ev') {f : Function} {args : Args}
    (unread : f.readsNames args = false) : Tracks mark σ σ' (f.run ev args) (f.run ev' args) := by
  cases f with
  | user id params body => exact runBody_tracks hev params body args
  | native n =>
    by_cases catches : n = .catchThrown
    · subst catches
      exact catchThrown_tracks hev unread
    · have run : Routine ⟨n.Claims args, fun _ => True, False⟩ fun ev => n.run ev args :=
        .native n args
      exact run.tracks (Native.indifferent catches args) hev

def readsNamesInCall (name : String) (f : Function) (args : Args) (s : State) : Bool :=
  !s.calls.refuses name && f.readsNames args

/-- No catch with names is executed, and none with a handler that takes two values: whatever such
calls did, the run would be the same. -/
abbrev NamesUnread (k : Evaluator → EvalM α) (fuel : Nat) (s : State) : Prop :=
  Spares readsNamesInCall k fuel s

section Modes

variable {limit : Option Nat}

theorem callsTrack_modes : CallsTrack readsNamesInCall ⟨limit, false⟩ ⟨limit, true⟩ := by
  intro mark ev ev' hev name f args u spared
  have same : (u.under ⟨limit, true⟩).calls = (u.under ⟨limit, false⟩).calls := rfl
  cases refused : (u.under ⟨limit, false⟩).calls.refuses name with
  | true =>
    obtain ⟨cause, refused⟩ := CallStack.push_of_refuses refused
    exact .inr (withCall_refused refused (same ▸ refused))
  | false =>
    obtain ⟨calls, pushed⟩ := CallStack.push_of_not_refuses refused
    have unread : f.readsNames args = false := by
      simpa only [readsNamesInCall, refused, Bool.not_false, Bool.true_and] using spared
    exact (function_tracks hev unread).withCall pushed (same ▸ pushed)

end Modes

def State.inMode (s : State) (exitAsReturn : Bool) : State := { s with exitAsReturn }

/-- The same end of a run, in the other mode. An exit that is on its way out may be a return. -/
inductive SameButName :
    EStateM.Result Exit State α → EStateM.Result Exit State α → Prop where
  | ok (a : α) (t : State) : SameButName (.ok a t) (.ok a (t.inMode true))
  | error (exit : Exit) (t : State) : SameButName (.error exit t) (.error exit (t.inMode true))
  | left (payload : Value) (t : State) :
      SameButName (.error (.thrown (.reserved .exit payload)) t)
        (.error (.thrown (.reserved .return payload)) (t.inMode true))

theorem InStep.sameButName {limit : Option Nat} {r r' : EStateM.Result Exit State α}
    (h : InStep ⟨limit, false⟩ ⟨limit, true⟩ r r') : SameButName r r' := by
  cases h with
  | ok a u => exact .ok a (u.under ⟨limit, false⟩)
  | @error exit _ renamed u =>
    cases renamed with
    | same => exact .error exit (u.under ⟨limit, false⟩)
    | left renames payload => exact .left payload (u.under ⟨limit, false⟩)

/-- A run that no exit leaves ends in the same way. -/
theorem SameButName.eq_afterwards {r r' : EStateM.Result Exit State α} (h : SameButName r r')
    (kept : ∀ exit t, r ≠ .error (.thrown exit) t) : r' = afterwards (·.inMode true) r := by
  cases h with
  | ok a t => rfl
  | error exit t => rfl
  | left payload t => exact absurd rfl (kept (.reserved .exit payload) t)

/-- What the mode does to whatever is evaluated from a state, as long as no names of exits are read:
the runs end alike, and of a whole program the results are the same. -/
structure ExitModeInvisible (fuel : Nat) (s : State) : Prop where
  next (block : BlockRef) (index : Nat) :
    NamesUnread (fun ev => ev.next block index) fuel (s.inMode false) →
      SameButName ((evaluator fuel).next block index (s.inMode false))
        ((evaluator fuel).next block index (s.inMode true))
  all (block : BlockRef) : NamesUnread (fun ev => ev.all block) fuel (s.inMode false) →
    SameButName ((evaluator fuel).all block (s.inMode false))
      ((evaluator fuel).all block (s.inMode true))
  reduce (block : BlockRef) : NamesUnread (fun ev => ev.reduce block) fuel (s.inMode false) →
    SameButName ((evaluator fuel).reduce block (s.inMode false))
      ((evaluator fuel).reduce block (s.inMode true))
  invoke (name : String) (f : Function) (args : Args) :
    NamesUnread (fun ev => ev.invoke name f args) fuel (s.inMode false) →
      SameButName ((evaluator fuel).invoke name f args (s.inMode false))
        ((evaluator fuel).invoke name f args (s.inMode true))
  complete (block : BlockRef) : NamesUnread (fun ev => ev.all block) fuel (s.inMode false) →
    Interpreter.complete (evaluator fuel) block (s.inMode true) =
      afterwards (·.inMode true) (Interpreter.complete (evaluator fuel) block (s.inMode false))
  run (source : String) :
    (∀ block t, Interpreter.loadSource source (s.inMode false) = .ok (block, t) →
      NamesUnread (fun ev => ev.all block) Interpreter.fuel t) →
    Interpreter.run source (s.inMode true) =
      ((Interpreter.run source (s.inMode false)).1,
        (Interpreter.run source (s.inMode false)).2.inMode true)

theorem exit_mode_invisible (fuel : Nat) (s : State) : ExitModeInvisible fuel s := by
  have inStep {α : Type} {k : Evaluator → EvalM α}
      (routine : Routine ⟨ClaimsNothing, fun _ => True, False⟩ k)
      (unread : NamesUnread k fuel (s.inMode false)) :
      InStep ⟨s.calls.limit, false⟩ ⟨s.calls.limit, true⟩
        (k (evaluator fuel) (s.inMode false)) (k (evaluator fuel) (s.inMode true)) :=
    Spares.inStep (u := s) unread routine callsTrack_modes fun _ => rfl
  exact
    { next := fun block index unread => (inStep (.next block index) unread).sameButName
      all := fun block unread => (inStep (.all block) unread).sameButName
      reduce := fun block unread => (inStep (.reduce block) unread).sameButName
      invoke := fun name f args unread => (inStep (.invoke name f args) unread).sameButName
      complete := fun block unread =>
        (Interpreter.complete_inStep (inStep (.all block) unread)).sameButName.eq_afterwards
          fun exit t => Interpreter.complete_ne_thrown _ block _ t exit
      run := fun source unread => by
        obtain ⟨v, off, whole⟩ := Interpreter.run_inStep (u := s) fun block t loaded =>
          Spares.inStep (unread block _ loaded) (.all block) callsTrack_modes fun _ => rfl
        refine whole.trans (Prod.ext rfl ?_)
        rw [show (Interpreter.run source (s.inMode false)).2 = _ from off]
        rfl }

def leaving : State where
  heap :=
    { blocks := #[{ data := #[.word .word "catch", .block ⟨1, 0⟩] },
        { data := #[.word .word "exit"] }]
      frames := #[.ofFields [("catch", .function (.native .catchThrown)),
        ("exit", .function (.native .exitFunction))]] }
  env := { root := 0 }

theorem exit_mode_invisible_leaving :
    NamesUnread (fun ev => ev.all ⟨0, 0⟩) 6 (leaving.inMode false) ∧
      (evaluator 6).all ⟨0, 0⟩ (leaving.inMode false) =
        .error (.thrown (.reserved .exit .unset)) (leaving.inMode false) ∧
      SameButName ((evaluator 6).all ⟨0, 0⟩ (leaving.inMode false))
        ((evaluator 6).all ⟨0, 0⟩ (leaving.inMode true)) := by
  have left : (evaluator 6).all ⟨0, 0⟩ (leaving.inMode false) =
      .error (.thrown (.reserved .exit .unset)) (leaving.inMode false) := by with_unfolding_all rfl
  have unread : NamesUnread (fun ev => ev.all ⟨0, 0⟩) 6 (leaving.inMode false) := by
    intro alarm
    refine Eq.trans ?_ left.symm
    with_unfolding_all rfl
  exact ⟨unread, left, (exit_mode_invisible 6 leaving).all ⟨0, 0⟩ unread⟩

end BlockScript
