import BlockScript.Interpreter
import BlockScript.Proofs.Balance

/-!
# Runs under different settings

No program can change the limit of its calls, nor the name under which the exit of a function is
thrown. To see what these settings do, the runs of a program from one state under two settings are
compared step by step. An evaluator that stops in place of the calls to which the settings matter
either stops in the first run, or keeps the second in step with it: both do the same, up to the name
of an exit that is on its way out.
-/

namespace BlockScript

variable {α β : Type}

structure Settings where
  limit : Option Nat
  exitAsReturn : Bool

def State.under (s : State) (σ : Settings) : State :=
  { s with calls := { s.calls with limit := σ.limit }, exitAsReturn := σ.exitAsReturn }

def Settings.Renames (σ σ' : Settings) : Prop := σ.exitAsReturn = false ∧ σ'.exitAsReturn = true

inductive Exit.Renamed (σ σ' : Settings) : Exit → Exit → Prop where
  | same (exit : Exit) : Renamed σ σ' exit exit
  | left (renames : σ.Renames σ') (payload : Value) :
      Renamed σ σ' (.thrown (.reserved .exit payload)) (.thrown (.reserved .return payload))

inductive InStep (σ σ' : Settings) :
    EStateM.Result Exit State α → EStateM.Result Exit State α → Prop where
  | ok (a : α) (u : State) : InStep σ σ' (.ok a (u.under σ)) (.ok a (u.under σ'))
  | error {exit exit' : Exit} (renamed : exit.Renamed σ σ' exit') (u : State) :
      InStep σ σ' (.error exit (u.under σ)) (.error exit' (u.under σ'))

def afterwards (change : State → State) :
    EStateM.Result Exit State α → EStateM.Result Exit State α
  | .ok a t => .ok a (change t)
  | .error exit t => .error exit (change t)

/-! ## Stopping -/

/-- Ends the run for good and leaves a mark in place of what was printed. -/
def stop (mark : String) : EvalM Value := fun s => .error .outOfFuel { s with output := mark }

def Stopped (mark : String) (r : EStateM.Result Exit State α) : Prop :=
  ∃ t, r = .error .outOfFuel t ∧ t.output = mark

namespace Stopped

variable {mark : String} {m : EvalM α} {s : State}

theorem bind (h : Stopped mark (m s)) (f : α → EvalM β) : Stopped mark ((m >>= f) s) := by
  obtain ⟨t, run, marked⟩ := h
  exact ⟨t, by simp only [Bind.bind, EStateM.bind, run], marked⟩

theorem withScope {frame : FrameId} (h : Stopped mark (m { s with env := s.env.push frame })) :
    Stopped mark (withScope frame m s) := by
  obtain ⟨t, run, marked⟩ := h
  exact ⟨{ t with env := t.env.pop }, by rw [BlockScript.withScope, run], marked⟩

theorem withCall {name : String} {calls : CallStack} (pushed : s.calls.push name = .ok calls)
    (h : Stopped mark (m { s with calls })) : Stopped mark (withCall name m s) := by
  obtain ⟨t, run, marked⟩ := h
  refine ⟨{ t with calls := t.calls.pop }, ?_, marked⟩
  rw [BlockScript.withCall, pushed]
  dsimp only
  rw [run]
  rfl

theorem guarded (h : Stopped mark (m s.armed)) : Stopped mark (guarded m s) := by
  obtain ⟨t, run, marked⟩ := h
  exact ⟨t.disarm s.recovery.nextToken, by rw [guarded_apply, run], marked⟩

theorem claiming (h : Stopped mark (m s)) (claim : Heap → Thrown → Option β) (result : α → β) :
    Stopped mark (claiming claim result m s) := by
  obtain ⟨t, run, marked⟩ := h
  exact ⟨t, by rw [BlockScript.claiming, run], marked⟩

end Stopped

/-- From any state, the first computation is stopped or the second keeps in step with it. -/
def Tracks (mark : String) (σ σ' : Settings) (m m' : EvalM α) : Prop :=
  ∀ u : State, Stopped mark (m (u.under σ)) ∨ InStep σ σ' (m (u.under σ)) (m' (u.under σ'))

/-! ## Steps and brackets -/

section Tracks

variable {mark : String} {σ σ' : Settings} {m m' : EvalM α}

theorem editBlock_inStep (id : Nat) (change : Array Value → Array Value) (u : State) :
    InStep σ σ' (editBlock id change (u.under σ)) (editBlock id change (u.under σ')) := by
  have edited (σ : Settings) : editBlock id change (u.under σ) =
      if u.heap.isBlockProtected id then .error (.raised { cause := .guarded }) (u.under σ)
      else .ok () (State.under { u with heap := u.heap.editBlock id change } σ) :=
    editBlock_apply id change (u.under σ)
  rw [edited, edited]
  split
  · exact .error (.same _) u
  · exact .ok () _

theorem editText_inStep (id : TextId) (change : String → String) (u : State) :
    InStep σ σ' (editText id change (u.under σ)) (editText id change (u.under σ')) := by
  have edited (σ : Settings) : editText id change (u.under σ) =
      if u.heap.isTextProtected id then .error (.raised { cause := .guarded }) (u.under σ)
      else .ok () (State.under { u with heap := u.heap.editText id change } σ) :=
    editText_apply id change (u.under σ)
  rw [edited, edited]
  split
  · exact .error (.same _) u
  · exact .ok () _

/-- The one step that reads a setting. -/
theorem exitFunction_inStep (args : Args)
    (ordered : σ.exitAsReturn = true → σ'.exitAsReturn = true) (u : State) :
    InStep σ σ' (Exits.exitFunction args (u.under σ)) (Exits.exitFunction args (u.under σ')) := by
  let payload := (args.refinement? 0).getD .unset
  have thrown (σ : Settings) : Exits.exitFunction args (u.under σ) =
      .error (.thrown (.reserved (if σ.exitAsReturn then .return else .exit) payload))
        (u.under σ) := rfl
  rw [thrown, thrown]
  refine .error ?_ u
  cases here : σ.exitAsReturn with
  | true =>
    rw [ordered here]
    exact .same _
  | false =>
    cases there : σ'.exitAsReturn with
    | true => exact .left ⟨here, there⟩ payload
    | false => exact .same _

theorem Primitive.inStep {walks : ProtectFlags → Prop} (step : Primitive walks m)
    (ordered : σ.exitAsReturn = true → σ'.exitAsReturn = true) (u : State) :
    InStep σ σ' (m (u.under σ)) (m (u.under σ')) := by
  cases step with
  | pure a => exact .ok a u
  | throw exit => exact .error (.same exit) u
  | print line => exact .ok () { u with output := (u.output ++ line).push '\n' }
  | newBlock items => exact .ok _ { u with heap := (u.heap.newBlock items).2 }
  | newText content => exact .ok _ { u with heap := (u.heap.newText content).2 }
  | newFrame fields => exact .ok _ { u with heap := (u.heap.newFrame (.ofFields fields)).2 }
  | newFunction params body => exact .ok _ { u with heap := (u.heap.newFunction params body).2 }
  | loadBlock data => exact .ok _ { u with heap := (u.heap.loadBlock data).2 }
  | shallowCopy v => exact .ok _ { u with heap := (u.heap.shallowCopy v).2 }
  | deepCopy v => exact .ok _ { u with heap := (u.heap.deepCopy v).2 }
  | editBlock id change => exact editBlock_inStep id change u
  | editText id change => exact editText_inStep id change u
  | assignNamed id name value missing =>
    rw [assignNamed_apply, assignNamed_apply]
    dsimp only [State.under]
    split
    · next index _ =>
      rw [assignField_apply, assignField_apply]
      dsimp only
      split
      · exact .error (.same _) u
      · exact .ok () { u with heap := u.heap.modifyFrame id (·.put index value) }
    · exact .error (.same _) u
  | assignWord name value =>
    rw [assignWord_apply, assignWord_apply]
    dsimp only [State.under]
    split
    · exact .error (.same _) u
    · next slot _ => exact .ok () { u with heap := u.env.write u.heap name value slot }
  | exitFunction args => exact exitFunction_inStep args ordered u
  | @walkValue flags allowed visited v =>
    exact .ok _
      { u with heap := (ProtectWalk.protectValue { flags, heap := u.heap, visited } v).heap }
  | @walkField flags allowed visited id index =>
    exact .ok _
      { u with heap := (ProtectWalk.protectField { flags, heap := u.heap, visited } id index).heap }

theorem State.land_under (u : State) (σ : Settings) (token : Nat) :
    (u.under σ).land token = (u.land token).under σ := by
  unfold State.land
  dsimp only [State.under]
  split <;> rfl

namespace Tracks

theorem throw (exit : Exit) : Tracks mark σ σ' (throw exit : EvalM α) (throw exit) :=
  fun u => .inr (.error (.same exit) u)

theorem bind {f f' : α → EvalM β} (h : Tracks mark σ σ' m m')
    (hf : ∀ a, Tracks mark σ σ' (f a) (f' a)) : Tracks mark σ σ' (m >>= f) (m' >>= f') := by
  intro u
  rcases h u with stopped | inStep
  · exact .inl (stopped.bind f)
  · simp only [Bind.bind, EStateM.bind]
    generalize m (u.under σ) = r, m' (u.under σ') = r' at inStep ⊢
    cases inStep with
    | ok a v => exact hf a v
    | error renamed v => exact .inr (.error renamed v)

theorem withScope (h : Tracks mark σ σ' m m') (frame : FrameId) :
    Tracks mark σ σ' (withScope frame m) (withScope frame m') := by
  intro u
  let inner (s : State) : State := { s with env := s.env.push frame }
  rcases h (inner u) with stopped | inStep
  · exact .inl (.withScope stopped)
  · have body : InStep σ σ' (m (inner (u.under σ))) (m' (inner (u.under σ'))) := inStep
    refine .inr ?_
    unfold BlockScript.withScope
    generalize m (inner (u.under σ)) = r, m' (inner (u.under σ')) = r' at body ⊢
    cases body with
    | ok a v => exact .ok a { v with env := v.env.pop }
    | error renamed v => exact .error renamed { v with env := v.env.pop }

theorem guarded (h : Tracks mark σ σ' m m') : Tracks mark σ σ' (guarded m) (guarded m') := by
  intro u
  have armed (σ : Settings) : (u.under σ).armed = u.armed.under σ := rfl
  rcases h u.armed with stopped | inStep
  · exact .inl (.guarded stopped)
  · refine .inr ?_
    rw [guarded_apply, guarded_apply, armed, armed]
    generalize m (u.armed.under σ) = r, m' (u.armed.under σ') = r' at inStep ⊢
    cases inStep with
    | ok a v => exact .ok _ (v.disarm u.recovery.nextToken)
    | @error exit _ renamed v =>
      cases renamed with
      | left renames payload =>
        exact .error (.left renames payload) (v.disarm u.recovery.nextToken)
      | same =>
        cases exit with
        | thrown exit => exact .error (.same _) (v.disarm u.recovery.nextToken)
        | outOfFuel => exact .error (.same _) (v.disarm u.recovery.nextToken)
        | raised e =>
          dsimp only
          rw [State.land_under, State.land_under]
          exact .ok _ (v.land u.recovery.nextToken)

/-- A claim keeps step if it treats a return as it treats the exit. -/
theorem claiming (h : Tracks mark σ σ' m m') {claim : Heap → Thrown → Option β} {result : α → β}
    (agree : σ.Renames σ' → ∀ h payload,
      claim h (.reserved .return payload) = claim h (.reserved .exit payload)) :
    Tracks mark σ σ' (claiming claim result m) (claiming claim result m') := by
  intro u
  rcases h u with stopped | inStep
  · exact .inl (stopped.claiming claim result)
  · refine .inr ?_
    unfold BlockScript.claiming
    generalize m (u.under σ) = r, m' (u.under σ') = r' at inStep ⊢
    cases inStep with
    | ok a v => exact .ok _ v
    | @error exit _ renamed v =>
      cases renamed with
      | left renames payload =>
        dsimp only [State.under]
        rw [agree renames]
        split
        · exact .ok _ v
        · exact .error (.left renames payload) v
      | same =>
        cases exit with
        | thrown exit =>
          dsimp only [State.under]
          split
          · exact .ok _ v
          · exact .error (.same _) v
        | raised e => exact .error (.same _) v
        | outOfFuel => exact .error (.same _) v

end Tracks

/-! ## Calls -/

def CallStack.refuses (c : CallStack) (name : String) : Bool :=
  match c.push name with
  | .ok _ => false
  | .error _ => true

theorem CallStack.push_of_not_refuses {c : CallStack} {name : String}
    (h : c.refuses name = false) : ∃ calls, c.push name = .ok calls := by
  unfold refuses at h
  split at h
  · next calls pushed => exact ⟨calls, pushed⟩
  · cases h

theorem CallStack.push_of_refuses {c : CallStack} {name : String} (h : c.refuses name = true) :
    ∃ cause, c.push name = .error cause := by
  unfold refuses at h
  split at h
  · cases h
  · next cause refused => exact ⟨cause, refused⟩

theorem Exit.Renamed.attachCalls {exit exit' : Exit} (renamed : exit.Renamed σ σ' exit')
    {calls calls' : CallStack} (names : calls'.names = calls.names) :
    (attachCalls calls exit).Renamed σ σ' (attachCalls calls' exit') := by
  cases renamed with
  | left renames payload => exact .left renames payload
  | same =>
    obtain ⟨running, limit⟩ := calls
    obtain ⟨running', limit'⟩ := calls'
    subst names
    cases exit <;> exact .same _

theorem Tracks.withCall (h : Tracks mark σ σ' m m') {name : String} {u : State}
    {calls calls' : CallStack} (pushed : (u.under σ).calls.push name = .ok calls)
    (pushed' : (u.under σ').calls.push name = .ok calls') :
    Stopped mark (withCall name m (u.under σ)) ∨
      InStep σ σ' (withCall name m (u.under σ)) (withCall name m' (u.under σ')) := by
  let inside (s : State) : State :=
    { s with calls := { s.calls with names := s.calls.names.push name } }
  rcases h (inside u) with stopped | inStep
  · refine .inl (.withCall pushed ?_)
    rw [CallStack.eq_of_push pushed]
    exact stopped
  · have body : InStep σ σ' (m (inside (u.under σ))) (m' (inside (u.under σ'))) := inStep
    refine .inr ?_
    unfold BlockScript.withCall
    rw [pushed, pushed', CallStack.eq_of_push pushed, CallStack.eq_of_push pushed']
    dsimp only
    generalize m (inside (u.under σ)) = r, m' (inside (u.under σ')) = r' at body ⊢
    cases body with
    | ok a v => exact .ok a { v with calls := v.calls.pop }
    | error renamed v =>
      exact .error (renamed.attachCalls rfl) { v with calls := v.calls.pop }

/-- Both computations refuse the call, for the same reason. -/
theorem withCall_refused {name : String} {u : State} {cause : Cause}
    (refused : (u.under σ).calls.push name = .error cause)
    (refused' : (u.under σ').calls.push name = .error cause) :
    InStep σ σ' (withCall name m (u.under σ)) (withCall name m' (u.under σ')) := by
  unfold BlockScript.withCall
  rw [refused, refused']
  exact .error (.same _) u

end Tracks

/-! ## Routines -/

/-- The second evaluator keeps step with the first, unless that one stops. The exit of a function
may be renamed in one direction only. -/
structure Evaluator.Tracks (mark : String) (σ σ' : Settings) (ev ev' : Evaluator) : Prop where
  ordered : σ.exitAsReturn = true → σ'.exitAsReturn = true
  next (block : BlockRef) (index : Nat) :
    BlockScript.Tracks mark σ σ' (ev.next block index) (ev'.next block index)
  invoke (name : String) (f : Function) (args : Args) :
    BlockScript.Tracks mark σ σ' (ev.invoke name f args) (ev'.invoke name f args)
  fuel : ev'.fuel = ev.fuel

/-- A permit for no calls, and for no claims on exits that have two names. -/
structure Permit.Indifferent (permit : Permit) (σ σ' : Settings) : Prop where
  calls : ¬ permit.calls
  claims : σ.Renames σ' → ∀ h payload, ¬ permit.claims h (.thrown (.reserved .exit payload)) ∧
    ¬ permit.claims h (.thrown (.reserved .return payload))

section Routines

variable {mark : String} {σ σ' : Settings} {ev ev' : Evaluator}

theorem Routine.tracks {permit : Permit} {k : Evaluator → EvalM α} (h : Routine permit k)
    (indifferent : permit.Indifferent σ σ') (hev : ev.Tracks mark σ σ' ev') :
    Tracks mark σ σ' (k ev) (k ev') := by
  induction h with
  | primitive step => exact fun u => .inr (step.inStep hev.ordered u)
  | bind _ _ first rest => exact first.bind rest
  | @look _ f alike _ rest =>
    intro u
    have agree : f (u.under σ') = f (u.under σ) :=
      (alike (u.under σ) (u.under σ') ⟨.refl u.heap, rfl⟩).symm
    dsimp only
    rw [agree]
    exact rest (u.under σ) u
  | @fuel _ k _ bounded =>
    show Tracks mark σ σ' (k ev.fuel ev) (k ev'.fuel ev')
    rw [hev.fuel]
    exact bounded ev.fuel
  | next block index => exact hev.next block index
  | invoke name f args => exact hev.invoke name f args
  | withScope frame _ body => exact body.withScope frame
  | withCall permitted => exact absurd permitted indifferent.calls
  | guarded _ _ body => exact body.guarded
  | @claiming _ _ _ claim _ _ claimed _ body =>
    refine body.claiming fun renames h payload => ?_
    obtain ⟨noExit, noReturn⟩ := indifferent.claims renames h payload
    have unclaimed {exit : Thrown} (no : ¬ permit.claims h (.thrown exit)) :
        claim h exit = none := by
      cases found : claim h exit with
      | none => rfl
      | some b => exact absurd (claimed h exit b found) no
    rw [unclaimed noExit, unclaimed noReturn]

/-- What claims nothing and makes no calls itself keeps step if the evaluators do. -/
theorem Tracks.routine {k : Evaluator → EvalM α}
    (routine : Routine ⟨ClaimsNothing, fun _ => True, False⟩ k) (hev : ev.Tracks mark σ σ' ev') :
    Tracks mark σ σ' (k ev) (k ev') :=
  routine.tracks ⟨id, fun _ _ _ => ⟨id, id⟩⟩ hev

/-! ## Stopping evaluators -/

def evaluatorSparing (barred : String → Function → Args → State → Bool) (alarm : EvalM Value)
    (fuel : Nat) : Evaluator where
  next block position :=
    match fuel with
    | 0 => throw .outOfFuel
    | fuel + 1 => expression (evaluatorSparing barred alarm fuel) block position
  invoke name f args :=
    match fuel with
    | 0 => throw .outOfFuel
    | fuel + 1 => fun s =>
      if barred name f args s then alarm s
      else invoke (evaluatorSparing barred alarm fuel) name f args s
  fuel

def CallsTrack (barred : String → Function → Args → State → Bool) (σ σ' : Settings) : Prop :=
  ∀ mark ev ev', ev.Tracks mark σ σ' ev' → ∀ name f args (u : State),
    barred name f args (u.under σ) = false →
      Stopped mark (invoke ev name f args (u.under σ)) ∨
        InStep σ σ' (invoke ev name f args (u.under σ)) (invoke ev' name f args (u.under σ'))

variable {barred : String → Function → Args → State → Bool}

theorem evaluatorSparing_tracks (ordered : σ.exitAsReturn = true → σ'.exitAsReturn = true)
    (calls : CallsTrack barred σ σ') (mark : String) (fuel : Nat) :
    (evaluatorSparing barred (stop mark) fuel).Tracks mark σ σ' (evaluator fuel) := by
  induction fuel with
  | zero => exact ⟨ordered, fun _ _ => .throw _, fun _ _ _ => .throw _, rfl⟩
  | succ fuel ih =>
    refine ⟨ordered, fun block index => ?_, fun name f args u => ?_, rfl⟩
    · exact .routine (.expression block index) ih
    · have invoked : (evaluatorSparing barred (stop mark) (fuel + 1)).invoke name f args
          (u.under σ) = if barred name f args (u.under σ) then stop mark (u.under σ)
            else invoke (evaluatorSparing barred (stop mark) fuel) name f args (u.under σ) := rfl
      rw [invoked]
      cases judged : barred name f args (u.under σ) with
      | true => exact .inl ⟨_, rfl, rfl⟩
      | false => exact calls mark _ _ ih name f args u judged

end Routines

/-- No call that is barred is made: whatever such calls did, the run would be the same. -/
def Spares (barred : String → Function → Args → State → Bool) (k : Evaluator → EvalM α)
    (fuel : Nat) (s : State) : Prop :=
  ∀ alarm, k (evaluatorSparing barred alarm fuel) s = k (evaluator fuel) s

section Spares

variable {barred : String → Function → Args → State → Bool} {σ σ' : Settings}

/-- A barred call that is made is noticed. -/
theorem not_spares_invoke {name : String} {f : Function} {args : Args} {s : State}
    (judged : barred name f args s = true) (fuel : Nat) :
    ¬ Spares barred (fun ev => ev.invoke name f args) (fuel + 1) s := by
  intro spares
  have noticed (alarm : EvalM Value) :
      alarm s = (evaluator (fuel + 1)).invoke name f args s :=
    (if_pos judged).symm.trans (spares alarm)
  have same := (noticed (stop "")).trans (noticed (pure .none)).symm
  cases same

/-- A run without barred calls is not stopped, as that would leave one mark or another. -/
theorem Spares.inStep {k : Evaluator → EvalM α} {fuel : Nat} {u : State}
    (spares : Spares barred k fuel (u.under σ))
    (routine : Routine ⟨ClaimsNothing, fun _ => True, False⟩ k) (calls : CallsTrack barred σ σ')
    (ordered : σ.exitAsReturn = true → σ'.exitAsReturn = true) :
    InStep σ σ' (k (evaluator fuel) (u.under σ)) (k (evaluator fuel) (u.under σ')) := by
  have runs (mark : String) :=
    Tracks.routine routine (evaluatorSparing_tracks ordered calls mark fuel) u
  simp only [spares (stop _)] at runs
  rcases runs "" with ⟨t, run, marked⟩ | inStep
  · rcases runs "stopped" with ⟨t', run', marked'⟩ | inStep
    · rw [run] at run'
      cases run'
      exact absurd (marked.symm.trans marked') (by decide)
    · exact inStep
  · exact inStep

end Spares

/-! ## Whole programs -/

namespace Interpreter

variable {σ σ' : Settings}

/-- An exit or return that leaves the program is the same error. -/
theorem complete_inStep {ev ev' : Evaluator} {block : BlockRef} {s t : State}
    (all : InStep σ σ' (ev.all block s) (ev'.all block t)) :
    InStep σ σ' (complete ev block s) (complete ev' block t) := by
  unfold complete
  generalize ev.all block s = r, ev'.all block t = r' at all ⊢
  cases all with
  | ok a v => exact .ok _ v
  | @error exit _ renamed v =>
    cases renamed with
    | left renames payload => exact .error (.same (.raised { cause := .notInFunction })) v
    | same =>
      cases exit with
      | thrown exit =>
        dsimp only [State.under]
        split
        · exact .ok _ v
        · exact .error (.same _) v
      | raised e => exact .error (.same _) v
      | outOfFuel => exact .error (.same _) v

theorem run_inStep {source : String} {u : State}
    (all : ∀ block (t : State), loadSource source (u.under σ) = .ok (block, t.under σ) →
      InStep σ σ' (standard.all block (t.under σ)) (standard.all block (t.under σ'))) :
    ∃ v : State, (run source (u.under σ)).2 = v.under σ ∧
      run source (u.under σ') = ((run source (u.under σ)).1, v.under σ') := by
  have loaded (σ : Settings) : loadSource source (u.under σ) =
      (loadSource source u).map fun program => (program.1, program.2.under σ) := by
    unfold loadSource
    cases Datum.read source <;> rfl
  simp only [loaded] at all
  unfold run
  rw [loaded, loaded]
  cases loads : loadSource source u with
  | error e => exact ⟨u, rfl, rfl⟩
  | ok program =>
    have completed := complete_inStep (all program.1 program.2 (by rw [loads]; rfl))
    dsimp only [Except.map]
    generalize complete standard program.1 (program.2.under σ) = r,
      complete standard program.1 (program.2.under σ') = r' at completed ⊢
    cases completed with
    | ok a v => exact ⟨v, rfl, rfl⟩
    | @error exit _ renamed v =>
      cases renamed with
      | left renames payload => exact ⟨v, rfl, rfl⟩
      | same => cases exit <;> exact ⟨v, rfl, rfl⟩

end Interpreter

end BlockScript
