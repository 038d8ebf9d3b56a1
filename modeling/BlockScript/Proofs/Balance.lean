import BlockScript.Proofs.Constructs

/-!
# Stack balance

However an evaluation ends, it leaves the scopes, the running calls and the armed recovery points as
it found them. The brackets restore them, everything else inside a routine keeps them, and induction
on the fuel carries this through the evaluator. What a bracket removes is therefore what it added.
-/

namespace BlockScript

variable {α β : Type} {s t u : State} {m : EvalM α} {ev : Evaluator}

def endState (m : EvalM α) (s : State) : State :=
  match m s with
  | .ok _ t => t
  | .error _ t => t

theorem endState_ok {a : α} (h : m s = .ok a t) : endState m s = t := by rw [endState, h]

theorem endState_error {exit : Exit} (h : m s = .error exit t) : endState m s = t := by
  rw [endState, h]

theorem endState_bind_ok {f : α → EvalM β} {a : α} (h : m s = .ok a t) :
    endState (m >>= f) s = endState (f a) t := by
  simp only [endState, Bind.bind, EStateM.bind, h]

theorem endState_bind_error {f : α → EvalM β} {exit : Exit} (h : m s = .error exit t) :
    endState (m >>= f) s = t := by
  simp only [endState, Bind.bind, EStateM.bind, h]

/-! ## Stacks that stay -/

structure SameStacks (s t : State) : Prop where
  env : t.env = s.env
  calls : t.calls = s.calls
  points : t.recovery.points = s.recovery.points

namespace SameStacks

theorem refl (s : State) : SameStacks s s := ⟨rfl, rfl, rfl⟩

theorem trans (h : SameStacks s t) (h' : SameStacks t u) : SameStacks s u :=
  ⟨h'.env.trans h.env, h'.calls.trans h.calls, h'.points.trans h.points⟩

end SameStacks

theorem State.Step.sameStacks {walks : ProtectFlags → Prop} (step : s.Step walks t) :
    SameStacks s t := by
  cases step <;> exact ⟨rfl, rfl, rfl⟩

def Balanced (m : EvalM α) : Prop := ∀ s, SameStacks s (endState m s)

namespace Balanced

theorem throw (exit : Exit) : Balanced (throw exit : EvalM α) := fun s => .refl s

theorem primitive {walks : ProtectFlags → Prop} (step : Primitive walks m) : Balanced m := by
  intro s
  rcases step.outcome s with ⟨a, t, run, step⟩ | ⟨exit, run⟩
  · rw [endState_ok run]
    exact step.sameStacks
  · rw [endState_error run]
    exact .refl s

theorem bind {f : α → EvalM β} (h : Balanced m) (hf : ∀ a, Balanced (f a)) :
    Balanced (m >>= f) := by
  intro s
  have first := h s
  cases run : m s with
  | ok a t =>
    rw [endState_ok run] at first
    rw [endState_bind_ok run]
    exact first.trans (hf a t)
  | error exit t =>
    rw [endState_error run] at first
    rw [endState_bind_error run]
    exact first

end Balanced

/-! ## Brackets -/

theorem endState_withScope (frame : FrameId) (body : EvalM α) (s : State) :
    endState (withScope frame body) s =
      let t := endState body { s with env := s.env.push frame }
      { t with env := t.env.pop } := by
  unfold endState withScope
  cases body { s with env := s.env.push frame } <;> rfl

theorem endState_claiming (claim : Heap → Thrown → Option β) (result : α → β) (body : EvalM α)
    (s : State) : endState (claiming claim result body) s = endState body s := by
  unfold endState claiming
  cases body s with
  | ok a t => rfl
  | error exit t =>
    cases exit with
    | thrown exit => cases h : claim t.heap exit <;> simp only [h]
    | raised e => rfl
    | outOfFuel => rfl

theorem endState_withCall (name : String) (body : EvalM α) (s : State) :
    endState (withCall name body) s =
      match s.calls.push name with
      | .error _ => s
      | .ok calls =>
        let t := endState body { s with calls }
        { t with calls := t.calls.pop } := by
  unfold endState withCall
  cases s.calls.push name with
  | error cause => rfl
  | ok calls => cases h : body { s with calls } <;> simp only [h]

def retired (token : Nat) : EStateM.Result Exit State α → State
  | .ok _ t => t.disarm token
  | .error (.raised _) t => t.land token
  | .error _ t => t.disarm token

theorem endState_guarded (body : EvalM α) (s : State) :
    endState (guarded body) s = retired s.recovery.nextToken (body s.armed) := by
  unfold endState
  rw [guarded_apply]
  cases body s.armed with
  | ok a t => rfl
  | error exit t => cases exit <;> rfl

theorem Environment.truncate_depth (env : Environment) : env.truncate env.depth = env := by
  have above : env.depth - max env.depth 1 = 0 := by omega
  rw [truncate, above, List.drop_zero]

theorem CallStack.truncate_depth (c : CallStack) : c.truncate c.depth = c := by
  have whole : c.names.take c.names.size = c.names := by simp
  rw [truncate, depth, whole]

theorem CallStack.eq_of_push {c calls : CallStack} {name : String} (h : c.push name = .ok calls) :
    calls = { c with names := c.names.push name } := by
  unfold push at h
  split at h
  · split at h
    · cases h
      rfl
    · cases h
  · cases h
    rfl

theorem CallStack.pop_of_push {c calls : CallStack} {name : String} (h : c.push name = .ok calls) :
    calls.pop = c := by
  rw [eq_of_push h, pop, Array.pop_push]

theorem CallStack.depth_of_push {c calls : CallStack} {name : String}
    (h : c.push name = .ok calls) : calls.depth = c.depth + 1 := by
  rw [eq_of_push h, depth, Array.size_push, depth]

/-- After a body that kept the stacks, retiring finds its own point with the present depths. -/
theorem SameStacks.retire (h : SameStacks s.armed t) :
    t.recovery.retire s.recovery.nextToken =
      (some ⟨s.recovery.nextToken, t.env.depth, t.calls.depth⟩,
        { t.recovery with points := s.recovery.points }) := by
  have points : t.recovery.points =
      ⟨s.recovery.nextToken, t.env.depth, t.calls.depth⟩ :: s.recovery.points := by
    rw [h.points, h.env, h.calls]
    rfl
  unfold RecoveryStack.retire
  rw [points]
  simp only [if_true]

theorem SameStacks.disarm (h : SameStacks s.armed t) :
    SameStacks s (t.disarm s.recovery.nextToken) := by
  refine ⟨h.env, h.calls, ?_⟩
  rw [State.disarm, h.retire]

/-- The truncations of landing find nothing to remove. -/
theorem SameStacks.land_eq_disarm (h : SameStacks s.armed t) :
    t.land s.recovery.nextToken = t.disarm s.recovery.nextToken := by
  unfold State.land State.disarm
  rw [h.retire]
  dsimp only
  rw [t.env.truncate_depth, t.calls.truncate_depth]

namespace Balanced

theorem withScope (h : Balanced m) (frame : FrameId) : Balanced (withScope frame m) := by
  intro s
  have body := h { s with env := s.env.push frame }
  rw [endState_withScope]
  refine ⟨?_, body.calls, body.points⟩
  dsimp only
  rw [body.env]
  rfl

theorem claiming (h : Balanced m) (claim : Heap → Thrown → Option β) (result : α → β) :
    Balanced (claiming claim result m) := by
  intro s
  rw [endState_claiming]
  exact h s

theorem withCall (h : Balanced m) (name : String) : Balanced (withCall name m) := by
  intro s
  rw [endState_withCall]
  cases pushed : s.calls.push name with
  | error cause => exact .refl s
  | ok calls =>
    have body := h { s with calls }
    refine ⟨body.env, ?_, body.points⟩
    dsimp only
    rw [body.calls]
    exact CallStack.pop_of_push pushed

theorem guarded (h : Balanced m) : Balanced (guarded m) := by
  intro s
  have body := h s.armed
  rw [endState_guarded]
  cases run : m s.armed with
  | ok a t =>
    rw [endState_ok run] at body
    exact body.disarm
  | error exit t =>
    rw [endState_error run] at body
    cases exit with
    | raised e =>
      rw [retired, body.land_eq_disarm]
      exact body.disarm
    | thrown exit => exact body.disarm
    | outOfFuel => exact body.disarm

end Balanced

/-! ## The evaluator -/

structure Evaluator.Balanced (ev : Evaluator) : Prop where
  next (block : BlockRef) (index : Nat) : BlockScript.Balanced (ev.next block index)
  invoke (name : String) (f : Function) (args : Args) : BlockScript.Balanced (ev.invoke name f args)

theorem Routine.keepsStacks {permit : Permit} {k : Evaluator → EvalM α} (h : Routine permit k)
    (hev : ev.Balanced) : Balanced (k ev) := by
  induction h with
  | primitive step => exact .primitive step
  | bind _ _ first rest => exact first.bind rest
  | look _ _ rest => exact fun s => rest s s
  | fuel _ bounded => exact bounded ev.fuel
  | next block index => exact hev.next block index
  | invoke name f args => exact hev.invoke name f args
  | withScope frame _ body => exact body.withScope frame
  | withCall _ name _ body => exact body.withCall name
  | guarded _ _ body => exact body.guarded
  | claiming _ _ _ body => exact body.claiming _ _

theorem Routine.balanced {claims : Heap → Exit → Prop} {k : Evaluator → EvalM α}
    (h : Routine claims k) (hev : ev.Balanced) : Balanced (k ev) := h.keepsStacks hev

theorem evaluator_balanced (fuel : Nat) : (evaluator fuel).Balanced := by
  induction fuel with
  | zero => exact ⟨fun _ _ => .throw _, fun _ _ _ => .throw _⟩
  | succ fuel ih =>
    exact ⟨fun block index => (Routine.expression block index).balanced ih,
      fun name f args => (Routine.call name f args).balanced ih⟩

/-! ## The call limit -/

def CallStack.WithinLimit (c : CallStack) : Prop := ∀ limit, c.limit = some limit → c.depth ≤ limit

theorem CallStack.withinLimit_of_push {c calls : CallStack} {name : String}
    (h : c.push name = .ok calls) : calls.WithinLimit := by
  intro limit hl
  have same : c.limit = some limit := by rw [← hl, eq_of_push h]
  rw [depth_of_push h]
  unfold push at h
  rw [same] at h
  dsimp only at h
  split at h
  · assumption
  · cases h

open Classical in
noncomputable def watching (alarm body : EvalM α) : EvalM α := fun s =>
  if s.calls.WithinLimit then body s else alarm s

/-- An evaluator that watches the number of running calls before every expression and inside every
call. -/
noncomputable def watched (alarm : {α : Type} → EvalM α) (fuel : Nat) : Evaluator where
  next block position := watching alarm <|
    match fuel with
    | 0 => throw .outOfFuel
    | fuel + 1 => expression (watched alarm fuel) block position
  invoke name f args :=
    match fuel with
    | 0 => throw .outOfFuel
    | fuel + 1 => withCall name (watching alarm (f.run (watched alarm fuel) args))
  fuel

def SameWithinLimit (m m' : EvalM α) : Prop := ∀ s, s.calls.WithinLimit → m' s = m s

structure Evaluator.SameWithinLimit (ev ev' : Evaluator) : Prop where
  next (block : BlockRef) (index : Nat) :
    BlockScript.SameWithinLimit (ev.next block index) (ev'.next block index)
  invoke (name : String) (f : Function) (args : Args) :
    BlockScript.SameWithinLimit (ev.invoke name f args) (ev'.invoke name f args)
  fuel : ev'.fuel = ev.fuel

namespace SameWithinLimit

variable {m' : EvalM α}

theorem bind {f f' : α → EvalM β} (h : SameWithinLimit m m') (balanced : Balanced m)
    (hf : ∀ a, SameWithinLimit (f a) (f' a)) : SameWithinLimit (m >>= f) (m' >>= f') := by
  intro s hs
  simp only [Bind.bind, EStateM.bind]
  rw [h s hs]
  cases run : m s with
  | ok a t =>
    have kept := balanced s
    rw [endState_ok run] at kept
    exact hf a t (kept.calls ▸ hs)
  | error exit t => rfl

theorem watching (h : SameWithinLimit m m') (alarm : EvalM α) :
    SameWithinLimit m (watching alarm m') := by
  intro s hs
  rw [BlockScript.watching, if_pos hs, h s hs]

theorem withScope (h : SameWithinLimit m m') (frame : FrameId) :
    SameWithinLimit (withScope frame m) (withScope frame m') := by
  intro s hs
  unfold BlockScript.withScope
  rw [h { s with env := s.env.push frame } hs]

/-- A call that begins is within the limit, so nothing is needed of the calls before it. -/
theorem withCall (h : SameWithinLimit m m') (name : String) :
    SameWithinLimit (withCall name m) (withCall name m') := by
  intro s _
  unfold BlockScript.withCall
  cases pushed : s.calls.push name with
  | error cause => rfl
  | ok calls =>
    dsimp only
    rw [h { s with calls } (CallStack.withinLimit_of_push pushed)]

theorem guarded (h : SameWithinLimit m m') : SameWithinLimit (guarded m) (guarded m') := by
  intro s hs
  rw [guarded_apply, guarded_apply, h s.armed hs]

theorem claiming (h : SameWithinLimit m m') (claim : Heap → Thrown → Option β) (result : α → β) :
    SameWithinLimit (claiming claim result m) (claiming claim result m') := by
  intro s hs
  unfold BlockScript.claiming
  rw [h s hs]

end SameWithinLimit

theorem Routine.sameWithinLimit {claims : Heap → Exit → Prop} {k : Evaluator → EvalM α}
    (h : Routine claims k) {ev ev' : Evaluator} (balanced : ev.Balanced)
    (same : ev.SameWithinLimit ev') : SameWithinLimit (k ev) (k ev') := by
  induction h with
  | primitive step => exact fun _ _ => rfl
  | bind first _ ih rest => exact ih.bind (first.balanced balanced) rest
  | look _ _ rest => exact fun s => rest s s
  | @fuel _ k _ bounded =>
    show SameWithinLimit (k ev.fuel ev) (k ev'.fuel ev')
    rw [same.fuel]
    exact bounded ev.fuel
  | next block index => exact same.next block index
  | invoke name f args => exact same.invoke name f args
  | withScope frame _ body => exact body.withScope frame
  | withCall _ name _ body => exact body.withCall name
  | guarded _ _ body => exact body.guarded
  | claiming _ _ _ body => exact body.claiming _ _

theorem watched_same (alarm : {α : Type} → EvalM α) (fuel : Nat) :
    (evaluator fuel).SameWithinLimit (watched alarm fuel) := by
  induction fuel with
  | zero =>
    refine ⟨fun block index => ?_, fun name f args s _ => rfl, rfl⟩
    exact SameWithinLimit.watching (fun _ _ => rfl) alarm
  | succ fuel ih =>
    have balanced := evaluator_balanced fuel
    refine ⟨fun block index => ?_, fun name f args => ?_, rfl⟩
    · exact ((Routine.expression block index).sameWithinLimit balanced ih).watching alarm
    · exact (((Routine.function f args).sameWithinLimit balanced ih).watching alarm).withCall name

/-! ## The discipline of the stacks -/

structure StackDiscipline (fuel : Nat) (s : State) : Prop where
  next (block : BlockRef) (index : Nat) :
    SameStacks s (endState ((evaluator fuel).next block index) s)
  all (block : BlockRef) : SameStacks s (endState ((evaluator fuel).all block) s)
  reduce (block : BlockRef) : SameStacks s (endState ((evaluator fuel).reduce block) s)
  apply (f : Function) (values : List Value) :
    SameStacks s (endState ((evaluator fuel).apply f values) s)
  /-- A scope is popped when it is the innermost one. -/
  scope (frame : FrameId) (block : BlockRef) :
    let t := endState ((evaluator fuel).all block) { s with env := s.env.push frame }
    1 < t.env.depth ∧ t.env.pop = s.env
  /-- A call is popped when it is the innermost one; the limit counts it. -/
  call (name : String) (f : Function) (args : Args) (calls : CallStack)
      (pushed : s.calls.push name = .ok calls) :
    let t := endState (f.run (evaluator fuel) args) { s with calls }
    calls.WithinLimit ∧ t.calls.isEmpty = false ∧ t.calls.pop = s.calls
  /-- A point is retired when it is the innermost one; the depths it saved are the present ones. -/
  point (block : BlockRef) :
    let t := endState ((evaluator fuel).all block) s.armed
    (t.recovery.retire s.recovery.nextToken).1 =
        some ⟨s.recovery.nextToken, t.env.depth, t.calls.depth⟩ ∧
      SameStacks s (t.disarm s.recovery.nextToken) ∧
      t.land s.recovery.nextToken = t.disarm s.recovery.nextToken
  /-- No expression and no call begins beyond the limit, so no alarm is raised there. -/
  limit (within : s.calls.WithinLimit) (alarm : {α : Type} → EvalM α) :
    (∀ block index,
      (watched alarm fuel).next block index s = (evaluator fuel).next block index s) ∧
    (∀ block, (watched alarm fuel).all block s = (evaluator fuel).all block s) ∧
    (∀ block, (watched alarm fuel).reduce block s = (evaluator fuel).reduce block s) ∧
    ∀ f values, (watched alarm fuel).apply f values s = (evaluator fuel).apply f values s

theorem CallStack.isEmpty_of_push {c calls : CallStack} {name : String}
    (h : c.push name = .ok calls) : calls.isEmpty = false := by
  rw [eq_of_push h, isEmpty, Array.isEmpty_push]

/-- Evaluation keeps the discipline of the stacks in every state, however it ends. -/
theorem evaluation_keeps_stacks (fuel : Nat) (s : State) : StackDiscipline fuel s := by
  have balanced := evaluator_balanced fuel
  have all (block : BlockRef) : Routine ClaimsNothing fun ev => ev.all block := .all block
  have reduce (block : BlockRef) : Routine ClaimsNothing fun ev => ev.reduce block := .reduce block
  refine
    { next := fun block index => balanced.next block index s
      all := fun block => (all block).balanced balanced s
      reduce := fun block => (reduce block).balanced balanced s
      apply := fun f values => balanced.invoke "" f (f.positional values) s
      scope := fun frame block => ?scope
      call := fun name f args calls pushed => ?call
      point := fun block => ?point
      limit := fun within alarm => ?limit }
  case scope =>
    have body := ((all block).balanced balanced { s with env := s.env.push frame }).env
    dsimp only
    rw [body]
    exact ⟨Nat.lt_add_of_pos_left (Nat.succ_pos _), rfl⟩
  case call =>
    have body := ((Routine.function f args).balanced balanced { s with calls }).calls
    dsimp only
    rw [body]
    exact ⟨CallStack.withinLimit_of_push pushed, CallStack.isEmpty_of_push pushed,
      CallStack.pop_of_push pushed⟩
  case point =>
    have body := (all block).balanced balanced s.armed
    dsimp only
    rw [body.retire]
    exact ⟨rfl, body.disarm, body.land_eq_disarm⟩
  case limit =>
    have same := watched_same alarm fuel
    refine ⟨fun block index => same.next block index s within, fun block => ?_, fun block => ?_,
      fun f values => same.invoke "" f (f.positional values) s within⟩
    · exact (all block).sameWithinLimit balanced same s within
    · exact (reduce block).sameWithinLimit balanced same s within

end BlockScript
