import BlockScript.Proofs.Constructs

/-!
# Exits pass through

A construct asks the evaluator for expressions and calls. When an answer is an exit that the
construct does not claim, the construct is over: it asks for nothing more, changes nothing more and
leaves with the same exit. What it had asked before is a finite list of requests, and of the
evaluator only the answers to these matter for its outcome.
-/

namespace BlockScript

variable {α β : Type} {s t u : State} {ev ev' : Evaluator}

/-! ## Requests -/

inductive Request where
  | next (block : BlockRef) (index : Nat)
  | invoke (name : String) (f : Function) (args : Args)

abbrev Request.Answer : Request → Type
  | next _ _ => Option (Value × Nat)
  | invoke _ _ _ => Value

def Request.ask (ev : Evaluator) : (q : Request) → EvalM q.Answer
  | next block index => ev.next block index
  | invoke name f args => ev.invoke name f args

structure Evaluator.AgreesOn (ev ev' : Evaluator) (asked : List (Request × State)) : Prop where
  fuel : ev'.fuel = ev.fuel
  answers (q : Request) (t : State) (h : (q, t) ∈ asked) : q.ask ev' t = q.ask ev t

namespace Evaluator.AgreesOn

variable {asked asked' : List (Request × State)}

theorem left (h : ev.AgreesOn ev' (asked ++ asked')) : ev.AgreesOn ev' asked :=
  ⟨h.fuel, fun q t hq => h.answers q t (List.mem_append_left _ hq)⟩

theorem right (h : ev.AgreesOn ev' (asked ++ asked')) : ev.AgreesOn ev' asked' :=
  ⟨h.fuel, fun q t hq => h.answers q t (List.mem_append_right _ hq)⟩

end Evaluator.AgreesOn

/-- The outcome of a computation from a state depends on the answer to a request in a state. -/
def Asks (k : Evaluator → EvalM α) (ev : Evaluator) (s : State) (q : Request) (u : State) : Prop :=
  ∃ ev', ev'.fuel = ev.fuel ∧
    (∀ q' t, (q', t) ≠ (q, u) → q'.ask ev' t = q'.ask ev t) ∧ k ev' s ≠ k ev s

/-! ## Exits that pass -/

/-- How an exit looks further out: an error may have been given the running calls. -/
inductive Exit.Forwarded : Exit → Exit → Prop where
  | thrown (exit : Thrown) : Forwarded (.thrown exit) (.thrown exit)
  | raised (e : EvalError) (calls : Option Backtrace)
      (kept : e.backtrace = none ∨ calls = e.backtrace) :
      Forwarded (.raised e) (.raised { e with backtrace := calls })
  | outOfFuel : Forwarded .outOfFuel .outOfFuel

namespace Exit.Forwarded

theorem refl (exit : Exit) : exit.Forwarded exit := by
  cases exit with
  | thrown exit => exact .thrown exit
  | raised e => exact .raised e e.backtrace (.inr rfl)
  | outOfFuel => exact .outOfFuel

theorem attachCalls {exit exit' : Exit} (h : exit.Forwarded exit') (calls : CallStack) :
    exit.Forwarded (attachCalls calls exit') := by
  cases h with
  | thrown exit => exact .thrown exit
  | outOfFuel => exact .outOfFuel
  | raised e backtrace kept =>
    rw [BlockScript.attachCalls, CallStack.attach]
    split
    · exact .raised e backtrace kept
    · next absent =>
      have none : backtrace = none := by
        simp only [Bool.or_eq_true, not_or, Bool.not_eq_true, Option.isSome_eq_false_iff,
          Option.isNone_iff_eq_none] at absent
        exact absent.2
      refine .raised e (some calls.capture) (.inl ?_)
      rcases kept with kept | kept
      · exact kept
      · rw [← kept, none]

end Exit.Forwarded

structure SameEffects (s t : State) : Prop where
  heap : t.heap = s.heap
  output : t.output = s.output
  exitAsReturn : t.exitAsReturn = s.exitAsReturn

namespace SameEffects

theorem refl (s : State) : SameEffects s s := ⟨rfl, rfl, rfl⟩

theorem trans (h : SameEffects s t) (h' : SameEffects t u) : SameEffects s u :=
  ⟨h'.heap.trans h.heap, h'.output.trans h.output, h'.exitAsReturn.trans h.exitAsReturn⟩

theorem disarm (s : State) (token : Nat) : SameEffects s (s.disarm token) := ⟨rfl, rfl, rfl⟩

theorem land (s : State) (token : Nat) : SameEffects s (s.land token) := by
  unfold State.land
  split <;> exact ⟨rfl, rfl, rfl⟩

end SameEffects

/-- A computation ends with an exit that was given in a state, and has changed nothing since. -/
def LeavesBy (m : EvalM α) (s : State) (exit : Exit) (after : State) : Prop :=
  ∃ exit' t, m s = .error exit' t ∧ exit.Forwarded exit' ∧ SameEffects after t

namespace LeavesBy

variable {m : EvalM α} {exit : Exit} {after : State}

theorem bind (h : LeavesBy m s exit after) (f : α → EvalM β) :
    LeavesBy (m >>= f) s exit after := by
  obtain ⟨exit', t, run, same⟩ := h
  refine ⟨exit', t, ?_, same⟩
  simp only [Bind.bind, EStateM.bind, run]

theorem withScope {frame : FrameId} (h : LeavesBy m { s with env := s.env.push frame } exit after) :
    LeavesBy (withScope frame m) s exit after := by
  obtain ⟨exit', t, run, forwarded, effects⟩ := h
  refine ⟨exit', { t with env := t.env.pop }, ?_, forwarded, effects.trans ⟨rfl, rfl, rfl⟩⟩
  rw [BlockScript.withScope, run]

theorem withCall {name : String} {calls : CallStack} (pushed : s.calls.push name = .ok calls)
    (h : LeavesBy m { s with calls } exit after) : LeavesBy (withCall name m) s exit after := by
  obtain ⟨exit', t, run, forwarded, effects⟩ := h
  refine ⟨attachCalls t.calls exit', { t with calls := t.calls.pop }, ?_,
    forwarded.attachCalls t.calls, effects.trans ⟨rfl, rfl, rfl⟩⟩
  rw [BlockScript.withCall, pushed]
  dsimp only
  rw [run]

/-- Only a raised error stops at a recovery point. -/
theorem guarded (h : LeavesBy m s.armed exit after) (passes : ∀ e, exit ≠ .raised e) :
    LeavesBy (guarded m) s exit after := by
  obtain ⟨exit', t, run, forwarded, effects⟩ := h
  have whole : BlockScript.guarded m s = .error exit' (t.disarm s.recovery.nextToken) := by
    rw [guarded_apply, run]
    cases forwarded with
    | thrown exit => rfl
    | outOfFuel => rfl
    | raised e calls kept => exact absurd rfl (passes e)
  exact ⟨exit', _, whole, forwarded, effects.trans (.disarm t _)⟩

/-- Only a thrown exit that is claimed stops at a claim. -/
theorem claiming {claim : Heap → Thrown → Option β} {result : α → β}
    (h : LeavesBy m s exit after) (passes : ∀ x, exit = .thrown x → claim after.heap x = none) :
    LeavesBy (claiming claim result m) s exit after := by
  obtain ⟨exit', t, run, forwarded, effects⟩ := h
  refine ⟨exit', t, ?_, forwarded, effects⟩
  rw [BlockScript.claiming, run]
  cases forwarded with
  | outOfFuel => rfl
  | raised e calls kept => rfl
  | thrown x =>
    have unclaimed : claim t.heap x = none := by rw [effects.heap, passes x rfl]
    dsimp only
    rw [unclaimed]

end LeavesBy

/-- When a request is answered by an exit that is not claimed, the computation leaves by it. Beside
this answer only those to finitely many other requests matter: whatever an evaluator would answer to
anything else, it is not asked. -/
def Forwards (claims : Heap → Exit → Prop) (k : Evaluator → EvalM α) : Prop :=
  ∀ ev s q u, Asks k ev s q u →
    ∃ asked, (q, u) ∉ asked ∧
      ∀ ev', ev.AgreesOn ev' asked →
        ∀ exit after, q.ask ev' u = .error exit after → ¬ claims after.heap exit →
          LeavesBy (k ev') s exit after

/-! ## Routines forward -/

def SettledBy (k : Evaluator → EvalM α) (ev : Evaluator) (s : State)
    (asked : List (Request × State)) : Prop :=
  ∀ ev', ev.AgreesOn ev' asked → k ev' s = k ev s

def LeadsTo (claims : Heap → Exit → Prop) (k : Evaluator → EvalM α) (ev : Evaluator) (s : State)
    (asked : List (Request × State)) (q : Request) (u : State) : Prop :=
  ∀ ev', ev.AgreesOn ev' asked →
    ∀ exit after, q.ask ev' u = .error exit after → ¬ claims after.heap exit →
      LeavesBy (k ev') s exit after

/-- A computation either does without the answer to a request or forwards its exits. -/
def Passes (claims : Heap → Exit → Prop) (k : Evaluator → EvalM α) (ev : Evaluator) (s : State)
    (q : Request) (u : State) : Prop :=
  ∃ asked, (q, u) ∉ asked ∧ (SettledBy k ev s asked ∨ LeadsTo claims k ev s asked q u)

section Passes

variable {claims : Heap → Exit → Prop} {k : Evaluator → EvalM α} {q : Request}

theorem passes_const (m : EvalM α) : Passes claims (fun _ => m) ev s q u :=
  ⟨[], List.not_mem_nil, .inl fun _ _ => rfl⟩

theorem passes_ask (q' : Request) : Passes claims (fun ev => q'.ask ev) ev s q u := by
  by_cases same : (q', s) = (q, u)
  · obtain ⟨rfl, rfl⟩ := Prod.mk.inj same
    refine ⟨[], List.not_mem_nil, .inr fun ev' _ exit after answer _ => ?_⟩
    exact ⟨exit, after, answer, .refl exit, .refl after⟩
  · refine ⟨[(q', s)], ?_, .inl fun ev' agree => agree.answers q' s (List.mem_singleton_self _)⟩
    rw [List.mem_singleton]
    exact fun h => same h.symm

theorem Passes.bind {f : α → Evaluator → EvalM β} (first : Passes claims k ev s q u)
    (rest : ∀ a t, Passes claims (f a) ev t q u) :
    Passes claims (fun ev => k ev >>= fun a => f a ev) ev s q u := by
  obtain ⟨asked, fresh, settled | leads⟩ := first
  · cases run : k ev s with
    | error exit t =>
      refine ⟨asked, fresh, .inl fun ev' agree => ?_⟩
      simp only [Bind.bind, EStateM.bind, settled ev' agree, run]
    | ok a t =>
      obtain ⟨asked', fresh', rest⟩ := rest a t
      have continues (ev' : Evaluator) (agree : ev.AgreesOn ev' asked) :
          (k ev' >>= fun a => f a ev') s = f a ev' t := by
        simp only [Bind.bind, EStateM.bind, settled ev' agree, run]
      refine ⟨asked ++ asked', ?_, ?_⟩
      · rw [List.mem_append]
        exact not_or.mpr ⟨fresh, fresh'⟩
      rcases rest with settled' | leads'
      · refine .inl fun ev' agree => ?_
        exact (continues ev' agree.left).trans
          ((settled' ev' agree.right).trans (continues ev ⟨rfl, fun _ _ _ => rfl⟩).symm)
      · refine .inr fun ev' agree exit after answer unclaimed => ?_
        obtain ⟨exit', t', run', same⟩ := leads' ev' agree.right exit after answer unclaimed
        exact ⟨exit', t', (continues ev' agree.left).trans run', same⟩
  · exact ⟨asked, fresh, .inr fun ev' agree exit after answer unclaimed =>
      (leads ev' agree exit after answer unclaimed).bind _⟩

/-- A bracket passes what its body passes, if it lets the exits out that are not claimed. -/
theorem Passes.bracket {k' : Evaluator → EvalM β} (body : Passes claims k ev t q u)
    (settle : ∀ ev', k ev' t = k ev t → k' ev' s = k' ev s)
    (leave : ∀ ev' exit after, ¬ claims after.heap exit →
      LeavesBy (k ev') t exit after → LeavesBy (k' ev') s exit after) :
    Passes claims k' ev s q u := by
  obtain ⟨asked, fresh, settled | leads⟩ := body
  · exact ⟨asked, fresh, .inl fun ev' agree => settle ev' (settled ev' agree)⟩
  · exact ⟨asked, fresh, .inr fun ev' agree exit after answer unclaimed =>
      leave ev' exit after unclaimed (leads ev' agree exit after answer unclaimed)⟩

end Passes

theorem Routine.passes {claims : Heap → Exit → Prop} {k : Evaluator → EvalM α}
    (h : Routine claims k) (ev : Evaluator) (s : State) (q : Request) (u : State) :
    Passes claims k ev s q u := by
  induction h generalizing s with
  | primitive step => exact passes_const _
  | bind _ _ first rest => exact (first s).bind rest
  | look _ _ rest => exact rest s s
  | @fuel _ k _ bounded =>
    obtain ⟨asked, fresh, passes⟩ := bounded ev.fuel s
    refine ⟨asked, fresh, passes.imp (fun settled ev' agree => ?_) fun leads ev' agree => ?_⟩
    · dsimp only
      rw [agree.fuel]
      exact settled ev' agree
    · dsimp only
      rw [agree.fuel]
      exact leads ev' agree
  | next block index => exact passes_ask (.next block index)
  | invoke name f args => exact passes_ask (.invoke name f args)
  | withScope frame _ body =>
    refine (body { s with env := s.env.push frame }).bracket (fun ev' same => ?_)
      fun ev' exit after _ leaves => leaves.withScope
    simp only [BlockScript.withScope, same]
  | @withCall _ k _ name _ body =>
    cases pushed : s.calls.push name with
    | error cause =>
      refine ⟨[], List.not_mem_nil, .inl fun ev' _ => ?_⟩
      simp only [BlockScript.withCall, pushed]
    | ok calls =>
      refine (body { s with calls }).bracket (fun ev' same => ?_)
        fun ev' exit after _ leaves => leaves.withCall pushed
      simp only [BlockScript.withCall, pushed, same]
  | guarded claimed _ body =>
    refine (body s.armed).bracket (fun ev' same => ?_) fun ev' exit after unclaimed leaves => ?_
    · rw [guarded_apply, guarded_apply, same]
    · refine leaves.guarded fun e raised => unclaimed ?_
      rw [raised]
      exact claimed after.heap e
  | @claiming _ _ k claim result _ claimed _ body =>
    refine (body s).bracket (fun ev' same => ?_) fun ev' exit after unclaimed leaves => ?_
    · simp only [BlockScript.claiming, same]
    · refine leaves.claiming fun x thrown => ?_
      cases found : claim after.heap x with
      | none => rfl
      | some b =>
        rw [thrown] at unclaimed
        exact absurd (claimed after.heap x b found) unclaimed

theorem Routine.forwards {claims : Heap → Exit → Prop} {k : Evaluator → EvalM α}
    (h : Routine claims k) : Forwards claims k := by
  intro ev s q u asks
  obtain ⟨asked, fresh, settled | leads⟩ := h.passes ev s q u
  · obtain ⟨ev', fuel, others, differs⟩ := asks
    refine absurd (settled ev' ⟨fuel, fun q' t member => others q' t ?_⟩) differs
    intro same
    rw [same] at member
    exact fresh member
  · exact ⟨asked, fresh, leads⟩

open Classical in
noncomputable def Evaluator.ending (ev : Evaluator) (q : Request) (u : State) (exit : Exit)
    (after : State) : Evaluator where
  next block index t := if (.next block index, t) = (q, u) then .error exit after
    else ev.next block index t
  invoke name f args t := if (.invoke name f args, t) = (q, u) then .error exit after
    else ev.invoke name f args t
  fuel := ev.fuel

theorem Evaluator.ending_self (ev : Evaluator) (q : Request) (u : State) (exit : Exit)
    (after : State) : q.ask (ev.ending q u exit after) u = .error exit after := by
  cases q <;> exact if_pos rfl

theorem Evaluator.ending_other (ev : Evaluator) {q q' : Request} {u t : State}
    (other : (q', t) ≠ (q, u)) (exit : Exit) (after : State) :
    q'.ask (ev.ending q u exit after) t = q'.ask ev t := by
  cases q' <;> exact if_neg other

/-- What ends a computation whenever it ends with an exit is asked. -/
theorem asks_of_leavesBy {k : Evaluator → EvalM α} {q : Request}
    (ends : ∀ ev' exit after, ev'.fuel = ev.fuel → q.ask ev' u = .error exit after →
      LeavesBy (k ev') s exit after) : Asks k ev s q u := by
  refine Classical.byContradiction fun unasked => ?_
  have same (exit : Exit) : LeavesBy (k ev) s exit u := by
    have leaves := ends (ev.ending q u exit u) exit u rfl (ev.ending_self q u exit u)
    have unchanged : k (ev.ending q u exit u) s = k ev s :=
      Classical.byContradiction fun differs => unasked
        ⟨ev.ending q u exit u, rfl, fun _ _ other => ev.ending_other other exit u, differs⟩
    unfold LeavesBy at leaves
    rw [unchanged] at leaves
    exact leaves
  obtain ⟨_, _, run, ⟨⟩, _⟩ := same .outOfFuel
  obtain ⟨_, _, run', ⟨⟩, _⟩ := same (.thrown ⟨.none, .none⟩)
  rw [run] at run'
  cases run'

/-- To evaluate a block is to evaluate its first expression from the state at hand. -/
theorem all_asks_next (block : BlockRef) (positive : 0 < ev.fuel) :
    Asks (fun ev => ev.all block) ev s (.next block block.index) s := by
  refine asks_of_leavesBy fun ev' exit after fuel answer => ?_
  obtain ⟨n, hn⟩ := Nat.exists_eq_succ_of_ne_zero (Nat.ne_of_gt positive)
  refine ⟨exit, after, ?_, .refl exit, .refl after⟩
  have answer : ev'.next block block.index s = .error exit after := answer
  simp only [Evaluator.all, Evaluator.fold, fuel, hn, Evaluator.foldFrom, Bind.bind, EStateM.bind,
    answer]

/-! ## Recovery -/

/-- A computation recovers from the errors of a body: values and thrown exits come out unchanged,
an error is handed on, and no effect of the body is undone. -/
structure Recovers (body : EvalM Value) (recover : EvalError → EvalM Value) (m : EvalM Value) :
    Prop where
  value {s : State} {v : Value} {t : State} (run : body s.armed = .ok v t) :
    ∃ u, m s = .ok v u ∧ SameEffects t u
  thrown {s : State} {x : Thrown} {t : State} (run : body s.armed = .error (.thrown x) t) :
    ∃ u, m s = .error (.thrown x) u ∧ SameEffects t u
  raised {s : State} {e : EvalError} {t : State} (run : body s.armed = .error (.raised e) t) :
    ∃ u, m s = recover e u ∧ SameEffects t u

theorem guarded_recovers {body : EvalM Value} {recover : EvalError → EvalM Value}
    {finish : Except EvalError Value → EvalM Value} (ok : ∀ v, finish (.ok v) = pure v)
    (error : ∀ e, finish (.error e) = recover e) :
    Recovers body recover (guarded body >>= finish) := by
  constructor
  · intro s v t run
    refine ⟨t.disarm s.recovery.nextToken, ?_, .disarm t _⟩
    simp only [Bind.bind, EStateM.bind, guarded_apply, run, ok]
    rfl
  · intro s x t run
    refine ⟨t.disarm s.recovery.nextToken, ?_, .disarm t _⟩
    simp only [Bind.bind, EStateM.bind, guarded_apply, run]
  · intro s e t run
    refine ⟨t.land s.recovery.nextToken, ?_, .land t _⟩
    simp only [Bind.bind, EStateM.bind, guarded_apply, run, error]

theorem attempt_recovers (ev : Evaluator) {args : Args} {r : BlockRef}
    (block : args.value 0 = .block r) :
    Recovers (ev.all r) (fun _ => pure .none) (Raising.attempt ev args) := by
  unfold Raising.attempt
  rw [block]
  exact guarded_recovers (fun _ => rfl) fun _ => rfl

def Raising.handle (ev : Evaluator) (handler : Option Handler) (e : EvalError) : EvalM Value :=
  match handler with
  | none => return .error e
  | some handler => handler.run ev (.error e) none

theorem trap_recovers (ev : Evaluator) {args : Args} {r : BlockRef} {handler : Option Handler}
    (block : args.value 0 = .block r)
    (given : Handler.ofRefinement "trap" (args.refinement? 1) = pure handler) :
    Recovers (ev.all r) (Raising.handle ev handler) (Raising.trap ev args) := by
  unfold Raising.trap
  rw [block, given]
  refine guarded_recovers (fun _ => rfl) fun e => ?_
  cases handler <;> rfl

/-! ## The two ways out -/

/-- Neither way out is lost in a construct, and neither turns into the other. -/
structure ExitsPass : Prop where
  expression (block : BlockRef) (position : Nat) :
    Forwards ClaimsNothing fun ev => expression ev block position
  all (block : BlockRef) : Forwards ClaimsNothing fun ev => ev.all block
  reduce (block : BlockRef) : Forwards ClaimsNothing fun ev => ev.reduce block
  /-- A call from its arguments on, with the refinements that it names. -/
  gathered (name : String) (f : Function) (refinements : List Segment) (block : BlockRef)
      (position : Nat) :
    Forwards ClaimsNothing fun ev => BlockScript.call ev name f refinements block position
  native (n : Native) (args : Args) : Forwards (n.Claims args) fun ev => n.run ev args
  body (params : List Param) (body : BlockRef) (args : Args) :
    Forwards ClaimsReturn fun ev => runBody ev params body args
  call (name : String) (f : Function) (args : Args) :
    Forwards (f.Claims args) fun ev => invoke ev name f args
  handler (handler : Handler) (payload : Value) (name : Option Value) :
    Forwards ClaimsNothing fun ev => handler.run ev payload name
  attempt (ev : Evaluator) (args : Args) (r : BlockRef) (block : args.value 0 = .block r) :
    Recovers (ev.all r) (fun _ => pure .none) (Raising.attempt ev args)
  trap (ev : Evaluator) (args : Args) (r : BlockRef) (handler : Option Handler)
      (block : args.value 0 = .block r)
      (given : Handler.ofRefinement "trap" (args.refinement? 1) = pure handler) :
    Recovers (ev.all r) (Raising.handle ev handler) (Raising.trap ev args)

theorem exits_pass : ExitsPass where
  expression block position := (Routine.expression block position).forwards
  all block := (Routine.all block).forwards
  reduce block := (Routine.reduce block).forwards
  gathered name f refinements block position :=
    (Routine.gatherCall name f refinements block position).forwards
  native n args := (Routine.native n args).forwards
  body params body args := (Routine.runBody params body args).forwards
  call name f args := (Routine.call name f args).forwards
  handler handler payload name := (Routine.handlerRun payload name handler).forwards
  attempt ev _ _ block := attempt_recovers ev block
  trap ev _ _ _ block given := trap_recovers ev block given

end BlockScript
