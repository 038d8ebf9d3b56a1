import BlockScript.Proofs.Effects
import BlockScript.Proofs.Guarding
import BlockScript.Proofs.Refusal

/-!
# Protection is enforced

While no call of unprotect runs, whatever is evaluated keeps what is protected, and a write that is
refused changes nothing. A run without calls of unprotect is one that does not depend on what they
would do, so it is also the run of an evaluator that makes no walk that clears.
-/

namespace BlockScript

variable {α : Type} {s t : State}

/-! ## Runs without calls of unprotect -/

def Function.unprotects : Function → Bool
  | .native .unprotect => true
  | _ => false

def evaluatorBarring (alarm : EvalM Value) (fuel : Nat) : Evaluator where
  next block position :=
    match fuel with
    | 0 => throw .outOfFuel
    | fuel + 1 => expression (evaluatorBarring alarm fuel) block position
  invoke name f args :=
    match fuel with
    | 0 => throw .outOfFuel
    | fuel + 1 =>
      withCall name (if f.unprotects then alarm else f.run (evaluatorBarring alarm fuel) args)
  fuel

/-- No call of unprotect is executed: whatever such calls did, the run would be the same. -/
def NeverUnprotects (k : Evaluator → EvalM α) (fuel : Nat) (s : State) : Prop :=
  ∀ alarm, k (evaluatorBarring alarm fuel) s = k (evaluator fuel) s

/-- A call of unprotect that is executed is noticed. -/
theorem not_neverUnprotects_invoke {name : String} {calls : CallStack}
    (pushed : s.calls.push name = .ok calls) (args : Args) (fuel : Nat) :
    ¬ NeverUnprotects (fun ev => ev.invoke name (.native .unprotect) args) (fuel + 1) s := by
  intro never
  have noticed (alarm : EvalM Value) : withCall name alarm s =
      (evaluator (fuel + 1)).invoke name (.native .unprotect) args s := never alarm
  have same := (noticed (throw .outOfFuel)).trans (noticed (pure .none)).symm
  unfold withCall at same
  rw [pushed] at same
  cases same

/-- A native that only writes calls nothing. -/
theorem Native.IsWriter.neverUnprotects {n : Native} (writer : n.IsWriter) (name : String)
    (args : Args) (fuel : Nat) (s : State) :
    NeverUnprotects (fun ev => ev.invoke name (.native n) args) fuel s := by
  intro alarm
  cases fuel with
  | zero => rfl
  | succ fuel => cases n <;> first | rfl | exact writer.elim

theorem Function.walks_set {f : Function} (keeps : f.unprotects = false) (flags : ProtectFlags)
    (walks : f.Walks flags) : flags.set = true := by
  cases f with
  | user id params body => exact walks.elim
  | native n =>
    cases n with
    | protect => exact walks
    | unprotect => cases keeps
    | _ => exact walks.elim

theorem evaluatorBarring_keeps (fuel : Nat) :
    (evaluatorBarring (throw .outOfFuel) fuel).Relates Heap.KeepsProtected := by
  have steps (s t : State) : s.Step (·.set = true) t → s.heap.KeepsProtected t.heap :=
    State.Step.keepsProtected
  induction fuel with
  | zero => exact ⟨fun _ _ => .throw .refl _, fun _ _ _ => .throw .refl _⟩
  | succ fuel ih =>
    refine ⟨fun block index => ?_, fun name f args => ?_⟩
    · have next : Routine ⟨ClaimsNothing, (·.set = true), True⟩ fun ev =>
          expression ev block index := .expression block index
      exact next.relates .refl .trans steps ih
    · refine .withCall .refl ?_ name
      split
      · exact .throw .refl _
      · next keeps =>
        have run : Routine ⟨f.Claims args, (·.set = true), True⟩ fun ev => f.run ev args :=
          .function f args (Function.walks_set (Bool.eq_false_iff.mpr keeps))
        exact run.relates .refl .trans steps ih

theorem NeverUnprotects.keeps {k : Evaluator → EvalM α} {fuel : Nat}
    (never : NeverUnprotects k fuel s) (routine : Routine ⟨ClaimsNothing, (·.set = true), True⟩ k) :
    s.heap.KeepsProtected (endState (k (evaluator fuel)) s).heap := by
  have kept := routine.relates .refl .trans (fun _ _ => State.Step.keepsProtected)
    (evaluatorBarring_keeps fuel) s
  rwa [endState, never, ← endState] at kept

/-! ## Whole programs -/

theorem Interpreter.run_keeps {source : String}
    (never : ∀ block t, loadSource source s = .ok (block, t) →
      NeverUnprotects (fun ev => ev.all block) fuel t) :
    s.heap.KeepsProtected (run source s).2.heap := by
  cases loaded : loadSource source s with
  | error e =>
    rw [run, loaded]
    exact .refl s.heap
  | ok program =>
    obtain ⟨block, t⟩ := program
    rw [state_run loaded]
    exact (loadSource_step loaded).keepsProtected.trans ((never block t loaded).keeps (.all block))

/-- What holds of everything that is evaluated from a state. Protection is kept while no call of
unprotect is executed, and a refused write changes nothing. -/
structure ProtectionEnforced (fuel : Nat) (s : State) : Prop where
  next (block : BlockRef) (index : Nat) :
    NeverUnprotects (fun ev => ev.next block index) fuel s →
      s.heap.KeepsProtected (endState ((evaluator fuel).next block index) s).heap
  all (block : BlockRef) : NeverUnprotects (fun ev => ev.all block) fuel s →
    s.heap.KeepsProtected (endState ((evaluator fuel).all block) s).heap
  reduce (block : BlockRef) : NeverUnprotects (fun ev => ev.reduce block) fuel s →
    s.heap.KeepsProtected (endState ((evaluator fuel).reduce block) s).heap
  invoke (name : String) (f : Function) (args : Args) :
    NeverUnprotects (fun ev => ev.invoke name f args) fuel s →
      s.heap.KeepsProtected (endState ((evaluator fuel).invoke name f args) s).heap
  /-- A program that is read and run to its end, or until it fails. -/
  run (source : String) :
    (∀ block t, Interpreter.loadSource source s = .ok (block, t) →
      NeverUnprotects (fun ev => ev.all block) Interpreter.fuel t) →
    s.heap.KeepsProtected (Interpreter.run source s).2.heap
  /-- A call of append, insert, poke, clear or set that fails leaves the state as it was. -/
  write (name : String) (n : Native) (args : Args) (exit : Exit) (t : State) : n.IsWriter →
    (evaluator fuel).invoke name (.native n) args s = .error exit t → t = s
  /-- When a word is not assigned, the state stays that in which the value was evaluated. -/
  setWord (name : String) (block : BlockRef) (position next : Nat) (value : Value) (exit : Exit)
      (t u : State) :
    assigned (evaluator fuel) name block position s = .ok (value, next) u →
    term (evaluator fuel) block position (.word .setWord name) s = .error exit t → t = u
  /-- When a path is refused because of protection or a place outside the block, likewise. -/
  setPath (segments : List Segment) (block : BlockRef) (position next : Nat) (value : Value)
      (exit : Exit) (t u : State) :
    assigned (evaluator fuel) (PathKind.setPath.mold segments) block position s =
      .ok (value, next) u →
    term (evaluator fuel) block position (.path .setPath segments) s = .error exit t →
    exit.RefusesWrite → t = u

/-- Protection is enforced in every state, however deep evaluation may nest. -/
theorem protection_enforced (fuel : Nat) (s : State) : ProtectionEnforced fuel s := by
  refine
    { next := fun block index never => never.keeps (.next block index)
      all := fun block never => never.keeps (.all block)
      reduce := fun block never => never.keeps (.reduce block)
      invoke := fun name f args never => never.keeps (.invoke name f args)
      run := fun source => Interpreter.run_keeps
      write := fun name n args exit t writer failed => ?write
      setWord := fun name block position next value exit t u => setWord_refused
      setPath := fun segments block position next value exit t u => setPath_refused }
  case write =>
    cases fuel with
    | zero =>
      cases failed
      rfl
    | succ fuel => exact invoke_refused writer failed

end BlockScript
