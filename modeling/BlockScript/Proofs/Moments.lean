import BlockScript.Proofs.Asking
import BlockScript.Proofs.Boundaries
import BlockScript.Proofs.Effects
import BlockScript.Proofs.FlowConstructs

/-!
# The moments of a run

A run is made of moments: the requests that are answered in it, each in its state. To answer one the
evaluator makes others. What is asked at a moment keeps to every flow of values: the heap may be
found, and what is called and its arguments may be at hand. What a moment makes of the heap may be
made of it as long as none of the moments inside of it hides a word, if the flow says so.
-/

namespace BlockScript

variable {α : Type} {F : ValueFlow} {hides : Prop} {E : Environment} {n : Nat} {s t u : State}
  {ev : Evaluator} {k : Evaluator → EvalM α} {q : Request} {R : Nat → α → Prop}

/-! ## Requests -/

inductive Request.Hides (s : State) : Request → Prop where
  | intro {name : String} {args : Args} {calls : CallStack} (hide : args.refined 4 = true)
      (pushed : s.calls.push name = .ok calls) : Hides s (.invoke name (.native .protect) args)

namespace ValueFlow

def request (F : ValueFlow) (E : Environment) (n : Nat) : Request → Prop
  | .next _ _ => True
  | .invoke _ f args => F.value E n (.function f) ∧ F.args E n args ∧ args.size = f.arity

def gives (F : ValueFlow) (E : Environment) : (q : Request) → Nat → q.Answer → Prop
  | .next _ _ => Each (First (F.value E))
  | .invoke _ _ _ => F.value E

namespace KeptBy

theorem of_ends (balanced : ∀ q s, SameStacks s (endState (Request.ask ev q) s))
    (ends : ∀ (q : Request) s, F.heap s.env s.heap → F.request s.env s.heap.frames.size q →
      F.Ends (F.gives s.env q) s (q.ask ev s)) : F.KeptBy ev where
  balanced :=
    ⟨fun block index => balanced (.next block index), fun name f args =>
      balanced (.invoke name f args)⟩
  next E n block index := by
    rintro s rfl heap -
    exact ends (.next block index) s heap trivial
  invoke E n name f args known given enough := by
    rintro s rfl heap le
    exact ends (.invoke name f args) s heap ⟨F.mono known le, given.mono le, enough⟩

theorem ends (kept : F.KeptBy ev) (heap : F.heap s.env s.heap)
    (given : F.request s.env s.heap.frames.size q) : F.Ends (F.gives s.env q) s (q.ask ev s) := by
  cases q with
  | next block index => exact kept.next _ _ block index s rfl heap le_rfl
  | invoke name f args =>
    exact kept.invoke _ _ name f args given.1 given.2.1 given.2.2 s rfl heap le_rfl

theorem all_ends (kept : F.KeptBy ev) (heap : F.heap s.env s.heap) (block : BlockRef) :
    F.Ends (F.value s.env) s (ev.all block s) := Keeps.all kept block s rfl heap le_rfl

theorem keepsStacks (kept : F.KeptBy ev) (q : Request) (s : State) :
    SameStacks s (endState (q.ask ev) s) := by
  cases q with
  | next block index => exact kept.balanced.next block index s
  | invoke name f args => exact kept.balanced.invoke name f args s

end KeptBy

/-- What answers a request keeps to the flow, and a refused call has not begun to hide. -/
theorem code_ends (kept : F.KeptBy ev) (heap : F.heap s.env s.heap)
    (given : F.request s.env s.heap.frames.size q) (permitted : q.Hides s → F.hides) :
    F.Ends (F.gives s.env q) s (q.code ev s) := by
  cases q with
  | next block index => exact Keeps.expression kept block index s rfl heap le_rfl
  | invoke name f args =>
    show F.Ends (F.value s.env) s (withCall name (f.run ev args) s)
    cases pushed : s.calls.push name with
    | error cause =>
      rw [withCall, pushed]
      exact .error rfl (F.refl _ _) trivial
    | ok calls =>
      have run := Keeps.function kept given.1 given.2.1 given.2.2 fun protects hide =>
        permitted (protects ▸ .intro hide pushed)
      exact run.withCall name s rfl heap le_rfl

/-! ## What is asked -/

/-- An evaluator keeps to a flow if one of its answers is replaced by one that does. -/
theorem KeptBy.ending {after : State} (kept : F.KeptBy ev) (same : SameStacks u after)
    (leads : F.heap u.env u.heap → F.request u.env u.heap.frames.size q →
      F.leads u.env u.heap after.heap) : F.KeptBy (ev.ending q u .outOfFuel after) := by
  refine .of_ends (fun q' s => ?_) fun q' s heap given => ?_
  · rw [endState]
    by_cases here : (q', s) = (q, u)
    · obtain ⟨rfl, rfl⟩ := Prod.mk.inj here
      rw [ev.ending_self]
      exact same
    · rw [ev.ending_other here]
      exact kept.keepsStacks q' s
  · by_cases here : (q', s) = (q, u)
    · obtain ⟨rfl, rfl⟩ := Prod.mk.inj here
      rw [ev.ending_self]
      exact .error same.env (leads heap given) trivial
    · rw [ev.ending_other here]
      exact kept.ends heap given

/-- Code that keeps to a flow makes requests that do. If it did not, it would keep to the flow no
more with an answer that makes some other heap. -/
theorem flows_of_asks {permit : Permit} (routine : Routine permit k) (kept : F.KeptBy ev)
    (heap : F.heap s.env s.heap) (ends : ∀ ev', F.KeptBy ev' → F.Ends R s (k ev' s))
    (asks : Asks k ev s q u) :
    F.heap u.env u.heap ∧ F.request u.env u.heap.frames.size q ∧
      F.leads s.env s.heap u.heap := by
  have leads (after : State) (same : SameStacks u after)
      (fine : F.heap u.env u.heap → F.request u.env u.heap.frames.size q →
        F.leads u.env u.heap after.heap) : F.leads s.env s.heap after.heap := by
    have keeps := ends _ (kept.ending same fine)
    obtain ⟨exit, t, run, -, ended⟩ := routine.stops_of_asks asks after
    rw [run] at keeps
    cases keeps with
    | error _ leads _ => exact ended.heap ▸ leads
  have good : F.heap u.env u.heap ∧ F.request u.env u.heap.frames.size q := by
    refine Classical.byContradiction fun bad => ?_
    obtain ⟨other, wrong⟩ := F.strict heap
    exact wrong (leads { u with heap := other } ⟨rfl, rfl, rfl⟩ fun heap given =>
      absurd ⟨heap, given⟩ bad)
  exact ⟨good.1, good.2, leads u (.refl u) fun _ _ => F.refl _ _⟩

end ValueFlow

/-! ## Moments -/

/-- A request that is made of an evaluator of some depth. -/
structure Moment where
  depth : Nat
  request : Request
  state : State

namespace Moment

variable {a b : Moment}

def after (a : Moment) : State := endState (a.request.ask (evaluator a.depth)) a.state

inductive Makes : Moment → Moment → Prop where
  | intro {n : Nat} {q q' : Request} {s u : State} (asks : Asks q.code (evaluator n) s q' u) :
      Makes ⟨n + 1, q, s⟩ ⟨n, q', u⟩

/-- The second moment is the first one or inside of it. -/
def Spans : Moment → Moment → Prop := Relation.ReflTransGen Makes

def Encloses : Moment → Moment → Prop := Relation.TransGen Makes

def Hides (a : Moment) : Prop := 0 < a.depth ∧ a.request.Hides a.state

def HidesOnlyIf (hides : Prop) (a : Moment) : Prop := ∀ b, a.Spans b → b.Hides → hides

def HidesNothing (a : Moment) : Prop := ∀ b, a.Spans b → ¬ b.Hides

theorem HidesOnlyIf.of_makes (permitted : a.HidesOnlyIf hides) (makes : a.Makes b) :
    b.HidesOnlyIf hides := fun c spans => permitted c (.head makes spans)

theorem HidesOnlyIf.of_holds (holds : hides) (a : Moment) : a.HidesOnlyIf hides :=
  fun _ _ _ => holds

theorem HidesNothing.of_makes (shown : ¬ a.Hides) (inside : ∀ b, a.Makes b → b.HidesNothing) :
    a.HidesNothing := by
  intro c spans
  rcases Relation.ReflTransGen.cases_head spans with rfl | ⟨b, makes, spans⟩
  · exact shown
  · exact inside b makes c spans

end Moment

/-! ## Evaluators that refuse to hide -/

open Classical in
noncomputable def answering (hides : Prop) (n : Nat) : Evaluator where
  next block index s := if (Moment.mk n (.next block index) s).HidesOnlyIf hides then
      (evaluator n).next block index s
    else .error .outOfFuel s
  invoke name f args s := if (Moment.mk n (.invoke name f args) s).HidesOnlyIf hides then
      (evaluator n).invoke name f args s
    else .error .outOfFuel s
  fuel := (evaluator n).fuel

theorem ask_answering (permitted : (Moment.mk n q s).HidesOnlyIf hides) :
    q.ask (answering hides n) s = q.ask (evaluator n) s := by
  cases q <;> exact if_pos permitted

theorem ask_answering_refused (refused : ¬ (Moment.mk n q s).HidesOnlyIf hides) :
    q.ask (answering hides n) s = .error .outOfFuel s := by
  cases q <;> exact if_neg refused

/-- Code that makes only permitted requests does not notice that others would be refused. -/
theorem Request.unnoticed (permitted : (Moment.mk (n + 1) q s).HidesOnlyIf hides) :
    q.code (answering hides n) s = q.code (evaluator n) s ∧
      ∀ q' u, Asks q.code (evaluator n) s q' u → Asks q.code (answering hides n) s q' u :=
  (Routine.request q).unnoticed rfl fun _ _ asks => ask_answering (permitted.of_makes ⟨asks⟩)

theorem answering_keepsStacks (hides : Prop) (n : Nat) (q : Request) (s : State) :
    SameStacks s (endState (q.ask (answering hides n)) s) := by
  rw [endState]
  by_cases permitted : (Moment.mk n q s).HidesOnlyIf hides
  · rw [ask_answering permitted]
    cases q with
    | next block index => exact (evaluator_balanced n).next block index s
    | invoke name f args => exact (evaluator_balanced n).invoke name f args s
  · rw [ask_answering_refused permitted]
    exact .refl s

namespace ValueFlow

theorem keptBy_answering (F : ValueFlow) (n : Nat) : F.KeptBy (answering F.hides n) := by
  induction n with
  | zero =>
    refine .of_ends (answering_keepsStacks F.hides 0) fun q s _ _ => ?_
    by_cases permitted : (Moment.mk 0 q s).HidesOnlyIf F.hides
    · rw [ask_answering permitted]
      cases q <;> exact .error rfl (F.refl _ _) trivial
    · rw [ask_answering_refused permitted]
      exact .error rfl (F.refl _ _) trivial
  | succ n ih =>
    refine .of_ends (answering_keepsStacks F.hides (n + 1)) fun q s heap given => ?_
    by_cases permitted : (Moment.mk (n + 1) q s).HidesOnlyIf F.hides
    · rw [ask_answering permitted, Request.ask_succ, ← (Request.unnoticed permitted).1]
      exact code_ends ih heap given fun hid => permitted _ .refl ⟨Nat.succ_pos n, hid⟩
    · rw [ask_answering_refused permitted]
      exact .error rfl (F.refl _ _) trivial

/-! ## What holds between moments -/

structure Precedes (F : ValueFlow) (s t : State) : Prop where
  scopes : s.env.scopes <:+ t.env.scopes
  heap : F.leads s.env s.heap t.heap

theorem Precedes.refl (F : ValueFlow) (s : State) : F.Precedes s s :=
  ⟨List.suffix_refl _, F.refl _ _⟩

theorem Precedes.trans (heap : F.heap s.env s.heap) (first : F.Precedes s t)
    (second : F.Precedes t u) : F.Precedes s u :=
  ⟨first.scopes.trans second.scopes, F.trans heap first.heap (F.leave first.scopes second.heap)⟩

theorem Ends.leads {m : EvalM α} (ends : F.Ends R s (m s)) :
    (endState m s).env = s.env ∧ F.leads s.env s.heap (endState m s).heap := by
  unfold endState
  generalize m s = r at ends ⊢
  cases ends with
  | ok env leads _ => exact ⟨env, leads⟩
  | error env leads _ => exact ⟨env, leads⟩

structure Holds (F : ValueFlow) (a : Moment) : Prop where
  heap : F.heap a.state.env a.state.heap
  request : F.request a.state.env a.state.heap.frames.size a.request

namespace Holds

variable {a b : Moment}

theorem ends (holds : F.Holds a) (permitted : a.HidesOnlyIf F.hides) :
    F.Ends (F.gives a.state.env a.request) a.state
      (a.request.ask (evaluator a.depth) a.state) := by
  rw [← ask_answering permitted]
  exact (F.keptBy_answering a.depth).ends holds.heap holds.request

theorem leads_after (holds : F.Holds a) (permitted : a.HidesOnlyIf F.hides) :
    a.after.env = a.state.env ∧ F.leads a.state.env a.state.heap a.after.heap :=
  (holds.ends permitted).leads

theorem of_makes (holds : F.Holds a) (permitted : a.HidesOnlyIf F.hides) (makes : a.Makes b) :
    F.Holds b ∧ F.Precedes a.state b.state := by
  obtain @⟨n, q, q', s, u, asks⟩ := makes
  have asked := (Request.unnoticed permitted).2 q' u asks
  obtain ⟨heap, request, leads⟩ := flows_of_asks (Routine.request q) (F.keptBy_answering n)
    holds.heap (R := F.gives s.env q)
    (fun ev kept => code_ends kept holds.heap holds.request fun hid =>
      permitted _ .refl ⟨Nat.succ_pos n, hid⟩) asked
  exact ⟨⟨heap, request⟩, (Routine.request q).scopes_of_asks (evaluator_balanced n) asks, leads⟩

/-- What one moment makes of the heap until another one inside of it begins. -/
theorem of_spans (holds : F.Holds a) (permitted : a.HidesOnlyIf F.hides) (spans : a.Spans b) :
    F.Holds b ∧ b.HidesOnlyIf F.hides ∧ F.Precedes a.state b.state := by
  induction spans with
  | refl => exact ⟨holds, permitted, .refl F _⟩
  | tail _ makes ih =>
    obtain ⟨here, still, before⟩ := ih
    obtain ⟨there, precedes⟩ := here.of_makes still makes
    exact ⟨there, still.of_makes makes, before.trans holds.heap precedes⟩

end Holds

/-- Evaluation keeps to a flow in which fields may be hidden. -/
theorem keptBy_evaluator (mayHide : F.hides) (n : Nat) : F.KeptBy (evaluator n) := by
  have permitted (q : Request) (s : State) : (Moment.mk n q s).HidesOnlyIf F.hides :=
    .of_holds mayHide _
  refine .of_ends (fun q s => ?_) fun q s heap given => ?_
  · have kept := answering_keepsStacks F.hides n q s
    rwa [endState, ask_answering (permitted q s), ← endState] at kept
  · exact Holds.ends (a := ⟨n, q, s⟩) ⟨heap, given⟩ (permitted q s)

end ValueFlow

/-! ## Whole programs -/

namespace Interpreter

/-- The states between the programs that one interpreter runs. -/
inductive Session : State → Prop where
  | initial (limit : Nat) (exitAsReturn : Bool) : Session (initial limit exitAsReturn)
  | run (source : String) {s : State} (before : Session s) : Session (run source s).2

inductive Reaches (source : String) (s : State) : Moment → Prop where
  | start {block : BlockRef} {t u : State} {q : Request}
      (loaded : loadSource source s = .ok (block, t))
      (asks : Asks (fun ev => ev.all block) standard t q u) : Reaches source s ⟨fuel, q, u⟩
  | makes {a b : Moment} (before : Reaches source s a) (makes : a.Makes b) : Reaches source s b

theorem reaches_first {source : String} {block : BlockRef}
    (loaded : loadSource source s = .ok (block, t)) :
    Reaches source s ⟨fuel, .next block block.index, t⟩ :=
  .start loaded (all_asks_next block (by decide))

theorem loadSource_flow {source : String} {block : BlockRef} (heap : F.heap s.env s.heap)
    (loaded : loadSource source s = .ok (block, t)) : F.heap t.env t.heap := by
  unfold loadSource at loaded
  split at loaded
  · cases loaded
  · next data _ =>
    cases loaded
    exact F.found heap (ValueFlow.leads_loadBlock heap data)

variable (mayHide : F.hides)
  (initially : ∀ limit exitAsReturn,
    F.heap (Interpreter.initial limit exitAsReturn).env
      (Interpreter.initial limit exitAsReturn).heap)

include mayHide initially

theorem Session.flow (session : Session s) : F.heap s.env s.heap := by
  induction session with
  | initial limit exitAsReturn => exact initially limit exitAsReturn
  | @run source s _ ih =>
    cases loaded : loadSource source s with
    | error e =>
      rw [Interpreter.run, loaded]
      exact ih
    | ok program =>
      obtain ⟨block, t⟩ := program
      rw [state_run loaded]
      have heap := loadSource_flow ih loaded
      obtain ⟨env, leads⟩ := ((ValueFlow.keptBy_evaluator mayHide fuel).all_ends heap block).leads
      exact env ▸ F.found heap leads

theorem Reaches.flow {source : String} {a : Moment} (reaches : Reaches source s a)
    (session : Session s) : F.Holds a := by
  induction reaches with
  | @start block t u q loaded asks =>
    have routine : Routine ClaimsNothing fun ev => ev.all block := .all block
    have heap := loadSource_flow (session.flow mayHide initially) loaded
    obtain ⟨heap, request, -⟩ := ValueFlow.flows_of_asks routine
      (ValueFlow.keptBy_evaluator mayHide fuel) heap (fun ev kept => kept.all_ends heap block) asks
    exact ⟨heap, request⟩
  | @makes a b _ makes ih => exact (ih.of_makes (.of_holds mayHide a) makes).1

end Interpreter

end BlockScript
