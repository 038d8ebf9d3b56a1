import BlockScript.Interpreter
import BlockScript.Proofs.Refusal

/-!
# What evaluation does to the heap

A relation between heaps that every primitive step keeps holds between the heaps before and after
any evaluation, if it is reflexive and transitive: the brackets do not touch the heap. An evaluation
is therefore a course of heaps, each of which one primitive step makes of the one before.
-/

namespace BlockScript

variable {α β : Type} {m : EvalM α} {ev : Evaluator} {R : Heap → Heap → Prop}

/-- However it ends, a computation leaves a heap that is related to the one it found. -/
def Relates (R : Heap → Heap → Prop) (m : EvalM α) : Prop := ∀ s, R s.heap (endState m s).heap

structure Evaluator.Relates (R : Heap → Heap → Prop) (ev : Evaluator) : Prop where
  next (block : BlockRef) (index : Nat) : BlockScript.Relates R (ev.next block index)
  invoke (name : String) (f : Function) (args : Args) :
    BlockScript.Relates R (ev.invoke name f args)

namespace Relates

theorem mono {R' : Heap → Heap → Prop} (h : Relates R m) (weaker : ∀ {a b}, R a b → R' a b) :
    Relates R' m := fun s => weaker (h s)

theorem throw (refl : ∀ h, R h h) (exit : Exit) : Relates R (throw exit : EvalM α) :=
  fun s => refl s.heap

theorem of_reads (refl : ∀ h, R h h) (reads : Reads m) : Relates R m := fun s => by
  rw [reads s]
  exact refl s.heap

theorem pure (refl : ∀ h, R h h) (a : α) : Relates R (Pure.pure a : EvalM α) :=
  of_reads refl (.pure a)

theorem getHeap_then {f : Heap → EvalM α} (rest : ∀ h, Relates R (f h)) :
    Relates R (getHeap >>= f) := fun s => rest s.heap s

theorem lookup_then {name : String} {f : Option Value → EvalM α}
    (rest : ∀ found, Relates R (f found)) : Relates R (lookup name >>= f) :=
  fun s => rest (s.env.lookup s.heap name) s

theorem ite {c : Prop} [Decidable c] {m' : EvalM α} (yes : Relates R m) (no : Relates R m') :
    Relates R (if c then m else m') := by
  split
  · exact yes
  · exact no

theorem primitive {walks : ProtectFlags → Prop} (refl : ∀ h, R h h)
    (steps : ∀ s t, State.Step walks s t → R s.heap t.heap) (step : Primitive walks m) :
    Relates R m := by
  intro s
  rcases step.outcome s with ⟨a, t, run, step⟩ | ⟨exit, run⟩
  · rw [endState_ok run]
    exact steps s t step
  · rw [endState_error run]
    exact refl s.heap

theorem bind {f : α → EvalM β} (trans : ∀ {a b c}, R a b → R b c → R a c) (h : Relates R m)
    (hf : ∀ a, Relates R (f a)) : Relates R (m >>= f) := by
  intro s
  have first := h s
  cases run : m s with
  | ok a t =>
    rw [endState_ok run] at first
    rw [endState_bind_ok run]
    exact trans first (hf a t)
  | error exit t =>
    rw [endState_error run] at first
    rw [endState_bind_error run]
    exact first

theorem foldlM (refl : ∀ h, R h h) (trans : ∀ {a b c}, R a b → R b c → R a c)
    {f : β → α → EvalM β} (step : ∀ b a, Relates R (f b a)) (items : List α) (start : β) :
    Relates R (items.foldlM f start) := by
  induction items generalizing start with
  | nil => exact .pure refl start
  | cons item items ih =>
    rw [List.foldlM_cons]
    exact .bind trans (step start item) ih

theorem withScope (h : Relates R m) (frame : FrameId) : Relates R (withScope frame m) := by
  intro s
  rw [endState_withScope]
  exact h { s with env := s.env.push frame }

theorem withCall (refl : ∀ h, R h h) (h : Relates R m) (name : String) :
    Relates R (withCall name m) := by
  intro s
  rw [endState_withCall]
  cases s.calls.push name with
  | error cause => exact refl s.heap
  | ok calls => exact h { s with calls }

theorem claiming (h : Relates R m) (claim : Heap → Thrown → Option β) (result : α → β) :
    Relates R (claiming claim result m) := by
  intro s
  rw [endState_claiming]
  exact h s

theorem heap_retired (token : Nat) (r : EStateM.Result Exit State α) :
    (retired token r).heap = match r with | .ok _ t => t.heap | .error _ t => t.heap := by
  cases r with
  | ok a t => rfl
  | error exit t =>
    cases exit with
    | raised e =>
      simp only [retired, State.land]
      split <;> rfl
    | thrown exit => rfl
    | outOfFuel => rfl

theorem heap_endState_guarded (m : EvalM α) (s : State) :
    (endState (BlockScript.guarded m) s).heap = (endState m s.armed).heap := by
  rw [endState_guarded, heap_retired, endState]
  cases m s.armed <;> rfl

theorem guarded (h : Relates R m) : Relates R (guarded m) := by
  intro s
  rw [heap_endState_guarded]
  exact h s.armed

end Relates

/-- What every permitted step does to the heap, and what the evaluator does, a routine does. -/
theorem Routine.relates {permit : Permit} {k : Evaluator → EvalM α} (h : Routine permit k)
    (refl : ∀ h, R h h) (trans : ∀ {a b c}, R a b → R b c → R a c)
    (steps : ∀ s t, State.Step permit.walks s t → R s.heap t.heap) (hev : ev.Relates R) :
    Relates R (k ev) := by
  induction h with
  | primitive step => exact .primitive refl steps step
  | bind _ _ first rest => exact .bind trans first rest
  | look _ _ rest => exact fun s => rest s s
  | fuel _ bounded => exact bounded ev.fuel
  | next block index => exact hev.next block index
  | invoke name f args => exact hev.invoke name f args
  | withScope frame _ body => exact body.withScope frame
  | withCall _ name _ body => exact body.withCall refl name
  | guarded _ _ body => exact body.guarded
  | claiming _ _ _ body => exact body.claiming _ _

theorem evaluator_relates (refl : ∀ h, R h h) (trans : ∀ {a b c}, R a b → R b c → R a c)
    (steps : ∀ s t, State.Step (fun _ => True) s t → R s.heap t.heap) (fuel : Nat) :
    (evaluator fuel).Relates R := by
  induction fuel with
  | zero => exact ⟨fun _ _ => .throw refl _, fun _ _ _ => .throw refl _⟩
  | succ fuel ih =>
    have next (block : BlockRef) (index : Nat) :
        Routine ClaimsNothing fun ev => expression ev block index := .expression block index
    exact ⟨fun block index => (next block index).relates refl trans steps ih,
      fun name f args => (Routine.call name f args).relates refl trans steps ih⟩

/-! ## Courses -/

def Heap.Follows (h h' : Heap) : Prop :=
  ∃ s t : State, s.Step (fun _ => True) t ∧ s.heap = h ∧ t.heap = h'

structure Heap.Course (h : Heap) (moments : List Heap) (h' : Heap) : Prop where
  steps : (h :: moments).IsChain Heap.Follows
  last : moments.getLastD h = h'

namespace Heap.Course

variable {h h' : Heap} {moments : List Heap}

theorem exists_of_follows (follows : Relation.ReflTransGen Follows h h') :
    ∃ moments, h.Course moments h' := by
  induction follows using Relation.ReflTransGen.head_induction_on with
  | refl => exact ⟨[], .singleton h', rfl⟩
  | head step _ ih =>
    obtain ⟨moments, steps, last⟩ := ih
    exact ⟨_ :: moments, .cons_cons step steps, by rwa [List.getLastD_cons]⟩

/-- What every step keeps holds between any two moments, the earlier first. -/
theorem pairwise (course : h.Course moments h') (trans : ∀ {a b c}, R a b → R b c → R a c)
    (steps : ∀ s t, State.Step (fun _ => True) s t → R s.heap t.heap) :
    (h :: moments).Pairwise R := by
  have : Trans R R R := ⟨trans⟩
  refine List.isChain_iff_pairwise.mp (course.steps.imp ?_)
  rintro a b ⟨s, t, step, rfl, rfl⟩
  exact steps s t step

end Heap.Course

/-- The heaps that a routine passes make a course. -/
theorem Routine.exists_course {claims : Heap → Exit → Prop} {k : Evaluator → EvalM α}
    (h : Routine claims k) (fuel : Nat) (s : State) :
    ∃ moments, s.heap.Course moments (endState (k (evaluator fuel)) s).heap := by
  have steps (s t : State) (step : s.Step (fun _ => True) t) :
      Relation.ReflTransGen Heap.Follows s.heap t.heap := .single ⟨s, t, step, rfl, rfl⟩
  have passed := h.relates (fun _ => .refl) .trans steps
    (evaluator_relates (fun _ => .refl) .trans steps fuel)
  exact Heap.Course.exists_of_follows (passed s)

/-! ## Whole programs -/

theorem Interpreter.endState_complete (ev : Evaluator) (block : BlockRef) (s : State) :
    endState (complete ev block) s = endState (ev.all block) s := by
  unfold endState complete
  cases ev.all block s with
  | ok value t => rfl
  | error exit t =>
    cases exit with
    | thrown exit =>
      dsimp only
      cases exit.isNamed .quit <;> rfl
    | raised e => rfl
    | outOfFuel => rfl

/-- Reading a program places it in the heap. -/
theorem Interpreter.loadSource_step {walks : ProtectFlags → Prop} {source : String}
    {block : BlockRef} {s t : State} (loaded : loadSource source s = .ok (block, t)) :
    s.Step walks t := by
  unfold loadSource at loaded
  split at loaded
  · cases loaded
  · next data _ =>
    cases loaded
    exact .heap (.loadBlock data)

theorem Interpreter.state_run {source : String} {block : BlockRef} {s t : State}
    (loaded : loadSource source s = .ok (block, t)) :
    (run source s).2 = endState (standard.all block) t := by
  rw [← endState_complete, run, loaded, endState]
  dsimp only
  cases complete standard block t with
  | ok completion u => rfl
  | error exit u => cases exit <;> rfl

end BlockScript
