import BlockScript.Proofs.Moments

/-!
# Moments in order

What a moment asks it asks one after another, and between two requests there are only primitive
steps. So of two moments of a run one is inside of the other or over before it begins. What every
primitive step keeps holds from each to the other, as it holds from where a moment begins to where
it ends.
-/

namespace BlockScript

variable {α : Type} {k : Evaluator → EvalM α} {ev : Evaluator} {s t u : State} {n : Nat}
  {q : Request} {R : Heap → Heap → Prop} {trace before behind : List (Request × State)}
  {h h' : Heap}

/-! ## Between the requests -/

theorem Evaluator.Relates.ask (answers : ev.Relates R) (q : Request) (s : State) :
    R s.heap (endState (q.ask ev) s).heap := by
  cases q with
  | next block index => exact answers.next block index s
  | invoke name f args => exact answers.invoke name f args s

namespace Threads

theorem imp {R' : Heap → Heap → Prop} (threads : Threads R ev h trace h')
    (weaker : ∀ {a b}, R a b → R' a b) : Threads R' ev h trace h' := by
  induction threads with
  | nil leads => exact .nil (weaker leads)
  | cons leads _ ih => exact .cons (weaker leads) ih

theorem ends (threads : Threads R ev h trace h') (trans : ∀ {a b c}, R a b → R b c → R a c)
    (answers : ev.Relates R) : R h h' := by
  induction threads with
  | nil leads => exact leads
  | cons leads _ ih => exact trans leads (trans (answers.ask _ _) ih)

theorem split (threads : Threads R ev h (before ++ (q, u) :: behind) h')
    (trans : ∀ {a b c}, R a b → R b c → R a c) (answers : ev.Relates R) :
    R h u.heap ∧ Threads R ev (endState (q.ask ev) u).heap behind h' := by
  induction before generalizing h with
  | nil =>
    cases threads with
    | cons leads rest => exact ⟨leads, rest⟩
  | cons first before ih =>
    cases threads with
    | cons leads rest =>
      obtain ⟨later, rest'⟩ := ih rest
      exact ⟨trans leads (trans (answers.ask _ _) later), rest'⟩

end Threads

structure Itinerary (k : Evaluator → EvalM α) (ev : Evaluator) (s : State)
    (trace : List (Request × State)) : Prop where
  traced : Traced k ev s trace
  threads : Threads (Relation.ReflTransGen Heap.Follows) ev s.heap trace (endState (k ev) s).heap

theorem Routine.exists_itinerary {claims : Heap → Exit → Prop} (routine : Routine claims k)
    (ev : Evaluator) (s : State) : ∃ trace, Itinerary k ev s trace := by
  have steps (s t : State) (step : s.Step (fun _ => True) t) :
      Relation.ReflTransGen Heap.Follows s.heap t.heap := .single ⟨s, t, step, rfl, rfl⟩
  obtain ⟨trace, traced, threads⟩ :=
    routine.exists_trace_threads (fun _ => .refl) .trans steps ev s
  exact ⟨trace, traced, threads⟩

namespace Moment

def of (n : Nat) (asked : Request × State) : Moment := ⟨n, asked.1, asked.2⟩

inductive InOrder : List Moment → Prop where
  | moment {n : Nat} {q : Request} {s : State} {trace : List (Request × State)}
      (itinerary : Itinerary q.code (evaluator n) s trace) : InOrder (trace.map (of n))
  | program {source : String} {block : BlockRef} {s t : State} {trace : List (Request × State)}
      (loaded : Interpreter.loadSource source s = .ok (block, t))
      (itinerary : Itinerary (fun ev => ev.all block) Interpreter.standard t trace) :
      InOrder (trace.map (of Interpreter.fuel))

inductive Precedes : Moment → Moment → Prop where
  | intro {before middle behind : List Moment} {a b a' b' : Moment}
      (inOrder : InOrder (before ++ a :: middle ++ b :: behind)) (first : a.Spans a')
      (second : b.Spans b') : Precedes a' b'

section Order

variable {a b c : Moment} {made : List Moment}

theorem mem_map_of {q : Request} {u : State} :
    (⟨n, q, u⟩ : Moment) ∈ trace.map (of n) ↔ (q, u) ∈ trace := by
  constructor
  · intro member
    obtain ⟨⟨q', u'⟩, present, same⟩ := List.mem_map.mp member
    cases same
    exact present
  · exact fun present => List.mem_map.mpr ⟨_, present, rfl⟩

theorem split_of_map {before middle behind : List Moment}
    (whole : trace.map (of n) = before ++ a :: middle ++ b :: behind) :
    ∃ before middle behind q u q' u', a = ⟨n, q, u⟩ ∧ b = ⟨n, q', u'⟩ ∧
      trace = before ++ (q, u) :: (middle ++ (q', u') :: behind) := by
  rw [List.append_assoc, List.cons_append] at whole
  obtain ⟨before, rest, rfl, -, from_a⟩ := List.map_eq_append_iff.mp whole
  obtain ⟨⟨q, u⟩, rest, rfl, rfl, after_a⟩ := List.map_eq_cons_iff.mp from_a
  obtain ⟨middle, rest, rfl, -, from_b⟩ := List.map_eq_append_iff.mp after_a
  obtain ⟨⟨q', u'⟩, behind, rfl, rfl, -⟩ := List.map_eq_cons_iff.mp from_b
  exact ⟨before, middle, behind, q, u, q', u', rfl, rfl, rfl⟩

/-- All requests of a moment are in one order. -/
theorem exists_inOrder (makes : a.Makes b) : ∃ made, InOrder made ∧ ∀ c, a.Makes c → c ∈ made := by
  obtain @⟨n, q, q', s, u, asks⟩ := makes
  obtain ⟨trace, itinerary⟩ := (Routine.request q).exists_itinerary (evaluator n) s
  refine ⟨_, .moment itinerary, fun c makes => ?_⟩
  obtain ⟨asks⟩ := makes
  exact mem_map_of.mpr (itinerary.traced.mem_of_asks asks)

theorem eq_or_split (first : a ∈ made) (second : b ∈ made) :
    a = b ∨ (∃ before middle behind, made = before ++ a :: middle ++ b :: behind) ∨
      ∃ before middle behind, made = before ++ b :: middle ++ a :: behind := by
  obtain ⟨before, behind, rfl⟩ := List.append_of_mem first
  rcases List.mem_append.mp second with earlier | later
  · obtain ⟨before, middle, rfl⟩ := List.append_of_mem earlier
    exact .inr (.inr ⟨before, middle, behind, by simp⟩)
  · rcases List.mem_cons.mp later with rfl | later
    · exact .inl rfl
    · obtain ⟨middle, behind, rfl⟩ := List.append_of_mem later
      exact .inr (.inl ⟨before, middle, behind, by simp⟩)

def Comparable (a b : Moment) : Prop := a.Spans b ∨ b.Spans a ∨ a.Precedes b ∨ b.Precedes a

theorem InOrder.comparable (inOrder : InOrder made) {x y : Moment} (first : x ∈ made)
    (second : y ∈ made) (spans : x.Spans b) (spans' : y.Spans c)
    (same : x.Spans c → b.Comparable c) : b.Comparable c := by
  rcases eq_or_split first second with rfl | ⟨_, _, _, rfl⟩ | ⟨_, _, _, rfl⟩
  · exact same spans'
  · exact .inr (.inr (.inl ⟨inOrder, spans, spans'⟩))
  · exact .inr (.inr (.inr ⟨inOrder, spans', spans⟩))

/-- Of two moments inside of one, one is inside of the other or over before it begins. -/
theorem comparable (first : a.Spans b) (second : a.Spans c) : b.Comparable c := by
  induction first using Relation.ReflTransGen.head_induction_on with
  | refl => exact .inl second
  | head makes inside ih =>
    cases second using Relation.ReflTransGen.head_induction_on with
    | refl => exact .inr (.inl (.head makes inside))
    | head makes' inside' =>
      obtain ⟨made, inOrder, all⟩ := exists_inOrder makes
      exact inOrder.comparable (all _ makes) (all _ makes') inside inside' ih

end Order

end Moment

/-! ## Programs -/

namespace Interpreter

variable {source : String} {a b : Moment}

/-- Each moment is inside of one that the program asks for directly. -/
theorem Reaches.exists_root (reaches : Reaches source s a) : ∃ block t q u,
    loadSource source s = .ok (block, t) ∧ Asks (fun ev => ev.all block) standard t q u ∧
      (Moment.mk fuel q u).Spans a := by
  induction reaches with
  | start loaded asks => exact ⟨_, _, _, _, loaded, asks, .refl⟩
  | makes _ makes ih =>
    obtain ⟨block, t, q, u, loaded, asks, spans⟩ := ih
    exact ⟨block, t, q, u, loaded, asks, spans.tail makes⟩

/-- Of two moments of a run, one is inside of the other or over before it begins. -/
theorem Reaches.comparable (first : Reaches source s a) (second : Reaches source s b) :
    a.Comparable b := by
  obtain ⟨block, t, q, u, loaded, asks, spans⟩ := first.exists_root
  obtain ⟨block', t', q', u', loaded', asks', spans'⟩ := second.exists_root
  rw [loaded] at loaded'
  cases loaded'
  have routine : Routine ClaimsNothing fun ev => ev.all block := .all block
  obtain ⟨trace, itinerary⟩ := routine.exists_itinerary standard t
  exact (Moment.InOrder.program loaded itinerary).comparable
    (Moment.mem_map_of.mpr (itinerary.traced.mem_of_asks asks))
    (Moment.mem_map_of.mpr (itinerary.traced.mem_of_asks asks')) spans spans'
    fun inside => Moment.comparable spans inside

end Interpreter

/-! ## What every step keeps -/

section Keeps

variable (refl : ∀ h, R h h) (trans : ∀ {a b c}, R a b → R b c → R a c)
  (steps : ∀ s t, State.Step (fun _ => True) s t → R s.heap t.heap)

include refl trans steps

theorem relates_of_follows (follows : Relation.ReflTransGen Heap.Follows h h') : R h h' := by
  induction follows with
  | refl => exact refl h
  | tail _ step ih =>
    obtain ⟨s, t, step, rfl, rfl⟩ := step
    exact trans ih (steps s t step)

/-- A computation keeps what is kept, up to each request of it and from each answer on. -/
theorem Itinerary.split {n : Nat} (itinerary : Itinerary k (evaluator n) s trace)
    (here : trace = before ++ (q, u) :: behind) : R s.heap u.heap ∧
      Threads R (evaluator n) (Moment.mk n q u).after.heap behind
        (endState (k (evaluator n)) s).heap := by
  subst here
  exact (itinerary.threads.imp fun follows => relates_of_follows refl trans steps follows).split
    trans (evaluator_relates refl trans steps n)

theorem Itinerary.between {n : Nat} {q' : Request} {u' : State}
    {middle : List (Request × State)} (itinerary : Itinerary k (evaluator n) s trace)
    (here : trace = before ++ (q, u) :: (middle ++ (q', u') :: behind)) :
    R (Moment.mk n q u).after.heap u'.heap := by
  obtain ⟨-, threads⟩ := itinerary.split refl trans steps here
  exact (threads.split trans (evaluator_relates refl trans steps n)).1

theorem Routine.relates_asked {claims : Heap → Exit → Prop} {n : Nat} (routine : Routine claims k)
    (asks : Asks k (evaluator n) s q u) : R s.heap u.heap ∧
      R (Moment.mk n q u).after.heap (endState (k (evaluator n)) s).heap := by
  obtain ⟨trace, itinerary⟩ := routine.exists_itinerary (evaluator n) s
  obtain ⟨before, behind, here⟩ := List.append_of_mem (itinerary.traced.mem_of_asks asks)
  obtain ⟨begins, threads⟩ := itinerary.split refl trans steps here
  exact ⟨begins, threads.ends trans (evaluator_relates refl trans steps n)⟩

namespace Moment

variable {a b : Moment}

theorem relates_after (a : Moment) : R a.state.heap a.after.heap :=
  (evaluator_relates refl trans steps a.depth).ask a.request a.state

theorem Makes.relates (makes : a.Makes b) :
    R a.state.heap b.state.heap ∧ R b.after.heap a.after.heap := by
  obtain @⟨n, q, q', s, u, asks⟩ := makes
  obtain ⟨begins, ends⟩ := (Routine.request q).relates_asked refl trans steps asks
  rw [← q.ask_succ] at ends
  exact ⟨begins, ends⟩

theorem Spans.relates (spans : a.Spans b) :
    R a.state.heap b.state.heap ∧ R b.after.heap a.after.heap := by
  induction spans with
  | refl => exact ⟨refl _, refl _⟩
  | tail _ makes ih =>
    obtain ⟨begins, ends⟩ := makes.relates refl trans steps
    exact ⟨trans ih.1 begins, trans ends ih.2⟩

theorem InOrder.relates {before middle behind : List Moment}
    (inOrder : InOrder (before ++ a :: middle ++ b :: behind)) : R a.after.heap b.state.heap := by
  generalize whole : before ++ a :: middle ++ b :: behind = made at inOrder
  cases inOrder with
  | moment itinerary =>
    obtain ⟨_, _, _, q, u, q', u', rfl, rfl, here⟩ := split_of_map whole.symm
    exact itinerary.between refl trans steps here
  | program loaded itinerary =>
    obtain ⟨_, _, _, q, u, q', u', rfl, rfl, here⟩ := split_of_map whole.symm
    exact Itinerary.between refl trans steps itinerary here

theorem Precedes.relates (precedes : a.Precedes b) : R a.after.heap b.state.heap := by
  obtain ⟨inOrder, first, second⟩ := precedes
  obtain ⟨-, ends⟩ := first.relates refl trans steps
  obtain ⟨begins, -⟩ := second.relates refl trans steps
  exact trans ends (trans (inOrder.relates refl trans steps) begins)

end Moment

theorem Interpreter.Reaches.relates {source : String} {a : Moment} (reaches : Reaches source s a) :
    R s.heap a.state.heap ∧ R a.after.heap (run source s).2.heap := by
  obtain ⟨block, t, q, u, loaded, asks, spans⟩ := reaches.exists_root
  have routine : Routine ClaimsNothing fun ev => ev.all block := .all block
  obtain ⟨begins, ends⟩ := routine.relates_asked refl trans steps (n := fuel) asks
  obtain ⟨begins', ends'⟩ := spans.relates refl trans steps
  rw [state_run loaded]
  exact ⟨trans (steps s t (loadSource_step loaded)) (trans begins begins'), trans ends' ends⟩

end Keeps

end BlockScript
