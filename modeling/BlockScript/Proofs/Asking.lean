import BlockScript.Proofs.Effects
import BlockScript.Proofs.Rounds

/-!
# What is asked, in order

A computation asks its requests one after another, and what it asks next depends only on the answers
that it has been given. So from each state it has a trace: the requests whose answers settle its
outcome, in order. What is on the trace is what is asked, and evaluators that answer the requests on
it alike cannot be told apart. If a request is not answered because the fuel has run out, the
computation ends there. Between the answers a computation only makes primitive steps.
-/

namespace BlockScript

variable {α β : Type} {s t u : State} {ev ev' ev'' : Evaluator} {k : Evaluator → EvalM α}
  {q : Request} {asked trace trace' : List (Request × State)}

namespace Asks

theorem of_fuel {k : Nat → Evaluator → EvalM α} (asks : Asks (fun ev => k ev.fuel ev) ev s q u) :
    Asks (k ev.fuel) ev s q u := by
  obtain ⟨ev', fuel, others, differs⟩ := asks
  dsimp only at differs
  rw [fuel] at differs
  exact ⟨ev', fuel, others, differs⟩

theorem of_withScope {frame : FrameId}
    (asks : Asks (fun ev => withScope frame (k ev)) ev s q u) :
    Asks k ev { s with env := s.env.push frame } q u :=
  asks.of_bracket fun ev' same => by simp only [withScope, same]

theorem of_guarded (asks : Asks (fun ev => guarded (k ev)) ev s q u) : Asks k ev s.armed q u :=
  asks.of_bracket fun ev' same => by rw [guarded_apply, guarded_apply, same]

theorem eq_of_ask (q' : Request) (asks : Asks (fun ev => q'.ask ev) ev s q u) :
    q = q' ∧ u = s := by
  obtain ⟨ev', -, others, differs⟩ := asks
  refine Classical.byContradiction fun other => differs (others q' s fun same => other ?_)
  obtain ⟨rfl, rfl⟩ := Prod.mk.inj same
  exact ⟨rfl, rfl⟩

end Asks

namespace Evaluator.AgreesOn

theorem refl (ev : Evaluator) (asked : List (Request × State)) : ev.AgreesOn ev asked :=
  ⟨rfl, fun _ _ _ => rfl⟩

theorem trans (first : ev.AgreesOn ev' asked) (second : ev'.AgreesOn ev'' asked) :
    ev.AgreesOn ev'' asked :=
  ⟨second.fuel.trans first.fuel, fun q t member =>
    (second.answers q t member).trans (first.answers q t member)⟩

/-- Ending one request does not change the others. -/
theorem ending (other : (q, u) ∉ asked) (exit : Exit) (after : State) :
    ev.AgreesOn (ev.ending q u exit after) asked := by
  refine ⟨rfl, fun q' t member => ev.ending_other (fun same => other ?_) exit after⟩
  rwa [same] at member

end Evaluator.AgreesOn

theorem SettledBy.mem_of_asks (settled : SettledBy k ev s asked) (asks : Asks k ev s q u) :
    (q, u) ∈ asked := by
  obtain ⟨ev', fuel, others, differs⟩ := asks
  refine Classical.byContradiction fun absent => differs (settled ev' ⟨fuel, ?_⟩)
  intro q' t member
  refine others q' t fun same => absent ?_
  rwa [same] at member

/-! ## Traces -/

def StopsAt (k : Evaluator → EvalM α) (ev : Evaluator) (s : State) (q : Request) (u : State) :
    Prop :=
  ∀ after, q.ask ev u = .error .outOfFuel after → LeavesBy (k ev) s .outOfFuel after

structure Traced (k : Evaluator → EvalM α) (ev : Evaluator) (s : State)
    (trace : List (Request × State)) : Prop where
  settled : SettledBy k ev s trace
  stops (before behind : List (Request × State)) (q : Request) (u : State) :
    trace = before ++ (q, u) :: behind → ∀ ev', ev.AgreesOn ev' before → StopsAt k ev' s q u

namespace Traced

theorem const (m : EvalM α) : Traced (fun _ => m) ev s [] where
  settled _ _ := rfl
  stops before behind q u split := by simp at split

theorem ask (q : Request) : Traced (fun ev => q.ask ev) ev s [(q, s)] where
  settled ev' agree := agree.answers q s (List.mem_singleton_self _)
  stops before behind q' u split ev' _ after answer := by
    have here : before = [] ∧ (q, s) = (q', u) := by
      rcases before with _ | ⟨first, before⟩
      · exact ⟨rfl, (List.cons.inj split).1⟩
      · simp at split
    obtain ⟨rfl, rfl⟩ := Prod.mk.inj here.2
    exact ⟨_, after, answer, .refl _, .refl after⟩

/-- A bracket makes the requests of its body. -/
theorem bracket {k' : Evaluator → EvalM β} (body : Traced k ev t trace)
    (settle : ∀ ev', k ev' t = k ev t → k' ev' s = k' ev s)
    (leave : ∀ ev' after, LeavesBy (k ev') t .outOfFuel after →
      LeavesBy (k' ev') s .outOfFuel after) : Traced k' ev s trace where
  settled ev' agree := settle ev' (body.settled ev' agree)
  stops before behind q u split ev' agree after answer :=
    leave ev' after (body.stops before behind q u split ev' agree after answer)

theorem bind_error {f : α → Evaluator → EvalM β} {exit : Exit} (first : Traced k ev s trace)
    (run : k ev s = .error exit t) : Traced (fun ev => k ev >>= fun a => f a ev) ev s trace :=
  first.bracket (fun ev' same => by simp only [Bind.bind, EStateM.bind, same, run])
    fun ev' after leaves => leaves.bind _

theorem bind_ok {f : α → Evaluator → EvalM β} {a : α} (first : Traced k ev s trace)
    (run : k ev s = .ok a t) (rest : Traced (f a) ev t trace') :
    Traced (fun ev => k ev >>= fun a => f a ev) ev s (trace ++ trace') := by
  have continues (ev' : Evaluator) (agree : ev.AgreesOn ev' trace) :
      (k ev' >>= fun a => f a ev') s = f a ev' t := by
    simp only [Bind.bind, EStateM.bind, first.settled ev' agree, run]
  constructor
  · intro ev' agree
    exact (continues ev' agree.left).trans
      ((rest.settled ev' agree.right).trans (continues ev (.refl ev trace)).symm)
  · intro before behind q u split ev' agree after answer
    rcases List.append_eq_append_iff.mp split with ⟨middle, rfl, later⟩ | ⟨middle, rfl, earlier⟩
    · -- the request is one of the second part
      obtain ⟨exit, v, run', same⟩ :=
        rest.stops middle behind q u later ev' agree.right after answer
      exact ⟨exit, v, (continues ev' agree.left).trans run', same⟩
    · rcases middle with _ | ⟨here, middle⟩
      · rw [List.append_nil] at continues
        obtain ⟨exit, v, run', same⟩ := rest.stops [] behind q u earlier.symm ev'
          ⟨agree.fuel, nofun⟩ after answer
        exact ⟨exit, v, (continues ev' agree).trans run', same⟩
      · obtain ⟨rfl, -⟩ := List.cons.inj earlier
        exact (first.stops before middle q u rfl ev' agree after answer).bind _

/-- Evaluators that answer what is on a trace alike have the same trace. -/
theorem congr (traced : Traced k ev s trace) (agree : ev.AgreesOn ev' trace) :
    Traced k ev' s trace where
  settled ev'' agree' :=
    (traced.settled ev'' (agree.trans agree')).trans (traced.settled ev' agree).symm
  stops before behind q u split ev'' agree' := by
    subst split
    exact traced.stops before behind q u rfl ev'' (agree.left.trans agree')

theorem mem_of_asks (traced : Traced k ev s trace) (asks : Asks k ev s q u) : (q, u) ∈ trace :=
  traced.settled.mem_of_asks asks

/-- What is on the trace is asked for: the computation ends in other ways if it is not answered. -/
theorem asks_of_mem (traced : Traced k ev s trace) (member : (q, u) ∈ trace) : Asks k ev s q u := by
  obtain ⟨before, behind, split, first⟩ := List.eq_append_cons_of_mem member
  refine Classical.byContradiction fun unasked => ?_
  have leaves (after : State) : LeavesBy (k ev) s .outOfFuel after := by
    let stopped := ev.ending q u .outOfFuel after
    have others (q' : Request) (t : State) (other : (q', t) ≠ (q, u)) :
        q'.ask stopped t = q'.ask ev t := ev.ending_other other _ _
    have stops := traced.stops before behind q u split stopped (.ending first _ _) after
      (ev.ending_self q u .outOfFuel after)
    have unchanged : k stopped s = k ev s :=
      Classical.byContradiction fun differs => unasked ⟨stopped, rfl, others, differs⟩
    unfold LeavesBy at stops
    rwa [unchanged] at stops
  obtain ⟨_, v, run, -, same⟩ := leaves { u with exitAsReturn := true }
  obtain ⟨_, v', run', -, same'⟩ := leaves { u with exitAsReturn := false }
  cases run.symm.trans run'
  cases same.exitAsReturn.symm.trans same'.exitAsReturn

end Traced

/-- From one heap to another there are the requests of a trace: each begins with a heap to which
some steps lead from where the one before it ended. -/
inductive Threads (R : Heap → Heap → Prop) (ev : Evaluator) :
    Heap → List (Request × State) → Heap → Prop where
  | nil {h h' : Heap} (leads : R h h') : Threads R ev h [] h'
  | cons {h h' : Heap} {q : Request} {u : State} {trace : List (Request × State)}
      (leads : R h u.heap) (rest : Threads R ev (endState (q.ask ev) u).heap trace h') :
      Threads R ev h ((q, u) :: trace) h'

namespace Threads

variable {R : Heap → Heap → Prop} {h h' h'' : Heap}

theorem head (trans : ∀ {a b c}, R a b → R b c → R a c) (leads : R h h')
    (threads : Threads R ev h' trace h'') : Threads R ev h trace h'' := by
  cases threads with
  | nil leads' => exact .nil (trans leads leads')
  | cons leads' rest => exact .cons (trans leads leads') rest

theorem append (trans : ∀ {a b c}, R a b → R b c → R a c) (first : Threads R ev h trace h')
    (second : Threads R ev h' trace' h'') : Threads R ev h (trace ++ trace') h'' := by
  induction first with
  | nil leads => exact second.head trans leads
  | cons leads _ ih => exact .cons leads (ih second)

end Threads

/-- From each state a routine has a trace, with no more than its primitive steps in between. -/
theorem Routine.exists_trace_threads {permit : Permit} {R : Heap → Heap → Prop}
    (routine : Routine permit k) (refl : ∀ h, R h h)
    (trans : ∀ {a b c}, R a b → R b c → R a c)
    (steps : ∀ s t, State.Step permit.walks s t → R s.heap t.heap) (ev : Evaluator) (s : State) :
    ∃ trace, Traced k ev s trace ∧ Threads R ev s.heap trace (endState (k ev) s).heap := by
  induction routine generalizing s with
  | primitive step => exact ⟨[], .const _, .nil (Relates.primitive refl steps step s)⟩
  | @bind _ _ k f _ _ first rest =>
    obtain ⟨trace, traced, threads⟩ := first s
    cases run : k ev s with
    | error exit t =>
      rw [endState_error run] at threads
      refine ⟨trace, traced.bind_error run, ?_⟩
      rwa [endState_bind_error run]
    | ok a t =>
      rw [endState_ok run] at threads
      obtain ⟨trace', traced', threads'⟩ := rest a t
      refine ⟨trace ++ trace', traced.bind_ok run traced', ?_⟩
      rw [endState_bind_ok run]
      exact threads.append trans threads'
  | @look _ f _ _ rest =>
    obtain ⟨trace, traced, threads⟩ := rest s s
    exact ⟨trace, traced.bracket (fun _ same => same) fun _ _ leaves => leaves, threads⟩
  | @fuel _ k _ bounded =>
    obtain ⟨trace, ⟨settled, stops⟩, threads⟩ := bounded ev.fuel s
    refine ⟨trace, ⟨fun ev' agree => ?_, fun before behind q u split ev' agree after answer => ?_⟩,
      threads⟩
    · show k ev'.fuel ev' s = k ev.fuel ev s
      rw [agree.fuel]
      exact settled ev' agree
    · rw [agree.fuel]
      exact stops before behind q u split ev' agree after answer
  | next block index => exact ⟨_, .ask (.next block index), .cons (refl _) (.nil (refl _))⟩
  | invoke name f args => exact ⟨_, .ask (.invoke name f args), .cons (refl _) (.nil (refl _))⟩
  | withScope frame _ body =>
    obtain ⟨trace, traced, threads⟩ := body { s with env := s.env.push frame }
    refine ⟨trace, traced.bracket (fun ev' same => ?_) fun ev' after leaves => leaves.withScope, ?_⟩
    · simp only [BlockScript.withScope, same]
    · rwa [endState_withScope]
  | @withCall _ k _ name _ body =>
    cases pushed : s.calls.push name with
    | error cause =>
      refine ⟨[], ⟨fun ev' _ => ?_, fun before behind q u split => by simp at split⟩, .nil ?_⟩
      · simp only [BlockScript.withCall, pushed]
      · rw [endState_withCall, pushed]
        exact refl s.heap
    | ok calls =>
      obtain ⟨trace, traced, threads⟩ := body { s with calls }
      refine ⟨trace, traced.bracket (fun ev' same => ?_) fun ev' after leaves =>
        leaves.withCall pushed, ?_⟩
      · simp only [BlockScript.withCall, pushed, same]
      · rwa [endState_withCall, pushed]
  | @guarded _ k _ _ body =>
    obtain ⟨trace, traced, threads⟩ := body s.armed
    refine ⟨trace, traced.bracket (fun ev' same => ?_) fun ev' after leaves => ?_, ?_⟩
    · rw [guarded_apply, guarded_apply, same]
    · exact leaves.guarded fun e raised => by cases raised
    · rw [Relates.heap_endState_guarded]
      exact threads
  | claiming _ _ _ body =>
    obtain ⟨trace, traced, threads⟩ := body s
    refine ⟨trace, traced.bracket (fun ev' same => ?_) fun ev' after leaves => ?_, ?_⟩
    · simp only [BlockScript.claiming, same]
    · exact leaves.claiming fun x thrown => by cases thrown
    · rwa [endState_claiming]

theorem Routine.exists_traced {permit : Permit} (routine : Routine permit k) (ev : Evaluator)
    (s : State) : ∃ trace, Traced k ev s trace := by
  obtain ⟨trace, traced, -⟩ := routine.exists_trace_threads (R := fun _ _ => True)
    (fun _ => trivial) (fun _ _ => trivial) (fun _ _ _ => trivial) ev s
  exact ⟨trace, traced⟩

/-! ## What is asked -/

/-- Code does not notice another evaluator that answers all that is asked in the same way. -/
theorem Routine.unnoticed {permit : Permit} (routine : Routine permit k)
    (fuel : ev'.fuel = ev.fuel) (same : ∀ q u, Asks k ev s q u → q.ask ev' u = q.ask ev u) :
    k ev' s = k ev s ∧ ∀ q u, Asks k ev s q u → Asks k ev' s q u := by
  obtain ⟨trace, traced⟩ := routine.exists_traced ev s
  have agree : ev.AgreesOn ev' trace :=
    ⟨fuel, fun q u member => same q u (traced.asks_of_mem member)⟩
  exact ⟨traced.settled ev' agree, fun q u asks =>
    (traced.congr agree).asks_of_mem (traced.mem_of_asks asks)⟩

/-- If what is asked is not answered, all code around it leaves. -/
theorem Routine.stops_of_asks {permit : Permit} (routine : Routine permit k)
    (asks : Asks k ev s q u) (after : State) :
    LeavesBy (k (ev.ending q u .outOfFuel after)) s .outOfFuel after := by
  obtain ⟨trace, traced⟩ := routine.exists_traced ev s
  obtain ⟨before, behind, split, first⟩ := List.eq_append_cons_of_mem (traced.mem_of_asks asks)
  exact traced.stops before behind q u split _ (.ending first _ _) after
    (ev.ending_self q u .outOfFuel after)

/-- Between what a computation is asked and what it asks for, scopes are only added. -/
theorem Routine.scopes_of_asks {permit : Permit} (routine : Routine permit k)
    (balanced : ev.Balanced) (asks : Asks k ev s q u) : s.env.scopes <:+ u.env.scopes := by
  induction routine generalizing s with
  | primitive step => exact absurd asks (Asks.not_of_const _)
  | bind first _ ih rest =>
    rcases Asks.of_bind asks with here | ⟨a, t, run, later⟩
    · exact ih here
    · have kept := first.keepsStacks balanced s
      rw [endState_ok run] at kept
      rw [← kept.env]
      exact rest a later
  | look _ _ rest => exact rest s asks
  | fuel _ bounded => exact bounded ev.fuel asks.of_fuel
  | next block index => rw [(Asks.eq_of_ask (.next block index) asks).2]
  | invoke name f args => rw [(Asks.eq_of_ask (.invoke name f args) asks).2]
  | withScope frame _ body => exact (List.suffix_cons frame _).trans (body asks.of_withScope)
  | withCall _ name _ body =>
    obtain ⟨calls, -, inside⟩ := asks.of_withCall
    have kept := body inside
    exact kept
  | guarded _ _ body =>
    have kept := body asks.of_guarded
    exact kept
  | claiming _ _ _ body => exact body asks.of_claiming

end BlockScript
