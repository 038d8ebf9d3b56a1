import BlockScript.Proofs.Backtraces
import BlockScript.Proofs.Sites

/-!
# Expressions and calls

The evaluation of a block comes to its expressions one after another. An expression that begins with
the name of a function gathers the arguments and asks for the call.
-/

namespace BlockScript

variable {ev : Evaluator} {s t u : State} {q : Request} {block : BlockRef} {count position : Nat}

/-- The evaluation of a block comes to the expression at a position, after a number of others. -/
inductive Comes (ev : Evaluator) (block : BlockRef) (s : State) : Nat → Nat → State → Prop where
  | start : Comes ev block s 0 block.index s
  | next {count position position' : Nat} {t t' : State} {v : Value}
      (before : Comes ev block s count position t)
      (evaluated : ev.next block position t = .ok (some (v, position')) t') :
      Comes ev block s (count + 1) position' t'

theorem Comes.handsOn {left : Nat} (comes : Comes ev block s count position t) {start : Value}
    (handed : ∀ acc, HandsOn
      (fun ev => ev.foldFrom block (fun _ value => .yield value) left position acc) ev t q u) :
    HandsOn (fun ev => ev.foldFrom block (fun _ value => .yield value) (count + left) block.index
      start) ev s q u := by
  induction comes generalizing left with
  | start => simpa using handed start
  | @next count position position' t t' v before evaluated ih =>
    rw [Nat.add_right_comm, Nat.add_assoc]
    refine ih fun acc => ?_
    simp only [Evaluator.foldFrom]
    refine .bind_of_ok (fun asks => ?_) evaluated (handed v)
    obtain ⟨rfl, rfl⟩ := Asks.eq_of_ask (.next block position) asks
    exact .ask _ _

theorem Comes.asks (comes : Comes ev block s count position t) (more : count < ev.fuel) :
    Asks (fun ev => ev.all block) ev s (.next block position) t := by
  obtain ⟨left, fuel⟩ := Nat.exists_eq_add_of_lt more
  have here (acc : Value) : HandsOn
      (fun ev => ev.foldFrom block (fun _ value => .yield value) (left + 1) position acc) ev t
        (.next block position) t :=
    (HandsOn.ask (.next block position) t).bind _
  have whole : HandsOn (fun ev' =>
      ev'.foldFrom block (fun _ value => .yield value) ev.fuel block.index Value.unset) ev s
        (.next block position) t := by
    rw [fuel, Nat.add_assoc]
    exact comes.handsOn here
  exact HandsOn.asks <| whole.of_fuel
    (k := fun fuel ev => ev.foldFrom block (fun _ value => .yield value) fuel block.index .unset)

/-- An item names a function, as a word or as the head of a path whose other segments are the
refinements of the call. -/
inductive Names (s : State) : Value → String → Function → List Segment → Prop where
  | word {name : String} {f : Function} (bound : s.env.lookup s.heap name = some (.function f)) :
      Names s (.word .word name) name f []
  | path {name : String} {f : Function} (refinements : List Segment)
      (bound : s.env.lookup s.heap name = some (.function f)) :
      Names s (.path .path (.name name :: refinements)) name f refinements

theorem Names.term_eq {item : Value} {name : String} {f : Function} {refinements : List Segment}
    (names : Names s item name f refinements) (ev : Evaluator) (block : BlockRef)
    (position : Nat) :
    term ev block position item s = BlockScript.call ev name f refinements block position s := by
  cases names with
  | word bound => exact term_function bound
  | path refinements bound => exact term_function_path refinements bound

/-- An expression that is a call, with no operator behind it. -/
theorem Names.expression_call {item v : Value} {name : String} {f : Function}
    {refinements : List Segment} {g g' : Gathered} {t' : State} {fuel : Nat}
    (names : Names s item name f refinements) (here : s.heap.item? block position = some item)
    (fixed : gatherParams ev name block ⟨Array.replicate f.arity .none, position + 1⟩
      f.fixedParams s = .ok g t)
    (refined : gatherRefinements ev name f block [] refinements g t = .ok g' t')
    (ran : ev.invoke name f g'.args t' = .ok v u)
    (free : u.operatorAt? block g'.position = none) (enough : ev.fuel = fuel + 1) :
    expression ev block position s = .ok (some (v, g'.position)) u := by
  have called : BlockScript.call ev name f refinements block (position + 1) s =
      .ok (v, g'.position) u :=
    (bind_of_ok fixed _).trans ((bind_of_ok refined _).trans (bind_of_ok ran _))
  rw [expression_item here, enough]
  refine (bind_of_ok ((names.term_eq ev block (position + 1)).trans called) _).trans ?_
  exact bind_of_ok (operators_none free v) _

/-- An expression that begins with the name of a function asks for the call, once the arguments are
gathered. -/
theorem Names.asks {item : Value} {name : String} {f : Function} {refinements : List Segment}
    {g g' : Gathered} {t' : State} (names : Names s item name f refinements)
    (here : s.heap.item? block position = some item)
    (fixed : gatherParams ev name block ⟨Array.replicate f.arity .none, position + 1⟩
      f.fixedParams s = .ok g t)
    (refined : gatherRefinements ev name f block [] refinements g t = .ok g' t') :
    Asks (fun ev => expression ev block position) ev s (.invoke name f g'.args) t' := by
  have first : Routine ⟨ClaimsNothing, fun _ => True, False⟩ fun ev => gatherParams ev name block
      ⟨Array.replicate f.arity .none, position + 1⟩ f.fixedParams := .gatherParams ..
  have second : Routine ⟨ClaimsNothing, fun _ => True, False⟩ fun ev =>
      gatherRefinements ev name f block [] refinements g := .gatherRefinements ..
  have called : HandsOn (fun ev => BlockScript.call ev name f refinements block (position + 1)) ev
      s (.invoke name f g'.args) t' := by
    refine .bind_of_ok (first.handsOn id fun _ _ => id) fixed ?_
    refine .bind_of_ok (second.handsOn id fun _ _ => id) refined ?_
    exact (HandsOn.ask (.invoke name f g'.args) t').bind fun v _ => pure (v, g'.position)
  refine HandsOn.asks (called.bracket fun ev' e after run => ⟨after, ?_, .refl after⟩)
  rw [expression_item here]
  exact bind_of_error ((names.term_eq ev' block (position + 1)).trans run) _

theorem Asks.all_handsOn {ev : Evaluator} {s u : State} {q : Request} {block : BlockRef}
    (asks : Asks (fun ev => ev.all block) ev s q u) : HandsOn (fun ev => ev.all block) ev s q u :=
  have routine : Routine ⟨ClaimsNothing, fun _ => True, False⟩ fun ev => ev.all block :=
    .all block
  routine.handsOn id (fun _ _ => id) asks

end BlockScript
