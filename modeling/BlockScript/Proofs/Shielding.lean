import BlockScript.Proofs.Calling
import BlockScript.Proofs.Clearance
import BlockScript.Proofs.DeclaredNames

/-!
# Inner frames shield outer ones

The body of a function or an object is evaluated in a new innermost scope. Its frame shows the names
of the parameters or of the set-words, and shows them until the body has ended unless one is hidden
meanwhile. Whatever runs inside of the body, wherever its code is from, runs in scopes on top of
that frame: words of these names are assigned there or further in. A path leads to no frame on the
stack at all, so the fields of these names in the frames behind keep their values.
-/

namespace BlockScript

variable {α : Type} {h : Heap} {s t u : State} {ev : Evaluator} {name : String} {args : Args}
  {body : BlockRef} {n : Nat} {a b : Moment}

/-! ## Bodies in a scope of their own -/

def State.withFrame (s : State) (fields : List (String × Value)) : State :=
  { s with heap := (s.heap.newFrame (.ofFields fields)).2 }

def State.entered (s : State) (fields : List (String × Value)) : State :=
  { s.withFrame fields with env := s.env.push s.heap.frames.size }

structure Enters (k : Evaluator → EvalM α) (s : State) (fields : List (String × Value))
    (body : BlockRef) : Prop where
  asks {ev : Evaluator} {q : Request} {u : State} :
    Asks k ev s q u → Asks (fun ev => ev.all body) ev (s.entered fields) q u
  heap (ev : Evaluator) :
    (endState (k ev) s).heap = (endState (ev.all body) (s.entered fields)).heap

theorem enters_runBody (params : List Param) (body : BlockRef) (args : Args) (s : State) :
    Enters (fun ev => runBody ev params body args) s
      ((params.map (·.name)).zip args.toList) body where
  asks asks := by
    rcases Asks.of_bind (f := fun frame ev => claimReturn (withScope frame (ev.all body))) asks with
      here | ⟨frame, t, made, inside⟩
    · exact absurd here (Asks.not_of_const _)
    · cases made
      exact inside.of_claiming.of_withScope
  heap ev := by
    have made : endState (runBody ev params body args) s =
        endState (claimReturn (withScope s.heap.frames.size (ev.all body))) _ :=
      endState_bind_ok rfl
    rw [made, claimReturn, endState_claiming, endState_withScope]
    rfl

def objectFields (h : Heap) (body : BlockRef) : List (String × Value) :=
  (Evaluation.fieldNames (h.tail body)).map (·, .none)

/-- What the maker of objects does with a block. -/
theorem object_apply (ev : Evaluator) (given : args.value 0 = .block body) (s : State) :
    Evaluation.object ev args s =
      match withScope s.heap.frames.size (ev.all body) (s.withFrame (objectFields s.heap body)) with
      | .ok _ t => .ok (.object s.heap.frames.size) t
      | .error exit t => .error exit t := by
  rw [Evaluation.object, given]
  show (withScope s.heap.frames.size (ev.all body) >>= fun _ =>
    pure (Value.object s.heap.frames.size)) (s.withFrame (objectFields s.heap body)) = _
  simp only [Bind.bind, EStateM.bind]
  cases withScope s.heap.frames.size (ev.all body) (s.withFrame (objectFields s.heap body)) <;> rfl

theorem enters_object (given : args.value 0 = .block body) (s : State) :
    Enters (fun ev => Evaluation.object ev args) s (objectFields s.heap body) body where
  asks asks := by
    have inside := asks.of_bracket (k := fun ev => withScope s.heap.frames.size (ev.all body))
      fun ev' same => by rw [object_apply _ given, object_apply _ given, same]
    exact inside.of_withScope
  heap ev := by
    have ends : endState (Evaluation.object ev args) s =
        endState (withScope s.heap.frames.size (ev.all body))
          (s.withFrame (objectFields s.heap body)) := by
      rw [endState, object_apply _ given, endState]
      cases withScope s.heap.frames.size (ev.all body) _ <;> rfl
    rw [ends, endState_withScope]
    rfl

theorem object_ok {v : Value} (given : args.value 0 = .block body)
    (run : ev.all body (s.entered (objectFields s.heap body)) = .ok v t) :
    Evaluation.object ev args s =
      .ok (.object s.heap.frames.size) { t with env := t.env.pop } := by
  have bracketed := withScope_of_ok (s := s.withFrame (objectFields s.heap body)) run
  rw [object_apply ev given, bracketed]

/-- The maker of objects leaves by what its body leaves by. -/
theorem object_leavesBy {exit : Exit} {after : State} (given : args.value 0 = .block body)
    (leaves : LeavesBy (ev.all body) (s.entered (objectFields s.heap body)) exit after) :
    LeavesBy (Evaluation.object ev args) s exit after := by
  obtain ⟨exit', t, run, same⟩ := leaves.withScope (s := s.withFrame (objectFields s.heap body))
  exact ⟨exit', t, by rw [object_apply ev given, run], same⟩

theorem Native.run_maker {maker : Native} (makes : maker = .object ∨ maker = .context)
    (ev : Evaluator) (args : Args) : maker.run ev args = Evaluation.object ev args := by
  rcases makes with rfl | rfl <;> rfl

theorem enters_maker {maker : Native} (makes : maker = .object ∨ maker = .context)
    (given : args.value 0 = .block body) (same : s.heap = h) :
    Enters (fun ev => (Function.native maker).run ev args) s (objectFields h body) body := by
  simp only [Function.run, Native.run_maker makes]
  exact same ▸ enters_object given s

theorem objectFields_clear {entry : String × Value} (E : Environment) (n : Nat)
    (member : entry ∈ objectFields h body) : entry.2.Clear E n := by
  obtain ⟨name, -, rfl⟩ := List.mem_map.mp member
  exact nofun

/-! ## The new frame -/

structure State.Opened (s t : State) (words : List String) : Prop where
  scopes : t.env.scopes = s.heap.frames.size :: s.env.scopes
  clear : t.heap.Clear t.env
  words : (t.heap.frame s.heap.frames.size).words = words
  kept (id : FrameId) : id ∈ s.env.scopes → t.heap.frame id = s.heap.frame id

theorem Frame.words_ofFields (fields : List (String × Value)) :
    (Frame.ofFields fields).words = fields.map (·.1) := by
  simp [Frame.words, Frame.visible, Frame.ofFields]

theorem State.opened_entered (clear : s.heap.Clear s.env) {fields : List (String × Value)}
    (given : ∀ entry ∈ fields, entry.2.Clear s.env s.heap.frames.size) :
    s.Opened (s.entered fields) (fields.map (·.1)) where
  scopes := rfl
  clear := clear.push_newFrame given
  words := by
    show ((s.heap.newFrame _).2.frame _).words = _
    rw [Heap.frame_newFrame, if_pos rfl, Frame.words_ofFields]
  kept id on := by
    show (s.heap.newFrame _).2.frame id = _
    rw [Heap.frame_newFrame, if_neg (Nat.ne_of_lt (clear.made id on))]

namespace State.Opened

variable {words : List String} (opened : s.Opened t words) (leads : t.heap.Leads False t.env h)

include opened leads

/-- As long as nothing is hidden, the new frame keeps its words. -/
theorem words_later : (h.frame s.heap.frames.size).words = words := by
  have split : t.env.scopes = [] ++ s.heap.frames.size :: s.env.scopes := opened.scopes
  have on : s.heap.frames.size ∈ t.env.scopes := split ▸ List.mem_cons_self
  have root : s.env.root ∈ s.env.scopes := List.mem_append_right _ (List.mem_singleton_self _)
  have inner := Environment.ne_root opened.clear.distinct split root
  exact ((leads.shields not_false).words _ (opened.clear.made _ on) inner).trans opened.words

/-- Meanwhile the fields with such a name keep their values in the frames behind. -/
theorem valuesOf_later {id : FrameId} (on : id ∈ s.env.scopes) (named : name ∈ words) :
    (h.frame id).valuesOf name = (s.heap.frame id).valuesOf name := by
  have shows : (t.heap.frame s.heap.frames.size).Shows name :=
    Frame.shows_iff.mpr (opened.words.symm ▸ named)
  have split : t.env.scopes = [] ++ s.heap.frames.size :: s.env.scopes := opened.scopes
  rw [(leads.shields not_false).values [] s.env.scopes _ name split shows id on, opened.kept id on]

end State.Opened

/-- A word that a frame shows is not assigned in a frame behind it. -/
theorem assignWord_keeps {inner outer : List FrameId} {g : FrameId} {v : Value}
    (distinct : u.env.scopes.Nodup) (split : u.env.scopes = inner ++ g :: outer)
    (shows : (u.heap.frame g).Shows name) (done : assignWord name v u = .ok () t) :
    ∀ id ∈ outer, t.heap.frame id = u.heap.frame id := by
  intro id behind
  rw [assignWord_apply] at done
  split at done
  · cases done
  · next slot free =>
    cases done
    rcases Environment.slot_cases free with ⟨place, resolved, rfl⟩ | ⟨unresolved, rfl⟩
    · obtain ⟨field, shown, before, rest, here, nowhere⟩ :=
        Environment.resolve_eq_some_iff.mp resolved
      show (u.heap.modifyFrame _ _).frame id = _
      rw [Heap.frame_modifyFrame, if_neg]
      rintro ⟨rfl, -⟩
      exact nowhere g (Environment.before_of_mem_behind distinct here split behind) shows
    · have on : g ∈ u.env.scopes := split ▸ List.mem_append_right _ List.mem_cons_self
      exact absurd shows (Environment.resolve_eq_none_iff.mp unresolved g on)

/-! ## Moments inside of a body -/

/-- The function evaluates a body in a scope of its own, which has a field of the name: a function
that a program made, for each parameter, and the maker of objects, for each set-word at the top
level of the body. -/
inductive Function.Opens (args : Args) (h : Heap) (name : String) : Function → Prop where
  | parameter {number : Nat} {params : List Param} {body : BlockRef} {p : Param}
      (inside : p ∈ params) (named : p.name = name) : Opens args h name (.user number params body)
  | setWord {maker : Native} {body : BlockRef} (makes : maker = .object ∨ maker = .context)
      (given : args.value 0 = .block body) (inside : .word .setWord name ∈ h.tail body) :
      Opens args h name (.native maker)

theorem Function.Opens.enters {f : Function} {E : Environment} (opens : f.Opens args h name)
    (clear : (clearFlow True).args E n args) (size : args.size = f.arity) :
    ∃ fields body, name ∈ fields.map (·.1) ∧ (∀ entry ∈ fields, entry.2.Clear E n) ∧
      ∀ t : State, t.heap = h → Enters (fun ev => f.run ev args) t fields body := by
  cases opens with
  | @parameter number params body p inside named =>
    refine ⟨_, body, ?_, fun entry member => ?_, fun t _ => enters_runBody params body args t⟩
    · have long : (params.map (·.name)).length ≤ args.toList.length := by
        simpa [Function.arity, Function.params] using Nat.le_of_eq size.symm
      rw [List.map_fst_zip long]
      exact List.mem_map.mpr ⟨p, inside, named⟩
    · exact clear _ (Array.mem_toList_iff.mp (List.of_mem_zip member).2)
  | @setWord maker body makes given inside =>
    refine ⟨objectFields h body, body, ?_, fun _ => objectFields_clear E n, fun _ =>
      enters_maker makes given⟩
    simpa [objectFields] using ((Evaluation.fieldNames_namesSetWords _).complete name).mpr inside

namespace Moment

inductive Opens (name : String) : Moment → Prop where
  | intro {n : Nat} {function : String} {f : Function} {args : Args} {s : State}
      (opens : f.Opens args s.heap name) : Opens name ⟨n, .invoke function f args, s⟩

/-- The state has the scopes of the moment, and the heap with which it begins or ends. A call of set
assigns where it begins, a set-word or set-path where the request for its value ends. -/
structure Bounds (a : Moment) (u : State) : Prop where
  env : u.env = a.state.env
  heap : u.heap = a.state.heap ∨ u.heap = a.after.heap

variable {hides : Prop}

theorem Bounds.precedes (bounds : a.Bounds u) (clear : a.Clear)
    (permitted : a.HidesOnlyIf hides) : (clearFlow hides).Precedes a.state u := by
  refine ⟨bounds.env ▸ List.suffix_refl _, ?_⟩
  rcases bounds.heap with same | same
  · exact same ▸ .refl _ _
  · exact same ▸ ((clear.holds hides).leads_after permitted).2

theorem Bounds.clear (bounds : a.Bounds u) (clear : a.Clear) : u.heap.Clear u.env :=
  bounds.env ▸ clear.heap.leads (bounds.precedes clear (.of_holds trivial a)).heap

/-- A call is refused, and makes nothing, or begins. -/
theorem refused_or_begins (n : Nat) (function : String) (f : Function) (args : Args) (s : State) :
    ((∃ exit, (evaluator n).invoke function f args s = .error exit s) ∧
        ∀ b, ¬ (Moment.mk n (.invoke function f args) s).Makes b) ∨
      ∃ m calls, n = m + 1 ∧ s.calls.push function = .ok calls := by
  cases n with
  | zero => exact .inl ⟨⟨.outOfFuel, rfl⟩, nofun⟩
  | succ n =>
    cases pushed : s.calls.push function with
    | error cause =>
      refine .inl ⟨⟨.raised (s.calls.attach { cause }), ?_⟩, ?_⟩
      · show withCall function (f.run (evaluator n) args) s = _
        rw [withCall, pushed]
      · rintro b ⟨asks⟩
        obtain ⟨calls, pushed', -⟩ := asks.of_withCall
        cases pushed.symm.trans pushed'
    | ok calls => exact .inr ⟨n, calls, rfl, rfl⟩

/-- If its code enters a body, all that a call makes is behind the new frame. -/
theorem opened {function : String} {f : Function} {fields : List (String × Value)}
    {calls : CallStack} (pushed : s.calls.push function = .ok calls)
    (clear : (Moment.mk (n + 1) (.invoke function f args) s).Clear)
    (quiet : (Moment.mk (n + 1) (.invoke function f args) s).HidesNothing)
    (given : ∀ entry ∈ fields, entry.2.Clear s.env s.heap.frames.size)
    (enters : Enters (fun ev => f.run ev args) { s with calls } fields body) :
    ∃ t, s.Opened t (fields.map (·.1)) ∧
      t.heap.Leads False t.env (Moment.mk (n + 1) (.invoke function f args) s).after.heap ∧
      ∀ b, (Moment.mk (n + 1) (.invoke function f args) s).Makes b →
        (clearFlow False).Precedes t b.state := by
  have permitted : (Moment.mk (n + 1) (.invoke function f args) s).HidesOnlyIf False := quiet
  obtain ⟨same, asked⟩ := Request.unnoticed permitted
  have kept : (clearFlow False).KeptBy (answering False n) := (clearFlow False).keptBy_answering n
  have opened := State.opened_entered (s := { s with calls }) clear.heap given
  refine ⟨_, ⟨opened.scopes, opened.clear, opened.words, opened.kept⟩, ?_, ?_⟩
  · have after : (Moment.mk (n + 1) (.invoke function f args) s).after.heap =
        (endState ((answering False n).all body) (State.entered { s with calls } fields)).heap := by
      rw [← enters.heap, Moment.after, Request.ask_succ, endState, ← same, ← endState]
      show (endState (withCall function (f.run (answering False n) args)) s).heap = _
      rw [endState_withCall, pushed]
    rw [after]
    exact (kept.all_ends opened.clear body).leads.2
  · rintro b ⟨asks⟩
    obtain ⟨calls', pushed', inside⟩ := (asked _ _ asks).of_withCall
    cases pushed.symm.trans pushed'
    have inside := enters.asks inside
    have routine : Routine ClaimsNothing fun ev => ev.all body := .all body
    exact ⟨routine.scopes_of_asks kept.balanced inside,
      (ValueFlow.flows_of_asks routine kept opened.clear
        (fun ev kept => kept.all_ends opened.clear body) inside).2.2⟩

variable (clear : a.Clear) (quiet : a.HidesNothing) (opens : a.Opens name)

include clear quiet opens

/-- What the call makes of the heap it makes behind a new frame with the name. -/
theorem Opens.opened :
    (a.after.heap = a.state.heap ∧ ∀ b, ¬ a.Makes b) ∨
      ∃ t words, a.state.Opened t words ∧ name ∈ words ∧ t.heap.Leads False t.env a.after.heap ∧
        ∀ b, a.Makes b → (clearFlow False).Precedes t b.state := by
  obtain @⟨n, function, f, args, s, opens⟩ := opens
  obtain ⟨fields, body, named, given, enters⟩ := opens.enters clear.request.2.1 clear.request.2.2
  rcases refused_or_begins n function f args s with
    ⟨⟨exit, refused⟩, none⟩ | ⟨m, calls, rfl, pushed⟩
  · exact .inl ⟨congrArg State.heap (endState_error refused), none⟩
  · obtain ⟨t, opened, inside⟩ :=
      Moment.opened pushed clear quiet given (enters { s with calls } rfl)
    exact .inr ⟨t, _, opened, named, inside⟩

theorem Opens.encloses (encloses : a.Encloses b) :
    ∃ t words, a.state.Opened t words ∧ name ∈ words ∧ (clearFlow False).Precedes t b.state ∧
      b.Clear ∧ b.HidesOnlyIf False := by
  obtain ⟨c, makes, spans⟩ := Relation.TransGen.head'_iff.mp encloses
  rcases opens.opened clear quiet with ⟨-, none⟩ | ⟨t, words, opened, named, -, inside⟩
  · exact absurd makes (none c)
  · have permitted : a.HidesOnlyIf False := quiet
    have within := ((clear.holds False).of_makes permitted makes).1
    obtain ⟨last, still, precedes⟩ := within.of_spans (permitted.of_makes makes) spans
    exact ⟨t, words, opened, named, (inside c makes).trans opened.clear precedes,
      ⟨last.heap, last.request⟩, still⟩

/-- Inside of the body the name is assigned in no frame behind. -/
theorem Opens.assigns {v : Value} (encloses : a.Encloses b) (bounds : b.Bounds u)
    (done : assignWord name v u = .ok () t) :
    ∀ id ∈ a.state.env.scopes, t.heap.frame id = u.heap.frame id := by
  obtain ⟨t', words, opened, named, precedes, last, still⟩ := opens.encloses clear quiet encloses
  have reached := precedes.trans opened.clear (bounds.precedes last still)
  obtain ⟨inner, split⟩ := opened.scopes ▸ reached.scopes
  have shows := Frame.shows_iff.mpr ((opened.words_later reached.heap).symm ▸ named)
  exact assignWord_keeps (bounds.clear last).distinct split.symm shows done

/-- From the beginning to the end the fields of that name keep their values in the frames behind. -/
theorem Opens.keeps (spans : a.Spans b) (bounds : b.Bounds u) :
    ∀ id ∈ a.state.env.scopes,
      (u.heap.frame id).valuesOf name = (a.state.heap.frame id).valuesOf name := by
  intro id on
  rcases Relation.reflTransGen_iff_eq_or_transGen.mp spans with rfl | encloses
  · rcases bounds.heap with same | same
    · rw [same]
    · rcases opens.opened clear quiet with ⟨unchanged, -⟩ | ⟨t, words, opened, named, leads, -⟩
      · rw [same, unchanged]
      · rw [same]
        exact opened.valuesOf_later leads on named
  · obtain ⟨t, words, opened, named, precedes, last, still⟩ :=
      opens.encloses clear quiet encloses
    have reached := precedes.trans opened.clear (bounds.precedes last still)
    exact opened.valuesOf_later reached.heap on named

end Moment

/-! ## Finished objects -/

/-- The maker of objects gives the frame that it has made. -/
theorem object_value {v : Value} (given : args.value 0 = .block body)
    (run : Evaluation.object ev args s = .ok v t) : v = .object s.heap.frames.size := by
  rw [object_apply _ given] at run
  split at run
  · cases run
    rfl
  · cases run

theorem withCall_ok {function : String} {m : EvalM Value} {calls : CallStack} {v : Value}
    (pushed : s.calls.push function = .ok calls) (run : withCall function m s = .ok v t) :
    ∃ u, m { s with calls } = .ok v u := by
  rw [withCall, pushed] at run
  dsimp only at run
  split at run
  · next u done =>
    cases run
    exact ⟨u, done⟩
  · cases run

/-- An object that is finished has the words that its body sets. -/
theorem Moment.words_of_object {function : String} {maker : Native} {v : Value}
    (clear : (Moment.mk n (.invoke function (.native maker) args) s).Clear)
    (quiet : (Moment.mk n (.invoke function (.native maker) args) s).HidesNothing)
    (makes : maker = .object ∨ maker = .context) (given : args.value 0 = .block body)
    (run : (evaluator n).invoke function (.native maker) args s = .ok v t) :
    ∃ id, v = .object id ∧
      Evaluation.NamesSetWords (s.heap.tail body) (t.heap.frame id).words := by
  rcases refused_or_begins n function (.native maker) args s with
    ⟨⟨exit, refused⟩, -⟩ | ⟨m, calls, rfl, pushed⟩
  · cases refused.symm.trans run
  · obtain ⟨u, opened, leads, -⟩ := Moment.opened pushed clear quiet
      (fun _ => objectFields_clear _ _) (enters_maker makes given rfl)
    have after : (Moment.mk (m + 1) (.invoke function (.native maker) args) s).after = t :=
      endState_ok run
    obtain ⟨u', made⟩ := withCall_ok (m := maker.run (evaluator m) args) pushed run
    rw [Native.run_maker makes] at made
    refine ⟨_, object_value given made, ?_⟩
    rw [after] at leads
    rw [opened.words_later leads, objectFields, List.map_map]
    exact (List.map_id _).symm ▸ Evaluation.fieldNames_namesSetWords _

/-! ## Where words are assigned -/

theorem assigned_of_next {target : String} {position next : Nat} {v : Value}
    (answer : ev.next body position s = .ok (some (v, next)) u) (set : v.isUnset = false) :
    assigned ev target body position s = .ok (v, next) u := by
  refine (bind_of_ok answer _).trans ?_
  dsimp only
  rw [set]
  rfl

theorem term_setWord {position next : Nat} {v : Value}
    (answer : ev.next body position s = .ok (some (v, next)) u) (set : v.isUnset = false) :
    term ev body position (.word .setWord name) s =
      (assignWord name v >>= fun _ => pure (v, next)) u :=
  bind_of_ok (assigned_of_next answer set) _

theorem expression_setWord {position fuel next : Nat} {v : Value}
    (here : s.heap.item? body position = some (.word .setWord name))
    (answer : ev.next body (position + 1) s = .ok (some (v, next)) u) (set : v.isUnset = false)
    (done : assignWord name v u = .ok () t) (free : t.operatorAt? body next = none)
    (enough : ev.fuel = fuel + 1) :
    expression ev body position s = .ok (some (v, next)) t := by
  have value : term ev body (position + 1) (.word .setWord name) s = .ok (v, next) t :=
    (term_setWord answer set).trans (bind_of_ok done _)
  rw [expression_item here, enough]
  exact (bind_of_ok value _).trans (bind_of_ok (operators_none free v) _)

/-- A set-word makes a request for its value. -/
theorem Moment.makes_setWord {position : Nat}
    (here : s.heap.item? body position = some (.word .setWord name)) :
    (Moment.mk (n + 1) (.next body position) s).Makes ⟨n, .next body (position + 1), s⟩ := by
  refine ⟨asks_of_leavesBy fun ev exit after _ answer => ⟨exit, after, ?_, .refl exit, .refl after⟩⟩
  show expression ev body position s = _
  rw [expression_item here]
  exact bind_of_error (bind_of_error (bind_of_error answer _) _) _

/-- With no operator behind its value, it makes no other request. -/
theorem Moment.eq_of_makes_setWord {position next : Nat} {v : Value}
    (here : s.heap.item? body position = some (.word .setWord name))
    (answer : (evaluator (n + 1)).next body (position + 1) s = .ok (some (v, next)) u)
    (set : v.isUnset = false) (done : assignWord name v u = .ok () t)
    (free : t.operatorAt? body next = none)
    (makes : (Moment.mk (n + 2) (.next body position) s).Makes b) :
    b = ⟨n + 1, .next body (position + 1), s⟩ := by
  obtain ⟨asks⟩ := makes
  have settled : SettledBy (Request.next body position).code (evaluator (n + 1)) s
      [(.next body (position + 1), s)] := by
    intro ev' agree
    have same := agree.answers (.next body (position + 1)) s (List.mem_singleton_self _)
    exact (expression_setWord here (same.trans answer) set done free agree.fuel).trans
      (expression_setWord here answer set done free rfl).symm
  obtain ⟨rfl, rfl⟩ := Prod.mk.inj (List.mem_singleton.mp (settled.mem_of_asks asks))
  rfl

theorem Moment.not_makes_literal {position : Nat} {v : Value} (literal : v.IsLiteral)
    (here : s.heap.item? body position = some v)
    (free : s.operatorAt? body (position + 1) = none) :
    ¬ (Moment.mk (n + 2) (.next body position) s).Makes b := by
  rintro ⟨asks⟩
  have settled : SettledBy (Request.next body position).code (evaluator (n + 1)) s [] :=
    fun ev' agree => (expression_literal literal here free agree.fuel).trans
      (expression_literal literal here free rfl).symm
  cases settled.mem_of_asks asks

theorem Moment.not_makes_tail {position : Nat} (here : s.heap.item? body position = none) :
    ¬ (Moment.mk (n + 1) (.next body position) s).Makes b := by
  rintro ⟨asks⟩
  have settled : SettledBy (Request.next body position).code (evaluator n) s [] :=
    fun ev' agree => (expression_tail here).trans (expression_tail here).symm
  cases settled.mem_of_asks asks

theorem Moment.bounds_answer {answer : a.request.Answer}
    (run : a.request.ask (evaluator a.depth) a.state = .ok answer u) : a.Bounds u := by
  have kept := ((clearFlow True).keptBy_evaluator trivial a.depth).keepsStacks a.request a.state
  rw [endState_ok run] at kept
  exact ⟨kept.env, .inr (congrArg State.heap (endState_ok run).symm)⟩

theorem assignWord_heap (name : String) (v : Value) (calls : CallStack) (s : State) :
    (endState (assignWord name v) { s with calls }).heap =
      (endState (assignWord name v) s).heap := by
  rw [endState, assignWord_apply, endState, assignWord_apply]
  dsimp only
  cases s.env.slot s.heap name <;> rfl

theorem endState_bind_pure {β : Type} (m : EvalM α) (b : β) (s : State) :
    endState (m >>= fun _ => pure b) s = endState m s := by
  cases run : m s with
  | ok a t => exact (endState_bind_ok run).trans (endState_ok run).symm
  | error exit t => exact (endState_bind_error run).trans (endState_error run).symm

/-- A call of set leaves the heap as the assignment does in the state in which the call begins. -/
theorem Moment.after_set {function : String} {kind : WordKind} {calls : CallStack}
    (given : args.value 0 = .word kind name) (pushed : s.calls.push function = .ok calls) :
    (Moment.mk (n + 1) (.invoke function (.native .set) args) s).after.heap =
      (endState (assignWord name (args.value 1)) s).heap := by
  show (endState (withCall function (Words.set args)) s).heap = _
  rw [endState_withCall, pushed, Words.set, given]
  show (endState (assignWord name (args.value 1) >>= fun _ => pure (args.value 1)) _).heap = _
  rw [endState_bind_pure, assignWord_heap]

/-! ## Whole programs -/

theorem Heap.Clear.target_ne (clear : u.heap.Clear u.env) {id : FrameId} (on : id ∈ u.env.scopes)
    (segments : List Segment) (last : Segment) (t : State) :
    Path.target segments u ≠ .ok (.object id, last) t := by
  intro reached
  have ends := ValueFlow.Keeps.target (F := clearFlow True) segments u rfl clear le_rfl
  rw [reached] at ends
  cases ends with
  | ok _ _ result => exact (result id rfl).2 on

namespace Interpreter

/-- In every run of a program the frame of a body shields those that were on the stack before. -/
structure InnerFramesShield : Prop where
  starts (source : String) (s t : State) (block : BlockRef) :
    loadSource source s = .ok (block, t) → Reaches source s ⟨fuel, .next block block.index, t⟩
  /-- A set-word makes a request for its value and assigns it in the state where that ends. -/
  setWord (n : Nat) (block : BlockRef) (position : Nat) (name : String) (s : State) :
    s.heap.item? block position = some (.word .setWord name) →
      (Moment.mk (n + 1) (.next block position) s).Makes ⟨n, .next block (position + 1), s⟩ ∧
      ∀ v next u, (evaluator n).next block (position + 1) s = .ok (some (v, next)) u →
        v.isUnset = false → (Moment.mk n (.next block (position + 1)) s).Bounds u ∧
          term (evaluator n) block (position + 1) (.word .setWord name) s =
            (assignWord name v >>= fun _ => pure (v, next)) u
  /-- A call of set assigns in the state in which it begins. -/
  set (n : Nat) (function name : String) (kind : WordKind) (args : Args) (s : State)
      (calls : CallStack) :
    args.value 0 = .word kind name → s.calls.push function = .ok calls →
      (Moment.mk (n + 1) (.invoke function (.native .set) args) s).after.heap =
        (endState (assignWord name (args.value 1)) s).heap
  /-- Inside of a body that hides nothing, to assign a name of its scope changes no frame behind. -/
  assigns (source : String) (s t u : State) (a b : Moment) (name : String) (v : Value) :
    Session s → Reaches source s a → a.HidesNothing → a.Opens name → a.Encloses b → b.Bounds u →
      assignWord name v u = .ok () t → ∀ id ∈ a.state.env.scopes, t.heap.frame id = u.heap.frame id
  /-- At any time inside, and when the body has ended in whatever way, the fields of that name have
  in all frames behind the values that they had at the beginning. -/
  keeps (source : String) (s u : State) (a b : Moment) (name : String) :
    Session s → Reaches source s a → a.HidesNothing → a.Opens name → a.Spans b → b.Bounds u →
      ∀ id ∈ a.state.env.scopes,
        (u.heap.frame id).valuesOf name = (a.state.heap.frame id).valuesOf name
  /-- Neither a value that is kept nor a path leads to a frame on the stack. -/
  apart (source : String) (s u : State) (a : Moment) (id : FrameId) :
    Session s → Reaches source s a → a.Bounds u → id ∈ u.env.scopes →
      ¬ u.heap.Stores (.object id) ∧
        ∀ segments last t, Path.target segments u ≠ .ok (.object id, last) t
  /-- The words of an object that is finished are the set-words of its body. -/
  object (source : String) (s u t : State) (n : Nat) (function : String) (maker : Native)
      (args : Args) (body : BlockRef) (v : Value) :
    Session s → Reaches source s ⟨n, .invoke function (.native maker) args, u⟩ →
      (Moment.mk n (.invoke function (.native maker) args) u).HidesNothing →
      (maker = .object ∨ maker = .context) → args.value 0 = .block body →
      (evaluator n).invoke function (.native maker) args u = .ok v t →
        ∃ id, v = .object id ∧
          Evaluation.NamesSetWords (u.heap.tail body) (t.heap.frame id).words

theorem inner_frames_shield : InnerFramesShield where
  starts source s t block loaded := reaches_first loaded
  setWord n block position name s here :=
    ⟨Moment.makes_setWord here, fun v next u answer set =>
      ⟨Moment.bounds_answer answer, term_setWord answer set⟩⟩
  set n function name kind args s calls given pushed := Moment.after_set given pushed
  assigns source s t u a b name v session reaches quiet opens encloses bounds done :=
    opens.assigns (reaches.clear session) quiet encloses bounds done
  keeps source s u a b name session reaches quiet opens spans bounds :=
    opens.keeps (reaches.clear session) quiet spans bounds
  apart source s u a id session reaches bounds on := by
    have clear := bounds.clear (reaches.clear session)
    exact ⟨fun stored => (clear.values _ stored id rfl).2 on, clear.target_ne on⟩
  object source s u t n function maker args body v session reaches quiet makes given run :=
    Moment.words_of_object (reaches.clear session) quiet makes given run

/-! ## An object with a word of the root -/

/-- The state in which `object [on: 1]` is evaluated. -/
def shadowing : State where
  heap :=
    { blocks := #[{ data := #[.word .setWord "on", .integer 1] },
        { data := #[.word .word "object", .block ⟨0, 0⟩] }]
      frames := #[.ofFields rootFields] }
  env := { root := 0 }
  calls := { limit := some callLimit }

def shadowed (v : Value) : State where
  heap := { shadowing.heap with frames := #[.ofFields rootFields, .ofFields [("on", v)]] }
  env := { root := 0, inner := [1] }
  calls := { shadowing.calls with names := #["object"] }

def makingObject (n : Nat) : Moment :=
  ⟨n + 4, .invoke "object" (.native .object) #[.block ⟨0, 0⟩], shadowing⟩

def valueInObject (n : Nat) : Moment := ⟨n + 2, .next ⟨0, 0⟩ 1, shadowed .none⟩

theorem loadSource_shadowing :
    loadSource "object [on: 1]" (initial callLimit false) = .ok (⟨1, 0⟩, shadowing) := by
  have read : Datum.read "object [on: 1]" =
      .ok [.word .word "object", .block [.word .setWord "on", .integer 1]] := by
    with_unfolding_all rfl
  rw [loadSource, read]
  rfl

theorem reaches_makingObject :
    Reaches "object [on: 1]" (initial callLimit false) (makingObject 999999999995) := by
  have bound : shadowing.env.lookup shadowing.heap "object" =
      some (.function (.native .object)) := by with_unfolding_all rfl
  have here : shadowing.heap.item? ⟨1, 0⟩ 0 = some (.word .word "object") := rfl
  have block : (evaluator 999999999999).next ⟨1, 0⟩ 1 shadowing =
      .ok (some (.block ⟨0, 0⟩, 2)) shadowing :=
    next_literal 999999999997 (fun _ _ _ => rfl) rfl (State.operatorAt?_tail rfl)
  have taken : gatherArg (evaluator 999999999999) "object" ⟨"body", .normal⟩ ⟨1, 0⟩ 1 shadowing =
      .ok (.block ⟨0, 0⟩, 2) shadowing := bind_of_ok block _
  exact .makes (reaches_first loadSource_shadowing)
    ⟨(Names.word bound).asks here (gatherParams_step [] taken) rfl⟩

theorem assignWord_shadowed :
    assignWord "on" (.integer 1) (shadowed .none) = .ok () (shadowed (.integer 1)) := by
  with_unfolding_all rfl

theorem next_value_shadowed (n : Nat) (v : Value) :
    (evaluator (n + 2)).next ⟨0, 0⟩ 1 (shadowed v) = .ok (some (.integer 1, 2)) (shadowed v) :=
  next_literal n (Value.isLiteral_integer 1) rfl (State.operatorAt?_tail rfl)

theorem next_setWord_shadowed (n : Nat) :
    (evaluator (n + 3)).next ⟨0, 0⟩ 0 (shadowed .none) =
      .ok (some (.integer 1, 2)) (shadowed (.integer 1)) :=
  expression_setWord rfl (next_value_shadowed n .none) rfl assignWord_shadowed
    (State.operatorAt?_tail rfl) rfl

theorem next_tail_shadowed (n : Nat) (v : Value) :
    (evaluator (n + 1)).next ⟨0, 0⟩ 2 (shadowed v) = .ok none (shadowed v) := next_tail n rfl

theorem makingObject_hidesNothing (n : Nat) : (makingObject n).HidesNothing := by
  refine .of_makes nofun fun b makes => ?_
  obtain ⟨asks⟩ := makes
  obtain ⟨calls, pushed, inside⟩ := asks.of_withCall
  cases pushed
  have inside := (enters_maker (.inl rfl) rfl rfl).asks inside
  have settled : SettledBy (fun ev => ev.all ⟨0, 0⟩) (evaluator (n + 3)) (shadowed .none)
      [(.next ⟨0, 0⟩ 0, shadowed .none), (.next ⟨0, 0⟩ 2, shadowed (.integer 1))] := by
    intro ev' agree
    have first := agree.answers (.next ⟨0, 0⟩ 0) (shadowed .none) (by simp)
    have last := agree.answers (.next ⟨0, 0⟩ 2) (shadowed (.integer 1)) (by simp)
    exact (all_single (first.trans (next_setWord_shadowed n))
      (last.trans (next_tail_shadowed (n + 2) _)) agree.fuel).trans
      (all_single (next_setWord_shadowed n) (next_tail_shadowed (n + 2) _) rfl).symm
  rcases List.mem_cons.mp (settled.mem_of_asks inside) with same | same
  · obtain ⟨rfl, rfl⟩ := Prod.mk.inj same
    refine .of_makes nofun fun c makes => ?_
    obtain rfl := Moment.eq_of_makes_setWord rfl (next_value_shadowed n .none) rfl
      assignWord_shadowed (State.operatorAt?_tail rfl) makes
    exact .of_makes nofun fun d makes => absurd makes
      (Moment.not_makes_literal (Value.isLiteral_integer 1) rfl (State.operatorAt?_tail rfl))
  · obtain ⟨rfl, rfl⟩ := Prod.mk.inj (List.mem_singleton.mp same)
    exact .of_makes nofun fun c makes => absurd makes (Moment.not_makes_tail rfl)

theorem makingObject_encloses (n : Nat) : (makingObject n).Encloses (valueInObject n) := by
  have body : (makingObject n).Makes ⟨n + 3, .next ⟨0, 0⟩ 0, shadowed .none⟩ := by
    refine ⟨asks_of_leavesBy fun ev' exit after fuel answer => ?_⟩
    have leaves : LeavesBy (ev'.all ⟨0, 0⟩) (shadowed .none) exit after := by
      refine ⟨exit, after, ?_, .refl exit, .refl after⟩
      rw [Evaluator.all, Evaluator.fold, fuel]
      exact bind_of_error answer _
    have made : LeavesBy (Evaluation.object ev' #[.block ⟨0, 0⟩])
        { shadowing with calls := { shadowing.calls with names := #["object"] } } exit after :=
      object_leavesBy rfl leaves
    exact made.withCall rfl
  exact .head body (.single (Moment.makes_setWord rfl))

theorem invoke_makingObject (n : Nat) :
    (evaluator (n + 4)).invoke "object" (.native .object) #[.block ⟨0, 0⟩] shadowing =
      .ok (.object 1) { shadowing with heap := (shadowed (.integer 1)).heap } := by
  have body : (evaluator (n + 3)).all ⟨0, 0⟩ (shadowed .none) =
      .ok (.integer 1) (shadowed (.integer 1)) :=
    all_single (next_setWord_shadowed n) (next_tail_shadowed (n + 2) _) rfl
  have made : Evaluation.object (evaluator (n + 3)) #[.block ⟨0, 0⟩]
      { shadowing with calls := (shadowed .none).calls } =
        .ok (.object 1) { shadowed (.integer 1) with env := shadowing.env } :=
    object_ok rfl body
  exact withCall_of_ok rfl made

/-- The object has its own `on`, which is assigned, and the one of the root stays true. -/
theorem inner_frames_shield_object :
    ∃ n, Session (initial callLimit false) ∧
      Reaches "object [on: 1]" (initial callLimit false) (makingObject n) ∧
      (makingObject n).HidesNothing ∧ (makingObject n).Opens "on" ∧
      (makingObject n).Encloses (valueInObject n) ∧ (valueInObject n).Bounds (shadowed .none) ∧
      assignWord "on" (.integer 1) (shadowed .none) = .ok () (shadowed (.integer 1)) ∧
      (shadowed (.integer 1)).heap.frame 0 = (shadowed .none).heap.frame 0 ∧
      ((makingObject n).after.heap.frame 0).valuesOf "on" = [.logic true] ∧
      ∃ id, Value.object 1 = .object id ∧ Evaluation.NamesSetWords (shadowing.heap.tail ⟨0, 0⟩)
        ((shadowed (.integer 1)).heap.frame id).words := by
  have shields : InnerFramesShield := inner_frames_shield
  have session : Session (initial callLimit false) := .initial callLimit false
  have quiet := makingObject_hidesNothing 999999999995
  have opens : (makingObject 999999999995).Opens "on" :=
    .intro (.setWord (.inl rfl) rfl List.mem_cons_self)
  have encloses := makingObject_encloses 999999999995
  have bounds : (valueInObject 999999999995).Bounds (shadowed .none) := ⟨rfl, .inl rfl⟩
  have root : 0 ∈ (makingObject 999999999995).state.env.scopes := List.mem_singleton_self 0
  have assigned := shields.assigns _ _ _ _ _ _ _ _ session reaches_makingObject quiet opens encloses
    bounds assignWord_shadowed 0 root
  have kept := shields.keeps _ _ { shadowing with heap := (makingObject 999999999995).after.heap }
    _ _ _ session reaches_makingObject quiet opens .refl ⟨rfl, .inr rfl⟩ 0 root
  have before : (shadowing.heap.frame 0).valuesOf "on" = [.logic true] := by with_unfolding_all rfl
  have finished := shields.object _ _ _ _ _ _ _ _ _ _ session reaches_makingObject quiet (.inl rfl)
    rfl (invoke_makingObject 999999999995)
  exact ⟨_, session, reaches_makingObject, quiet, opens, encloses, bounds, assignWord_shadowed,
    assigned, kept.trans before, finished⟩

end Interpreter

end BlockScript
