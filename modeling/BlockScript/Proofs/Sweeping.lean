import BlockScript.Proofs.Selection

/-!
# Switching over all cases

A switch that is asked for all cases takes its items one by one. It looks for an item that is equal
to the value, and then waits for the body behind it, which it runs before it looks on. Bodies that
it does not wait for are passed over. So each body runs at most once and they run in order.

The result is that of the last body that ran. It is lost when the items end while the switch still
waits: then the result is the equal item, as in a switch that ran no body.
-/

namespace BlockScript.Conditionals

/-- What a switch over all cases is about: it looks for an equal item, or waits for the body that
belongs to one. Also what the last item was compared as, or none behind a body. -/
inductive Sweep where
  | seeking (last : Value)
  | awaiting (key : Value)

structure BodyRun where
  place : Nat
  body : BlockRef
  result : Value

inductive Swept (ev : Evaluator) (value : Value) (strict : Bool) (s : State) :
    List Value → List BodyRun → Sweep → State → Prop where
  | nil : Swept ev value strict s [] [] (.seeking .none) s
  | passedOver {items : List Value} {ran : List BodyRun} {t : State} {last : Value}
      (before : Swept ev value strict s items ran (.seeking last) t) (r : BlockRef) :
      Swept ev value strict s (items ++ [.block r]) ran (.seeking .none) t
  | differs {items : List Value} {ran : List BodyRun} {t u : State} {last item key : Value}
      (before : Swept ev value strict s items ran (.seeking last) t)
      (compared : Compared ev t item (.ok key u))
      (differs : u.heap.equalIn strict value key = false) :
      Swept ev value strict s (items ++ [item]) ran (.seeking key) u
  | equal {items : List Value} {ran : List BodyRun} {t u : State} {last item key : Value}
      (before : Swept ev value strict s items ran (.seeking last) t)
      (compared : Compared ev t item (.ok key u))
      (equal : u.heap.equalIn strict value key = true) :
      Swept ev value strict s (items ++ [item]) ran (.awaiting key) u
  | skipped {items : List Value} {ran : List BodyRun} {t : State} {item key : Value}
      (before : Swept ev value strict s items ran (.awaiting key) t)
      (plain : ∀ r, item ≠ .block r) :
      Swept ev value strict s (items ++ [item]) ran (.awaiting key) t
  | body {items : List Value} {ran : List BodyRun} {t u : State} {r : BlockRef}
      {key result : Value} (before : Swept ev value strict s items ran (.awaiting key) t)
      (done : ev.all r t = .ok result u) :
      Swept ev value strict s (items ++ [.block r]) (ran ++ [⟨items.length, r, result⟩])
        (.seeking key) u

inductive Left (ev : Evaluator) (value : Value) (strict : Bool) (s : State) (items : List Value)
    (ran : List BodyRun) (exit : Exit) (u : State) : Prop where
  | item {before behind : List Value} {t : State} {last item : Value}
      (split : items = before ++ item :: behind)
      (swept : Swept ev value strict s before ran (.seeking last) t)
      (compared : Compared ev t item (.error exit u)) : Left ev value strict s items ran exit u
  | body {before behind : List Value} {t : State} {r : BlockRef} {key : Value}
      (split : items = before ++ .block r :: behind)
      (swept : Swept ev value strict s before ran (.awaiting key) t)
      (failed : ev.all r t = .error exit u) : Left ev value strict s items ran exit u

/-- How it ends where no item was equal: with the default, or with what the items end on. -/
inductive FallsBack (ev : Evaluator) (default? : Option Value) (last : Value) (t : State) :
    EStateM.Result Exit State Value → Prop where
  | body {r : BlockRef} (given : default? = some (.block r)) :
      FallsBack ev default? last t (ev.all r t)
  | value {d : Value} (given : default? = some d) (plain : ∀ r, d ≠ .block r) :
      FallsBack ev default? last t (.ok d t)
  | last (absent : default? = none) : FallsBack ev default? last t (.ok last t)

inductive SweepEnds (ev : Evaluator) (value : Value) (strict : Bool) (default? : Option Value)
    (s : State) (items : List Value) :
    List BodyRun → EStateM.Result Exit State Value → Prop where
  | body {ran : List BodyRun} {last : BodyRun} {t : State} {key : Value}
      (swept : Swept ev value strict s items (ran ++ [last]) (.seeking key) t) :
      SweepEnds ev value strict default? s items (ran ++ [last]) (.ok last.result t)
  | key {ran : List BodyRun} {t : State} {key : Value}
      (swept : Swept ev value strict s items ran (.awaiting key) t) :
      SweepEnds ev value strict default? s items ran (.ok key t)
  | fallsBack {t : State} {last : Value} {result : EStateM.Result Exit State Value}
      (swept : Swept ev value strict s items [] (.seeking last) t)
      (ends : FallsBack ev default? last t result) :
      SweepEnds ev value strict default? s items [] result
  | left {ran : List BodyRun} {exit : Exit} {u : State}
      (left : Left ev value strict s items ran exit u) :
      SweepEnds ev value strict default? s items ran (.error exit u)

/-- As far as the switch goes, neither comparing an item nor running a body changes the cases. -/
structure CasesKept (ev : Evaluator) (value : Value) (strict : Bool) (cases : BlockRef)
    (s : State) : Prop where
  item {before behind : List Value} {ran : List BodyRun} {t u : State} {last item key : Value} :
    s.heap.tail cases = before ++ item :: behind →
    Swept ev value strict s before ran (.seeking last) t → Compared ev t item (.ok key u) →
      u.heap.items cases.id = t.heap.items cases.id
  body {before behind : List Value} {ran : List BodyRun} {t u : State} {r : BlockRef}
      {key result : Value} :
    s.heap.tail cases = before ++ .block r :: behind →
    Swept ev value strict s before ran (.awaiting key) t → ev.all r t = .ok result u →
      u.heap.items cases.id = t.heap.items cases.id

variable {ev : Evaluator} {value item key last : Value} {strict : Bool} {s t u : State}
  {cases r : BlockRef} {items before behind : List Value} {ran : List BodyRun}
  {sweep : Sweep} {exit : Exit} {default? : Option Value}
  {result : EStateM.Result Exit State Value}

/-! ## What is gone through -/

/-- The bodies ran in order, each at most once. -/
theorem Swept.inOrder (swept : Swept ev value strict s items ran sweep t) :
    (ran.map (·.place)).Pairwise (· < ·) ∧
      ∀ b ∈ ran, b.place < items.length ∧ items[b.place]? = some (.block b.body) := by
  have further {items : List Value} {ran : List BodyRun} (item : Value)
      (known : ∀ b ∈ ran, b.place < items.length ∧ items[b.place]? = some (.block b.body)) :
      ∀ b ∈ ran, b.place < (items ++ [item]).length ∧
        (items ++ [item])[b.place]? = some (.block b.body) := by
    intro b listed
    obtain ⟨below, here⟩ := known b listed
    exact ⟨below.trans (by simp), by rwa [List.getElem?_append_left below]⟩
  induction swept with
  | nil => simp
  | passedOver _ r ih => exact ⟨ih.1, further _ ih.2⟩
  | differs _ _ _ ih => exact ⟨ih.1, further _ ih.2⟩
  | equal _ _ _ ih => exact ⟨ih.1, further _ ih.2⟩
  | skipped _ _ ih => exact ⟨ih.1, further _ ih.2⟩
  | body _ _ ih =>
    obtain ⟨increasing, known⟩ := ih
    constructor
    · rw [List.map_append, List.map_singleton, List.pairwise_append]
      refine ⟨increasing, List.pairwise_singleton .., fun place earlier last here => ?_⟩
      obtain ⟨b, listed, rfl⟩ := List.mem_map.mp earlier
      rw [List.mem_singleton.mp here]
      exact (known b listed).1
    · intro b listed
      rcases List.mem_append.mp listed with earlier | here
      · exact further _ known b earlier
      · rw [List.mem_singleton.mp here]
        exact ⟨by simp, List.getElem?_concat_length ..⟩

/-- An exit stays the end of the switch whatever items are added. -/
theorem Left.append (left : Left ev value strict s items ran exit u) (more : List Value) :
    Left ev value strict s (items ++ more) ran exit u := by
  cases left with
  | item split swept compared =>
    exact .item ((congrArg (· ++ more) split).trans (List.append_assoc ..)) swept compared
  | body split swept failed =>
    exact .body ((congrArg (· ++ more) split).trans (List.append_assoc ..)) swept failed

/-- All items are gone through, unless an exit stops the switch before. -/
theorem swept_or_left (ev : Evaluator) (value : Value) (strict : Bool) (s : State)
    (items : List Value) :
    (∃ ran sweep t, Swept ev value strict s items ran sweep t) ∨
      ∃ ran exit u, Left ev value strict s items ran exit u := by
  induction items using List.reverseRecOn with
  | nil => exact .inl ⟨[], _, s, .nil⟩
  | append_singleton items item ih =>
    obtain ⟨ran, sweep, t, swept⟩ | ⟨ran, exit, u, left⟩ := ih
    · obtain ⟨r, rfl⟩ | plain := block_or_plain item
      · cases sweep with
        | seeking last => exact .inl ⟨ran, _, t, .passedOver swept r⟩
        | awaiting key =>
          cases done : ev.all r t with
          | ok result u => exact .inl ⟨_, _, u, .body swept done⟩
          | error exit u => exact .inr ⟨ran, exit, u, .body rfl swept done⟩
      · cases sweep with
        | seeking last =>
          have compared : Compared ev t item (candidate ev item t) := (compared_iff plain).mpr rfl
          cases ended : candidate ev item t with
          | error exit u => exact .inr ⟨ran, exit, u, .item rfl swept (ended ▸ compared)⟩
          | ok key u =>
            rw [ended] at compared
            cases same : u.heap.equalIn strict value key with
            | false => exact .inl ⟨ran, _, u, .differs swept compared same⟩
            | true => exact .inl ⟨ran, _, u, .equal swept compared same⟩
        | awaiting key => exact .inl ⟨ran, _, t, .skipped swept plain⟩
    · exact .inr ⟨ran, exit, u, left.append [item]⟩

theorem exists_sweepEnds (ev : Evaluator) (value : Value) (strict : Bool)
    (default? : Option Value) (s : State) (items : List Value) :
    ∃ ran result, SweepEnds ev value strict default? s items ran result := by
  obtain ⟨ran, sweep, t, swept⟩ | ⟨ran, exit, u, left⟩ := swept_or_left ev value strict s items
  · cases sweep with
    | awaiting key => exact ⟨ran, _, .key swept⟩
    | seeking last =>
      obtain rfl | ⟨earlier, b, rfl⟩ := List.eq_nil_or_concat' ran
      · cases given : default? with
        | none => exact ⟨[], _, .fallsBack swept (.last rfl)⟩
        | some d =>
          obtain ⟨r, rfl⟩ | plain := block_or_plain d
          · exact ⟨[], _, .fallsBack swept (.body rfl)⟩
          · exact ⟨[], _, .fallsBack swept (.value rfl plain)⟩
      · exact ⟨_, _, .body swept⟩
  · exact ⟨ran, _, .left left⟩

/-! ## What the switch does -/

theorem Swept.endsWith (swept : Swept ev value strict s before ran sweep t)
    (kept : CasesKept ev value strict cases s) (split : s.heap.tail cases = before ++ behind) :
    t.heap.EndsWith cases (cases.index + before.length) behind := by
  have unchanged : t.heap.items cases.id = s.heap.items cases.id := by
    induction swept generalizing behind with
    | nil => rfl
    | passedOver _ r ih => exact ih (split.trans (List.append_assoc ..))
    | differs swept compared _ ih =>
      have split := split.trans (List.append_assoc ..)
      exact (kept.item split swept compared).trans (ih split)
    | equal swept compared _ ih =>
      have split := split.trans (List.append_assoc ..)
      exact (kept.item split swept compared).trans (ih split)
    | skipped _ _ ih => exact ih (split.trans (List.append_assoc ..))
    | body swept done ih =>
      have split := split.trans (List.append_assoc ..)
      exact (kept.body split swept done).trans (ih split)
  have ends : t.heap.EndsWith cases cases.index (before ++ behind) := by
    rw [Heap.EndsWith, unchanged]
    exact split
  exact ends.drop

def lastResult (ran : List BodyRun) : Option Value := ran.getLast?.map (·.result)

theorem lastResult_concat (ran : List BodyRun) (b : BodyRun) :
    lastResult (ran ++ [b]) = some b.result := by
  rw [lastResult, List.getLast?_concat, Option.map_some]

/-- What the switch still does from a position on. While it waits, the next body is looked for
first. -/
def resume (ev : Evaluator) (value : Value) (cases : BlockRef) (strict : Bool) (fuel : Nat)
    (position : Nat) (ran : List BodyRun) :
    Sweep → State → EStateM.Result Exit State (Option Value × Value)
  | .seeking last, t =>
    switchItems ev value cases true strict fuel position (lastResult ran) last t
  | .awaiting key, t =>
    match nextBody? t.heap cases position with
    | none => .ok (some key, key) t
    | some (body, behind) =>
      match ev.all body t with
      | .error exit u => .error exit u
      | .ok result u => switchItems ev value cases true strict fuel behind (some result) key u

section Steps

variable {position fuel : Nat}

theorem resume_passedOver (ends : t.heap.EndsWith cases position (.block r :: behind)) :
    resume ev value cases strict (fuel + 1) position ran (.seeking last) t =
      resume ev value cases strict fuel (position + 1) ran (.seeking .none) t :=
  switchItems_body ends

theorem resume_differs (ends : t.heap.EndsWith cases position (item :: behind))
    (compared : Compared ev t item (.ok key u))
    (differs : u.heap.equalIn strict value key = false) :
    resume ev value cases strict (fuel + 1) position ran (.seeking last) t =
      resume ev value cases strict fuel (position + 1) ran (.seeking key) u := by
  refine (switchItems_key ends compared).trans ?_
  dsimp only
  rw [differs]
  rfl

theorem resume_equal (ends : t.heap.EndsWith cases position (item :: behind))
    (compared : Compared ev t item (.ok key u))
    (equal : u.heap.equalIn strict value key = true) :
    resume ev value cases strict (fuel + 1) position ran (.seeking last) t =
      resume ev value cases strict fuel (position + 1) ran (.awaiting key) u := by
  refine (switchItems_key ends compared).trans ?_
  dsimp only
  rw [equal]
  rfl

theorem resume_skipped (ends : t.heap.EndsWith cases position (item :: behind))
    (plain : ∀ r, item ≠ .block r) :
    resume ev value cases strict fuel position ran (.awaiting key) t =
      resume ev value cases strict fuel (position + 1) ran (.awaiting key) t := by
  rw [resume, resume, nextBody?_behind ends plain]

theorem resume_body {given : Value} (ends : t.heap.EndsWith cases position (.block r :: behind))
    (done : ev.all r t = .ok given u) (place : Nat) :
    resume ev value cases strict fuel position ran (.awaiting key) t =
      resume ev value cases strict fuel (position + 1) (ran ++ [⟨place, r, given⟩])
        (.seeking key) u := by
  rw [resume, resume, nextBody?_here ends, lastResult_concat]
  dsimp only
  rw [done]

end Steps

/-- Where one more item is gone through, the switch goes on behind it. -/
theorem switchItems_concat {fuel : Nat} {ran' : List BodyRun} {sweep' : Sweep}
    (before : ∃ n, switchItems ev value cases true strict (fuel + 1 + items.length) cases.index
        none .none s =
      resume ev value cases strict (fuel + 1 + n) (cases.index + items.length) ran sweep t)
    (step : ∀ n, ∃ spare,
      resume ev value cases strict (fuel + 1 + n) (cases.index + items.length) ran sweep t =
        resume ev value cases strict (fuel + spare) (cases.index + items.length + 1) ran' sweep'
          u) :
    ∃ spare, switchItems ev value cases true strict (fuel + (items ++ [item]).length) cases.index
        none .none s =
      resume ev value cases strict (fuel + spare) (cases.index + (items ++ [item]).length) ran'
        sweep' u := by
  obtain ⟨n, same⟩ := before
  obtain ⟨spare, next⟩ := step n
  refine ⟨spare, ?_⟩
  rw [List.length_append, List.length_singleton, ← Nat.add_assoc, Nat.add_right_comm, same, next]
  rfl

/-- Behind the items that were gone through, the switch goes on with enough fuel for the rest. -/
theorem Swept.switchItems (fuel : Nat) (swept : Swept ev value strict s before ran sweep t)
    (kept : CasesKept ev value strict cases s) (split : s.heap.tail cases = before ++ behind) :
    ∃ spare, switchItems ev value cases true strict (fuel + before.length) cases.index none .none
        s =
      resume ev value cases strict (fuel + spare) (cases.index + before.length) ran sweep t := by
  induction swept generalizing behind fuel with
  | nil => exact ⟨0, rfl⟩
  | passedOver swept r ih =>
    have split := split.trans (List.append_assoc ..)
    refine switchItems_concat (ih (fuel + 1) split) fun n => ⟨n, ?_⟩
    rw [Nat.add_right_comm fuel]
    exact resume_passedOver (swept.endsWith kept split)
  | differs swept compared differs ih =>
    have split := split.trans (List.append_assoc ..)
    refine switchItems_concat (ih (fuel + 1) split) fun n => ⟨n, ?_⟩
    rw [Nat.add_right_comm fuel]
    exact resume_differs (swept.endsWith kept split) compared differs
  | equal swept compared equal ih =>
    have split := split.trans (List.append_assoc ..)
    refine switchItems_concat (ih (fuel + 1) split) fun n => ⟨n, ?_⟩
    rw [Nat.add_right_comm fuel]
    exact resume_equal (swept.endsWith kept split) compared equal
  -- waiting takes no fuel
  | skipped swept plain ih =>
    have split := split.trans (List.append_assoc ..)
    refine switchItems_concat (ih (fuel + 1) split) fun n => ⟨1 + n, ?_⟩
    rw [Nat.add_assoc fuel]
    exact resume_skipped (swept.endsWith kept split) plain
  | body swept done ih =>
    have split := split.trans (List.append_assoc ..)
    refine switchItems_concat (ih (fuel + 1) split) fun n => ⟨1 + n, ?_⟩
    rw [Nat.add_assoc fuel]
    exact resume_body (swept.endsWith kept split) done _

/-- With all items gone through, the switch ends. -/
theorem Swept.switchItems_all {fuel : Nat}
    (swept : Swept ev value strict s (s.heap.tail cases) ran sweep t)
    (kept : CasesKept ev value strict cases s) (enough : (s.heap.tail cases).length < fuel) :
    Conditionals.switchItems ev value cases true strict fuel cases.index none .none s =
      match sweep with
      | .seeking last => .ok (lastResult ran, last) t
      | .awaiting key => .ok (some key, key) t := by
  have split : s.heap.tail cases = s.heap.tail cases ++ [] := (List.append_nil _).symm
  obtain ⟨n, rfl⟩ : ∃ n, fuel = n + 1 + (s.heap.tail cases).length :=
    ⟨fuel - 1 - (s.heap.tail cases).length, by omega⟩
  obtain ⟨spare, same⟩ := swept.switchItems (n + 1) kept split
  have ends := swept.endsWith kept split
  rw [same]
  cases sweep with
  | seeking last =>
    rw [Nat.add_right_comm]
    exact switchItems_end ends
  | awaiting key => rw [resume, nextBody?_end ends]

theorem Left.switchItems {fuel : Nat}
    (left : Left ev value strict s (s.heap.tail cases) ran exit u)
    (kept : CasesKept ev value strict cases s) (enough : (s.heap.tail cases).length < fuel) :
    Conditionals.switchItems ev value cases true strict fuel cases.index none .none s =
      .error exit u := by
  cases left with
  | item split swept compared =>
    rw [split, List.length_append] at enough
    rename_i before _ _ _ _
    obtain ⟨n, rfl⟩ : ∃ n, fuel = n + 1 + before.length := ⟨fuel - 1 - before.length, by omega⟩
    obtain ⟨spare, same⟩ := swept.switchItems (n + 1) kept split
    rw [same, Nat.add_right_comm]
    exact switchItems_key (swept.endsWith kept split) compared
  | body split swept failed =>
    rw [split, List.length_append] at enough
    rename_i before _ _ _ _
    obtain ⟨n, rfl⟩ : ∃ n, fuel = n + 1 + before.length := ⟨fuel - 1 - before.length, by omega⟩
    obtain ⟨spare, same⟩ := swept.switchItems (n + 1) kept split
    rw [same, resume, nextBody?_here (swept.endsWith kept split)]
    dsimp only
    rw [failed]

section Switch

variable {args : Args} (block : args.value 1 = .block cases) (every : args.refined 4 = true)

include block every

theorem SweepEnds.switchOn (enough : (s.heap.tail cases).length < ev.fuel)
    (kept : CasesKept ev (args.value 0) (args.refined 5) cases s)
    (ends : SweepEnds ev (args.value 0) (args.refined 5) (args.refinement? 2) s
      (s.heap.tail cases) ran result) : switchOn ev args s = result := by
  rw [switchOn_apply block, every]
  cases ends with
  | body swept =>
    rw [swept.switchItems_all kept enough]
    dsimp only
    rw [lastResult_concat]
  | key swept => rw [swept.switchItems_all kept enough]
  | fallsBack swept ends =>
    rw [swept.switchItems_all kept enough]
    dsimp only [lastResult]
    cases ends with
    | body given =>
      rw [given]
      rfl
    | value given plain =>
      rename_i d
      rw [given]
      cases d with
      | block r => exact (plain r rfl).elim
      | _ => rfl
    | last absent =>
      rw [absent]
      rfl
  | left left => rw [left.switchItems kept enough]

end Switch

theorem SweepEnds.inOrder
    (ends : SweepEnds ev value strict default? s items ran result) :
    (ran.map (·.place)).Pairwise (· < ·) ∧
      ∀ b ∈ ran, items[b.place]? = some (.block b.body) := by
  have within {items behind : List Value} {sweep : Sweep} {t : State}
      (swept : Swept ev value strict s items ran sweep t) :
      (ran.map (·.place)).Pairwise (· < ·) ∧
        ∀ b ∈ ran, (items ++ behind)[b.place]? = some (.block b.body) := by
    obtain ⟨increasing, known⟩ := swept.inOrder
    refine ⟨increasing, fun b listed => ?_⟩
    obtain ⟨below, here⟩ := known b listed
    rwa [List.getElem?_append_left below]
  have whole {sweep : Sweep} {t : State} (swept : Swept ev value strict s items ran sweep t) :=
    List.append_nil items ▸ within swept
  cases ends with
  | body swept => exact whole swept
  | key swept => exact whole swept
  | fallsBack swept => exact whole swept
  | left left =>
    cases left with
    | item split swept => exact split ▸ within swept
    | body split swept => exact split ▸ within swept

/-- As far as the switch goes, behind every item that is equal there is a body for it. -/
def KeysHaveBodies (ev : Evaluator) (value : Value) (strict : Bool) (s : State)
    (items : List Value) : Prop :=
  ∀ ran key t, ¬ Swept ev value strict s items ran (.awaiting key) t

structure SweepsCases (ev : Evaluator) (args : Args) (cases : BlockRef) (s : State) : Prop where
  ends_iff (result : EStateM.Result Exit State Value) :
    switchOn ev args s = result ↔
      ∃ ran, SweepEnds ev (args.value 0) (args.refined 5) (args.refinement? 2) s
        (s.heap.tail cases) ran result
  /-- The bodies that run are among the cases, and they run in order, each once. -/
  inOrder (ran : List BodyRun) (result : EStateM.Result Exit State Value) :
    SweepEnds ev (args.value 0) (args.refined 5) (args.refinement? 2) s (s.heap.tail cases) ran
        result →
      (ran.map (·.place)).Pairwise (· < ·) ∧
        ∀ b ∈ ran, (s.heap.tail cases)[b.place]? = some (.block b.body)
  /-- The result is that of the last body, where no equal item at the end lacks one. -/
  lastBody (ran : List BodyRun) (last : BodyRun) (result : Value) (t : State) :
    KeysHaveBodies ev (args.value 0) (args.refined 5) s (s.heap.tail cases) →
    SweepEnds ev (args.value 0) (args.refined 5) (args.refinement? 2) s (s.heap.tail cases)
        (ran ++ [last]) (.ok result t) →
      result = last.result

/-- A switch that is to run all cases goes through them as long as they are not changed, and ends in
one way. -/
theorem switchOn_sweeps {ev : Evaluator} {args : Args} {cases : BlockRef} {s : State}
    (block : args.value 1 = .block cases) (every : args.refined 4 = true)
    (enough : (s.heap.tail cases).length < ev.fuel)
    (kept : CasesKept ev (args.value 0) (args.refined 5) cases s) :
    SweepsCases ev args cases s where
  ends_iff result := by
    refine ⟨?_, fun ⟨ran, ends⟩ => ends.switchOn block every enough kept⟩
    rintro rfl
    obtain ⟨ran, result, ends⟩ := exists_sweepEnds ev (args.value 0) (args.refined 5)
      (args.refinement? 2) s (s.heap.tail cases)
    rw [ends.switchOn block every enough kept]
    exact ⟨ran, ends⟩
  inOrder _ _ ends := ends.inOrder
  lastBody ran last result t haveBodies ends := by
    generalize listed : ran ++ [last] = all at ends
    generalize ended : EStateM.Result.ok result t = outcome at ends
    cases ends with
    | body swept =>
      cases ended
      obtain ⟨-, same⟩ := List.append_inj' listed rfl
      cases same
      rfl
    | key swept => exact (haveBodies _ _ _ swept).elim
    | fallsBack swept => simp at listed
    | left left => cases ended

/-! ## Cases that are kept -/

theorem Compared.state_eq (compared : Compared ev s item (.ok key u))
    (literal : item.IsCaseLiteral) : u = s := by
  have same := (Compared.literal literal).candidate.symm.trans compared.candidate
  cases same
  rfl

def Quiet (ev : Evaluator) (s : State) (item : Value) : Prop :=
  item.IsCaseLiteral ∨ ∃ r, item = .block r ∧ ∃ v, ev.all r s = .ok v s

theorem Quiet.compared (quiet : Quiet ev s item) (compared : Compared ev s item (.ok key u)) :
    u = s := by
  obtain literal | ⟨r, rfl, -⟩ := quiet
  · exact compared.state_eq literal
  · exact (compared.plain r rfl).elim

theorem Quiet.body {given : Value} (quiet : Quiet ev s (.block r))
    (done : ev.all r s = .ok given u) : u = s := by
  obtain literal | ⟨_, ⟨⟩, v, same⟩ := quiet
  · exact literal.elim
  · cases done.symm.trans same
    rfl

theorem Swept.state_eq (swept : Swept ev value strict s items ran sweep t)
    (quiet : ∀ item ∈ items, Quiet ev s item) : t = s := by
  induction swept with
  | nil => rfl
  | passedOver _ r ih => exact ih fun i listed => quiet i (List.mem_append_left _ listed)
  | differs _ compared _ ih =>
    cases ih fun i listed => quiet i (List.mem_append_left _ listed)
    exact (quiet _ (by simp)).compared compared
  | equal _ compared _ ih =>
    cases ih fun i listed => quiet i (List.mem_append_left _ listed)
    exact (quiet _ (by simp)).compared compared
  | skipped _ _ ih => exact ih fun i listed => quiet i (List.mem_append_left _ listed)
  | body _ done ih =>
    cases ih fun i listed => quiet i (List.mem_append_left _ listed)
    exact (quiet (.block _) (by simp)).body done

theorem casesKept_of_quiet (quiet : ∀ item ∈ s.heap.tail cases, Quiet ev s item) :
    CasesKept ev value strict cases s where
  item split swept compared := by
    rw [split] at quiet
    cases swept.state_eq fun i listed => quiet i (List.mem_append_left _ listed)
    cases (quiet _ (by simp)).compared compared
    rfl
  body split swept done := by
    rw [split] at quiet
    cases swept.state_eq fun i listed => quiet i (List.mem_append_left _ listed)
    cases (quiet (.block _) (by simp)).body done
    rfl

def repeatedKey : State where
  heap :=
    { blocks := #[{ data := #[.integer 2, .block ⟨1, 0⟩, .integer 2, .integer 3,
          .block ⟨2, 0⟩, .block ⟨3, 0⟩] },
        { data := #[.integer 7] }, { data := #[.integer 8] }, { data := #[.integer 9] }] }
  env := { root := 0 }

theorem switchOn_sweeps_repeatedKey :
    let args : Args := #[.integer 2, .block ⟨0, 0⟩, .none, .none, .logic true, .none]
    args.value 1 = .block ⟨0, 0⟩ ∧ args.refined 4 = true ∧
      (repeatedKey.heap.tail ⟨0, 0⟩).length < (evaluator 20).fuel ∧
      CasesKept (evaluator 20) (.integer 2) false ⟨0, 0⟩ repeatedKey ∧
      switchOn (evaluator 20) args repeatedKey = .ok (.integer 8) repeatedKey := by
  intro args
  have block : args.value 1 = .block ⟨0, 0⟩ := rfl
  have every : args.refined 4 = true := rfl
  have enough : (repeatedKey.heap.tail ⟨0, 0⟩).length < (evaluator 20).fuel := by decide
  have kept : CasesKept (evaluator 20) (.integer 2) false ⟨0, 0⟩ repeatedKey := by
    refine casesKept_of_quiet fun item listed => ?_
    simp only [repeatedKey, Heap.tail, Heap.items, List.getElem?_toArray, List.getElem?_cons_zero,
      Option.map_some, Option.getD_some, List.drop_zero, List.mem_cons, List.not_mem_nil,
      or_false] at listed
    rcases listed with rfl | rfl | rfl | rfl | rfl | rfl
    · exact .inl trivial
    · exact .inr ⟨_, rfl, .integer 7, rfl⟩
    · exact .inl trivial
    · exact .inl trivial
    · exact .inr ⟨_, rfl, .integer 8, rfl⟩
    · exact .inr ⟨_, rfl, .integer 9, rfl⟩
  have compared (n : Int64) : Compared (evaluator 20) repeatedKey (.integer n)
      (.ok (.integer n) repeatedKey) := .literal trivial
  have same : repeatedKey.heap.equalIn false (.integer 2) (.integer 2) = true := by
    with_unfolding_all rfl
  have plain (r : BlockRef) : Value.integer 3 ≠ .block r := by simp
  have first : Swept (evaluator 20) (.integer 2) false repeatedKey [.integer 2, .block ⟨1, 0⟩]
      [⟨1, ⟨1, 0⟩, .integer 7⟩] (.seeking (.integer 2)) repeatedKey :=
    .body (.equal .nil (compared 2) same) rfl
  have second : Swept (evaluator 20) (.integer 2) false repeatedKey
      [.integer 2, .block ⟨1, 0⟩, .integer 2, .integer 3, .block ⟨2, 0⟩]
      [⟨1, ⟨1, 0⟩, .integer 7⟩, ⟨4, ⟨2, 0⟩, .integer 8⟩] (.seeking (.integer 2)) repeatedKey :=
    .body (.skipped (.equal first (compared 2) same) plain) rfl
  have ends : SweepEnds (evaluator 20) (.integer 2) false none repeatedKey
      (repeatedKey.heap.tail ⟨0, 0⟩)
      ([⟨1, ⟨1, 0⟩, .integer 7⟩] ++ [⟨4, ⟨2, 0⟩, .integer 8⟩])
      (.ok (.integer 8) repeatedKey) := .body (.passedOver second ⟨3, 0⟩)
  exact ⟨block, every, enough, kept,
    ((switchOn_sweeps block every enough kept).ends_iff _).mpr ⟨_, ends⟩⟩

def keyWithoutBody : State where
  heap :=
    { blocks := #[{ data := #[.integer 2, .block ⟨1, 0⟩, .integer 2] },
        { data := #[.integer 7] }] }
  env := { root := 0 }

/-- A body ran and gave 7, and yet the result is the equal item behind it. -/
theorem switchOn_loses_result :
    let args : Args := #[.integer 2, .block ⟨0, 0⟩, .none, .none, .logic true, .none]
    Swept (evaluator 20) (.integer 2) false keyWithoutBody [.integer 2, .block ⟨1, 0⟩]
        [⟨1, ⟨1, 0⟩, .integer 7⟩] (.seeking (.integer 2)) keyWithoutBody ∧
      SweepEnds (evaluator 20) (.integer 2) false none keyWithoutBody
        (keyWithoutBody.heap.tail ⟨0, 0⟩) [⟨1, ⟨1, 0⟩, .integer 7⟩]
        (.ok (.integer 2) keyWithoutBody) ∧
      switchOn (evaluator 20) args keyWithoutBody = .ok (.integer 2) keyWithoutBody := by
  have same : keyWithoutBody.heap.equalIn false (.integer 2) (.integer 2) = true := by
    with_unfolding_all rfl
  have compared : Compared (evaluator 20) keyWithoutBody (.integer 2)
      (.ok (.integer 2) keyWithoutBody) := .literal trivial
  have first : Swept (evaluator 20) (.integer 2) false keyWithoutBody
      [.integer 2, .block ⟨1, 0⟩] [⟨1, ⟨1, 0⟩, .integer 7⟩] (.seeking (.integer 2))
      keyWithoutBody := .body (.equal .nil compared same) rfl
  exact ⟨first, .key (.equal first compared same), by with_unfolding_all rfl⟩

end BlockScript.Conditionals
