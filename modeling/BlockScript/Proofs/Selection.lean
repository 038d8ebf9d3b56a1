import BlockScript.Native.Conditionals
import BlockScript.Proofs.Positions

/-!
# What a switch selects

The items of the cases that are no bodies are compared with the value one after another. The first
that is equal decides: the body that follows it next is run, and the items between are skipped.
Where none is equal no body of the cases is run, and the result is the default or what the cases
end on.

The comparisons are told by the states they lead through. An item is evaluated in the state that the
one before it left, and the body that is run starts where the equal item ended, so that an outcome
with its last state says what was evaluated and that nothing else was.
-/

namespace BlockScript

def Value.IsCaseLiteral : Value → Prop
  | .block _ | .paren _ | .word .getWord _ | .path .getPath _ => False
  | _ => True

namespace Conditionals

/-! ## What is compared -/

inductive Compared (ev : Evaluator) (s : State) :
    Value → EStateM.Result Exit State Value → Prop where
  | paren (r : BlockRef) : Compared ev s (.paren r) (ev.all r s)
  | getWord (name : String) :
      Compared ev s (.word .getWord name) (.ok ((s.env.lookup s.heap name).getD .unset) s)
  | getPath (segments : List Segment) :
      Compared ev s (.path .getPath segments) (Path.get segments s)
  | literal {item : Value} (literal : item.IsCaseLiteral) : Compared ev s item (.ok item s)

/-- From a state on, the items were gone through to another state, and none was equal to the value.
Also what the items end on: what the last was compared as, or none for a body or no item at all. -/
inductive Unmatched (ev : Evaluator) (value : Value) (strict : Bool) (s : State) :
    List Value → State → Value → Prop where
  | nil : Unmatched ev value strict s [] s .none
  | body {items : List Value} {t : State} {last : Value}
      (before : Unmatched ev value strict s items t last) (r : BlockRef) :
      Unmatched ev value strict s (items ++ [.block r]) t .none
  | key {items : List Value} {t u : State} {last item key : Value}
      (before : Unmatched ev value strict s items t last)
      (compared : Compared ev t item (.ok key u))
      (differs : u.heap.equalIn strict value key = false) :
      Unmatched ev value strict s (items ++ [item]) u key

def NoBody (items : List Value) : Prop := ∀ r, Value.block r ∉ items

inductive SwitchEnds (ev : Evaluator) (value : Value) (strict : Bool) (default? : Option Value)
    (s : State) (items : List Value) : EStateM.Result Exit State Value → Prop where
  | body {before between behind : List Value} {t u : State} {last item key : Value} {r : BlockRef}
      (split : items = before ++ item :: (between ++ .block r :: behind))
      (unmatched : Unmatched ev value strict s before t last)
      (compared : Compared ev t item (.ok key u))
      (equal : u.heap.equalIn strict value key = true) (next : NoBody between) :
      SwitchEnds ev value strict default? s items (ev.all r u)
  | key {before behind : List Value} {t u : State} {last item key : Value}
      (split : items = before ++ item :: behind)
      (unmatched : Unmatched ev value strict s before t last)
      (compared : Compared ev t item (.ok key u))
      (equal : u.heap.equalIn strict value key = true) (none : NoBody behind) :
      SwitchEnds ev value strict default? s items (.ok key u)
  | exit {before behind : List Value} {t u : State} {last item : Value} {exit : Exit}
      (split : items = before ++ item :: behind)
      (unmatched : Unmatched ev value strict s before t last)
      (compared : Compared ev t item (.error exit u)) :
      SwitchEnds ev value strict default? s items (.error exit u)
  | defaultBody {t : State} {last : Value} {r : BlockRef}
      (unmatched : Unmatched ev value strict s items t last) (given : default? = some (.block r)) :
      SwitchEnds ev value strict default? s items (ev.all r t)
  | defaultValue {t : State} {last d : Value}
      (unmatched : Unmatched ev value strict s items t last) (given : default? = some d)
      (plain : ∀ r, d ≠ .block r) : SwitchEnds ev value strict default? s items (.ok d t)
  | last {t : State} {last : Value} (unmatched : Unmatched ev value strict s items t last)
      (absent : default? = none) : SwitchEnds ev value strict default? s items (.ok last t)

/-- As far as the items are compared, none of them changes the cases. -/
def Undisturbed (ev : Evaluator) (value : Value) (strict : Bool) (cases : BlockRef) (s : State) :
    Prop :=
  ∀ {before behind : List Value} {t u : State} {last item key : Value},
    s.heap.tail cases = before ++ item :: behind → Unmatched ev value strict s before t last →
      Compared ev t item (.ok key u) → u.heap.items cases.id = t.heap.items cases.id

variable {ev : Evaluator} {value item key last : Value} {strict : Bool} {s t u : State}
  {cases r : BlockRef} {items before between behind : List Value} {position fuel : Nat} {h : Heap}
  {every : Bool} {found : Option Value} {result : EStateM.Result Exit State Value}

theorem compared_iff (plain : ∀ r, item ≠ .block r) :
    Compared ev s item result ↔ candidate ev item s = result := by
  constructor
  · rintro (_ | _ | _ | literal)
    · rfl
    · rfl
    · rfl
    · unfold candidate
      split
      · exact literal.elim
      · exact literal.elim
      · exact literal.elim
      · rfl
  · rintro rfl
    cases item with
    | block r => exact (plain r rfl).elim
    | paren r => exact .paren r
    | word kind name =>
      cases kind with
      | getWord => exact .getWord name
      | _ => exact .literal trivial
    | path kind segments =>
      cases kind with
      | getPath => exact .getPath segments
      | _ => exact .literal trivial
    | _ => exact .literal trivial

theorem Compared.plain (compared : Compared ev s item result) (r : BlockRef) : item ≠ .block r := by
  rintro rfl
  cases compared with
  | literal literal => exact literal

theorem Compared.candidate (compared : Compared ev s item result) :
    Conditionals.candidate ev item s = result :=
  (compared_iff compared.plain).mp compared

/-- Only parens change the cases while they are compared. -/
theorem undisturbed_of_noParen (noParen : ∀ r, .paren r ∉ s.heap.tail cases) :
    Undisturbed ev value strict cases s := by
  intro before behind t u last item key split _ compared
  generalize ended : EStateM.Result.ok key u = result at compared
  cases compared with
  | paren r => exact (noParen r (split ▸ List.mem_append_right _ List.mem_cons_self)).elim
  | getWord name =>
    cases ended
    rfl
  | getPath segments =>
    have same : (endState (Path.get segments) t).heap.blocks = t.heap.blocks :=
      Heap.SameBlocks.pathGet segments t
    rw [endState_ok ended.symm] at same
    rw [Heap.items, Heap.items, same]
  | literal =>
    cases ended
    rfl

/-! ## One item -/

theorem switchItems_end (ends : s.heap.EndsWith cases position []) :
    switchItems ev value cases every strict (fuel + 1) position found last s =
      .ok (found, last) s := by
  refine (bind_getHeap _).trans ?_
  rw [ends.item?]
  rfl

theorem switchItems_body (ends : s.heap.EndsWith cases position (.block r :: behind)) :
    switchItems ev value cases every strict (fuel + 1) position found last s =
      switchItems ev value cases every strict fuel (position + 1) found .none s := by
  refine (bind_getHeap _).trans ?_
  rw [ends.item?]
  rfl

theorem switchItems_key (ends : s.heap.EndsWith cases position (item :: behind))
    (compared : Compared ev s item result) :
    switchItems ev value cases every strict (fuel + 1) position found last s =
      match result with
      | .error exit u => .error exit u
      | .ok key u =>
        if u.heap.equalIn strict value key then
          match nextBody? u.heap cases (position + 1) with
          | none => .ok (some key, key) u
          | some (body, behind) =>
            match ev.all body u with
            | .error exit w => .error exit w
            | .ok result w =>
              if every then switchItems ev value cases every strict fuel behind (some result) key w
              else .ok (some result, key) w
        else switchItems ev value cases every strict fuel (position + 1) found key u := by
  refine (bind_getHeap _).trans ?_
  rw [ends.item?]
  have plain := compared.plain
  have compared := compared.candidate
  cases item with
  | block r => exact (plain r rfl).elim
  | _ =>
    cases result with
    | error exit u => exact bind_of_error compared _
    | ok key u =>
      refine (bind_of_ok compared _).trans ((bind_getHeap _).trans ?_)
      dsimp only
      split
      · obtain _ | ⟨body, behind⟩ := nextBody? u.heap cases (position + 1)
        · rfl
        · dsimp only
          cases ran : ev.all body u with
          | error exit w => exact bind_of_error ran _
          | ok result w =>
            refine (bind_of_ok ran _).trans ?_
            cases every <;> rfl
      · rfl

theorem nextBody?_end (ends : h.EndsWith cases position []) :
    nextBody? h cases position = none := by
  rw [nextBody?, show (h.items cases.id).toList.drop position = [] from ends]
  rfl

theorem nextBody?_here (ends : h.EndsWith cases position (.block r :: behind)) :
    nextBody? h cases position = some (r, position + 1) := by
  rw [nextBody?, show (h.items cases.id).toList.drop position = .block r :: behind from ends]
  rfl

theorem nextBody?_behind (ends : h.EndsWith cases position (item :: behind))
    (plain : ∀ r, item ≠ .block r) :
    nextBody? h cases position = nextBody? h cases (position + 1) := by
  rw [nextBody?, nextBody?, show (h.items cases.id).toList.drop position = item :: behind from ends,
    show (h.items cases.id).toList.drop (position + 1) = behind from ends.tail, List.zipIdx_cons,
    List.findSome?_cons]
  cases item with
  | block r => exact (plain r rfl).elim
  | _ => rfl

/-! ## Bodies -/

theorem block_or_plain (v : Value) : (∃ r, v = .block r) ∨ ∀ r, v ≠ .block r :=
  or_iff_not_imp_left.mpr fun other r same => other ⟨r, same⟩

theorem NoBody.head (next : NoBody (item :: items)) (r : BlockRef) : item ≠ .block r := by
  rintro rfl
  exact next r List.mem_cons_self

theorem NoBody.tail (next : NoBody (item :: items)) : NoBody items :=
  fun r listed => next r (List.mem_cons_of_mem _ listed)

theorem NoBody.cons (plain : ∀ r, item ≠ .block r) (no : NoBody items) :
    NoBody (item :: items) := by
  intro r listed
  obtain same | listed := List.mem_cons.mp listed
  · exact plain r same.symm
  · exact no r listed

theorem NoBody.nextBody? (no : NoBody items) (ends : h.EndsWith cases position items) :
    nextBody? h cases position = none := by
  induction items generalizing position with
  | nil => exact nextBody?_end ends
  | cons item items ih => rw [nextBody?_behind ends no.head, ih no.tail ends.tail]

theorem NoBody.nextBody?_append (no : NoBody between)
    (ends : h.EndsWith cases position (between ++ .block r :: behind)) :
    Conditionals.nextBody? h cases position = some (r, position + between.length + 1) := by
  induction between generalizing position with
  | nil => exact nextBody?_here ends
  | cons item between ih =>
    rw [nextBody?_behind ends no.head, ih no.tail ends.tail, List.length_cons,
      Nat.add_right_comm position, Nat.add_assoc position]

/-- The items before the first body, or all when there is none. -/
theorem noBody_or_first (items : List Value) :
    NoBody items ∨
      ∃ between r behind, items = between ++ .block r :: behind ∧ NoBody between := by
  induction items with
  | nil => exact .inl fun r listed => nomatch listed
  | cons item items ih =>
    obtain ⟨r, rfl⟩ | plain := block_or_plain item
    · exact .inr ⟨[], r, items, rfl, fun r listed => nomatch listed⟩
    · obtain no | ⟨between, r, behind, rfl, no⟩ := ih
      · exact .inl (no.cons plain)
      · exact .inr ⟨item :: between, r, behind, rfl, no.cons plain⟩

/-! ## The items before the first that is equal -/

/-- Some item is the first to be equal or to exit, or none is. -/
theorem unmatched_or_stops (ev : Evaluator) (value : Value) (strict : Bool) (s : State)
    (items : List Value) :
    (∃ t last, Unmatched ev value strict s items t last) ∨
      ∃ before item behind t last result, items = before ++ item :: behind ∧
        Unmatched ev value strict s before t last ∧ Compared ev t item result ∧
        ∀ key u, result = .ok key u → u.heap.equalIn strict value key = true := by
  induction items using List.reverseRecOn with
  | nil => exact .inl ⟨s, .none, .nil⟩
  | append_singleton items item ih =>
    obtain ⟨t, last, unmatched⟩ | ⟨before, first, behind, t, last, result, rfl, stops⟩ := ih
    · obtain ⟨r, rfl⟩ | plain := block_or_plain item
      · exact .inl ⟨t, .none, .body unmatched r⟩
      · have compared : Compared ev t item (candidate ev item t) := (compared_iff plain).mpr rfl
        by_cases differs : ∃ key u, candidate ev item t = .ok key u ∧
            u.heap.equalIn strict value key = false
        · obtain ⟨key, u, ended, differs⟩ := differs
          exact .inl ⟨u, key, .key unmatched (ended ▸ compared) differs⟩
        · refine .inr ⟨items, item, [], t, last, _, rfl, unmatched, compared, fun key u ended => ?_⟩
          by_contra other
          exact differs ⟨key, u, ended, Bool.not_eq_true _ |>.mp other⟩
    · exact .inr ⟨before, first, behind ++ [item], t, last, result,
        by rw [List.append_assoc, List.cons_append], stops⟩

theorem exists_switchEnds (ev : Evaluator) (value : Value) (strict : Bool)
    (default? : Option Value) (s : State) (items : List Value) :
    ∃ result, SwitchEnds ev value strict default? s items result := by
  obtain ⟨t, last, unmatched⟩ | ⟨before, item, behind, t, last, result, split, unmatched, compared,
    equal⟩ := unmatched_or_stops ev value strict s items
  · cases given : default? with
    | none => exact ⟨_, .last unmatched rfl⟩
    | some d =>
      obtain ⟨r, rfl⟩ | plain := block_or_plain d
      · exact ⟨_, .defaultBody unmatched rfl⟩
      · exact ⟨_, .defaultValue unmatched rfl plain⟩
  · cases result with
    | error exit u => exact ⟨_, .exit split unmatched compared⟩
    | ok key u =>
      obtain none | ⟨between, r, behind, rfl, next⟩ := noBody_or_first behind
      · exact ⟨_, .key split unmatched compared (equal key u rfl) none⟩
      · exact ⟨_, .body split unmatched compared (equal key u rfl) next⟩

theorem Unmatched.cases_unchanged (unmatched : Unmatched ev value strict s before t last)
    (undisturbed : Undisturbed ev value strict cases s)
    (split : s.heap.tail cases = before ++ behind) :
    t.heap.items cases.id = s.heap.items cases.id := by
  induction unmatched generalizing behind with
  | nil => rfl
  | body _ r ih => exact ih (split.trans (List.append_assoc ..))
  | key unmatched compared _ ih =>
    have split := split.trans (List.append_assoc ..)
    exact (undisturbed split unmatched compared).trans (ih split)

theorem Unmatched.endsWith (unmatched : Unmatched ev value strict s before t last)
    (undisturbed : Undisturbed ev value strict cases s)
    (split : s.heap.tail cases = before ++ behind) :
    t.heap.EndsWith cases (cases.index + before.length) behind := by
  have ends : t.heap.EndsWith cases cases.index (before ++ behind) := by
    rw [Heap.EndsWith, unmatched.cases_unchanged undisturbed split]
    exact split
  exact ends.drop

/-- As long as no item is equal, the switch goes on behind it. -/
theorem Unmatched.switchItems (unmatched : Unmatched ev value strict s before t last)
    (undisturbed : Undisturbed ev value strict cases s)
    (split : s.heap.tail cases = before ++ behind) :
    switchItems ev value cases false strict (fuel + before.length) cases.index none .none s =
      switchItems ev value cases false strict fuel (cases.index + before.length) none last t := by
  induction unmatched generalizing behind fuel with
  | nil => rfl
  | body unmatched r ih =>
    have split := split.trans (List.append_assoc ..)
    rw [List.length_append, List.length_singleton, ← Nat.add_assoc, Nat.add_right_comm, ih split,
      switchItems_body (unmatched.endsWith undisturbed split), Nat.add_assoc]
  | key unmatched compared differs ih =>
    have split := split.trans (List.append_assoc ..)
    rw [List.length_append, List.length_singleton, ← Nat.add_assoc, Nat.add_right_comm, ih split,
      switchItems_key (unmatched.endsWith undisturbed split) compared]
    dsimp only
    rw [differs, if_neg Bool.false_ne_true, Nat.add_assoc]

/-- Where none is equal, the switch ends on what the items end on. -/
theorem Unmatched.switchItems_all
    (unmatched : Unmatched ev value strict s (s.heap.tail cases) t last)
    (undisturbed : Undisturbed ev value strict cases s)
    (enough : (s.heap.tail cases).length < fuel) :
    Conditionals.switchItems ev value cases false strict fuel cases.index none .none s =
      .ok (none, last) t := by
  have split : s.heap.tail cases = s.heap.tail cases ++ [] := (List.append_nil _).symm
  obtain ⟨n, rfl⟩ : ∃ n, fuel = n + 1 + (s.heap.tail cases).length :=
    ⟨fuel - 1 - (s.heap.tail cases).length, by omega⟩
  rw [unmatched.switchItems undisturbed split,
    switchItems_end (unmatched.endsWith undisturbed split)]

/-- The first item that is equal or exits decides. -/
theorem Compared.switchItems (compared : Compared ev t item result)
    (stops : ∀ key u, result = .ok key u → u.heap.equalIn strict value key = true)
    (unmatched : Unmatched ev value strict s before t last)
    (undisturbed : Undisturbed ev value strict cases s)
    (split : s.heap.tail cases = before ++ item :: behind)
    (enough : (s.heap.tail cases).length < fuel) :
    Conditionals.switchItems ev value cases false strict fuel cases.index none .none s =
      match result with
      | .error exit u => .error exit u
      | .ok key u =>
        match nextBody? u.heap cases (cases.index + before.length + 1) with
        | none => .ok (some key, key) u
        | some (body, _) =>
          match ev.all body u with
          | .error exit w => .error exit w
          | .ok result w => .ok (some result, key) w := by
  rw [split, List.length_append] at enough
  obtain ⟨n, rfl⟩ : ∃ n, fuel = n + 1 + before.length := ⟨fuel - 1 - before.length, by omega⟩
  rw [unmatched.switchItems undisturbed split,
    switchItems_key (unmatched.endsWith undisturbed split) compared]
  cases result with
  | error exit u => rfl
  | ok key u => exact if_pos (stops key u rfl)

theorem Compared.endsWith_behind (compared : Compared ev t item (.ok key u))
    (unmatched : Unmatched ev value strict s before t last)
    (undisturbed : Undisturbed ev value strict cases s)
    (split : s.heap.tail cases = before ++ item :: behind) :
    u.heap.EndsWith cases (cases.index + before.length + 1) behind := by
  rw [Heap.EndsWith, undisturbed split unmatched compared]
  exact (unmatched.endsWith undisturbed split).tail

/-! ## The switch -/

section Switch

variable {args : Args} (block : args.value 1 = .block cases)

include block

theorem switchOn_apply :
    switchOn ev args s =
      match switchItems ev (args.value 0) cases (args.refined 4) (args.refined 5) ev.fuel
        cases.index none .none s with
      | .error exit u => .error exit u
      | .ok (some result, _) u => .ok result u
      | .ok (none, last) u =>
        match args.refinement? 2 with
        | some d => ev.branch false d u
        | none => .ok last u := by
  rw [switchOn, block]
  refine (bind_of_ok (show expectBlock "switch" "cases" (.block cases) s = .ok cases s from rfl)
    _).trans ?_
  cases scanned : switchItems ev (args.value 0) cases (args.refined 4) (args.refined 5) ev.fuel
    cases.index none .none s with
  | error exit u => exact bind_of_error scanned _
  | ok ended u =>
    refine (bind_of_ok scanned _).trans ?_
    obtain ⟨_ | found, last⟩ := ended
    · cases args.refinement? 2 <;> rfl
    · rfl

theorem SwitchEnds.switchOn (once : args.refined 4 = false)
    (enough : (s.heap.tail cases).length < ev.fuel)
    (undisturbed : Undisturbed ev (args.value 0) (args.refined 5) cases s)
    (ends : SwitchEnds ev (args.value 0) (args.refined 5) (args.refinement? 2) s
      (s.heap.tail cases) result) : switchOn ev args s = result := by
  rw [switchOn_apply block, once]
  cases ends with
  | body split unmatched compared equal next =>
    rename_i u _ _ _ r
    rw [compared.switchItems (by rintro _ _ ⟨⟩; exact equal) unmatched undisturbed split enough]
    dsimp only
    rw [next.nextBody?_append (compared.endsWith_behind unmatched undisturbed split)]
    cases ran : ev.all r u <;> simp only [ran]
  | key split unmatched compared equal none =>
    rw [compared.switchItems (by rintro _ _ ⟨⟩; exact equal) unmatched undisturbed split enough]
    dsimp only
    rw [none.nextBody? (compared.endsWith_behind unmatched undisturbed split)]
  | exit split unmatched compared =>
    rw [compared.switchItems (by rintro _ _ ⟨⟩) unmatched undisturbed split enough]
  | defaultBody unmatched given =>
    rw [unmatched.switchItems_all undisturbed enough, given]
    rfl
  | defaultValue unmatched given plain =>
    rename_i d
    rw [unmatched.switchItems_all undisturbed enough, given]
    cases d with
    | block r => exact (plain r rfl).elim
    | _ => rfl
  | last unmatched absent =>
    rw [unmatched.switchItems_all undisturbed enough, absent]

end Switch

/-- A switch that is to stop at the first equal item, with cases that are not disturbed, ends in one
way: with the first body behind that item or the item itself, or else with the default or what the
cases end on. What stops a comparison stops the switch. -/
theorem switchOn_eq_iff {ev : Evaluator} {args : Args} {cases : BlockRef} {s : State}
    (block : args.value 1 = .block cases) (once : args.refined 4 = false)
    (enough : (s.heap.tail cases).length < ev.fuel)
    (undisturbed : Undisturbed ev (args.value 0) (args.refined 5) cases s)
    (result : EStateM.Result Exit State Value) :
    Conditionals.switchOn ev args s = result ↔
      SwitchEnds ev (args.value 0) (args.refined 5) (args.refinement? 2) s (s.heap.tail cases)
        result := by
  refine ⟨?_, SwitchEnds.switchOn block once enough undisturbed⟩
  rintro rfl
  obtain ⟨result, ends⟩ := exists_switchEnds ev (args.value 0) (args.refined 5) (args.refinement? 2)
    s (s.heap.tail cases)
  rwa [ends.switchOn block once enough undisturbed]

/-- A state with the cases `[:k [7] 2 3 [8] 2 [9]]`, where `k` is 1. -/
def sharedBody : State where
  heap :=
    { blocks := #[{ data := #[.word .getWord "k", .block ⟨1, 0⟩, .integer 2, .integer 3,
          .block ⟨2, 0⟩, .integer 2, .block ⟨3, 0⟩] },
        { data := #[.integer 7] }, { data := #[.integer 8] }, { data := #[.integer 9] }]
      frames := #[.ofFields [("k", .integer 1)]] }
  env := { root := 0 }

theorem switchOn_eq_iff_sharedBody :
    let args : Args := #[.integer 2, .block ⟨0, 0⟩, .none, .none, .none, .none]
    args.value 1 = .block ⟨0, 0⟩ ∧ args.refined 4 = false ∧
      (sharedBody.heap.tail ⟨0, 0⟩).length < (evaluator 20).fuel ∧
      Undisturbed (evaluator 20) (.integer 2) false ⟨0, 0⟩ sharedBody ∧
      switchOn (evaluator 20) args sharedBody = .ok (.integer 8) sharedBody := by
  intro args
  have enough : (sharedBody.heap.tail ⟨0, 0⟩).length < (evaluator 20).fuel := by decide
  have undisturbed : Undisturbed (evaluator 20) (.integer 2) false ⟨0, 0⟩ sharedBody := by
    refine undisturbed_of_noParen fun r listed => ?_
    simp [sharedBody, Heap.tail, Heap.items] at listed
  have block : args.value 1 = .block ⟨0, 0⟩ := rfl
  have once : args.refined 4 = false := rfl
  refine ⟨block, once, enough, undisturbed,
    (switchOn_eq_iff block once enough undisturbed _).mpr ?_⟩
  have first : Unmatched (evaluator 20) (.integer 2) false sharedBody
      [.word .getWord "k", .block ⟨1, 0⟩] sharedBody .none :=
    .body (.key .nil (.getWord "k") (by with_unfolding_all rfl)) ⟨1, 0⟩
  have next : NoBody [.integer 3] := fun r listed => by
    cases List.mem_singleton.mp listed
  have ran : (evaluator 20).all ⟨2, 0⟩ sharedBody = .ok (.integer 8) sharedBody := rfl
  rw [← ran]
  have compared : Compared (evaluator 20) sharedBody (.integer 2) (.ok (.integer 2) sharedBody) :=
    .literal trivial
  exact .body rfl first compared (by with_unfolding_all rfl) next

end Conditionals

end BlockScript
