import BlockScript.Expression

/-!
# What catch claims

Catch evaluates a block and claims an exit by its name. The refinements of the call say which names
it claims, and a list of names counts as it stands when the exit arrives. What is not claimed comes
out as it is; what is claimed gives its payload, or what the handler makes of payload and name.
-/

namespace BlockScript

/-! ## Names and handlers -/

/-- No exit goes by two of the reserved names. -/
theorem Thrown.eq_of_isNamed {exit : Thrown} {own own' : ReservedExit}
    (named : exit.isNamed own = true) (named' : exit.isNamed own' = true) : own = own' := by
  have name {own : ReservedExit} (named : exit.isNamed own = true) :
      exit.name.wordName? = some own.name := by
    rw [Thrown.isNamed] at named
    unfold Value.isWordNamed at named
    split at named
    · next same => rw [same, Value.wordName?, beq_iff_eq.mp named]
    · next same => rw [same, Value.wordName?, beq_iff_eq.mp named]
    · cases named
  have same : own.name = own'.name := Option.some.inj ((name named).symm.trans (name named'))
  cases own <;> cases own' <;> first | rfl | exact absurd same (by decide)

def Handler.value : Handler → Value
  | block r => .block r
  | function f => .function f

/-- What a handler is applied to, by its parameters: those from the first refinement on are never
filled, and no more than two are. -/
def Thrown.handed (exit : Thrown) : List Param → List Value
  | [] => []
  | [only] => if only.kind = .refinement then [] else [exit.payload]
  | first :: second :: _ =>
    if first.kind = .refinement then []
    else if second.kind = .refinement then [exit.payload]
    else [exit.payload, exit.name]

def Thrown.answer (exit : Thrown) (ev : Evaluator) : Option Handler → EvalM Value
  | none => pure exit.payload
  | some (.block r) => ev.all r
  | some (.function f) => ev.apply f (exit.handed f.params)

theorem Handler.run_eq_answer (handler : Handler) (ev : Evaluator) (exit : Thrown) :
    handler.run ev exit.payload (some exit.name) = exit.answer ev (some handler) := by
  cases handler with
  | block r => rfl
  | function f =>
    rw [Handler.run, Thrown.answer, Function.handlerShape, Function.arity,
      Function.isRefinementAt, Function.isRefinementAt]
    match f.params with
    | [] => rfl
    | [only] => cases kind : only.kind <;> simp [Thrown.handed, kind]
    | first :: second :: rest =>
      cases kind : first.kind <;> cases kind' : second.kind <;> simp [Thrown.handed, kind, kind']

theorem Handler.ofRefinement_value (construct : String) (handler : Option Handler) :
    Handler.ofRefinement construct (handler.map Handler.value) = pure handler := by
  cases handler with
  | none => rfl
  | some handler => cases handler <;> rfl

theorem Value.kind_eq_block {v : Value} : v.kind = .block ↔ ∃ r, v = .block r := by
  constructor
  · intro kind
    cases v with
    | block r => exact ⟨r, rfl⟩
    | word own name => cases own <;> cases kind
    | path own segments => cases own <;> cases kind
    | _ => cases kind
  · rintro ⟨r, rfl⟩
    rfl

/-- A value that is no handler is refused. -/
theorem Handler.ofRefinement_outcome (construct : String) (given : Option Value) :
    (∃ handler : Option Handler, given = handler.map Handler.value) ∨
      ∃ e, Handler.ofRefinement construct given = throw (.raised e) := by
  cases given with
  | none => exact .inl ⟨none, rfl⟩
  | some v =>
    cases v with
    | block r => exact .inl ⟨some (.block r), rfl⟩
    | function f => exact .inl ⟨some (.function f), rfl⟩
    | _ => exact .inr ⟨_, rfl⟩

/-- A value that is no block is refused where one is expected. -/
theorem expectBlock_outcome (function argument : String) (v : Value) :
    (∃ block, v = .block block) ∨ ∃ e, expectBlock function argument v = throw (.raised e) := by
  cases v with
  | block block => exact .inl ⟨block, rfl⟩
  | _ => exact .inr ⟨_, rfl⟩

namespace Exits

variable {ev : Evaluator} {args : Args} {block : BlockRef} {handler : Option Handler} {s t : State}
  {h : Heap} {exit : Thrown} {v : Value}

/-! ## Calls -/

def Gives (args : Args) (refinement : String) (v : Value) : Prop :=
  ((Function.native .catchThrown).refinement? refinement).bind args.refinement? = some v

def Uses (args : Args) (refinement : String) : Prop :=
  ((Function.native .catchThrown).refinement? refinement).any args.refined = true

def Lists (args : Args) (h : Heap) (name : Value) : Prop :=
  (Gives args "name" name ∧ name.kind ≠ .block) ∨
    ∃ r, Gives args "name" (.block r) ∧ name ∈ h.tail r

structure CatchCall (args : Args) (h : Heap) (block : BlockRef) (handler : Option Handler) :
    Prop where
  block : args.value 0 = .block block
  exclusive : ¬ (Uses args "any" ∧ Uses args "name")
  names (name : Value) : Lists args h name → name.kind ≠ .block
  handler (v : Value) : Gives args "with" v ↔ handler.map Handler.value = some v

inductive Selects (args : Args) (h : Heap) (exit : Thrown) : Prop where
  | any (asked : Uses args "any")
  | listed {name : Value} (listed : Lists args h name) (equal : h.equal name exit.name = true)
  | unnamed (unlisted : ¬ Uses args "name") (few : ¬ Uses args "any") (unnamed : exit.name = .none)

def Claims (args : Args) (h : Heap) (exit : Thrown) : Prop :=
  (exit.isNamed .quit = true ∧ Uses args "quit") ∨
    (exit.isNamed .quit = false ∧ Selects args h exit)

theorem gives_name : Gives args "name" v ↔ args.refinement? 1 = some v := .rfl

theorem gives_with : Gives args "with" v ↔ args.refinement? 5 = some v := .rfl

theorem uses_quit : Uses args "quit" ↔ args.refined 3 = true := .rfl

theorem uses_any : Uses args "any" ↔ args.refined 4 = true := .rfl

theorem refined_iff {position : Nat} :
    args.refined position = true ↔ ∃ v, args.refinement? position = some v := by
  rw [Args.refinement?]
  cases args.refined position <;> simp

theorem uses_name : Uses args "name" ↔ ∃ names, args.refinement? 1 = some names := refined_iff

theorem uses_with : Uses args "with" ↔ ∃ v, args.refinement? 5 = some v := refined_iff

theorem uses_of_lists {name : Value} (listed : Lists args h name) : Uses args "name" := by
  rcases listed with ⟨given, -⟩ | ⟨r, given, -⟩
  · exact uses_name.mpr ⟨_, gives_name.mp given⟩
  · exact uses_name.mpr ⟨_, gives_name.mp given⟩

theorem not_uses_name (given : args.refinement? 1 = none) : ¬ Uses args "name" := by
  intro used
  obtain ⟨names, some⟩ := uses_name.mp used
  rw [given] at some
  cases some

theorem lists_iff {names name : Value} (given : args.refinement? 1 = some names) :
    Lists args h name ↔ name ∈ CatchFilter.listed h names := by
  have same (v : Value) : Gives args "name" v ↔ v = names := by
    rw [gives_name, given, Option.some_inj, eq_comm]
  simp only [Lists, same]
  constructor
  · rintro (⟨rfl, single⟩ | ⟨r, rfl, member⟩)
    · unfold CatchFilter.listed
      split
      · exact absurd rfl single
      · exact List.mem_singleton_self _
    · exact member
  · intro member
    unfold CatchFilter.listed at member
    split at member
    · next r => exact .inr ⟨r, rfl, member⟩
    · next single =>
      cases List.mem_singleton.mp member
      refine .inl ⟨rfl, fun kind => ?_⟩
      obtain ⟨r, list⟩ := Value.kind_eq_block.mp kind
      exact single r list

/-! ## Claims -/

theorem isUnnamed_iff : exit.isUnnamed = true ↔ exit.name = .none := by
  rw [Thrown.isUnnamed]
  cases exit.name <;> simp [Value.isNone]

theorem selects_iff :
    Selects args h exit ↔
      args.refined 4 = true ∨
        match args.refinement? 1 with
        | some names => ∃ name ∈ CatchFilter.listed h names, h.equal name exit.name = true
        | none => exit.name = .none := by
  cases given : args.refinement? 1 with
  | some names =>
    have used : Uses args "name" := uses_name.mpr ⟨names, given⟩
    constructor
    · rintro (asked | ⟨listed, equal⟩ | ⟨unlisted, -, -⟩)
      · exact .inl (uses_any.mp asked)
      · exact .inr ⟨_, (lists_iff given).mp listed, equal⟩
      · exact absurd used unlisted
    · rintro (asked | ⟨name, member, equal⟩)
      · exact .any (uses_any.mpr asked)
      · exact .listed ((lists_iff given).mpr member) equal
  | none =>
    have unlisted := not_uses_name given
    constructor
    · rintro (asked | ⟨listed, -⟩ | ⟨-, -, unnamed⟩)
      · exact .inl (uses_any.mp asked)
      · exact absurd (uses_of_lists listed) unlisted
      · exact .inr unnamed
    · rintro (asked | unnamed)
      · exact .any (uses_any.mpr asked)
      · by_cases asked : Uses args "any"
        · exact .any asked
        · exact .unnamed unlisted asked unnamed

theorem claims_iff : (CatchFilter.ofArgs args).claims h exit = true ↔ Claims args h exit := by
  rw [CatchFilter.claims, Claims, selects_iff, CatchFilter.ofArgs, uses_quit]
  cases exit.isNamed .quit with
  | true => simp
  | false =>
    cases args.refinement? 1 with
    | some names => simp [List.any_eq_true]
    | none => simp [isUnnamed_iff]

/-- An exit that loops or functions know is claimed under `any`, or when its name is listed. -/
theorem Claims.of_reserved {own : ReservedExit} (claimed : Claims args h exit)
    (named : exit.isNamed own = true) (other : own ≠ .quit) :
    Uses args "any" ∨ ∃ name, Lists args h name ∧ h.equal name exit.name = true := by
  rcases claimed with ⟨quit, -⟩ | ⟨-, asked | ⟨listed, equal⟩ | ⟨-, -, unnamed⟩⟩
  · exact absurd (Thrown.eq_of_isNamed named quit) other
  · exact .inl asked
  · exact .inr ⟨_, listed, equal⟩
  · rw [Thrown.isNamed, unnamed] at named
    cases named

theorem claims_quit (named : exit.isNamed .quit = true) :
    Claims args h exit ↔ Uses args "quit" := by
  simp only [Claims, named, true_and, Bool.true_eq_false, false_and, or_false]

/-! ## Calls that are accepted -/

theorem checkNames_block (r : BlockRef) (s : State) :
    checkNames (some (.block r)) s =
      match (s.heap.tail r).find? (·.kind == .block) with
      | some nested => .error (.raised { cause := .invalidArg (s.heap.mold nested) }) s
      | none => .ok () s := by
  change (match (s.heap.tail r).find? (·.kind == .block) with
    | some nested => do raise (.invalidArg (← moldValue nested))
    | none => pure () : EvalM Unit) s = _
  cases (s.heap.tail r).find? (·.kind == .block) <;> rfl

/-- The check refuses `any` with names, and a block among the names. -/
theorem check_outcome (args : Args) (s : State) :
    ((CatchFilter.ofArgs args).check s = .ok () s ∧ ¬ (Uses args "any" ∧ Uses args "name") ∧
      ∀ name, Lists args s.heap name → name.kind ≠ .block) ∨
    ((∃ e, (CatchFilter.ofArgs args).check s = .error (.raised e) s) ∧
      ((Uses args "any" ∧ Uses args "name") ∨
        ∃ name, Lists args s.heap name ∧ name.kind = .block)) := by
  have both_iff : ((CatchFilter.ofArgs args).any && (CatchFilter.ofArgs args).names.isSome) = true ↔
      Uses args "any" ∧ Uses args "name" := by
    rw [Bool.and_eq_true, Option.isSome_iff_exists, uses_any, uses_name, CatchFilter.ofArgs]
  unfold CatchFilter.check
  by_cases both : Uses args "any" ∧ Uses args "name"
  · rw [if_pos (both_iff.mpr both)]
    exact .inr ⟨⟨_, rfl⟩, .inl both⟩
  · rw [if_neg fun condition => both (both_iff.mp condition), CatchFilter.ofArgs]
    cases given : args.refinement? 1 with
    | none =>
      refine .inl ⟨rfl, both, fun _ listed => ?_⟩
      exact absurd (uses_of_lists listed) (not_uses_name given)
    | some names =>
      simp only [lists_iff given]
      by_cases list : names.kind = .block
      · obtain ⟨r, rfl⟩ := Value.kind_eq_block.mp list
        rw [checkNames_block]
        cases found : (s.heap.tail r).find? (·.kind == .block) with
        | none =>
          refine .inl ⟨rfl, both, fun name member => ?_⟩
          simpa using List.find?_eq_none.mp found name member
        | some nested =>
          refine .inr ⟨⟨_, rfl⟩, .inr ⟨nested, List.mem_of_find?_eq_some found, ?_⟩⟩
          simpa using List.find?_some found
      · have single : CatchFilter.listed s.heap names = [names] := by
          cases names <;> first | rfl | exact absurd rfl list
        refine .inl ⟨?_, both, fun name member => ?_⟩
        · cases names <;> first | rfl | exact absurd rfl list
        · rw [single, List.mem_singleton] at member
          rwa [member]

/-- A catch from the start of its block on. -/
theorem catching_bind (filter : CatchFilter) (body : EvalM Value)
    (f : Except Thrown Value → EvalM Value) (s : State) :
    (catching filter body >>= f) s =
      match body s with
      | .ok value t => f (.ok value) t
      | .error (.thrown exit) t =>
        if filter.claims t.heap exit then f (.error exit) t else .error (.thrown exit) t
      | .error exit t => .error exit t := by
  simp only [Bind.bind, EStateM.bind, catching, claiming]
  cases body s with
  | ok value t => rfl
  | error exit t =>
    cases exit with
    | thrown exit => cases claimed : filter.claims t.heap exit <;> simp [claimed]
    | raised e => rfl
    | outOfFuel => rfl

namespace CatchCall

theorem handler_eq (call : CatchCall args h block handler) :
    args.refinement? 5 = handler.map Handler.value :=
  Option.ext fun v => gives_with.symm.trans (call.handler v)

theorem check (call : CatchCall args s.heap block handler) :
    (CatchFilter.ofArgs args).check s = .ok () s := by
  rcases check_outcome args s with ⟨checked, -⟩ | ⟨-, both | ⟨name, listed, nested⟩⟩
  · exact checked
  · exact absurd both call.exclusive
  · exact absurd nested (call.names name listed)

theorem apply (call : CatchCall args s.heap block handler) (ev : Evaluator) :
    catchThrown ev args s =
      match ev.all block s with
      | .ok value t => .ok value t
      | .error (.thrown exit) t =>
        if (CatchFilter.ofArgs args).claims t.heap exit then exit.answer ev handler t
        else .error (.thrown exit) t
      | .error exit t => .error exit t := by
  have checked (k : Unit → EvalM Value) : ((CatchFilter.ofArgs args).check >>= k) s = k () s := by
    simp only [Bind.bind, EStateM.bind, call.check]
  unfold catchThrown
  rw [call.block, call.handler_eq, Handler.ofRefinement_value]
  simp only [expectBlock, pure_bind]
  rw [checked, catching_bind]
  cases ev.all block s with
  | ok value t => rfl
  | error exit t =>
    cases exit with
    | raised e => rfl
    | outOfFuel => rfl
    | thrown exit =>
      cases handler with
      | none => rfl
      | some handler => simp only [handler.run_eq_answer]

theorem handler_eq_some (call : CatchCall args h block handler) (wanted : Handler)
    (given : Gives args "with" wanted.value) : handler = some wanted := by
  have same := (call.handler _).mp given
  cases handler with
  | none => cases same
  | some handler => cases handler <;> cases wanted <;> cases same <;> rfl

theorem unhandled (call : CatchCall args h block handler) (unused : ¬ Uses args "with") :
    handler = none := by
  cases handler with
  | none => rfl
  | some handler => exact absurd (uses_with.mpr ⟨_, call.handler_eq⟩) unused

end CatchCall

/-- Any other call is refused before its block is evaluated. -/
theorem catchThrown_refused (ev : Evaluator)
    (refused : ∀ block handler, ¬ CatchCall args s.heap block handler) :
    ∃ e, catchThrown ev args s = .error (.raised e) s := by
  unfold catchThrown
  by_cases list : (args.value 0).kind = .block
  · obtain ⟨block, given⟩ := Value.kind_eq_block.mp list
    rw [given]
    simp only [expectBlock, pure_bind]
    rcases check_outcome args s with ⟨checked, exclusive, names⟩ | ⟨⟨e, denied⟩, -⟩
    · rcases Handler.ofRefinement_outcome "catch" (args.refinement? 5) with
        ⟨handler, same⟩ | ⟨e, no⟩
      · refine absurd ⟨given, exclusive, names, fun v => ?_⟩ (refused block handler)
        rw [gives_with, same]
      · refine ⟨e, ?_⟩
        simp only [Bind.bind, EStateM.bind, checked, no]
        rfl
    · refine ⟨e, ?_⟩
      simp only [Bind.bind, EStateM.bind, denied]
  · have mismatch : ∃ e, expectBlock "catch" "block" (args.value 0) = throw (.raised e) := by
      cases given : args.value 0 <;>
        first | exact ⟨_, rfl⟩ | exact absurd (congrArg Value.kind given) list
    obtain ⟨e, mismatch⟩ := mismatch
    rw [mismatch]
    exact ⟨e, rfl⟩

/-! ## The contract of catch -/

/-- Arguments that catch does not take: a block among the names, or a handler that is neither a
block nor a function. -/
def Misused (args : Args) (h : Heap) : Prop :=
  (∃ name, Lists args h name ∧ name.kind = .block) ∨
    ∃ v, Gives args "with" v ∧ (∀ r, v ≠ .block r) ∧ ∀ f, v ≠ .function f

theorem CatchCall.not_misused (call : CatchCall args h block handler) : ¬ Misused args h := by
  rintro (⟨name, listed, nested⟩ | ⟨v, given, noBlock, noFunction⟩)
  · exact call.names name listed nested
  · have same := (call.handler v).mp given
    cases handler with
    | none => cases same
    | some handler =>
      cases same
      cases handler with
      | block r => exact noBlock r rfl
      | function f => exact noFunction f rfl

theorem exists_catchCall (given : args.value 0 = .block block)
    (exclusive : ¬ (Uses args "any" ∧ Uses args "name")) (proper : ¬ Misused args h) :
    ∃ handler, CatchCall args h block handler := by
  have names (name : Value) (listed : Lists args h name) : name.kind ≠ .block :=
    fun nested => proper (.inl ⟨name, listed, nested⟩)
  have handled : ∃ handler : Option Handler, args.refinement? 5 = handler.map Handler.value := by
    cases used : args.refinement? 5 with
    | none => exact ⟨none, rfl⟩
    | some v =>
      cases v with
      | block r => exact ⟨some (.block r), rfl⟩
      | function f => exact ⟨some (.function f), rfl⟩
      | _ => exact absurd (.inr ⟨_, gives_with.mpr used, nofun, nofun⟩) proper
  obtain ⟨handler, same⟩ := handled
  refine ⟨handler, given, exclusive, names, fun v => ?_⟩
  rw [gives_with, same]

/-- What catch makes of each way in which its block can end. -/
structure CatchContract (ev : Evaluator) (args : Args) (block : BlockRef) (s : State) : Prop where
  value (v : Value) (t : State) : ev.all block s = .ok v t → catchThrown ev args s = .ok v t
  raised (e : EvalError) (t : State) :
    ev.all block s = .error (.raised e) t → catchThrown ev args s = .error (.raised e) t
  unclaimed (exit : Thrown) (t : State) :
    ev.all block s = .error (.thrown exit) t → ¬ Claims args t.heap exit →
      catchThrown ev args s = .error (.thrown exit) t
  payload (exit : Thrown) (t : State) :
    ev.all block s = .error (.thrown exit) t → Claims args t.heap exit → ¬ Uses args "with" →
      catchThrown ev args s = .ok exit.payload t
  handlerBlock (exit : Thrown) (t : State) (r : BlockRef) :
    ev.all block s = .error (.thrown exit) t → Claims args t.heap exit →
      Gives args "with" (.block r) → catchThrown ev args s = ev.all r t
  handlerFunction (exit : Thrown) (t : State) (f : Function) :
    ev.all block s = .error (.thrown exit) t → Claims args t.heap exit →
      Gives args "with" (.function f) →
        catchThrown ev args s = ev.apply f (exit.handed f.params) t
  /-- Break, continue, return and exit. -/
  reserved (own : ReservedExit) (exit : Thrown) (h : Heap) :
    own ≠ .quit → exit.isNamed own = true → Claims args h exit →
      Uses args "any" ∨ ∃ name, Lists args h name ∧ h.equal name exit.name = true
  quit (exit : Thrown) (h : Heap) :
    exit.isNamed .quit = true → (Claims args h exit ↔ Uses args "quit")

theorem CatchCall.contract (call : CatchCall args s.heap block handler) (ev : Evaluator) :
    CatchContract ev args block s := by
  have claimed {exit : Thrown} {t : State} (run : ev.all block s = .error (.thrown exit) t)
      (claims : Claims args t.heap exit) : catchThrown ev args s = exit.answer ev handler t := by
    rw [call.apply, run]
    exact if_pos (claims_iff.mpr claims)
  exact
    { value := fun v t run => by rw [call.apply, run]
      raised := fun e t run => by rw [call.apply, run]
      unclaimed := fun exit t run unclaimed => by
        rw [call.apply, run]
        exact if_neg fun claims => unclaimed (claims_iff.mp claims)
      payload := fun exit t run claims unused => by
        rw [claimed run claims, call.unhandled unused]
        rfl
      handlerBlock := fun exit t r run claims given => by
        rw [claimed run claims, call.handler_eq_some (.block r) given]
        rfl
      handlerFunction := fun exit t f run claims given => by
        rw [claimed run claims, call.handler_eq_some (.function f) given]
        rfl
      reserved := fun own exit h other named claims => claims.of_reserved named other
      quit := fun exit h named => claims_quit named }

/-- A catch without both `any` and names is refused for its other arguments, or keeps its
contract. -/
theorem catch_contract (ev : Evaluator) (s : State) (given : args.value 0 = .block block)
    (exclusive : ¬ (Uses args "any" ∧ Uses args "name")) :
    (Misused args s.heap ∧ ∃ e, catchThrown ev args s = .error (.raised e) s) ∨
      (¬ Misused args s.heap ∧ CatchContract ev args block s) := by
  by_cases misused : Misused args s.heap
  · exact .inl ⟨misused, catchThrown_refused ev fun _ _ call => call.not_misused misused⟩
  · obtain ⟨handler, call⟩ := exists_catchCall given exclusive misused
    exact .inr ⟨misused, call.contract ev⟩

def breaking : State where
  heap :=
    { blocks := #[{ data := #[.word .word "break"] }]
      frames := #[.ofFields [("break", .function (.native .breakLoop))]] }
  env := { root := 0 }

def listingBreak : Args :=
  #[.block ⟨0, 0⟩, .logic true, .word .litWord "break", .none, .none, .none, .none]

theorem catch_contract_break :
    ¬ (Uses listingBreak "any" ∧ Uses listingBreak "name") ∧
      catchThrown (evaluator 2) listingBreak breaking = .ok .unset breaking := by
  have exclusive : ¬ (Uses listingBreak "any" ∧ Uses listingBreak "name") :=
    fun ⟨any, _⟩ => absurd (uses_any.mp any) (by decide)
  have unused : ¬ Uses listingBreak "with" := fun used => absurd (uses_with.mp used) nofun
  have proper : ¬ Misused listingBreak breaking.heap := by
    rintro (⟨name, ⟨-, single⟩ | ⟨r, list, -⟩, nested⟩ | ⟨v, given, -⟩)
    · exact single nested
    · cases list
    · exact unused (uses_with.mpr ⟨v, given⟩)
  have thrown : (evaluator 2).all ⟨0, 0⟩ breaking =
      .error (.thrown (.reserved .break .unset)) breaking := by with_unfolding_all rfl
  have claims : Claims listingBreak breaking.heap (.reserved .break .unset) :=
    .inr ⟨rfl, .listed (.inl ⟨rfl, by decide⟩) rfl⟩
  rcases catch_contract (evaluator 2) breaking rfl exclusive with ⟨misused, -⟩ | ⟨-, contract⟩
  · exact absurd misused proper
  · exact ⟨exclusive, contract.payload _ breaking thrown claims unused⟩

end Exits

end BlockScript
