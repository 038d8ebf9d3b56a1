import BlockScript.Proofs.CallNames

/-!
# Names of calls cannot be seen

Every native and every expression does the same when all calls have other names. So does the
evaluator, by induction on how deep it may nest. Two states that differ only in the names of running
calls and in the backtraces of error values can therefore not be told apart, and neither can two
names for a call.
-/

namespace BlockScript

variable {α β : Type}

namespace Renames

variable {ρ} {g : α → β} {ev ev' : Evaluator} (hev : ev.Renames ρ ev')

def mapStep (g : α → β) : ForInStep α → ForInStep β
  | .done a => .done (g a)
  | .yield a => .yield (g a)

def renameTurn (ρ : Renaming) : Loops.Turn → Loops.Turn
  | .finished => .finished
  | .broken payload => .broken (payload.rename ρ)
  | .ran value => .ran (value.rename ρ)

def renameCaught (ρ : Renaming) (g : α → β) : Except Thrown α → Except Thrown β
  | .ok a => .ok (g a)
  | .error exit => .error (exit.rename ρ)

def renameFilter (ρ : Renaming) (filter : Exits.CatchFilter) : Exits.CatchFilter :=
  { filter with names := filter.names.map (Value.rename ρ) }

def renameGathered (ρ : Renaming) (gathered : Gathered) : Gathered :=
  { gathered with args := gathered.args.rename ρ }

include hev

theorem foldFrom {f : α → Value → ForInStep α} {f' : β → Value → ForInStep β}
    (steps : ∀ a v, f' (g a) (v.rename ρ) = mapStep g (f a v)) (block : BlockRef)
    (n position : Nat) (a : α) :
    Renames ρ g (ev.foldFrom block f n position a) (ev'.foldFrom block f' n position (g a)) := by
  induction n generalizing position a with
  | zero => exact throw rfl
  | succ n ih =>
    simp only [Evaluator.foldFrom]
    refine bind (hev.next block position) fun step => ?_
    match step with
    | none => exact pure rfl
    | some (v, next) =>
      simp only [Option.map_some, Prod.map, id_eq]
      rw [steps]
      cases f a v with
      | done a => exact pure rfl
      | yield a => exact ih next a

theorem fold {f : α → Value → ForInStep α} {f' : β → Value → ForInStep β}
    (steps : ∀ a v, f' (g a) (v.rename ρ) = mapStep g (f a v)) (block : BlockRef) (a : α) :
    Renames ρ g (ev.fold block f a) (ev'.fold block f' (g a)) := by
  rw [Evaluator.fold, Evaluator.fold, hev.fuel]
  exact foldFrom hev steps block _ _ a

theorem all (block : BlockRef) : Renames ρ (Value.rename ρ) (ev.all block) (ev'.all block) :=
  fold hev (fun _ _ => rfl) block Value.unset

theorem reduce (block : BlockRef) :
    Renames ρ (Value.rename ρ) (ev.reduce block) (ev'.reduce block) := by
  let push (values : Array Value) (v : Value) : ForInStep (Array Value) := .yield (values.push v)
  have pushes (values : Array Value) (v : Value) :
      push (values.map (Value.rename ρ)) (v.rename ρ) =
        mapStep (Array.map (Value.rename ρ)) (push values v) :=
    congrArg ForInStep.yield Array.map_push.symm
  have values := fold hev pushes block #[]
  rw [Array.map_empty] at values
  exact bind values newBlock

theorem branch (only : Bool) (v : Value) :
    Renames ρ (Value.rename ρ) (ev.branch only v) (ev'.branch only (v.rename ρ)) := by
  cases v with
  | block r => exact ite Iff.rfl (pure rfl) (all hev r)
  | _ => exact pure rfl

theorem apply (f : Function) (values : List Value) :
    Renames ρ (Value.rename ρ) (ev.apply f values) (ev'.apply f (values.map (Value.rename ρ))) := by
  rw [Evaluator.apply, Evaluator.apply, Function.positional_rename]
  exact hev.invoke "" f _

/-! ### Handlers, exits and errors -/

omit hev in
theorem ofArgs_rename (args : Args) :
    Exits.CatchFilter.ofArgs (args.rename ρ) = renameFilter ρ (Exits.CatchFilter.ofArgs args) := by
  simp only [Exits.CatchFilter.ofArgs, Args.refinement?_rename, Args.refined_rename, renameFilter]

omit hev in
theorem claims_rename (filter : Exits.CatchFilter) (h : Heap) (exit : Thrown) :
    (renameFilter ρ filter).claims (h.rename ρ) (exit.rename ρ) = filter.claims h exit := by
  have unnamed : (exit.rename ρ).isUnnamed = exit.isUnnamed := exit.name.isNone_rename ρ
  have equal (v : Value) : (h.rename ρ).equal (v.rename ρ) (exit.rename ρ).name =
      h.equal v exit.name := h.equal_rename ρ v exit.name
  rw [Exits.CatchFilter.claims, Exits.CatchFilter.claims, Thrown.isNamed_rename, unnamed,
    renameFilter]
  cases filter.names with
  | none => rfl
  | some names =>
    simp only [Option.map_some, Heap.listed_rename, List.any_map, Function.comp_def, equal]

omit hev in
theorem check (filter : Exits.CatchFilter) :
    Renames ρ id filter.check (renameFilter ρ filter).check := by
  unfold Exits.CatchFilter.check
  refine ite (by rw [renameFilter, Option.isSome_map]) (raise _) ?_
  rw [renameFilter]
  cases filter.names with
  | none => exact pure rfl
  | some names =>
    cases names with
    | block r =>
      refine getHeap_then fun h => ?_
      simp only [Heap.tail_rename, List.find?_map, Function.comp_def, Value.kind_rename]
      cases (h.tail r).find? (·.kind == .block) with
      | none => exact pure rfl
      | some nested => exact bind (moldValue nested) fun _ => raise _
    | _ => exact pure rfl

omit hev in
theorem ofRefinement (construct : String) (v : Option Value) :
    Renames ρ id (Handler.ofRefinement construct v)
      (Handler.ofRefinement construct (v.map (Value.rename ρ))) := by
  match v with
  | none => exact pure rfl
  | some v =>
    have handler : Renames ρ id (Handler.ofValue construct v)
        (Handler.ofValue construct (v.rename ρ)) := by
      cases v with
      | block r => exact pure rfl
      | function f => exact pure rfl
      | _ => exact raiseType _ _ _
    exact bind handler fun _ => pure rfl

theorem handle (payload : Value) (name : Option Value) (handler : Handler) :
    Renames ρ (Value.rename ρ) (handler.run ev payload name)
      (handler.run ev' (payload.rename ρ) (name.map (Value.rename ρ))) := by
  match handler with
  | .block r => exact all hev r
  | .function f =>
    simp only [Handler.run]
    cases f.handlerShape with
    | nullary => exact apply hev f []
    | unary => exact apply hev f [payload]
    | binary => cases name <;> exact apply hev f _

omit hev in
theorem catching {m : EvalM α} {m' : EvalM β} (body : Renames ρ g m m')
    (filter : Exits.CatchFilter) :
    Renames ρ (renameCaught ρ g) (Exits.catching filter m)
      (Exits.catching (renameFilter ρ filter) m') := by
  refine claiming body (fun h exit => ?_) fun _ => rfl
  rw [claims_rename, apply_ite (Option.map _)]
  rfl

theorem catchThrown (args : Args) :
    Renames ρ (Value.rename ρ) (Exits.catchThrown ev args)
      (Exits.catchThrown ev' (args.rename ρ)) := by
  unfold Exits.catchThrown
  rw [Args.value_rename, Args.refinement?_rename, ofArgs_rename]
  generalize Exits.CatchFilter.ofArgs args = filter
  refine bind (expectBlock _ _ _) fun block => bind (check filter) fun _ =>
    bind (ofRefinement _ _) fun handler => bind (catching (all hev block) filter) fun caught => ?_
  match caught, handler with
  | .ok _, _ => exact pure rfl
  | .error _, none => exact pure rfl
  | .error exit, some handler => exact handle hev exit.payload (some exit.name) handler

theorem trap (args : Args) :
    Renames ρ (Value.rename ρ) (Raising.trap ev args) (Raising.trap ev' (args.rename ρ)) := by
  unfold Raising.trap
  rw [Args.value_rename, Args.refinement?_rename]
  refine bind (expectBlock _ _ _) fun block => bind (ofRefinement _ _) fun handler =>
    bind (guarded (all hev block)) fun outcome => ?_
  match outcome, handler with
  | .ok _, _ => exact pure rfl
  | .error _, none => exact pure rfl
  | .error e, some handler => exact handle hev (.error e) none handler

theorem attempt (args : Args) :
    Renames ρ (Value.rename ρ) (Raising.attempt ev args) (Raising.attempt ev' (args.rename ρ)) := by
  unfold Raising.attempt
  rw [Args.value_rename]
  refine bind (expectBlock _ _ _) fun block => bind (guarded (all hev block)) fun outcome => ?_
  match outcome with
  | .ok _ => exact pure rfl
  | .error _ => exact pure rfl

theorem fail (args : Args) :
    Renames ρ (Value.rename ρ) (Raising.fail ev args) (Raising.fail ev' (args.rename ρ)) := by
  unfold Raising.fail
  rw [Args.value_rename]
  cases args.value 0 with
  | error e => exact throw rfl
  | text text => exact getHeap_then fun h => raise _
  | block r =>
    refine get_then fun s => ite ?_ (bind (reduce hev r) fun v => bind (formValue v) fun _ =>
      raise _) (raise _)
    have allowed (v : Value) := s.heap.allowed_rename ρ s.env v
    simp only [State.rename, Heap.tail_rename, List.all_map, Function.comp_def, allowed]
  | _ => exact raiseType _ _ _

/-! ### Conditionals -/

theorem allOf (args : Args) :
    Renames ρ (Value.rename ρ) (Conditionals.allOf ev args)
      (Conditionals.allOf ev' (args.rename ρ)) := by
  unfold Conditionals.allOf
  rw [Args.value_rename]
  refine bind (expectBlock _ _ _) fun block => fold hev (fun _ v => ?_) block (Value.logic true)
  rw [Value.isTruthy_rename, apply_ite (mapStep _)]
  rfl

theorem anyOf (args : Args) :
    Renames ρ (Value.rename ρ) (Conditionals.anyOf ev args)
      (Conditionals.anyOf ev' (args.rename ρ)) := by
  unfold Conditionals.anyOf
  rw [Args.value_rename]
  refine bind (expectBlock _ _ _) fun block => fold hev (fun _ v => ?_) block Value.none
  rw [Value.isTruthy_rename, Value.isUnset_rename, apply_ite (mapStep _)]
  rfl

theorem casePairs (block : BlockRef) (every only : Bool) (n position : Nat) (result : Value) :
    Renames ρ (Value.rename ρ) (Conditionals.casePairs ev block every only n position result)
      (Conditionals.casePairs ev' block every only n position (result.rename ρ)) := by
  induction n generalizing position result with
  | zero => exact throw rfl
  | succ n ih =>
    simp only [Conditionals.casePairs]
    refine bind (hev.next block position) fun step => ?_
    match step with
    | none => exact pure rfl
    | some (condition, middle) =>
      refine ite (by simp only [Value.isUnset_rename]) (raise _)
        (bind (hev.next block middle) fun step => ?_)
      match step with
      | none => exact raise _
      | some (body, next) =>
        refine ite (by simp only [Value.isTruthy_rename]) ?_ (ih next result)
        exact bind (branch hev only body) fun result =>
          ite Iff.rfl (ih next result) (pure rfl)

theorem caseOf (args : Args) :
    Renames ρ (Value.rename ρ) (Conditionals.caseOf ev args)
      (Conditionals.caseOf ev' (args.rename ρ)) := by
  unfold Conditionals.caseOf
  rw [Args.value_rename, Args.refined_rename, Args.refined_rename, hev.fuel]
  exact bind (expectBlock _ _ _) fun block => casePairs hev block _ _ _ _ Value.none

theorem candidate (item : Value) :
    Renames ρ (Value.rename ρ) (Conditionals.candidate ev item)
      (Conditionals.candidate ev' (item.rename ρ)) := by
  cases item with
  | paren r => exact all hev r
  | word kind name =>
    cases kind with
    | getWord => exact fetch name
    | _ => exact pure rfl
  | path kind segments =>
    cases kind with
    | getPath => exact pathGet segments
    | _ => exact pure rfl
  | _ => exact pure rfl

theorem switchItems (value : Value) (cases : BlockRef) (every strict : Bool) (n position : Nat)
    (found : Option Value) (trailing : Value) :
    Renames ρ (Prod.map (Option.map (Value.rename ρ)) (Value.rename ρ))
      (Conditionals.switchItems ev value cases every strict n position found trailing)
      (Conditionals.switchItems ev' (value.rename ρ) cases every strict n position
        (found.map (Value.rename ρ)) (trailing.rename ρ)) := by
  induction n generalizing position found trailing with
  | zero => exact throw rfl
  | succ n ih =>
    simp only [Conditionals.switchItems]
    refine getHeap_then fun h => ?_
    rw [Heap.item?_rename]
    cases h.item? cases position with
    | none => exact pure rfl
    | some item =>
      cases item with
      | block r => exact ih (position + 1) found Value.none
      | _ =>
        refine bind (candidate hev _) fun compared => getHeap_then fun h => ?_
        refine ite (by rw [Heap.equalIn_rename]) ?_ (ih (position + 1) found compared)
        rw [Heap.nextBody?_rename]
        match Conditionals.nextBody? h cases (position + 1) with
        | none => exact pure rfl
        | some (body, next) =>
          exact bind (all hev body) fun result =>
            ite Iff.rfl (ih next (some result) compared) (pure rfl)

theorem switchOn (args : Args) :
    Renames ρ (Value.rename ρ) (Conditionals.switchOn ev args)
      (Conditionals.switchOn ev' (args.rename ρ)) := by
  unfold Conditionals.switchOn
  rw [Args.value_rename, Args.value_rename, Args.refined_rename, Args.refined_rename,
    Args.refinement?_rename, hev.fuel]
  refine bind (expectBlock _ _ _) fun cases =>
    bind (switchItems hev _ cases _ _ _ _ none Value.none) fun (found, trailing) => ?_
  match found, args.refinement? 2 with
  | some _, _ => exact pure rfl
  | none, some default => exact branch hev false default
  | none, none => exact pure rfl

omit hev in
theorem truth (function : String) (v : Value) :
    Renames ρ id (Conditionals.truth function v) (Conditionals.truth function (v.rename ρ)) := by
  unfold Conditionals.truth
  exact ite (by rw [Value.isUnset_rename]) (raiseType _ _ v) (pure (v.isTruthy_rename ρ))

theorem ifTrue (args : Args) :
    Renames ρ (Value.rename ρ) (Conditionals.ifTrue ev args)
      (Conditionals.ifTrue ev' (args.rename ρ)) := by
  unfold Conditionals.ifTrue
  rw [Args.value_rename, Args.value_rename, Args.refined_rename]
  exact bind (truth _ _) fun _ => ite Iff.rfl (branch hev _ _) (pure rfl)

theorem either (args : Args) :
    Renames ρ (Value.rename ρ) (Conditionals.either ev args)
      (Conditionals.either ev' (args.rename ρ)) := by
  unfold Conditionals.either
  rw [Args.value_rename, Args.value_rename, Args.value_rename, Args.refined_rename]
  refine bind (truth _ _) fun holds => ?_
  cases holds with
  | true => exact branch hev _ _
  | false => exact branch hev _ _

theorem ifFalse (args : Args) :
    Renames ρ (Value.rename ρ) (Conditionals.ifFalse ev args)
      (Conditionals.ifFalse ev' (args.rename ρ)) := by
  unfold Conditionals.ifFalse
  rw [Args.value_rename, Args.value_rename, Args.refined_rename]
  exact bind (truth _ _) fun _ => ite Iff.rfl (pure rfl) (branch hev _ _)

/-! ### Loops -/

omit hev in
theorem turn {step step' : EvalM (Option Value)}
    (steps : Renames ρ (Option.map (Value.rename ρ)) step step') :
    Renames ρ (renameTurn ρ) (Loops.turn step) (Loops.turn step') := by
  refine claiming steps (fun _ exit => ?_) fun value => by cases value <;> rfl
  unfold Loops.claimed
  rw [Thrown.isNamed_rename, Thrown.isNamed_rename]
  split
  · rfl
  · split <;> rfl

omit hev in
theorem untilFinished {step step' : EvalM (Option Value)}
    (steps : Renames ρ (Option.map (Value.rename ρ)) step step') (n : Nat) (result : Value) :
    Renames ρ (Value.rename ρ) (Loops.untilFinished step n result)
      (Loops.untilFinished step' n (result.rename ρ)) := by
  induction n generalizing result with
  | zero => exact throw rfl
  | succ n ih =>
    simp only [Loops.untilFinished]
    refine bind (turn steps) fun t => ?_
    cases t with
    | finished => exact pure rfl
    | broken payload => exact pure rfl
    | ran value => exact ih value

/-- One repetition of the body of a loop. -/
theorem repetition (body : BlockRef) :
    Renames ρ (Option.map (Value.rename ρ)) (some <$> ev.all body) (some <$> ev'.all body) :=
  bind (all hev body) fun _ => pure rfl

theorem times (body : BlockRef) (count : Nat) (result : Value) :
    Renames ρ (Value.rename ρ) (Loops.times ev body count result)
      (Loops.times ev' body count (result.rename ρ)) := by
  induction count generalizing result with
  | zero => exact pure rfl
  | succ count ih =>
    simp only [Loops.times]
    refine bind (turn (repetition hev body)) fun t => ?_
    cases t with
    | finished => exact pure rfl
    | broken payload => exact pure rfl
    | ran value => exact ih value

theorem loopTimes (args : Args) :
    Renames ρ (Value.rename ρ) (Loops.loopTimes ev args) (Loops.loopTimes ev' (args.rename ρ)) := by
  unfold Loops.loopTimes
  rw [Args.value_rename, Args.value_rename]
  exact bind (expectInteger _ _ _) fun count => bind (expectBlock _ _ _) fun body =>
    times hev body _ Value.none

theorem whileTrue (args : Args) :
    Renames ρ (Value.rename ρ) (Loops.whileTrue ev args) (Loops.whileTrue ev' (args.rename ρ)) := by
  unfold Loops.whileTrue
  rw [Args.value_rename, Args.value_rename, hev.fuel]
  refine bind (expectBlock _ _ _) fun condition => bind (expectBlock _ _ _) fun body =>
    untilFinished (bind (all hev condition) fun holds => ?_) _ Value.none
  exact ite (by rw [Value.isTruthy_rename]) (bind (all hev body) fun _ => pure rfl) (pure rfl)

theorem forever (args : Args) :
    Renames ρ (Value.rename ρ) (Loops.forever ev args) (Loops.forever ev' (args.rename ρ)) := by
  unfold Loops.forever
  rw [Args.value_rename, hev.fuel]
  exact bind (expectBlock _ _ _) fun body => untilFinished (repetition hev body) _ Value.none

/-! ### Evaluation on request -/

theorem doValue (args : Args) :
    Renames ρ (Value.rename ρ) (Evaluation.doValue ev args)
      (Evaluation.doValue ev' (args.rename ρ)) := by
  unfold Evaluation.doValue
  rw [Args.value_rename]
  cases args.value 0 with
  | block r => exact all hev r
  | paren r => exact all hev r
  | none => exact pure rfl
  | text text =>
    refine getHeap_then fun h => ?_
    rw [Heap.text_rename]
    cases Datum.read (h.text text) with
    | ok data => exact bind (alloc fun h => h.loadBlock_rename ρ data) fun r => all hev r
    | error e => exact raise _
  | _ => exact raise _

theorem object (args : Args) :
    Renames ρ (Value.rename ρ) (Evaluation.object ev args)
      (Evaluation.object ev' (args.rename ρ)) := by
  unfold Evaluation.object
  rw [Args.value_rename]
  refine bind (expectBlock _ _ _) fun body => getHeap_then fun h => ?_
  rw [id_eq, Heap.tail_rename, Heap.fieldNames_rename]
  generalize Evaluation.fieldNames (h.tail body) = names
  refine bind (alloc fun h => ?_) fun frame =>
    bind (withScope (all hev body) frame) fun _ => pure rfl
  have made := h.newFrame_rename ρ (names.map (·, Value.none))
  rwa [List.map_map] at made

theorem printLine (args : Args) :
    Renames ρ (Value.rename ρ) (Words.printLine ev args)
      (Words.printLine ev' (args.rename ρ)) := by
  unfold Words.printLine
  rw [Args.value_rename]
  have printed (v : Value) : Renames ρ (Value.rename ρ)
      (do BlockScript.print (← BlockScript.formValue v); return .unset)
      (do BlockScript.print (← BlockScript.formValue (v.rename ρ)); return .unset) :=
    bind (formValue v) fun line => bind (print line) fun _ => pure rfl
  cases args.value 0 with
  | block r => exact bind (reduce hev r) printed
  | _ => exact bind (g := Value.rename ρ) (pure rfl) printed

theorem referenced (v : Value) :
    Renames ρ (Value.rename ρ) (Protecting.referenced ev v)
      (Protecting.referenced ev' (v.rename ρ)) := by
  cases v with
  | word kind name => exact bind (lookup name) fun found => pure (by cases found <;> rfl)
  | path kind segments =>
    let items : Array Value := #[.path .path segments]
    have plain : items.map (Value.rename ρ) = items := List.map_toArray.trans rfl
    refine bind (alloc fun h => ?_) fun r => all hev r
    have made := h.newBlock_rename ρ items
    rwa [plain] at made
  | _ => exact pure rfl

theorem protecting (target : Protecting.Target) (v : Value) :
    Renames ρ (Value.rename ρ) (Protecting.apply ev target v)
      (Protecting.apply ev' target (v.rename ρ)) := by
  have container (v : Value) : Renames ρ id
      (do
        if target.flags.hide then BlockScript.raise .badRefines
        else let _ ← Protecting.protectValue target.flags [] v : EvalM Unit)
      (do
        if target.flags.hide then BlockScript.raise .badRefines
        else let _ ← Protecting.protectValue target.flags [] (v.rename ρ) : EvalM Unit) :=
    ite Iff.rfl (raise _) (bind (protectValue _ _ v) fun _ => pure rfl)
  have words (items : List Value) : Renames ρ id
      (items.foldlM (Protecting.protectBinding target.flags) [])
      ((items.map (Value.rename ρ)).foldlM (Protecting.protectBinding target.flags) []) :=
    foldlM _ (protectBinding target.flags) items []
  have values (items : List Value) : Renames ρ id
      (items.foldlM (fun visited item => do
        Protecting.protectValue target.flags visited (← Protecting.referenced ev item)) [])
      ((items.map (Value.rename ρ)).foldlM (fun visited item => do
        Protecting.protectValue target.flags visited (← Protecting.referenced ev' item)) []) := by
    refine foldlM _ (fun visited item => ?_) items []
    exact bind (referenced hev item) (protectValue _ visited)
  unfold Protecting.apply
  cases v with
  | word kind name => exact bind (protectBinding _ _ _) fun _ => pure rfl
  | path kind segments => exact bind (protectBinding _ _ _) fun _ => pure rfl
  | block r =>
    refine getHeap_then fun h => ?_
    rw [Heap.tail_rename]
    exact ite Iff.rfl (bind (words _) fun _ => pure rfl)
      (ite Iff.rfl (bind (values _) fun _ => pure rfl) (bind (container _) fun _ => pure rfl))
  | _ => exact bind (container _) fun _ => pure rfl

/-! ### Natives and functions -/

theorem native (n : Native) (args : Args) :
    Renames ρ (Value.rename ρ) (n.run ev args) (n.run ev' (args.rename ρ)) := by
  cases n with
  | breakLoop =>
    simp only [Native.run, Exits.breakLoop, Args.refinement?_rename, ← Option.map_or]
    exact throwReserved _ _
  | continueLoop => exact throwReserved .continue none
  | returnValue =>
    simp only [Native.run, Exits.returnValue, Args.value_rename]
    exact throwReserved .return (some _)
  | exitFunction => exact exitFunction args
  | quit =>
    simp only [Native.run, Exits.quit, Args.refinement?_rename]
    exact throwReserved _ _
  | throwValue => exact throwValue args
  | catchThrown => exact catchThrown hev args
  | trap => exact trap hev args
  | attempt => exact attempt hev args
  | fail => exact fail hev args
  | protect =>
    simp only [Native.run, Protecting.protect, Args.value_rename, Args.refined_rename]
    exact protecting hev _ _
  | unprotect =>
    simp only [Native.run, Protecting.unprotect, Args.value_rename, Args.refined_rename]
    exact protecting hev _ _
  | allOf => exact allOf hev args
  | anyOf => exact anyOf hev args
  | caseOf => exact caseOf hev args
  | switchOn => exact switchOn hev args
  | ifTrue => exact ifTrue hev args
  | either => exact either hev args
  | ifFalse => exact ifFalse hev args
  | loopTimes => exact loopTimes hev args
  | whileTrue => exact whileTrue hev args
  | forever => exact forever hev args
  | doValue => exact doValue hev args
  | reduce =>
    simp only [Native.run, Evaluation.reduce, Args.value_rename]
    exact bind (expectBlock _ _ _) fun block => reduce hev block
  | also => exact pure (args.value_rename ρ 0)
  | comment => exact pure rfl
  | func => exact func args
  | does => exact does args
  | object => exact object hev args
  | context => exact object hev args
  | append => exact append args
  | insert => exact insert args
  | poke => exact poke args
  | clear => exact clear args
  | first =>
    simp only [Native.run, SeriesAccess.first, Args.value_rename]
    exact pickFrom _ _ _
  | pick => exact pick args
  | lengthOf => exact lengthOf args
  | copy => exact copy args
  | wordsOf => exact wordsOf args
  | operator op => exact operate op args
  | negation => exact pure (by rw [Args.value_rename, Value.isTruthy_rename]; rfl)
  | set => exact set args
  | get => exact get args
  | hasValue => exact hasValue args
  | form => exact form args
  | mold => exact mold args
  | print => exact printLine hev args
  | typeOf => exact pure (by rw [Args.value_rename, Value.kind_rename]; rfl)
  | isNone => exact pure (by rw [Args.value_rename, Value.isNone_rename]; rfl)
  | isUnset => exact pure (by rw [Args.value_rename, Value.isUnset_rename]; rfl)
  | isError => exact pure (by rw [Args.value_rename, Value.kind_rename]; rfl)

theorem runBody (params : List Param) (body : BlockRef) (args : Args) :
    Renames ρ (Value.rename ρ) (runBody ev params body args)
      (runBody ev' params body (args.rename ρ)) := by
  refine bind (alloc fun h => ?_) fun frame =>
    claiming (withScope (all hev body) frame) (fun _ exit => ?_) fun _ => rfl
  · rw [Args.rename, Array.toList_map, List.zip_map_right]
    exact h.newFrame_rename ρ _
  · rw [Thrown.isNamed_rename, Thrown.isNamed_rename, apply_ite (Option.map _)]
    rfl

theorem function (f : Function) (args : Args) :
    Renames ρ (Value.rename ρ) (f.run ev args) (f.run ev' (args.rename ρ)) := by
  cases f with
  | native n => exact native hev n args
  | user number params body => exact runBody hev params body args

theorem call (name : String) (f : Function) (args : Args) :
    Renames ρ (Value.rename ρ) (BlockScript.invoke ev name f args)
      (BlockScript.invoke ev' (ρ.name name) f (args.rename ρ)) :=
  withCall (function hev f args) name

/-! ### Gathering arguments -/

theorem gatherArg (function : String) (param : Param) (block : BlockRef) (position : Nat) :
    Renames ρ (Prod.map (Value.rename ρ) id) (gatherArg ev function param block position)
      (gatherArg ev' function param block position) := by
  unfold BlockScript.gatherArg
  dsimp only
  split
  · refine getHeap_then fun h => ?_
    rw [Heap.item?_rename]
    cases h.item? block position with
    | none => exact raise _
    | some item => exact pure rfl
  · refine getHeap_then fun h => ?_
    rw [Heap.item?_rename]
    cases h.item? block position with
    | none => exact raise _
    | some item =>
      cases item with
      | word kind name =>
        cases kind with
        | word => exact bind (fetch name) fun _ => pure rfl
        | getWord => exact bind (fetch name) fun _ => pure rfl
        | _ => exact pure rfl
      | _ => exact pure rfl
  · refine bind (hev.next block position) fun step => ?_
    match step with
    | some step => exact pure rfl
    | none => exact raise _

omit hev in
theorem renameGathered_set (gathered : Gathered) (slot : Nat) (v : Value) (position : Nat) :
    renameGathered ρ ⟨gathered.args.setIfInBounds slot v, position⟩ =
      ⟨(renameGathered ρ gathered).args.setIfInBounds slot (v.rename ρ), position⟩ :=
  congrArg (Gathered.mk · position) Array.map_setIfInBounds

theorem gatherParams (function : String) (block : BlockRef) (gathered : Gathered)
    (params : List (Nat × Param)) :
    Renames ρ (renameGathered ρ) (gatherParams ev function block gathered params)
      (gatherParams ev' function block (renameGathered ρ gathered) params) := by
  unfold BlockScript.gatherParams
  induction params generalizing gathered with
  | nil => exact pure rfl
  | cons slot params ih =>
    exact bind (bind (gatherArg hev function slot.2 block gathered.position) fun step =>
      pure (renameGathered_set gathered slot.1 step.1 step.2).symm) ih

theorem gatherRefinements (name : String) (f : Function) (block : BlockRef) (used : List Nat)
    (segments : List Segment) (gathered : Gathered) :
    Renames ρ (renameGathered ρ) (gatherRefinements ev name f block used segments gathered)
      (gatherRefinements ev' name f block used segments (renameGathered ρ gathered)) := by
  induction segments generalizing used gathered with
  | nil => exact pure rfl
  | cons segment segments ih =>
    simp only [BlockScript.gatherRefinements]
    split
    · exact raise _
    · next slot _ =>
      have filled := gatherParams hev name block
        ⟨gathered.args.setIfInBounds slot (.logic true), gathered.position⟩
        (f.refinementParams slot)
      rw [renameGathered_set] at filled
      exact ite Iff.rfl (raise _) (bind filled fun gathered => ih _ gathered)

theorem gatherCall (name : String) (f : Function) (refinements : List Segment) (block : BlockRef)
    (position : Nat) :
    Renames ρ (Prod.map (Value.rename ρ) id) (BlockScript.call ev name f refinements block position)
      (BlockScript.call ev' name f refinements block position) := by
  have none : renameGathered ρ ⟨Array.replicate f.arity .none, position⟩ =
      ⟨Array.replicate f.arity .none, position⟩ :=
    congrArg (Gathered.mk · position) Array.map_replicate
  have fixed := gatherParams hev name block ⟨Array.replicate f.arity .none, position⟩ f.fixedParams
  rw [none] at fixed
  exact bind fixed fun gathered => bind (gatherRefinements hev _ _ _ _ _ gathered) fun gathered =>
    bind (hev.invoke name f gathered.args) fun _ => pure rfl

/-! ### Expressions -/

theorem selectPath (segments : List Segment) (block : BlockRef) (position : Nat) (value : Value)
    (here : Segment) (rest : List Segment) :
    Renames ρ (Prod.map (Value.rename ρ) id) (selectPath ev segments block position value here rest)
      (selectPath ev' segments block position (value.rename ρ) here rest) := by
  induction rest generalizing value here with
  | nil =>
    cases value with
    | function f => exact gatherCall hev _ f [] block position
    | _ => exact pure rfl
  | cons segment rest ih =>
    cases value with
    | function f => exact gatherCall hev _ f (segment :: rest) block position
    | _ => exact bind (select segments _ segment) fun v => ih v segment

theorem pathTerm (segments : List Segment) (block : BlockRef) (position : Nat) :
    Renames ρ (Prod.map (Value.rename ρ) id) (pathTerm ev segments block position)
      (pathTerm ev' segments block position) := by
  refine bind (pathHead segments) fun value => ?_
  match segments with
  | [] => exact pure rfl
  | here :: rest => exact selectPath hev _ _ _ _ _ _

theorem assigned (target : String) (block : BlockRef) (position : Nat) :
    Renames ρ (Prod.map (Value.rename ρ) id) (assigned ev target block position)
      (assigned ev' target block position) := by
  refine bind (hev.next block position) fun step => ?_
  match step with
  | none => exact raise _
  | some (value, position) =>
    exact ite (by simp only [Value.isUnset_rename]) (raise _) (pure rfl)

theorem term (block : BlockRef) (position : Nat) (item : Value) :
    Renames ρ (Prod.map (Value.rename ρ) id) (term ev block position item)
      (term ev' block position (item.rename ρ)) := by
  cases item with
  | word kind name =>
    cases kind with
    | word =>
      refine bind (lookupSet name) fun v => ?_
      cases v with
      | function f => exact gatherCall hev _ _ _ _ _
      | _ => exact pure rfl
    | setWord =>
      exact bind (assigned hev _ _ _) fun (value, position) =>
        bind (assignWord name value) fun _ => pure rfl
    | getWord => exact bind (fetch name) fun _ => pure rfl
    | _ => exact pure rfl
  | path kind segments =>
    cases kind with
    | path => exact pathTerm hev _ _ _
    | setPath =>
      exact bind (assigned hev _ _ _) fun (value, position) =>
        bind (pathSet segments value) fun _ => pure rfl
    | getPath => exact bind (pathGet segments) fun _ => pure rfl
    | _ => exact pure rfl
  | paren body => exact bind (all hev body) fun _ => pure rfl
  | _ => exact pure rfl

omit hev in
theorem operatorAt (block : BlockRef) (position : Nat) :
    Renames ρ id (operatorAt block position) (operatorAt block position) := by
  refine getHeap_then fun h => ?_
  rw [Heap.item?_rename]
  cases h.item? block position with
  | none => exact pure rfl
  | some item =>
    cases item with
    | word kind name =>
      cases kind with
      | word =>
        refine bind (lookup name) fun found => ?_
        cases found with
        | none => exact pure rfl
        | some v => cases v <;> exact pure rfl
      | _ => exact pure rfl
    | _ => exact pure rfl

theorem operators (block : BlockRef) (n : Nat) (left : Value) (position : Nat) :
    Renames ρ (Prod.map (Value.rename ρ) id) (operators ev block n left position)
      (operators ev' block n (left.rename ρ) position) := by
  induction n generalizing left position with
  | zero => exact throw rfl
  | succ n ih =>
    simp only [BlockScript.operators]
    refine bind (operatorAt block position) fun found => ?_
    match found with
    | none => exact pure rfl
    | some (name, f) =>
      refine getHeap_then fun h => ?_
      simp only [Heap.item?_rename]
      cases h.item? block (position + 1) with
      | none => exact raise _
      | some operand =>
        refine bind (term hev _ _ operand) fun (right, position) =>
          bind ?_ fun value => ih value position
        have args := f.positional_rename ρ [left, right]
        exact args ▸ hev.invoke name f _

theorem expression (block : BlockRef) (position : Nat) :
    Renames ρ (Option.map (Prod.map (Value.rename ρ) id)) (expression ev block position)
      (expression ev' block position) := by
  refine getHeap_then fun h => ?_
  rw [Heap.item?_rename, hev.fuel]
  cases h.item? block position with
  | none => exact pure rfl
  | some item =>
    exact bind (term hev _ _ item) fun (value, position) =>
      bind (operators hev block _ value position) fun _ => pure rfl

end Renames

/-! ## The evaluator -/

def evaluatorRenaming (ρ : Renaming) (fuel : Nat) : Evaluator where
  next block position :=
    match fuel with
    | 0 => throw .outOfFuel
    | fuel + 1 => expression (evaluatorRenaming ρ fuel) block position
  invoke name f args :=
    match fuel with
    | 0 => throw .outOfFuel
    | fuel + 1 => invoke (evaluatorRenaming ρ fuel) (ρ.name name) f args
  fuel

theorem evaluator_renames (ρ : Renaming) (fuel : Nat) :
    (evaluator fuel).Renames ρ (evaluatorRenaming ρ fuel) := by
  induction fuel with
  | zero => exact ⟨fun _ _ => .throw rfl, fun _ _ _ => .throw rfl, rfl⟩
  | succ fuel ih =>
    exact ⟨fun block position => .expression ih block position,
      fun name f args => .call ih name f args, rfl⟩

/-- Both ends are the same when names of calls that are renamed to one name are not told apart. -/
def SameButNames (ρ : Renaming) (r r' : EStateM.Result Exit State Value) : Prop :=
  renameEnd ρ (Value.rename ρ) r' = renameEnd ρ (Value.rename ρ) r

/-- Calls of a function under two names go the same way, from states that differ only in names. -/
theorem invoke_sameButNames (ρ : Renaming) (fuel : Nat) (f : Function) {args args' : Args}
    {name name' : String} {s t : State} (named : ρ.name name' = ρ.name name)
    (given : args'.rename ρ = args.rename ρ) (same : t.rename ρ = s.rename ρ) :
    SameButNames ρ (invoke (evaluator fuel) name f args s)
      (invoke (evaluator fuel) name' f args' t) := by
  have renames := evaluator_renames ρ fuel
  rw [SameButNames, ← Renames.call renames name f args s, ← Renames.call renames name' f args' t,
    named, given, same]

end BlockScript
