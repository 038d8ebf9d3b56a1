import BlockScript.Proofs.Routine

/-!
# Constructs are routines

Every native, every function and the evaluation of an expression is a routine. What each of them
may claim is said by `Native.Claims` and `Function.Claims`: a loop its break and continue, a
function its return and exit, a catch what its filter claims, trap and attempt raised errors, and
nothing else claims anything. What walks they may make is said by `Native.Walks` and
`Function.Walks`: protect makes those that set, unprotect those that clear, and nothing else makes
any.
-/

namespace BlockScript

def Native.Claims (n : Native) (args : Args) (h : Heap) : Exit → Prop
  | .thrown exit =>
    match n with
    | .loopTimes | .whileTrue | .forever => exit.isNamed .break ∨ exit.isNamed .continue
    | .catchThrown => (Exits.CatchFilter.ofArgs args).claims h exit
    | _ => False
  | .raised _ => n = .trap ∨ n = .attempt
  | .outOfFuel => False

def ClaimsReturn (_ : Heap) : Exit → Prop
  | .thrown exit => exit.isNamed .return ∨ exit.isNamed .exit
  | _ => False

def ClaimsNothing (_ : Heap) (_ : Exit) : Prop := False

def Function.Claims (args : Args) : Function → Heap → Exit → Prop
  | .native n => n.Claims args
  | .user _ _ _ => ClaimsReturn

def Native.Walks : Native → ProtectFlags → Prop
  | .protect, flags => flags.set = true
  | .unprotect, flags => flags.set = false
  | _, _ => False

/-- The flags of the walks that a function may make itself, apart from those of what it calls. -/
def Function.Walks : Function → ProtectFlags → Prop
  | .native n => n.Walks
  | .user _ _ _ => fun _ => False

namespace Routine

variable {α β : Type} {permit : Permit}

/-! ## Evaluation of blocks -/

theorem foldFrom (block : BlockRef) (f : β → Value → ForInStep β) (fuel index : Nat) (acc : β) :
    Routine permit fun ev => ev.foldFrom block f fuel index acc := by
  induction fuel generalizing index acc with
  | zero => exact throw _
  | succ fuel ih =>
    simp only [Evaluator.foldFrom]
    refine bind (next block index) fun step => ?_
    match step with
    | none => exact pure acc
    | some (value, index) =>
      dsimp only
      cases f acc value with
      | done acc => exact pure acc
      | yield acc => exact ih index acc

theorem fold (block : BlockRef) (f : β → Value → ForInStep β) (start : β) :
    Routine permit fun ev => ev.fold block f start :=
  fuel fun n => foldFrom block f n block.index start

theorem all (block : BlockRef) : Routine permit fun ev => ev.all block := fold block _ _

theorem newBlock (items : Array Value) : Routine permit fun _ => newBlock items :=
  bind (.primitive (.newBlock items)) fun _ => pure _

theorem newText (content : String) : Routine permit fun _ => newText content :=
  .primitive (.newText content)

theorem reduce (block : BlockRef) : Routine permit fun ev => ev.reduce block :=
  bind (fold block _ _) fun items => newBlock items

theorem branch (only : Bool) (v : Value) : Routine permit fun ev => ev.branch only v := by
  cases v with
  | block r => exact ite (pure _) (all r)
  | _ => exact pure _

theorem apply (f : Function) (values : List Value) : Routine permit fun ev => ev.apply f values :=
  invoke "" f (f.positional values)

theorem expectBlock (function argument : String) (v : Value) :
    Routine permit fun _ => expectBlock function argument v := by
  cases v with
  | block r => exact pure r
  | _ => exact raiseType _ _ _

theorem expectInteger (function argument : String) (v : Value) :
    Routine permit fun _ => expectInteger function argument v := by
  cases v with
  | integer n => exact pure n
  | _ => exact raiseType _ _ _

theorem moldValue (v : Value) : Routine permit fun _ => moldValue v :=
  getHeap_then (fun same => by rw [same.mold]) fun _ => pure _

theorem formValue (v : Value) : Routine permit fun _ => formValue v :=
  getHeap_then (fun same => by rw [same.form]) fun _ => pure _

/-! ## Words and paths -/

theorem lookupSet (name : String) : Routine permit fun _ => lookupSet name := by
  refine lookup_then fun found => ?_
  match found with
  | none => exact raise _
  | some v =>
    cases v with
    | unset => exact raise _
    | _ => exact pure _

theorem fetch (name : String) : Routine permit fun _ => fetch name := lookup_then fun _ => pure _

theorem assignWord (name : String) (value : Value) :
    Routine permit fun _ => assignWord name value := .primitive (.assignWord name value)

theorem pokeItem (r : BlockRef) (place : Int64) (value : Value) :
    Routine permit fun _ => pokeItem r place value :=
  ite (raise _) (getHeap_then (fun same => by simp only [same.isBlockProtected, same.items])
    fun _ => ite (raise _) (ite (.primitive (.editBlock r.id _)) (raise _)))

theorem refuse (segments : List Segment) (segment : String) :
    Routine permit fun _ => (Path.refuse segments segment : EvalM α) := raise _

theorem pathHead (segments : List Segment) : Routine permit fun _ => Path.head segments := by
  match segments with
  | [] => exact refuse _ _
  | .name name :: _ => exact lookupSet name
  | .index _ :: _ => exact refuse _ _

theorem select (segments : List Segment) (container : Value) (segment : Segment) :
    Routine permit fun _ => Path.select segments container segment := by
  unfold Path.select
  split
  · refine getHeap_then (fun same => by simp only [(same.frame _).get?]) fun h => ?_
    split
    · exact pure _
    · exact refuse _ _
  · exact getHeap_then (fun same => by rw [same.pick]) fun _ => pure _
  · exact getHeap_then (fun same => by rw [same.pick]) fun _ => pure _
  · exact getHeap_then (fun same => by rw [same.selectAfter]) fun _ => pure _
  · exact pure _
  · exact newText _
  · exact refuse _ _

theorem pathGet (segments : List Segment) : Routine permit fun _ => Path.get segments :=
  bind (pathHead segments) fun value => foldlM (fun v segment => select segments v segment) _ value

theorem target (segments : List Segment) : Routine permit fun _ => Path.target segments := by
  unfold Path.target
  split
  · exact refuse _ _
  · exact ite (refuse _ _) (bind (pathHead segments) fun value =>
      bind (foldlM (fun v segment => select segments v segment) _ value) fun _ => pure _)

theorem pathSet (segments : List Segment) (value : Value) :
    Routine permit fun _ => Path.set segments value := by
  refine bind (target segments) fun (container, last) => ?_
  dsimp only
  split
  · exact .primitive (.assignNamed _ _ _ _)
  · exact pokeItem _ _ _
  · exact refuse _ _

theorem field? (segments : List Segment) : Routine permit fun _ => Path.field? segments := by
  refine bind (target segments) fun (container, last) => ?_
  split
  · exact getHeap_then (fun same => by rw [(same.frame _).find?]) fun _ => pure _
  · exact pure _

/-! ## Handlers -/

theorem handlerOfRefinement (construct : String) (v : Option Value) :
    Routine permit fun _ => Handler.ofRefinement construct v := by
  match v with
  | none => exact pure none
  | some v =>
    refine map some ?_
    cases v with
    | block r => exact pure _
    | function f => exact pure _
    | _ => exact raiseType _ _ _

theorem handlerRun (payload : Value) (name : Option Value) (handler : Handler) :
    Routine permit fun ev => handler.run ev payload name := by
  match handler with
  | .block r => exact all r
  | .function f =>
    simp only [Handler.run]
    cases f.handlerShape with
    | nullary => exact apply f _
    | unary => exact apply f _
    | binary => exact apply f _

/-! ## Exits and errors -/

theorem checkNames (names : Option Value) : Routine permit fun _ => Exits.checkNames names := by
  unfold Exits.checkNames
  split
  · refine getHeap_then (fun same => by simp only [same.tail]) fun h => ?_
    split
    · exact bind (moldValue _) fun _ => raise _
    · exact pure _
  · exact pure _

theorem checkFilter (filter : Exits.CatchFilter) : Routine permit fun _ => filter.check :=
  ite (raise _) (checkNames _)

theorem catchThrown (args : Args)
    (claimed : ∀ h exit, (Exits.CatchFilter.ofArgs args).claims h exit = true →
      permit.claims h (.thrown exit)) :
    Routine permit fun ev => Exits.catchThrown ev args := by
  refine bind (expectBlock _ _ _) fun block => bind (checkFilter _) fun _ =>
    bind (handlerOfRefinement _ _) fun handler =>
      bind (claiming (fun s t same => ?_) (fun h exit result hc => ?_) (all block)) fun result => ?_
  · funext exit
    rw [same.heap.claims]
  · split at hc
    · next hf => exact claimed h exit hf
    · cases hc
  · match result, handler with
    | .ok value, _ => exact pure value
    | .error exit, none => exact pure _
    | .error exit, some handler => exact handlerRun _ _ handler

theorem trap (args : Args) (claimed : ∀ h e, permit.claims h (.raised e)) :
    Routine permit fun ev => Raising.trap ev args := by
  refine bind (expectBlock _ _ _) fun block => bind (handlerOfRefinement _ _) fun handler =>
    bind (guarded claimed (all block)) fun result => ?_
  match result, handler with
  | .ok value, _ => exact pure value
  | .error e, none => exact pure _
  | .error e, some handler => exact handlerRun _ _ handler

theorem attempt (args : Args) (claimed : ∀ h e, permit.claims h (.raised e)) :
    Routine permit fun ev => Raising.attempt ev args := by
  refine bind (expectBlock _ _ _) fun block => bind (guarded claimed (all block)) fun result => ?_
  match result with
  | .ok value => exact pure value
  | .error _ => exact pure _

theorem fail (args : Args) : Routine permit fun ev => Raising.fail ev args := by
  unfold Raising.fail
  split
  · exact throw _
  · exact getHeap_then (fun same => by rw [same.text]) fun _ => raise _
  · exact get_then (fun same => by rw [same.env, same.heap.tail, same.heap.allowed]) fun s =>
      ite (bind (reduce _) fun v => bind (formValue v) fun _ => raise _) (raise _)
  · exact raiseType _ _ _

/-! ## Protection -/

theorem protectBinding {flags : ProtectFlags} (allowed : permit.walks flags)
    (visited : List Container) (v : Value) :
    Routine permit fun _ => Protecting.protectBinding flags visited v := by
  have binding : Routine permit fun _ => Protecting.binding? v := by
    unfold Protecting.binding?
    split
    · exact get_then (fun same => by rw [same.env, same.heap.resolve]) fun _ => pure _
    · exact field? _
    · exact pure _
  refine bind binding fun found => ?_
  match found with
  | none => exact pure visited
  | some (id, index) => exact .primitive (.walkField allowed visited id index)

theorem referenced (v : Value) : Routine permit fun ev => Protecting.referenced ev v := by
  unfold Protecting.referenced
  split
  · exact lookup_then fun _ => pure _
  · exact bind (.primitive (.newBlock _)) fun r => all r
  · exact pure _

theorem protecting {target : Protecting.Target} (allowed : permit.walks target.flags) (v : Value) :
    Routine permit fun ev => Protecting.apply ev target v := by
  have container : Routine permit fun _ => (do
      if target.flags.hide then BlockScript.raise .badRefines
      else let _ ← Protecting.protectValue target.flags [] v : EvalM Unit) :=
    ite (raise _) (bind (.primitive (.walkValue allowed _ v)) fun _ => pure _)
  unfold Protecting.apply
  split
  · exact bind (protectBinding allowed _ _) fun _ => pure _
  · exact bind (protectBinding allowed _ _) fun _ => pure _
  · refine getHeap_then (fun same => by rw [same.tail]) fun h =>
      ite (bind (foldlM ?_ _ _) fun _ => pure _)
        (ite (bind (foldlM ?_ _ _) fun _ => pure _) (bind container fun _ => pure _))
    · exact fun visited item => protectBinding allowed visited item
    · exact fun visited item =>
        bind (referenced item) fun v => .primitive (.walkValue allowed visited v)
  · exact bind container fun _ => pure _

/-! ## Conditionals -/

theorem casePairs (block : BlockRef) (every only : Bool) (fuel index : Nat) (result : Value) :
    Routine permit fun ev => Conditionals.casePairs ev block every only fuel index result := by
  induction fuel generalizing index result with
  | zero => exact throw _
  | succ fuel ih =>
    simp only [Conditionals.casePairs]
    refine bind (next block index) fun step => ?_
    match step with
    | none => exact pure result
    | some (condition, index) =>
      refine ite (raise _) (bind (next block index) fun step => ?_)
      match step with
      | none => exact raise _
      | some (body, index) =>
        exact ite (bind (branch only body) fun result => ite (ih index result) (pure result))
          (ih index result)

theorem candidate (item : Value) : Routine permit fun ev => Conditionals.candidate ev item := by
  unfold Conditionals.candidate
  split
  · exact all _
  · exact fetch _
  · exact pathGet _
  · exact pure _

theorem switchItems (value : Value) (cases : BlockRef) (every strict : Bool)
    (fuel index : Nat) (found : Option Value) (trailing : Value) :
    Routine permit fun ev =>
      Conditionals.switchItems ev value cases every strict fuel index found trailing := by
  induction fuel generalizing index found trailing with
  | zero => exact throw _
  | succ fuel ih =>
    simp only [Conditionals.switchItems]
    refine getHeap_then (fun same => by simp only [same.item?]) fun h => ?_
    split
    · exact pure _
    · exact ih _ _ _
    · refine bind (candidate _) fun compared =>
        getHeap_then (fun same => by simp only [same.equalIn, same.nextBody?]) fun h =>
          ite ?_ (ih _ _ _)
      split
      · exact pure _
      · exact bind (all _) fun result => ite (ih _ _ _) (pure _)

theorem switchOn (args : Args) : Routine permit fun ev => Conditionals.switchOn ev args := by
  refine bind (expectBlock _ _ _) fun cases => bind (fuel fun n => switchItems _ _ _ _ n _ _ _)
    fun (found, trailing) => ?_
  match found, args.refinement? 2 with
  | some result, _ => exact pure result
  | none, some default => exact branch false default
  | none, none => exact pure trailing

theorem truth (function : String) (v : Value) :
    Routine permit fun _ => Conditionals.truth function v := ite (raiseType _ _ _) (pure _)

theorem ifTrue (args : Args) : Routine permit fun ev => Conditionals.ifTrue ev args :=
  bind (truth _ _) fun _ => ite (branch _ _) (pure _)

theorem either (args : Args) : Routine permit fun ev => Conditionals.either ev args :=
  bind (truth _ _) fun _ => branch _ _

theorem ifFalse (args : Args) : Routine permit fun ev => Conditionals.ifFalse ev args :=
  bind (truth _ _) fun _ => ite (pure _) (branch _ _)

/-! ## Loops -/

section Loops

variable {step : Evaluator → EvalM (Option Value)}
  (claimed : ∀ h exit, (exit.isNamed .break ∨ exit.isNamed .continue) →
    permit.claims h (.thrown exit))

include claimed

theorem turn (h : Routine permit step) : Routine permit fun ev => Loops.turn (step ev) := by
  refine claiming (fun _ _ _ => rfl) (fun h exit turn hc => claimed h exit ?_) h
  unfold Loops.claimed at hc
  split at hc
  · next hb => exact .inl hb
  · split at hc
    · next hn => exact .inr hn
    · cases hc

theorem untilFinished (h : Routine permit step) (n : Nat) (result : Value) :
    Routine permit fun ev => Loops.untilFinished (step ev) n result := by
  induction n generalizing result with
  | zero => exact throw _
  | succ n ih =>
    simp only [Loops.untilFinished]
    refine bind (turn claimed h) fun t => ?_
    cases t with
    | finished => exact pure result
    | broken payload => exact pure payload
    | ran value => exact ih value

theorem times (body : BlockRef) (n : Nat) (result : Value) :
    Routine permit fun ev => Loops.times ev body n result := by
  induction n generalizing result with
  | zero => exact pure result
  | succ n ih =>
    simp only [Loops.times]
    refine bind (turn claimed (map some (all body))) fun t => ?_
    cases t with
    | finished => exact pure result
    | broken payload => exact pure payload
    | ran value => exact ih value

theorem loopTimes (args : Args) : Routine permit fun ev => Loops.loopTimes ev args :=
  bind (expectInteger _ _ _) fun _ => bind (expectBlock _ _ _) fun body => times claimed body _ _

theorem whileTrue (args : Args) : Routine permit fun ev => Loops.whileTrue ev args := by
  refine bind (expectBlock _ _ _) fun condition => bind (expectBlock _ _ _) fun body => ?_
  have step : Routine permit fun ev => (do
      if (← ev.all condition).isTruthy then return some (← ev.all body)
      else return none : EvalM (Option Value)) :=
    bind (all condition) fun _ => ite (bind (all body) fun _ => pure _) (pure none)
  exact fuel fun n => untilFinished claimed step n .none

theorem forever (args : Args) : Routine permit fun ev => Loops.forever ev args :=
  bind (expectBlock _ _ _) fun body =>
    fuel fun n => untilFinished claimed (map some (all body)) n _

end Loops

/-! ## Evaluation on request -/

theorem doValue (args : Args) : Routine permit fun ev => Evaluation.doValue ev args := by
  unfold Evaluation.doValue
  split
  · exact all _
  · exact all _
  · exact pure _
  · refine getHeap_then (fun same => by rw [same.text]) fun h => ?_
    split
    · exact bind (.primitive (.loadBlock _)) fun r => all r
    · exact raise _
  · exact raise _
  · exact raise _

theorem func (args : Args) : Routine permit fun _ => Evaluation.func args := by
  refine bind (expectBlock _ _ _) fun spec => bind (expectBlock _ _ _) fun body =>
    getHeap_then (fun same => by rw [same.tail, same.params]) fun h => ?_
  split
  · exact bind (.primitive (.newFunction _ _)) fun _ => pure _
  · exact raise _

theorem does (args : Args) : Routine permit fun _ => Evaluation.does args :=
  bind (expectBlock _ _ _) fun _ =>
    bind (.primitive (.newFunction _ _)) fun _ => pure _

theorem object (args : Args) : Routine permit fun ev => Evaluation.object ev args :=
  bind (expectBlock _ _ _) fun body => getHeap_then (fun same => by rw [same.tail]) fun _ =>
    bind (.primitive (.newFrame _)) fun id => bind (withScope id (all body)) fun _ => pure _

/-! ## Series, words and text -/

theorem append (args : Args) : Routine permit fun _ => SeriesAccess.append args := by
  unfold SeriesAccess.append
  split
  · exact getHeap_then (fun same => by rw [same.spliced]) fun _ =>
      bind (.primitive (.editBlock _ _)) fun _ => pure _
  · exact bind (formValue _) fun _ => bind (.primitive (.editText _ _)) fun _ => pure _
  · exact raiseType _ _ _

theorem insert (args : Args) : Routine permit fun _ => SeriesAccess.insert args := by
  unfold SeriesAccess.insert
  split
  · exact getHeap_then (fun same => by rw [same.spliced, same.items]) fun _ =>
      bind (.primitive (.editBlock _ _)) fun _ => pure _
  · exact bind (formValue _) fun _ => bind (.primitive (.editText _ _)) fun _ => pure _
  · exact raiseType _ _ _

theorem poke (args : Args) : Routine permit fun _ => SeriesAccess.poke args := by
  unfold SeriesAccess.poke
  split
  · exact bind (expectInteger _ _ _) fun _ => bind (pokeItem _ _ _) fun _ => pure _
  · exact raiseType _ _ _

theorem clear (args : Args) : Routine permit fun _ => SeriesAccess.clear args := by
  unfold SeriesAccess.clear
  split
  · exact bind (.primitive (.editBlock _ _)) fun _ => pure _
  · exact bind (.primitive (.editText _ _)) fun _ => pure _
  · exact pure _
  · exact raiseType _ _ _

theorem pickFrom (function : String) (place : Int64) (v : Value) :
    Routine permit fun _ => SeriesAccess.pickFrom function place v := by
  unfold SeriesAccess.pickFrom
  split
  · exact getHeap_then (fun same => by rw [same.pick]) fun _ => pure _
  · exact getHeap_then (fun same => by rw [same.pick]) fun _ => pure _
  · refine getHeap_then (fun same => by rw [same.text]) fun h => ?_
    dsimp only
    split
    · exact newText _
    · exact pure _
  · exact raiseType _ _ _

theorem pick (args : Args) : Routine permit fun _ => SeriesAccess.pick args :=
  bind (expectInteger _ _ _) fun _ => pickFrom _ _ _

theorem lengthOf (args : Args) : Routine permit fun _ => SeriesAccess.lengthOf args := by
  refine getHeap_then (fun same => ?_) fun h => ?_
  · simp only [same.length, same.text, (same.frame _).words]
  · split
    · exact pure _
    · exact pure _
    · exact pure _
    · exact pure _
    · exact raiseType _ _ _

theorem copy (args : Args) : Routine permit fun _ => SeriesAccess.copy args := by
  unfold SeriesAccess.copy
  cases args.refined 1 with
  | true => exact .primitive (.deepCopy _)
  | false => exact .primitive (.shallowCopy _)

theorem wordsOf (args : Args) : Routine permit fun _ => SeriesAccess.wordsOf args := by
  unfold SeriesAccess.wordsOf
  split
  · exact getHeap_then (fun same => by rw [(same.frame _).words]) fun _ => newBlock _
  · exact raiseType _ _ _

theorem operate (op : Operator) (args : Args) : Routine permit fun _ => Operators.run op args := by
  refine getHeap_then (fun same => by rw [same.operator]) fun h => ?_
  split
  · exact pure _
  · exact raise _

theorem set (args : Args) : Routine permit fun _ => Words.set args := by
  unfold Words.set
  split
  · exact bind (assignWord _ _) fun _ => pure _
  · exact raiseType _ _ _

theorem get (args : Args) : Routine permit fun _ => Words.get args := by
  unfold Words.get
  split
  · refine lookup_then fun found => ?_
    split
    · exact pure _
    · exact raise _
  · exact raiseType _ _ _

theorem hasValue (args : Args) : Routine permit fun _ => Words.hasValue args := by
  unfold Words.hasValue
  split
  · exact bind (fetch _) fun _ => pure _
  · exact pure _

theorem printLine (args : Args) : Routine permit fun ev => Words.printLine ev args := by
  unfold Words.printLine
  split
  · exact bind (reduce _) fun v => bind (formValue v) fun line =>
      bind (.primitive (.print line)) fun _ => pure _
  · exact bind (pure _) fun v => bind (formValue v) fun line =>
      bind (.primitive (.print line)) fun _ => pure _

/-! ## Natives, functions and expressions -/

variable {walks : ProtectFlags → Prop} {calls : Prop}

/-- Every native is a routine that claims no more than `Native.Claims` allows and makes no walks
but those of `Native.Walks`. -/
theorem native (n : Native) (args : Args)
    (allowed : ∀ flags, n.Walks flags → walks flags := by exact fun _ _ => trivial) :
    Routine ⟨n.Claims args, walks, calls⟩ fun ev => n.run ev args := by
  cases n with
  | breakLoop => exact throw _
  | continueLoop => exact throw _
  | returnValue => exact throw _
  | exitFunction => exact .primitive (.exitFunction args)
  | quit => exact throw _
  | throwValue =>
    simp only [Native.run]
    unfold Exits.throwValue
    split
    · exact raise _
    · exact raise _
    · exact throw _
  | catchThrown => exact catchThrown args fun _ _ h => h
  | trap => exact trap args fun _ _ => .inl rfl
  | attempt => exact attempt args fun _ _ => .inr rfl
  | fail => exact fail args
  | protect =>
    refine protecting (allowed _ ?_) _
    rfl
  | unprotect =>
    refine protecting (allowed _ ?_) _
    rfl
  | allOf => exact bind (expectBlock _ _ _) fun block => fold block _ _
  | anyOf => exact bind (expectBlock _ _ _) fun block => fold block _ _
  | caseOf =>
    exact bind (expectBlock _ _ _) fun block => fuel fun n => casePairs block _ _ n _ _
  | switchOn => exact switchOn args
  | ifTrue => exact ifTrue args
  | either => exact either args
  | ifFalse => exact ifFalse args
  | loopTimes => exact loopTimes (fun _ _ h => h) args
  | whileTrue => exact whileTrue (fun _ _ h => h) args
  | forever => exact forever (fun _ _ h => h) args
  | doValue => exact doValue args
  | reduce => exact bind (expectBlock _ _ _) fun block => reduce block
  | also => exact pure _
  | comment => exact pure _
  | func => exact func args
  | does => exact does args
  | object => exact object args
  | context => exact object args
  | append => exact append args
  | insert => exact insert args
  | poke => exact poke args
  | clear => exact clear args
  | first => exact pickFrom _ _ _
  | pick => exact pick args
  | lengthOf => exact lengthOf args
  | copy => exact copy args
  | wordsOf => exact wordsOf args
  | operator op => exact operate op args
  | negation => exact pure _
  | set => exact set args
  | get => exact get args
  | hasValue => exact hasValue args
  | form => exact bind (formValue _) fun _ => newText _
  | mold => exact bind (moldValue _) fun _ => newText _
  | print => exact printLine args
  | typeOf => exact pure _
  | isNone => exact pure _
  | isUnset => exact pure _
  | isError => exact pure _

theorem runBody (params : List Param) (body : BlockRef) (args : Args) :
    Routine ⟨ClaimsReturn, walks, calls⟩ fun ev => runBody ev params body args := by
  refine bind (.primitive (.newFrame _)) fun frame =>
    claiming (fun _ _ _ => rfl) (fun h exit result hc => ?_) (withScope frame (all body))
  split at hc
  · next hr => simpa [ClaimsReturn] using hr
  · cases hc

theorem function (f : Function) (args : Args)
    (allowed : ∀ flags, f.Walks flags → walks flags := by exact fun _ _ => trivial) :
    Routine ⟨f.Claims args, walks, calls⟩ fun ev => f.run ev args := by
  cases f with
  | native n => exact native n args allowed
  | user id params body => exact runBody params body args

theorem call (name : String) (f : Function) (args : Args)
    (allowed : ∀ flags, f.Walks flags → walks flags := by exact fun _ _ => trivial) :
    Routine ⟨f.Claims args, walks, True⟩ fun ev => BlockScript.invoke ev name f args :=
  withCall trivial name (function f args allowed)

theorem gatherArg (function : String) (param : Param) (block : BlockRef) (position : Nat) :
    Routine permit fun ev => gatherArg ev function param block position := by
  unfold BlockScript.gatherArg
  dsimp only
  split
  · refine getHeap_then (fun same => by rw [same.item?]) fun h => ?_
    split
    · exact pure _
    · exact raise _
  · refine getHeap_then (fun same => by rw [same.item?]) fun h => ?_
    split
    · exact bind (fetch _) fun _ => pure _
    · exact bind (fetch _) fun _ => pure _
    · exact pure _
    · exact raise _
  · refine bind (next block position) fun step => ?_
    match step with
    | some step => exact pure step
    | none => exact raise _

theorem gatherParams (function : String) (block : BlockRef) (gathered : Gathered)
    (params : List (Nat × Param)) :
    Routine permit fun ev => gatherParams ev function block gathered params :=
  foldlM (fun gathered (_, param) =>
    bind (gatherArg function param block gathered.position) fun _ => pure _) params gathered

theorem gatherRefinements (name : String) (f : Function) (block : BlockRef) (used : List Nat)
    (segments : List Segment) (gathered : Gathered) :
    Routine permit fun ev => gatherRefinements ev name f block used segments gathered := by
  induction segments generalizing used gathered with
  | nil => exact pure gathered
  | cons segment segments ih =>
    simp only [BlockScript.gatherRefinements]
    split
    · exact raise _
    · exact ite (raise _) (bind (gatherParams _ _ _ _) fun gathered => ih _ gathered)

theorem gatherCall (name : String) (f : Function) (refinements : List Segment)
    (block : BlockRef) (position : Nat) :
    Routine permit fun ev => BlockScript.call ev name f refinements block position :=
  bind (gatherParams _ _ _ _) fun gathered => bind (gatherRefinements _ _ _ _ _ gathered)
    fun gathered => bind (invoke name f gathered.args) fun _ => pure _

theorem selectPath (segments : List Segment) (block : BlockRef) (position : Nat) (value : Value)
    (here : Segment) (rest : List Segment) :
    Routine permit fun ev => selectPath ev segments block position value here rest := by
  induction rest generalizing value here with
  | nil =>
    cases value with
    | function f => exact gatherCall _ f [] block position
    | _ => exact pure _
  | cons segment rest ih =>
    have step : Routine permit fun ev => Path.select segments value segment >>= fun v =>
        BlockScript.selectPath ev segments block position v segment rest :=
      bind (select segments value segment) fun v => ih v segment
    cases value with
    | function f => exact gatherCall _ f (segment :: rest) block position
    | _ => exact step

theorem pathTerm (segments : List Segment) (block : BlockRef) (position : Nat) :
    Routine permit fun ev => pathTerm ev segments block position := by
  refine bind (pathHead segments) fun value => ?_
  match segments with
  | [] => exact pure _
  | here :: rest => exact selectPath _ _ _ _ _ _

theorem assigned (target : String) (block : BlockRef) (position : Nat) :
    Routine permit fun ev => assigned ev target block position := by
  refine bind (next block position) fun step => ?_
  match step with
  | none => exact raise _
  | some (value, position) => exact ite (raise _) (pure _)

theorem term (block : BlockRef) (position : Nat) (item : Value) :
    Routine permit fun ev => term ev block position item := by
  unfold BlockScript.term
  split
  · refine bind (lookupSet _) fun v => ?_
    split
    · exact gatherCall _ _ _ _ _
    · exact pure _
  · exact bind (assigned _ _ _) fun (value, position) => bind (assignWord _ _) fun _ => pure _
  · exact bind (fetch _) fun _ => pure _
  · exact pure _
  · exact pathTerm _ _ _
  · exact bind (assigned _ _ _) fun (value, position) => bind (pathSet _ _) fun _ => pure _
  · exact bind (pathGet _) fun _ => pure _
  · exact pure _
  · exact bind (all _) fun _ => pure _
  · exact pure _

theorem operatorAt (block : BlockRef) (position : Nat) :
    Routine permit fun _ => operatorAt block position := by
  refine getHeap_then (fun same => by rw [same.item?]) fun h => ?_
  split
  · refine lookup_then fun found => ?_
    split
    · exact pure _
    · exact pure _
  · exact pure _

theorem operators (block : BlockRef) (n : Nat) (left : Value) (position : Nat) :
    Routine permit fun ev => operators ev block n left position := by
  induction n generalizing left position with
  | zero => exact throw _
  | succ n ih =>
    simp only [BlockScript.operators]
    refine bind (operatorAt block position) fun found => ?_
    match found with
    | none => exact pure _
    | some (name, f) =>
      refine getHeap_then (fun same => by rw [same.item?]) fun h => ?_
      split
      · exact raise _
      · exact bind (term _ _ _) fun (right, position) =>
          bind (invoke name f _) fun value => ih value position

/-- The evaluation of an expression is a routine that claims nothing and walks nothing itself. -/
theorem expression (block : BlockRef) (position : Nat) :
    Routine ⟨ClaimsNothing, walks, calls⟩ fun ev => expression ev block position := by
  refine getHeap_then (fun same => by rw [same.item?]) fun h => ?_
  split
  · exact pure _
  · exact bind (term _ _ _) fun (value, position) =>
      bind (fuel fun n => operators block n value position) fun _ => pure _

end Routine

end BlockScript
