import BlockScript.Proofs.FlowSteps

/-!
# Constructs keep to a flow

Every native, every function and the evaluation of an expression keeps to a flow of values, given an
evaluator that does. Only protect with its refinement to hide takes a name away from a frame.
-/

namespace BlockScript

variable {β : Type} {F : ValueFlow} {E : Environment} {n : Nat} {v : Value}

namespace ValueFlow.Keeps

variable {args : Args}

/-! ## Evaluation of blocks -/

section Evaluator

variable {ev : Evaluator} (hev : F.KeptBy ev)

include hev

def reached : ForInStep β → β
  | .done b => b
  | .yield b => b

theorem foldFrom {R : Nat → β → Prop} {f : β → Value → ForInStep β}
    (grows : ∀ k m b, k ≤ m → R k b → R m b)
    (steps : ∀ k b v, R k b → F.value E k v → R k (reached (f b v))) (block : BlockRef)
    (fuel index : Nat) {acc : β} (start : R n acc) :
    F.Keeps E n R (ev.foldFrom block f fuel index acc) := by
  induction fuel generalizing n index acc with
  | zero => exact outOfFuel
  | succ fuel ih =>
    refine (hev.next E n block index).bind fun step k le given => ?_
    match step with
    | none => exact pure fun m more => grows _ _ _ (le.trans more) start
    | some (v, next) =>
      have reached := steps k acc v (grows _ _ _ le start) (given _ rfl)
      dsimp only
      cases result : f acc v with
      | done acc =>
        rw [result] at reached
        exact pure fun m more => grows _ _ _ more reached
      | yield acc =>
        rw [result] at reached
        exact ih next reached

theorem fold {R : Nat → β → Prop} {f : β → Value → ForInStep β}
    (grows : ∀ k m b, k ≤ m → R k b → R m b)
    (steps : ∀ k b v, R k b → F.value E k v → R k (reached (f b v))) (block : BlockRef) {start : β}
    (holds : R n start) : F.Keeps E n R (ev.fold block f start) :=
  foldFrom hev grows steps block _ _ holds

/-- A fold that is at a value. -/
theorem foldValue {f : Value → Value → ForInStep Value}
    (steps : ∀ k v w, F.value E k v → F.value E k w → F.value E k (reached (f v w)))
    (block : BlockRef) (given : F.value E n v) : F.Keeps E n (F.value E) (ev.fold block f v) :=
  fold (R := F.value E) hev (fun _ _ _ le given => F.mono given le) steps block given

theorem all (block : BlockRef) : F.Keeps E n (F.value E) (ev.all block) := by
  refine foldValue hev ?_ block (F.inert trivial)
  exact fun _ _ _ _ given => given

theorem reduce (block : BlockRef) : F.Keeps E n (F.value E) (ev.reduce block) := by
  refine bind (fold (R := F.args E) hev (fun _ _ _ le given => given.mono le) ?_ block nofun) ?_
  · intro k values v before given w member
    rcases Array.mem_push.mp member with old | rfl
    · exact before w old
    · exact given
  · exact fun values k _ given => newBlock given

theorem branch (only : Bool) (given : F.value E n v) :
    F.Keeps E n (F.value E) (ev.branch only v) := by
  cases v with
  | block r => exact ite (inert trivial) (all hev r)
  | _ => exact value given

omit hev in
theorem positional (f : Function) {values : List Value} (given : ∀ v ∈ values, F.value E n v) :
    F.args E n (f.positional values) ∧ (f.positional values).size = f.arity := by
  refine ⟨fun v member => ?_, by simp [Function.positional]⟩
  have inside := List.mem_of_mem_take (List.mem_toArray.mp member)
  rcases List.mem_append.mp inside with old | missing
  · exact given v old
  · rw [List.eq_of_mem_replicate missing]
    exact F.inert trivial

theorem apply {f : Function} {values : List Value} (function : F.value E n (.function f))
    (given : ∀ v ∈ values, F.value E n v) : F.Keeps E n (F.value E) (ev.apply f values) :=
  hev.invoke E n "" f _ function (positional f given).1 (positional f given).2

/-! ### Handlers, exits and errors -/

theorem handle {handler : Handler} (known : F.handler E n handler) {payload : Value}
    {name : Option Value} (thrown : F.value E n payload) (named : Each (F.value E) n name) :
    F.Keeps E n (F.value E) (handler.run ev payload name) := by
  cases handler with
  | block r => exact all hev r
  | function f =>
    simp only [Handler.run]
    cases f.handlerShape with
    | nullary => exact apply hev known (List.forall_mem_nil _)
    | unary => exact apply hev known (List.forall_mem_singleton.mpr thrown)
    | binary =>
      refine apply hev known (List.forall_mem_cons.mpr ⟨thrown, fun v member => ?_⟩)
      exact named v (Option.mem_toList.mp member)

omit hev in
def Caught (F : ValueFlow) (E : Environment) (n : Nat) : Except Thrown Value → Prop
  | .ok v => F.value E n v
  | .error x => F.value E n x.name ∧ F.value E n x.payload

theorem catchThrown (given : F.args E n args) :
    F.Keeps E n (F.value E) (Exits.catchThrown ev args) := by
  refine plain_then (expectBlock _ _ _) fun block => plain_then (check _) fun _ =>
    (ofRefinement _ (given.refinement? _)).bind fun handler m _ known => ?_
  refine bind (R := Caught F E) (claiming (all hev block) ?_ fun _ _ given => given)
    fun outcome k le caught => ?_
  · intro k h x outcome name payload found
    split at found
    · cases found
      exact ⟨name, payload⟩
    · cases found
  · cases outcome with
    | ok v => exact value caught
    | error x =>
      cases handler with
      | none => exact value caught.2
      | some handler => exact handle hev ((known _ rfl).mono le) caught.2 (.some caught.1)

theorem balanced_all (block : BlockRef) : Balanced (ev.all block) :=
  have routine : Routine ClaimsNothing fun ev => ev.all block := .all block
  routine.balanced hev.balanced

theorem trap (given : F.args E n args) : F.Keeps E n (F.value E) (Raising.trap ev args) := by
  refine plain_then (expectBlock _ _ _) fun block =>
    (ofRefinement _ (given.refinement? _)).bind fun handler m _ known =>
      (guarded (all hev block) (balanced_all hev block)).bind fun outcome k le ended => ?_
  match outcome, handler with
  | .ok v, _ => exact value (ended v rfl)
  | .error e, none => exact inert trivial
  | .error e, some handler => exact handle hev ((known _ rfl).mono le) (F.inert trivial) .none

theorem attempt : F.Keeps E n (F.value E) (Raising.attempt ev args) := by
  refine plain_then (expectBlock _ _ _) fun block =>
    (guarded (all hev block) (balanced_all hev block)).bind fun outcome k _ ended => ?_
  match outcome with
  | .ok v => exact value (ended v rfl)
  | .error e => exact inert trivial

theorem fail : F.Keeps E n (F.value E) (Raising.fail ev args) := by
  unfold Raising.fail
  split
  · exact fun _ _ _ _ => .error rfl (F.refl _ _) trivial
  · exact getHeap_plain fun _ => raise _
  · next r _ =>
    refine get_then fun s _ _ _ => ite ?_ (raise _)
    exact (reduce hev r).bind fun v k _ _ => plain_then (formValue v) fun _ => raise _
  · exact raiseType _ _ _

/-! ### Conditionals -/

theorem allOf : F.Keeps E n (F.value E) (Conditionals.allOf ev args) := by
  refine plain_then (expectBlock _ _ _) fun block => foldValue hev ?_ block (F.inert trivial)
  intro k v w _ given
  split
  · exact given
  · exact F.inert trivial

theorem anyOf : F.Keeps E n (F.value E) (Conditionals.anyOf ev args) := by
  refine plain_then (expectBlock _ _ _) fun block => foldValue hev ?_ block (F.inert trivial)
  intro k v w _ given
  split
  · exact given
  · exact F.inert trivial

theorem casePairs (block : BlockRef) (every only : Bool) (fuel position : Nat) {result : Value}
    (given : F.value E n result) :
    F.Keeps E n (F.value E)
      (Conditionals.casePairs ev block every only fuel position result) := by
  induction fuel generalizing n position result with
  | zero => exact outOfFuel
  | succ fuel ih =>
    refine (hev.next E n block position).bind fun step k le _ => ?_
    match step with
    | none => exact value (F.mono given le)
    | some (condition, middle) =>
      refine ite (raise _) ((hev.next E k block middle).bind fun step m more body => ?_)
      match step with
      | none => exact raise _
      | some (v, next) =>
        refine ite ?_ (ih next (F.mono given (le.trans more)))
        exact (branch hev only (body _ rfl)).bind fun result _ _ given =>
          ite (ih next given) (value given)

theorem caseOf : F.Keeps E n (F.value E) (Conditionals.caseOf ev args) :=
  plain_then (expectBlock _ _ _) fun block => casePairs hev block _ _ _ _ (F.inert trivial)

theorem candidate (given : F.value E n v) :
    F.Keeps E n (F.value E) (Conditionals.candidate ev v) := by
  unfold Conditionals.candidate
  split
  · exact all hev _
  · exact fetch _
  · exact pathGet _
  · exact value given

theorem switchItems (key : Value) (cases : BlockRef) (every strict : Bool) (fuel position : Nat)
    {found : Option Value} {trailing : Value} (before : Each (F.value E) n found)
    (given : F.value E n trailing) :
    F.Keeps E n (fun k p => Each (F.value E) k p.1 ∧ F.value E k p.2)
      (Conditionals.switchItems ev key cases every strict fuel position found trailing) := by
  induction fuel generalizing n position found trailing with
  | zero => exact outOfFuel
  | succ fuel ih =>
    have later {k : Nat} (le : n ≤ k) : Each (F.value E) k found :=
      fun v same => F.mono (before v same) le
    simp only [Conditionals.switchItems]
    refine getHeap_then fun h heap le => ?_
    split
    · exact pure fun k more => ⟨later (le.trans more), F.mono given (le.trans more)⟩
    · exact ih _ (later le) (F.inert trivial)
    · next item there =>
      have known := F.stored heap (.of_item? there)
      refine (candidate hev known).bind fun compared k more given =>
        getHeap_then fun h _ most => ite ?_ (ih _ (later (le.trans (more.trans most))) ?_)
      · split
        · exact pure fun m far =>
            ⟨.some (F.mono given (most.trans far)), F.mono given (most.trans far)⟩
        · refine (all hev _).bind fun result m far value => ite (ih _ (.some value) ?_) ?_
          · exact F.mono given (most.trans far)
          · exact pure fun _ last =>
              ⟨.some (F.mono value last), F.mono given (most.trans (far.trans last))⟩
      · exact F.mono given most

theorem switchOn (given : F.args E n args) :
    F.Keeps E n (F.value E) (Conditionals.switchOn ev args) := by
  have none : F.value E n .none := F.inert trivial
  refine plain_then (expectBlock _ _ _) fun cases =>
    (switchItems hev _ cases _ _ _ _ .none none).bind fun (found, trailing) k le ends => ?_
  have default := given.refinement? 2
  dsimp only
  split
  · exact value (ends.1 _ rfl)
  · next here => exact branch hev false (F.mono (default _ here) le)
  · exact value ends.2

theorem ifTrue (given : F.args E n args) :
    F.Keeps E n (F.value E) (Conditionals.ifTrue ev args) :=
  plain_then (truth _ _) fun _ => ite (branch hev _ (given.value 1)) (inert trivial)

theorem either (given : F.args E n args) :
    F.Keeps E n (F.value E) (Conditionals.either ev args) := by
  refine plain_then (truth _ _) fun holds => branch hev _ ?_
  split
  · exact given.value 1
  · exact given.value 2

theorem ifFalse (given : F.args E n args) :
    F.Keeps E n (F.value E) (Conditionals.ifFalse ev args) :=
  plain_then (truth _ _) fun _ => ite (inert trivial) (branch hev _ (given.value 1))

/-! ### Loops -/

omit hev in
def Turned (F : ValueFlow) (E : Environment) (n : Nat) : Loops.Turn → Prop
  | .finished => True
  | .broken payload => F.value E n payload
  | .ran value => F.value E n value

omit hev in
theorem turn {step : EvalM (Option Value)} (steps : F.Keeps E n (Each (F.value E)) step) :
    F.Keeps E n (Turned F E) (Loops.turn step) := by
  refine claiming steps (fun k h x t _ payload claimed => ?_) fun k found given => ?_
  · unfold Loops.claimed at claimed
    split at claimed
    · cases claimed
      exact payload
    · split at claimed
      · cases claimed
        exact F.inert trivial
      · cases claimed
  · cases found with
    | none => trivial
    | some v => exact given v rfl

omit hev in
theorem untilFinished {step : EvalM (Option Value)} (steps : F.Keeps E n (Each (F.value E)) step)
    (fuel : Nat) {result : Value} (given : F.value E n result) :
    F.Keeps E n (F.value E) (Loops.untilFinished step fuel result) := by
  induction fuel generalizing n result with
  | zero => exact outOfFuel
  | succ fuel ih =>
    refine (turn steps).bind fun t k le turned => ?_
    cases t with
    | finished => exact value (F.mono given le)
    | broken payload => exact value turned
    | ran v => exact ih (steps.later le) turned

/-- One repetition of the body of a loop. -/
theorem repetition (body : BlockRef) :
    F.Keeps E n (Each (F.value E)) (some <$> ev.all body) :=
  (all hev body).bind fun _ _ _ given => pure fun _ le => .some (F.mono given le)

theorem times (body : BlockRef) (count : Nat) {result : Value} (given : F.value E n result) :
    F.Keeps E n (F.value E) (Loops.times ev body count result) := by
  induction count generalizing n result with
  | zero => exact value given
  | succ count ih =>
    refine (turn (repetition hev body)).bind fun t k le turned => ?_
    cases t with
    | finished => exact value (F.mono given le)
    | broken payload => exact value turned
    | ran v => exact ih turned

theorem loopTimes : F.Keeps E n (F.value E) (Loops.loopTimes ev args) :=
  plain_then (expectInteger _ _ _) fun _ => plain_then (expectBlock _ _ _) fun body =>
    times hev body _ (F.inert trivial)

theorem whileTrue : F.Keeps E n (F.value E) (Loops.whileTrue ev args) := by
  refine plain_then (expectBlock _ _ _) fun condition => plain_then (expectBlock _ _ _) fun body =>
    untilFinished ((all hev condition).bind fun _ _ _ _ => ite ?_ ?_) _ (F.inert trivial)
  · exact repetition hev body
  · exact pure fun _ _ => .none

theorem forever : F.Keeps E n (F.value E) (Loops.forever ev args) :=
  plain_then (expectBlock _ _ _) fun body =>
    untilFinished (repetition hev body) _ (F.inert trivial)

/-! ### Evaluation on request -/

theorem doValue : F.Keeps E n (F.value E) (Evaluation.doValue ev args) := by
  unfold Evaluation.doValue
  split
  · exact all hev _
  · exact all hev _
  · exact inert trivial
  · refine getHeap_plain fun h => ?_
    split
    · next data _ =>
      exact plain_then (alloc_plain fun h heap _ => leads_loadBlock heap data) fun r => all hev r
    · exact raise _
  · exact raise _
  · exact raise _

/-- The frame of an object is on the stack while its body runs, and becomes a value after that. -/
theorem object : F.Keeps E n (F.value E) (Evaluation.object ev args) := by
  refine plain_then (expectBlock _ _ _) fun body => getHeap_plain fun h =>
    newFrame_then (F.distinct ?_) (fun entry member => ?_)
      fun frame s env heap entered object le => ?_
  · rw [List.map_map]
    exact (List.map_id _).symm ▸ (Evaluation.fieldNames_namesSetWords _).distinct
  · obtain ⟨name, -, rfl⟩ := List.mem_map.mp member
    exact F.inert trivial
  · subst env
    have ends : F.Ends (F.value s.env) s (withScope frame (ev.all body) s) :=
      .withScope entered (all hev body) le fun _ _ => F.outer (List.suffix_cons _ _)
    exact ends.bind heap fun _ k more _ => value (F.mono object more)

theorem printLine : F.Keeps E n (F.value E) (Words.printLine ev args) := by
  have printed (v : Value) : F.Keeps E n (F.value E)
      (do BlockScript.print (← BlockScript.formValue v); return .unset) :=
    plain_then (formValue v) fun line => plain_then (print line) fun _ => inert trivial
  unfold Words.printLine
  split
  · exact (reduce hev _).bind fun v k le _ => (printed v).later le
  · exact printed _

theorem referenced (given : F.value E n v) :
    F.Keeps E n (F.value E) (Protecting.referenced ev v) := by
  unfold Protecting.referenced
  split
  · exact (lookup _).bind fun found k _ given => value (getD given (F.inert trivial))
  · refine plain_then (alloc_plain fun h heap _ => F.block heap fun w member => ?_)
      fun r => all hev r
    rw [List.mem_toArray, List.mem_singleton] at member
    subst member
    exact F.inert trivial
  · exact value given

theorem protecting {target : Protecting.Target} (permitted : target.flags.hide = true → F.hides)
    (given : F.value E n v) : F.Keeps E n (F.value E) (Protecting.apply ev target v) := by
  have container : F.Keeps E n Plain
      (if target.flags.hide then BlockScript.raise .badRefines
        else do let _ ← Protecting.protectValue target.flags [] v : EvalM Unit) :=
    ite (raise _) (plain_then (protectValue permitted [] v) fun _ => plain _)
  unfold Protecting.apply
  dsimp only
  split
  · exact plain_then (protectBinding permitted _ _) fun _ => value given
  · exact plain_then (protectBinding permitted _ _) fun _ => value given
  · next r =>
    refine getHeap_then fun h heap le => ite ?_ (ite ?_ ?_)
    · exact plain_then (foldlM _ _ fun visited item _ => protectBinding permitted visited item)
        fun _ => value (F.mono given le)
    · refine plain_then (foldlM _ _ fun visited item member => ?_) fun _ => value (F.mono given le)
      have known := F.stored heap (.of_tail member)
      exact (referenced hev known).bind fun w k _ _ => protectValue permitted visited w
    · exact plain_then (container.later le) fun _ => value (F.mono given le)
  · exact plain_then container fun _ => value given

/-! ### Natives and functions -/

theorem native (f : Native) (given : F.args E n args)
    (permitted : f = .protect → args.refined 4 = true → F.hides) :
    F.Keeps E n (F.value E) (f.run ev args) := by
  cases f with
  | breakLoop =>
    refine throwReserved _ ?_
    intro v found
    rcases Option.or_eq_some_iff.mp found with here | ⟨-, here⟩
    · exact given.refinement? 0 v here
    · exact given.refinement? 2 v here
  | continueLoop => exact throwReserved _ .none
  | returnValue => exact throwReserved _ (.some (given.value 0))
  | exitFunction => exact get_then fun s _ _ le => throwReserved _ ((given.mono le).refinement? 0)
  | quit => exact throwReserved _ (given.refinement? 0)
  | throwValue => exact throwValue given
  | catchThrown => exact catchThrown hev given
  | trap => exact trap hev given
  | attempt => exact attempt hev
  | fail => exact fail hev
  | protect => exact protecting hev (permitted rfl) (given.value 0)
  | unprotect => exact protecting hev (fun hide => by cases hide) (given.value 0)
  | allOf => exact allOf hev
  | anyOf => exact anyOf hev
  | caseOf => exact caseOf hev
  | switchOn => exact switchOn hev given
  | ifTrue => exact ifTrue hev given
  | either => exact either hev given
  | ifFalse => exact ifFalse hev given
  | loopTimes => exact loopTimes hev
  | whileTrue => exact whileTrue hev
  | forever => exact forever hev
  | doValue => exact doValue hev
  | reduce => exact plain_then (expectBlock _ _ _) fun block => reduce hev block
  | also => exact value (given.value 0)
  | comment => exact inert trivial
  | func => exact func
  | does => exact does
  | object => exact object hev
  | context => exact object hev
  | append => exact append given
  | insert => exact insert given
  | poke => exact poke given
  | clear => exact clear
  | first => exact pickFrom _ _ _
  | pick => exact pick
  | lengthOf => exact lengthOf
  | copy => exact copy given
  | wordsOf => exact wordsOf
  | operator op => exact operator op
  | negation => exact inert trivial
  | set => exact set given
  | get => exact get
  | hasValue => exact hasValue
  | form => exact plain_then (formValue _) fun _ => newText _
  | mold => exact plain_then (moldValue _) fun _ => newText _
  | print => exact printLine hev
  | typeOf => exact inert trivial
  | isNone => exact inert trivial
  | isUnset => exact inert trivial
  | isError => exact inert trivial

theorem runBody {params : List Param} (body : BlockRef) (names : F.names (params.map (·.name)))
    (given : F.args E n args) (enough : args.size = params.length) :
    F.Keeps E n (F.value E) (runBody ev params body args) := by
  have zipped : ((params.map (·.name)).zip args.toList).map (·.1) = params.map (·.name) :=
    List.map_fst_zip (by simp [enough])
  refine newFrame_then (by rwa [zipped]) (fun entry member => ?_)
    fun frame s env _ entered _ le => ?_
  · exact given _ (Array.mem_toList_iff.mp (List.of_mem_zip member).2)
  · subst env
    have ends : F.Ends (F.value s.env) s (withScope frame (ev.all body) s) :=
      .withScope entered (all hev body) le fun _ _ => F.outer (List.suffix_cons _ _)
    refine ends.claiming (fun k h x v _ payload claimed => ?_) fun _ _ given => given
    split at claimed
    · cases claimed
      exact payload
    · cases claimed

theorem function {f : Function} (known : F.value E n (.function f)) (given : F.args E n args)
    (enough : args.size = f.arity)
    (permitted : f = .native .protect → args.refined 4 = true → F.hides) :
    F.Keeps E n (F.value E) (f.run ev args) := by
  cases f with
  | native f => exact native hev f given fun same => permitted (congrArg _ same)
  | user number params body => exact runBody hev body (F.function_iff.mp known) given enough

/-! ### Gathering arguments -/

omit hev in
/-- A value with the position after it. -/
theorem located (given : F.value E n v) (position : Nat) :
    F.Keeps E n (First (F.value E)) (Pure.pure (v, position) : EvalM (Value × Nat)) :=
  pure fun _ le => F.mono given le

theorem gatherArg (function : String) (param : Param) (block : BlockRef) (position : Nat) :
    F.Keeps E n (First (F.value E)) (gatherArg ev function param block position) := by
  unfold BlockScript.gatherArg
  dsimp only
  split
  · refine getHeap_then fun h heap _ => ?_
    split
    · next found => exact located (F.stored heap (.of_item? found)) _
    · exact raise _
  · refine getHeap_then fun h heap _ => ?_
    split
    · exact (fetch _).bind fun v k _ given => located given _
    · exact (fetch _).bind fun v k _ given => located given _
    · next found => exact located (F.stored heap (.of_item? found)) _
    · exact raise _
  · refine (hev.next E n block position).bind fun step k _ given => ?_
    match step with
    | some step => exact located (given step rfl) _
    | none => exact raise _

omit hev in
def Gathers (F : ValueFlow) (E : Environment) (size n : Nat) (gathered : Gathered) : Prop :=
  F.args E n gathered.args ∧ gathered.args.size = size

omit hev in
theorem Gathers.mono {size k : Nat} {gathered : Gathered} (gathers : Gathers F E size n gathered)
    (le : n ≤ k) : Gathers F E size k gathered := ⟨gathers.1.mono le, gathers.2⟩

omit hev in
theorem Gathers.set {size slot position : Nat} {gathered : Gathered}
    (gathers : Gathers F E size n gathered) (given : F.value E n v) :
    Gathers F E size n ⟨gathered.args.setIfInBounds slot v, position⟩ := by
  refine ⟨fun w member => ?_, Array.size_setIfInBounds.trans gathers.2⟩
  rcases Array.mem_or_eq_of_mem_setIfInBounds member with old | rfl
  · exact gathers.1 w old
  · exact given

theorem gatherParams (function : String) (block : BlockRef) {gathered : Gathered} {size : Nat}
    (gathers : Gathers F E size n gathered) (params : List (Nat × Param)) :
    F.Keeps E n (Gathers F E size) (gatherParams ev function block gathered params) := by
  unfold BlockScript.gatherParams
  induction params generalizing n gathered with
  | nil => exact pure fun _ le => gathers.mono le
  | cons slot params ih =>
    rw [List.foldlM_cons]
    refine bind ((gatherArg hev function slot.2 block gathered.position).bind
      fun step k le given => pure fun m more => ?_) fun gathered k _ gathers => ih gathers
    exact (gathers.mono (le.trans more)).set (F.mono given more)

theorem gatherRefinements (name : String) (f : Function) (block : BlockRef) (used : List Nat)
    (segments : List Segment) {gathered : Gathered} {size : Nat}
    (gathers : Gathers F E size n gathered) :
    F.Keeps E n (Gathers F E size)
      (gatherRefinements ev name f block used segments gathered) := by
  induction segments generalizing n used gathered with
  | nil => exact pure fun _ le => gathers.mono le
  | cons segment segments ih =>
    simp only [BlockScript.gatherRefinements]
    split
    · exact raise _
    · have used : F.value E n (.logic true) := F.inert trivial
      exact ite (raise _) ((gatherParams hev name block (gathers.set used) _).bind
        fun gathered k _ gathers => ih _ gathers)

theorem gatherCall (name : String) {f : Function} (known : F.value E n (.function f))
    (refinements : List Segment) (block : BlockRef) (position : Nat) :
    F.Keeps E n (First (F.value E)) (BlockScript.call ev name f refinements block position) := by
  have start : Gathers F E f.arity n ⟨Array.replicate f.arity .none, position⟩ := by
    refine ⟨fun v member => ?_, Array.size_replicate⟩
    rw [(Array.mem_replicate.mp member).2]
    exact F.inert trivial
  refine (gatherParams hev name block start f.fixedParams).bind fun gathered k le gathers =>
    (gatherRefinements hev name f block [] refinements gathers).bind fun gathered m more gathers =>
      (hev.invoke E m name f gathered.args (F.mono known (le.trans more)) gathers.1
        gathers.2).bind fun v _ _ given => ?_
  exact pure fun _ le => F.mono given le

/-! ### Expressions -/

theorem selectPath (segments : List Segment) (block : BlockRef) (position : Nat) (here : Segment)
    (rest : List Segment) (given : F.value E n v) :
    F.Keeps E n (First (F.value E)) (selectPath ev segments block position v here rest) := by
  induction rest generalizing v n here with
  | nil =>
    cases v with
    | function f => exact gatherCall hev _ given [] block position
    | _ => exact located given position
  | cons segment rest ih =>
    cases v with
    | function f => exact gatherCall hev _ given (segment :: rest) block position
    | _ => exact (select segments _ segment).bind fun v k _ given => ih segment given

theorem pathTerm (segments : List Segment) (block : BlockRef) (position : Nat) :
    F.Keeps E n (First (F.value E)) (pathTerm ev segments block position) := by
  refine (pathHead segments).bind fun v k _ given => ?_
  match segments with
  | [] => exact located given position
  | here :: rest => exact selectPath hev _ _ _ _ _ given

theorem assigned (target : String) (block : BlockRef) (position : Nat) :
    F.Keeps E n (First (F.value E)) (assigned ev target block position) := by
  refine (hev.next E n block position).bind fun step k _ given => ?_
  match step with
  | none => exact raise _
  | some (v, position) => exact ite (raise _) (located (given _ rfl) position)

theorem term (block : BlockRef) (position : Nat) {item : Value} (given : F.value E n item) :
    F.Keeps E n (First (F.value E)) (term ev block position item) := by
  unfold BlockScript.term
  split
  · refine (lookupSet _).bind fun v k _ known => ?_
    split
    · exact gatherCall hev _ known _ _ _
    · exact located known position
  · exact (assigned hev _ _ _).bind fun p k _ given =>
      plain_then (assignWord _ given) fun _ => located given _
  · exact (fetch _).bind fun v k _ given => located given position
  · exact located (F.inert (by trivial)) position
  · exact pathTerm hev _ _ _
  · exact (assigned hev _ _ _).bind fun p k _ given =>
      plain_then (pathSet _ given) fun _ => located given _
  · exact (pathGet _).bind fun v k _ given => located given position
  · exact located (F.inert (by trivial)) position
  · exact (all hev _).bind fun v k _ given => located given position
  · exact located given position

omit hev in
theorem operatorAt (block : BlockRef) (position : Nat) :
    F.Keeps E n (Each fun n found => F.value E n (.function found.2))
      (operatorAt block position) := by
  refine getHeap_plain fun h => ?_
  split
  · refine (lookup _).bind fun found k _ given => ?_
    split
    · next f =>
      refine pure fun m le found here => ?_
      split at here
      · cases here
        exact F.mono (given _ rfl) le
      · cases here
    · exact pure fun _ _ => nofun
  · exact pure fun _ _ => nofun

theorem operators (block : BlockRef) (fuel position : Nat) (given : F.value E n v) :
    F.Keeps E n (First (F.value E)) (operators ev block fuel v position) := by
  induction fuel generalizing n v position with
  | zero => exact outOfFuel
  | succ fuel ih =>
    simp only [BlockScript.operators]
    refine (operatorAt block position).bind fun found k before known => ?_
    rcases found with _ | ⟨name, f⟩
    · exact located (F.mono given before) position
    · refine getHeap_then fun h heap le => ?_
      split
      · exact raise _
      · next operand there =>
        have operand := F.stored heap (.of_item? there)
        refine (term hev block _ operand).bind fun right m more second => ?_
        have both : ∀ w ∈ [v, right.1], F.value E m w :=
          List.forall_mem_cons.mpr ⟨F.mono given (before.trans (le.trans more)),
            List.forall_mem_singleton.mpr second⟩
        have args := positional f both
        exact (hev.invoke E m name f _ (F.mono (known _ rfl) (le.trans more)) args.1
          args.2).bind fun result _ _ given => ih _ given

theorem expression (block : BlockRef) (position : Nat) :
    F.Keeps E n (Each (First (F.value E))) (expression ev block position) := by
  refine getHeap_then fun h heap _ => ?_
  split
  · exact pure fun _ _ => .none
  · next item there =>
    have known := F.stored heap (.of_item? there)
    refine (term hev block _ known).bind fun (left, position) k _ given =>
      (operators hev block _ position given).bind fun result m _ given => pure fun _ le => ?_
    exact .some (F.mono given le)

end Evaluator

end ValueFlow.Keeps

end BlockScript
