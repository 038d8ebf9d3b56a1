import BlockScript.Expression
import BlockScript.Proofs.Renaming
import BlockScript.Proofs.Routine

/-!
# Computations with other names

A computation renames to another one when the other, begun in a state in which all calls have other
names, ends as it would have ended, but for the names: in the values, in the exits and in the state.
The steps and the brackets that natives are made of rename to themselves, given other values, apart
from the name that a call is made under.
-/

namespace BlockScript

variable {α β γ δ : Type} (ρ : Renaming)

/-! ## States and exits -/

def Thrown.rename (exit : Thrown) : Thrown := ⟨exit.name.rename ρ, exit.payload.rename ρ⟩

def Exit.rename : Exit → Exit
  | .thrown exit => .thrown (exit.rename ρ)
  | .raised e => .raised (e.rename ρ)
  | .outOfFuel => .outOfFuel

def CallStack.rename (c : CallStack) : CallStack := { c with names := c.names.map ρ.name }

def State.rename (s : State) : State :=
  { s with heap := s.heap.rename ρ, calls := s.calls.rename ρ }

def renameEnd (g : α → β) : EStateM.Result Exit State α → EStateM.Result Exit State β
  | .ok a s => .ok (g a) (s.rename ρ)
  | .error exit s => .error (exit.rename ρ) (s.rename ρ)

@[simp] theorem Thrown.isNamed_rename (exit : Thrown) (own : ReservedExit) :
    (exit.rename ρ).isNamed own = exit.isNamed own :=
  exit.name.isWordNamed_rename ρ own.name

namespace CallStack

variable (c : CallStack)

theorem push_rename (name : String) :
    (c.rename ρ).push (ρ.name name) = (c.push name).map (CallStack.rename ρ) := by
  have pushed : (c.names.map ρ.name).push (ρ.name name) = (c.names.push name).map ρ.name :=
    Array.map_push.symm
  cases limit : c.limit with
  | none => simp only [push, rename, limit, pushed]; rfl
  | some n =>
    simp only [push, rename, limit, depth, Array.size_map, pushed]
    split <;> rfl

theorem pop_rename : (c.rename ρ).pop = c.pop.rename ρ := by
  simp [pop, rename]

theorem truncate_rename (depth : Nat) :
    (c.rename ρ).truncate depth = (c.truncate depth).rename ρ := by
  simp [truncate, rename]

theorem capture_rename : (c.rename ρ).capture = c.capture.map ρ.name := by
  simp only [capture, rename, Array.toList_map, ← List.map_reverse, List.map_map]
  exact List.map_congr_left fun name _ => ρ.shown name

theorem attach_rename (e : EvalError) :
    (c.rename ρ).attach (e.rename ρ) = (c.attach e).rename ρ := by
  have empty : (c.rename ρ).isEmpty = c.isEmpty := by
    rw [isEmpty, isEmpty, Array.isEmpty, Array.isEmpty, rename, Array.size_map]
  have present : (e.rename ρ).backtrace.isSome = e.backtrace.isSome := Option.isSome_map
  rw [attach, attach, empty, present, apply_ite (EvalError.rename ρ), capture_rename]
  rfl

end CallStack

/-! ## Arguments -/

def Args.rename (args : Args) : Args := args.map (Value.rename ρ)

namespace Args

variable (args : Args) (i : Nat)

@[simp] theorem value_rename : (args.rename ρ).value i = (args.value i).rename ρ := by
  simp only [value, rename, Array.getD_eq_getD_getElem?, Array.getElem?_map]
  cases args[i]? <;> rfl

@[simp] theorem refined_rename : (args.rename ρ).refined i = args.refined i := by
  have found : (args.rename ρ)[i]? = args[i]?.map (Value.rename ρ) := Array.getElem?_map ..
  rw [refined, refined, found]
  cases args[i]? with
  | none => rfl
  | some v => cases v <;> rfl

@[simp] theorem refinement?_rename :
    (args.rename ρ).refinement? i = (args.refinement? i).map (Value.rename ρ) := by
  rw [refinement?, refinement?, refined_rename, value_rename, apply_ite (Option.map _)]
  rfl

end Args

theorem Function.positional_rename (f : Function) (values : List Value) :
    f.positional (values.map (Value.rename ρ)) = (f.positional values).rename ρ := by
  have missing : List.replicate f.arity Value.none =
      (List.replicate f.arity Value.none).map (Value.rename ρ) := by
    rw [List.map_replicate]
    rfl
  rw [positional, missing, ← List.map_append, ← List.map_take, ← List.map_toArray]
  rfl

/-! ## Computations -/

def Renames (g : α → β) (m : EvalM α) (m' : EvalM β) : Prop :=
  ∀ s, m' (s.rename ρ) = renameEnd ρ g (m s)

structure Evaluator.Renames (ev ev' : Evaluator) : Prop where
  next (block : BlockRef) (position : Nat) :
    BlockScript.Renames ρ (Option.map (Prod.map (Value.rename ρ) id)) (ev.next block position)
      (ev'.next block position)
  invoke (name : String) (f : Function) (args : Args) :
    BlockScript.Renames ρ (Value.rename ρ) (ev.invoke name f args)
      (ev'.invoke name f (args.rename ρ))
  fuel : ev'.fuel = ev.fuel

namespace Renames

variable {ρ} {g : α → β} {g' : γ → δ} {m : EvalM α} {m' : EvalM β}

theorem pure {a : α} {b : β} (same : b = g a) : Renames ρ g (pure a) (pure b) :=
  fun _ => congrArg (EStateM.Result.ok · _) same

theorem throw {exit exit' : Exit} (same : exit' = exit.rename ρ) :
    Renames ρ g (throw exit) (throw exit') :=
  fun _ => congrArg (EStateM.Result.error · _) same

theorem raise (cause : Cause) : Renames ρ g (raise cause) (raise cause) := throw rfl

theorem raiseType (function argument : String) (v : Value) :
    Renames ρ g (raiseType function argument v) (raiseType function argument (v.rename ρ)) := by
  rw [BlockScript.raiseType, BlockScript.raiseType, Value.kind_rename]
  exact raise _

theorem bind {k : α → EvalM γ} {k' : β → EvalM δ} (first : Renames ρ g m m')
    (rest : ∀ a, Renames ρ g' (k a) (k' (g a))) : Renames ρ g' (m >>= k) (m' >>= k') := by
  intro s
  change EStateM.bind m' k' (s.rename ρ) = renameEnd ρ g' (EStateM.bind m k s)
  rw [EStateM.bind, EStateM.bind, first s]
  cases m s with
  | ok a t => exact rest a t
  | error exit t => rfl

theorem ite {c c' : Prop} [Decidable c] [Decidable c'] {n : EvalM α} {n' : EvalM β} (same : c' ↔ c)
    (h : Renames ρ g m m') (h' : Renames ρ g n n') :
    Renames ρ g (if c then m else n) (if c' then m' else n') := by
  by_cases holds : c
  · rwa [if_pos holds, if_pos (same.mpr holds)]
  · rwa [if_neg holds, if_neg (mt same.mp holds)]

theorem getHeap_then {k : Heap → EvalM α} {k' : Heap → EvalM β}
    (rest : ∀ h, Renames ρ g (k h) (k' (h.rename ρ))) :
    Renames ρ g (getHeap >>= k) (getHeap >>= k') :=
  fun s => rest s.heap s

theorem get_then {k : State → EvalM α} {k' : State → EvalM β}
    (rest : ∀ s, Renames ρ g (k s) (k' (s.rename ρ))) : Renames ρ g (get >>= k) (get >>= k') :=
  fun s => rest s s

theorem lookup (name : String) :
    Renames ρ (Option.map (Value.rename ρ)) (lookup name) (lookup name) :=
  fun s => congrArg (EStateM.Result.ok · _) (s.env.lookup_rename ρ s.heap name)

theorem alloc {make : Heap → α × Heap} {make' : Heap → β × Heap}
    (makes : ∀ h : Heap, make' (h.rename ρ) = Prod.map g (Heap.rename ρ) (make h)) :
    Renames ρ g (alloc make) (alloc make') := by
  intro s
  change EStateM.Result.ok (make' (s.heap.rename ρ)).1
    { s.rename ρ with heap := (make' (s.heap.rename ρ)).2 } = _
  rw [makes]
  rfl

theorem editBlock (series : Nat) {change change' : Array Value → Array Value}
    (changes : ∀ items, change' (items.map (Value.rename ρ)) =
      (change items).map (Value.rename ρ)) :
    Renames ρ id (editBlock series change) (editBlock series change') := by
  intro s
  have guarded : (s.rename ρ).heap.isBlockProtected series = s.heap.isBlockProtected series :=
    s.heap.isBlockProtected_rename ρ series
  rw [editBlock_apply, editBlock_apply, guarded, apply_ite (renameEnd ρ id)]
  split
  · rfl
  · exact congrArg (fun heap => EStateM.Result.ok () { s.rename ρ with heap })
      (s.heap.editBlock_rename ρ series change change' changes)

theorem editText (text : TextId) (change : String → String) :
    Renames ρ id (editText text change) (editText text change) := by
  intro s
  rw [editText_apply, editText_apply, apply_ite (renameEnd ρ id)]
  rfl

theorem assignField (object : FrameId) (i : Nat) (v : Value) :
    Renames ρ id (assignField object i v) (assignField object i (v.rename ρ)) := by
  intro s
  have denied : ((s.rename ρ).heap.frame object).denied? i = (s.heap.frame object).denied? i := by
    rw [State.rename, Heap.frame_rename, Frame.denied?_rename]
  rw [assignField_apply, assignField_apply, denied]
  cases (s.heap.frame object).denied? i with
  | some denied => rfl
  | none =>
    exact congrArg (fun heap => EStateM.Result.ok () { s.rename ρ with heap })
      (s.heap.modifyFrame_rename ρ object (·.put i v) (·.put i (v.rename ρ)) fun f =>
        f.put_rename ρ i v)

theorem assignWord (name : String) (v : Value) :
    Renames ρ id (assignWord name v) (assignWord name (v.rename ρ)) := by
  intro s
  have slot : (s.rename ρ).env.slot (s.rename ρ).heap name = s.env.slot s.heap name :=
    s.env.slot_rename ρ s.heap name
  rw [assignWord_apply, assignWord_apply, slot]
  cases s.env.slot s.heap name with
  | error denied => rfl
  | ok slot =>
    exact congrArg (fun heap => EStateM.Result.ok () { s.rename ρ with heap })
      (s.env.write_rename ρ s.heap name v slot)

theorem print (line : String) : Renames ρ id (print line) (print line) := fun _ => rfl

theorem walking {flags : ProtectFlags} {visited : List Container}
    {step step' : ProtectWalk → ProtectWalk} (steps : ∀ w, step' (w.rename ρ) = (step w).rename ρ) :
    Renames ρ id (Protecting.walking { flags, heap := {}, visited } step)
      (Protecting.walking { flags, heap := {}, visited } step') := by
  intro s
  let walk (s : State) : ProtectWalk := { flags, heap := s.heap, visited }
  have walked : step' (walk (s.rename ρ)) = (step (walk s)).rename ρ := steps (walk s)
  change EStateM.Result.ok (step' (walk (s.rename ρ))).visited
    { s.rename ρ with heap := (step' (walk (s.rename ρ))).heap } = _
  rw [walked]
  rfl

/-! ### Brackets -/

theorem withScope (body : Renames ρ g m m') (frame : FrameId) :
    Renames ρ g (withScope frame m) (withScope frame m') := by
  intro s
  have inner : m' { s.rename ρ with env := (s.rename ρ).env.push frame } = _ :=
    body { s with env := s.env.push frame }
  rw [BlockScript.withScope, BlockScript.withScope, inner]
  cases m { s with env := s.env.push frame } <;> rfl

theorem attachCalls_rename (calls : CallStack) (exit : Exit) :
    attachCalls (calls.rename ρ) (exit.rename ρ) = (attachCalls calls exit).rename ρ := by
  cases exit with
  | raised e => exact congrArg Exit.raised (calls.attach_rename ρ e)
  | _ => rfl

theorem withCall (body : Renames ρ g m m') (name : String) :
    Renames ρ g (withCall name m) (withCall (ρ.name name) m') := by
  intro s
  have pushed : (s.rename ρ).calls.push (ρ.name name) = _ := s.calls.push_rename ρ name
  rw [BlockScript.withCall, BlockScript.withCall, pushed]
  cases s.calls.push name with
  | error cause =>
    exact congrArg (fun e => EStateM.Result.error (Exit.raised e) (s.rename ρ))
      (s.calls.attach_rename ρ { cause })
  | ok calls =>
    have inner : m' { s.rename ρ with calls := calls.rename ρ } = _ := body { s with calls }
    dsimp only [Except.map]
    rw [inner]
    cases m { s with calls } with
    | ok a t =>
      exact congrArg (fun calls => EStateM.Result.ok (g a) { t.rename ρ with calls })
        (t.calls.pop_rename ρ)
    | error exit t =>
      change EStateM.Result.error (attachCalls (t.calls.rename ρ) (exit.rename ρ))
        { t.rename ρ with calls := (t.calls.rename ρ).pop } = _
      rw [attachCalls_rename, CallStack.pop_rename]
      rfl

theorem claiming (body : Renames ρ g m m') {claim : Heap → Thrown → Option γ}
    {claim' : Heap → Thrown → Option δ} {result : α → γ} {result' : β → δ}
    (claims : ∀ h exit, claim' (h.rename ρ) (exit.rename ρ) = (claim h exit).map g')
    (results : ∀ a, result' (g a) = g' (result a)) :
    Renames ρ g' (claiming claim result m) (claiming claim' result' m') := by
  intro s
  rw [BlockScript.claiming, BlockScript.claiming, body s]
  cases m s with
  | ok a t => exact congrArg (EStateM.Result.ok · _) (results a)
  | error exit t =>
    cases exit with
    | thrown exit =>
      have claimed : claim' (t.rename ρ).heap (exit.rename ρ) = _ := claims t.heap exit
      dsimp only [renameEnd, Exit.rename]
      rw [claimed]
      cases claim t.heap exit <;> rfl
    | _ => rfl

def renameOutcome (ρ : Renaming) (g : α → β) : Except EvalError α → Except EvalError β
  | .ok a => .ok (g a)
  | .error e => .error (e.rename ρ)

theorem land_rename (s : State) (token : Nat) :
    (s.rename ρ).land token = (s.land token).rename ρ := by
  have truncated (depth : Nat) := s.calls.truncate_rename ρ depth
  have recovery : (s.rename ρ).recovery = s.recovery := rfl
  rw [State.land, State.land, recovery]
  obtain ⟨_ | point, retired⟩ := s.recovery.retire token
  · rfl
  · exact congrArg (fun calls => { s.rename ρ with calls, recovery := retired,
                                                   env := s.env.truncate point.scopeDepth })
      (truncated point.callDepth)

theorem guarded (body : Renames ρ g m m') :
    Renames ρ (renameOutcome ρ g) (guarded m) (guarded m') := by
  intro s
  have depth : (s.rename ρ).calls.depth = s.calls.depth := Array.size_map
  have armed : (s.rename ρ).armed = s.armed.rename ρ := by
    rw [State.armed, depth]
    rfl
  rw [guarded_apply, guarded_apply, armed, body s.armed]
  cases m s.armed with
  | ok a t => rfl
  | error exit t =>
    cases exit with
    | raised e => exact congrArg (EStateM.Result.ok _) (land_rename t _)
    | _ => rfl

/-! ### Evaluation of blocks -/

theorem newBlock (items : Array Value) :
    Renames ρ (Value.rename ρ) (newBlock items) (newBlock (items.map (Value.rename ρ))) :=
  bind (alloc fun h => h.newBlock_rename ρ items) fun _ => pure rfl

theorem newText (content : String) :
    Renames ρ (Value.rename ρ) (newText content) (newText content) :=
  alloc fun _ => rfl

theorem expectBlock (function argument : String) (v : Value) :
    Renames ρ id (expectBlock function argument v)
      (expectBlock function argument (v.rename ρ)) := by
  cases v with
  | block r => exact pure rfl
  | _ => exact raiseType _ _ _

theorem expectInteger (function argument : String) (v : Value) :
    Renames ρ id (expectInteger function argument v)
      (expectInteger function argument (v.rename ρ)) := by
  cases v with
  | integer n => exact pure rfl
  | _ => exact raiseType _ _ _

theorem moldValue (v : Value) : Renames ρ id (moldValue v) (moldValue (v.rename ρ)) :=
  getHeap_then fun h => pure (h.mold_rename ρ v)

theorem formValue (v : Value) : Renames ρ id (formValue v) (formValue (v.rename ρ)) :=
  getHeap_then fun h => pure (h.form_rename ρ v)

theorem foldlM {ι κ : Type} {f : γ → ι → EvalM γ} {f' : δ → κ → EvalM δ} (k : ι → κ)
    (steps : ∀ c i, Renames ρ g' (f c i) (f' (g' c) (k i))) (items : List ι) (start : γ) :
    Renames ρ g' (items.foldlM f start) ((items.map k).foldlM f' (g' start)) := by
  induction items generalizing start with
  | nil => exact pure rfl
  | cons item items ih => exact bind (steps start item) ih

/-! ### Words and paths -/

theorem lookupSet (name : String) :
    Renames ρ (Value.rename ρ) (lookupSet name) (lookupSet name) := by
  refine bind (lookup name) fun found => ?_
  match found with
  | none => exact raise _
  | some v =>
    cases v with
    | unset => exact raise _
    | _ => exact pure rfl

theorem fetch (name : String) : Renames ρ (Value.rename ρ) (fetch name) (fetch name) :=
  bind (lookup name) fun found => pure (by cases found <;> rfl)

theorem pokeItem (r : BlockRef) (place : Int64) (v : Value) :
    Renames ρ id (pokeItem r place v) (pokeItem r place (v.rename ρ)) := by
  refine ite Iff.rfl (raise _) (getHeap_then fun h => ?_)
  refine ite (by rw [Heap.isBlockProtected_rename]) (raise _) (ite ?_ (editBlock _ fun items => ?_)
    (raise _))
  · rw [Heap.items_rename, Array.size_map]
  · exact Array.map_setIfInBounds.symm

theorem select (segments : List Segment) (container : Value) (segment : Segment) :
    Renames ρ (Value.rename ρ) (Path.select segments container segment)
      (Path.select segments (container.rename ρ) segment) := by
  cases container with
  | object object =>
    cases segment with
    | name name =>
      refine getHeap_then fun h => ?_
      rw [Heap.frame_rename, Frame.get?_rename]
      cases (h.frame object).get? name with
      | none => exact raise _
      | some v => exact pure rfl
    | index place => exact raise _
  | block r =>
    cases segment with
    | name name => exact getHeap_then fun h => pure (h.selectAfter_rename ρ r (.word .word name))
    | index place => exact getHeap_then fun h => pure (h.pick_rename ρ r place)
  | paren r =>
    cases segment with
    | name name => exact raise _
    | index place => exact getHeap_then fun h => pure (h.pick_rename ρ r place)
  | error e =>
    cases segment with
    | name name =>
      by_cases isId : name = "id"
      · subst isId
        exact pure rfl
      by_cases isMessage : name = "message"
      · subst isMessage
        exact newText e.message
      have refused (e : EvalError) : Path.select segments (.error e) (.name name) =
          Path.refuse segments (Segment.name name).mold := by
        unfold Path.select
        split <;> simp_all
      rw [refused, Value.rename, refused]
      exact raise _
    | index place => exact raise _
  | _ => exact raise _

theorem selectAll (segments rest : List Segment) (container : Value) :
    Renames ρ (Value.rename ρ) (rest.foldlM (Path.select segments) container)
      (rest.foldlM (Path.select segments) (container.rename ρ)) := by
  induction rest generalizing container with
  | nil => exact pure rfl
  | cons segment rest ih => exact bind (select segments container segment) ih

theorem pathHead (segments : List Segment) :
    Renames ρ (Value.rename ρ) (Path.head segments) (Path.head segments) := by
  match segments with
  | [] => exact raise _
  | .name name :: _ => exact lookupSet name
  | .index _ :: _ => exact raise _

theorem pathGet (segments : List Segment) :
    Renames ρ (Value.rename ρ) (Path.get segments) (Path.get segments) :=
  bind (pathHead segments) fun value => selectAll segments _ value

theorem target (segments : List Segment) :
    Renames ρ (Prod.map (Value.rename ρ) id) (Path.target segments) (Path.target segments) := by
  unfold Path.target
  split
  · exact raise _
  · exact ite Iff.rfl (raise _) (bind (pathHead segments) fun value =>
      bind (selectAll segments _ value) fun _ => pure rfl)

theorem pathSet (segments : List Segment) (v : Value) :
    Renames ρ id (Path.set segments v) (Path.set segments (v.rename ρ)) := by
  refine bind (target segments) fun (container, last) => ?_
  cases container with
  | object object =>
    cases last with
    | name name =>
      refine getHeap_then fun h => ?_
      rw [Heap.frame_rename, Frame.find?_rename]
      cases (h.frame object).find? name with
      | none => exact raise _
      | some i => exact assignField object i v
    | index place => exact raise _
  | block r =>
    cases last with
    | name name => exact raise _
    | index place => exact pokeItem r place v
  | _ => exact raise _

theorem field? (segments : List Segment) :
    Renames ρ id (Path.field? segments) (Path.field? segments) := by
  refine bind (target segments) fun (container, last) => ?_
  cases container with
  | object object =>
    cases last with
    | name name =>
      refine getHeap_then fun h => ?_
      rw [Heap.frame_rename, Frame.find?_rename]
      exact pure rfl
    | index place => exact pure rfl
  | _ => exact pure rfl

/-! ### Series, words and text -/

theorem append (args : Args) :
    Renames ρ (Value.rename ρ) (SeriesAccess.append args)
      (SeriesAccess.append (args.rename ρ)) := by
  unfold SeriesAccess.append
  rw [Args.value_rename, Args.value_rename, Args.refined_rename]
  cases args.value 0 with
  | block r =>
    refine getHeap_then fun h => bind (editBlock r.id fun items => ?_) fun _ => pure rfl
    rw [Heap.spliced_rename, map_append_list]
  | text text => exact bind (formValue _) fun _ => bind (editText _ _) fun _ => pure rfl
  | _ => exact raiseType _ _ _

theorem insert (args : Args) :
    Renames ρ (Value.rename ρ) (SeriesAccess.insert args)
      (SeriesAccess.insert (args.rename ρ)) := by
  unfold SeriesAccess.insert
  rw [Args.value_rename, Args.value_rename, Args.refined_rename]
  cases args.value 0 with
  | block r =>
    refine getHeap_then fun h => ?_
    rw [Heap.spliced_rename, Heap.items_rename, Array.size_map]
    refine bind (editBlock r.id fun items => ?_) fun _ => pure ?_
    · simp [map_append_list]
    · rw [List.length_map]
      rfl
  | text text => exact bind (formValue _) fun _ => bind (editText _ _) fun _ => pure rfl
  | _ => exact raiseType _ _ _

theorem poke (args : Args) :
    Renames ρ (Value.rename ρ) (SeriesAccess.poke args) (SeriesAccess.poke (args.rename ρ)) := by
  unfold SeriesAccess.poke
  rw [Args.value_rename, Args.value_rename, Args.value_rename]
  cases args.value 0 with
  | block r =>
    exact bind (expectInteger _ _ _) fun place => bind (pokeItem r place _) fun _ => pure rfl
  | _ => exact raiseType _ _ _

theorem clear (args : Args) :
    Renames ρ (Value.rename ρ) (SeriesAccess.clear args) (SeriesAccess.clear (args.rename ρ)) := by
  unfold SeriesAccess.clear
  rw [Args.value_rename]
  cases args.value 0 with
  | block r =>
    exact bind (editBlock r.id fun items => by simp) fun _ => pure rfl
  | text text => exact bind (editText _ _) fun _ => pure rfl
  | none => exact pure rfl
  | _ => exact raiseType _ _ _

theorem pickFrom (function : String) (place : Int64) (v : Value) :
    Renames ρ (Value.rename ρ) (SeriesAccess.pickFrom function place v)
      (SeriesAccess.pickFrom function place (v.rename ρ)) := by
  cases v with
  | block r => exact getHeap_then fun h => pure (h.pick_rename ρ r place)
  | paren r => exact getHeap_then fun h => pure (h.pick_rename ρ r place)
  | text text =>
    refine getHeap_then fun h => ?_
    rw [Heap.text_rename]
    dsimp only
    split
    · exact newText _
    · exact pure rfl
  | _ => exact raiseType _ _ _

theorem pick (args : Args) :
    Renames ρ (Value.rename ρ) (SeriesAccess.pick args) (SeriesAccess.pick (args.rename ρ)) := by
  unfold SeriesAccess.pick
  rw [Args.value_rename, Args.value_rename]
  exact bind (expectInteger _ _ _) fun place => pickFrom _ place _

theorem lengthOf (args : Args) :
    Renames ρ (Value.rename ρ) (SeriesAccess.lengthOf args)
      (SeriesAccess.lengthOf (args.rename ρ)) := by
  unfold SeriesAccess.lengthOf
  rw [Args.value_rename]
  refine getHeap_then fun h => ?_
  cases args.value 0 with
  | block r => exact pure (by rw [Heap.length_rename]; rfl)
  | paren r => exact pure (by rw [Heap.length_rename]; rfl)
  | text text => exact pure rfl
  | object object => exact pure (by rw [Heap.frame_rename, Frame.words_rename]; rfl)
  | _ => exact raiseType _ _ _

theorem copy (args : Args) :
    Renames ρ (Value.rename ρ) (SeriesAccess.copy args) (SeriesAccess.copy (args.rename ρ)) := by
  refine alloc fun h => ?_
  rw [Args.value_rename, Args.refined_rename, Heap.deepCopy_rename, Heap.shallowCopy_rename,
    apply_ite (Prod.map _ _)]

theorem wordsOf (args : Args) :
    Renames ρ (Value.rename ρ) (SeriesAccess.wordsOf args)
      (SeriesAccess.wordsOf (args.rename ρ)) := by
  unfold SeriesAccess.wordsOf
  rw [Args.value_rename]
  cases args.value 0 with
  | object object =>
    refine getHeap_then fun h => ?_
    let words : Array Value := ((h.frame object).words.map (Value.word .word)).toArray
    have plain : words.map (Value.rename ρ) = words := by
      simp only [words, List.map_toArray, List.map_map]
      rfl
    have made : Renames ρ (Value.rename ρ) (BlockScript.newBlock words)
        (BlockScript.newBlock (words.map (Value.rename ρ))) := newBlock words
    rw [Heap.frame_rename, Frame.words_rename]
    rwa [plain] at made
  | _ => exact raiseType _ _ _

theorem operate (op : Operator) (args : Args) :
    Renames ρ (Value.rename ρ) (Operators.run op args) (Operators.run op (args.rename ρ)) := by
  unfold Operators.run
  refine getHeap_then fun h => ?_
  rw [Args.value_rename, Args.value_rename, Heap.operator_rename]
  cases found : Operators.apply h (args.value 0) (args.value 1) op with
  | ok v => exact pure ((Operators.apply_isResult found).rename ρ).symm
  | error cause => exact raise cause

theorem set (args : Args) :
    Renames ρ (Value.rename ρ) (Words.set args) (Words.set (args.rename ρ)) := by
  unfold Words.set
  rw [Args.value_rename, Args.value_rename]
  cases args.value 0 with
  | word kind name => exact bind (assignWord name _) fun _ => pure rfl
  | _ => exact raiseType _ _ _

theorem get (args : Args) :
    Renames ρ (Value.rename ρ) (Words.get args) (Words.get (args.rename ρ)) := by
  unfold Words.get
  rw [Args.value_rename]
  cases args.value 0 with
  | word kind name =>
    refine bind (lookup name) fun found => ?_
    cases found with
    | none => exact raise _
    | some v => exact pure rfl
  | _ => exact raiseType _ _ _

theorem hasValue (args : Args) :
    Renames ρ (Value.rename ρ) (Words.hasValue args) (Words.hasValue (args.rename ρ)) := by
  unfold Words.hasValue
  rw [Args.value_rename]
  cases args.value 0 with
  | word kind name =>
    exact bind (fetch name) fun v => pure (by rw [Value.isUnset_rename]; rfl)
  | _ => exact pure rfl

theorem form (args : Args) :
    Renames ρ (Value.rename ρ) (Words.form args) (Words.form (args.rename ρ)) := by
  unfold Words.form
  rw [Args.value_rename]
  exact bind (formValue _) fun _ => newText _

theorem mold (args : Args) :
    Renames ρ (Value.rename ρ) (Words.mold args) (Words.mold (args.rename ρ)) := by
  unfold Words.mold
  rw [Args.value_rename]
  exact bind (moldValue _) fun _ => newText _

theorem func (args : Args) :
    Renames ρ (Value.rename ρ) (Evaluation.func args) (Evaluation.func (args.rename ρ)) := by
  unfold Evaluation.func
  rw [Args.value_rename, Args.value_rename]
  refine bind (expectBlock _ _ _) fun spec => bind (expectBlock _ _ _) fun body =>
    getHeap_then fun h => ?_
  rw [id_eq, id_eq, Heap.tail_rename, Heap.params_rename]
  cases Evaluation.params h [] (h.tail spec) with
  | ok params => exact bind (alloc fun _ => rfl) fun _ => pure rfl
  | error cause => exact raise cause

theorem does (args : Args) :
    Renames ρ (Value.rename ρ) (Evaluation.does args) (Evaluation.does (args.rename ρ)) := by
  unfold Evaluation.does
  rw [Args.value_rename]
  exact bind (expectBlock _ _ _) fun body => bind (alloc fun _ => rfl) fun _ => pure rfl

/-! ### Protection -/

theorem binding? (v : Value) :
    Renames ρ id (Protecting.binding? v) (Protecting.binding? (v.rename ρ)) := by
  cases v with
  | word kind name => exact get_then fun s => pure (s.env.resolve_rename ρ s.heap name)
  | path kind segments => exact field? segments
  | _ => exact pure rfl

theorem protectBinding (flags : ProtectFlags) (visited : List Container) (v : Value) :
    Renames ρ id (Protecting.protectBinding flags visited v)
      (Protecting.protectBinding flags visited (v.rename ρ)) := by
  refine bind (binding? v) fun found => ?_
  match found with
  | none => exact pure rfl
  | some (object, i) => exact walking fun w => w.protectField_rename ρ object i

theorem protectValue (flags : ProtectFlags) (visited : List Container) (v : Value) :
    Renames ρ id (Protecting.protectValue flags visited v)
      (Protecting.protectValue flags visited (v.rename ρ)) :=
  walking fun w => w.protectValue_rename ρ v

/-! ### Exits -/

theorem throwReserved (own : ReservedExit) (payload : Option Value) :
    Renames ρ g (Exits.throwReserved own payload)
      (Exits.throwReserved own (payload.map (Value.rename ρ))) :=
  throw (by cases payload <;> rfl)

theorem exitFunction (args : Args) :
    Renames ρ (Value.rename ρ) (Exits.exitFunction args) (Exits.exitFunction (args.rename ρ)) := by
  unfold Exits.exitFunction
  rw [Args.refinement?_rename]
  exact get_then fun s => throwReserved _ _

theorem throwValue (args : Args) :
    Renames ρ (Value.rename ρ) (Exits.throwValue args) (Exits.throwValue (args.rename ρ)) := by
  unfold Exits.throwValue
  rw [Args.value_rename, Args.refinement?_rename]
  cases args.value 0 with
  | error e => exact raise _
  | _ =>
    cases args.refinement? 1 with
    | none => exact throw rfl
    | some name =>
      cases name with
      | block r => exact raise _
      | _ => exact throw rfl

end Renames

end BlockScript
