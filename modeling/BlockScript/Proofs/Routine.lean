import BlockScript.Expression
import BlockScript.Proofs.Likeness

/-!
# Routines

Natives and expressions are routines. A routine is made of primitive steps, of looks at the state,
of requests to the evaluator and of brackets around further routines, put together in sequence. A
primitive step changes the heap or the output in one of a few ways, or exits and changes nothing.
What is done after a look is the same in states that look alike. A property of all code that runs
therefore needs one argument for each way to make a routine, and none for the natives one by one.
-/

namespace BlockScript

variable {α β γ : Type}

inductive Heap.Step (walks : ProtectFlags → Prop) (h : Heap) : Heap → Prop where
  | newBlock (items : Array Value) : Step walks h (h.newBlock items).2
  | newText (content : String) : Step walks h (h.newText content).2
  | newFrame (fields : List (String × Value)) : Step walks h (h.newFrame (.ofFields fields)).2
  | newFunction (params : List Param) (body : BlockRef) : Step walks h (h.newFunction params body).2
  | loadBlock (data : List Datum) : Step walks h (h.loadBlock data).2
  | shallowCopy (v : Value) : Step walks h (h.shallowCopy v).2
  | deepCopy (v : Value) : Step walks h (h.deepCopy v).2
  | editBlock (id : Nat) (change : Array Value → Array Value)
      (unguarded : h.isBlockProtected id = false) : Step walks h (h.editBlock id change)
  | editText (id : TextId) (change : String → String)
      (unguarded : h.isTextProtected id = false) : Step walks h (h.editText id change)
  | put (id : FrameId) (name : String) (index : Nat) (value : Value)
      (visible : (h.frame id).find? name = some index)
      (unlocked : (h.frame id).denied? index = none) :
      Step walks h (h.modifyFrame id (·.put index value))
  | protectValue (flags : ProtectFlags) (allowed : walks flags) (visited : List Container)
      (v : Value) : Step walks h (ProtectWalk.protectValue { flags, heap := h, visited } v).heap
  | protectField (flags : ProtectFlags) (allowed : walks flags) (visited : List Container)
      (id : FrameId) (index : Nat) :
      Step walks h (ProtectWalk.protectField { flags, heap := h, visited } id index).heap

inductive State.Step (walks : ProtectFlags → Prop) (s : State) : State → Prop where
  | read : Step walks s s
  | heap {h : Heap} (step : s.heap.Step walks h) : Step walks s { s with heap := h }
  | assign (name : String) (value : Value) (slot : Slot)
      (free : s.env.slot s.heap name = .ok slot) :
      Step walks s { s with heap := s.env.write s.heap name value slot }
  | print (line : String) : Step walks s { s with output := (s.output ++ line).push '\n' }

def assignNamed (id : FrameId) (name : String) (value : Value) (missing : Cause) : EvalM Unit := do
  match ((← getHeap).frame id).find? name with
  | some index => assignField id index value
  | none => raise missing

inductive Primitive (walks : ProtectFlags → Prop) : {α : Type} → EvalM α → Prop where
  | pure {α : Type} (a : α) : Primitive walks (pure a)
  | throw {α : Type} (exit : Exit) : Primitive walks (throw exit : EvalM α)
  | print (line : String) : Primitive walks (print line)
  | newBlock (items : Array Value) : Primitive walks (alloc (·.newBlock items))
  | newText (content : String) : Primitive walks (newText content)
  | newFrame (fields : List (String × Value)) :
      Primitive walks (alloc (·.newFrame (.ofFields fields)))
  | newFunction (params : List Param) (body : BlockRef) :
      Primitive walks (alloc (·.newFunction params body))
  | loadBlock (data : List Datum) : Primitive walks (alloc (·.loadBlock data))
  | shallowCopy (v : Value) : Primitive walks (alloc (·.shallowCopy v))
  | deepCopy (v : Value) : Primitive walks (alloc (·.deepCopy v))
  | editBlock (id : Nat) (change : Array Value → Array Value) :
      Primitive walks (editBlock id change)
  | editText (id : TextId) (change : String → String) : Primitive walks (editText id change)
  | assignNamed (id : FrameId) (name : String) (value : Value) (missing : Cause) :
      Primitive walks (assignNamed id name value missing)
  | assignWord (name : String) (value : Value) : Primitive walks (assignWord name value)
  | exitFunction (args : Args) : Primitive walks (Exits.exitFunction args)
  | walkValue {flags : ProtectFlags} (allowed : walks flags) (visited : List Container)
      (v : Value) : Primitive walks (Protecting.protectValue flags visited v)
  | walkField {flags : ProtectFlags} (allowed : walks flags) (visited : List Container)
      (id : FrameId) (index : Nat) :
      Primitive walks (Protecting.walking { flags, heap := {}, visited } (·.protectField id index))

/-- What a routine may do: the exits that its brackets may turn into results, the flags of the walks
that it may make, and whether it may make calls itself, without asking the evaluator. -/
structure Permit where
  claims : Heap → Exit → Prop
  walks : ProtectFlags → Prop
  calls : Prop

/-- A permit for exits alone allows every walk and every call. -/
instance : Coe (Heap → Exit → Prop) Permit := ⟨fun claims => ⟨claims, fun _ => True, True⟩⟩

/-- The computations, given an evaluator, that are made of primitive steps, looks, requests and
brackets, and do no more than they are permitted to. -/
inductive Routine (permit : Permit) : {α : Type} → (Evaluator → EvalM α) → Prop where
  | primitive {α : Type} {m : EvalM α} (step : Primitive permit.walks m) : Routine permit fun _ => m
  | bind {α β : Type} {k : Evaluator → EvalM α} {f : α → Evaluator → EvalM β}
      (first : Routine permit k) (rest : ∀ a, Routine permit (f a)) :
      Routine permit fun ev => k ev >>= fun a => f a ev
  | look {α : Type} {f : State → Evaluator → EvalM α} (alike : ∀ s t, s.Alike t → f s = f t)
      (rest : ∀ s, Routine permit (f s)) : Routine permit fun ev s => f s ev s
  | fuel {α : Type} {k : Nat → Evaluator → EvalM α} (bounded : ∀ n, Routine permit (k n)) :
      Routine permit fun ev => k ev.fuel ev
  | next (block : BlockRef) (index : Nat) : Routine permit fun ev => ev.next block index
  | invoke (name : String) (f : Function) (args : Args) :
      Routine permit fun ev => ev.invoke name f args
  | withScope {α : Type} {k : Evaluator → EvalM α} (frame : FrameId) (body : Routine permit k) :
      Routine permit fun ev => withScope frame (k ev)
  | withCall {α : Type} {k : Evaluator → EvalM α} (permitted : permit.calls) (name : String)
      (body : Routine permit k) : Routine permit fun ev => withCall name (k ev)
  | guarded {α : Type} {k : Evaluator → EvalM α} (claimed : ∀ h e, permit.claims h (.raised e))
      (body : Routine permit k) : Routine permit fun ev => guarded (k ev)
  | claiming {α β : Type} {k : Evaluator → EvalM α} {claim : Heap → Thrown → Option β}
      {result : α → β} (alike : ∀ s t : State, s.Alike t → claim s.heap = claim t.heap)
      (claimed : ∀ h exit b, claim h exit = some b → permit.claims h (.thrown exit))
      (body : Routine permit k) : Routine permit fun ev => claiming claim result (k ev)

/-! ## How a sequence ends -/

section Sequence

variable {m : EvalM α} {f : α → EvalM β} {s t : State} {exit : Exit}

theorem bind_eq_error (failed : (m >>= f) s = .error exit t) :
    m s = .error exit t ∨ ∃ a u, m s = .ok a u ∧ f a u = .error exit t := by
  simp only [Bind.bind, EStateM.bind] at failed
  cases run : m s with
  | ok a u =>
    rw [run] at failed
    exact .inr ⟨a, u, rfl, failed⟩
  | error exit' u =>
    rw [run] at failed
    cases failed
    exact .inl rfl

theorem bind_eq_ok {b : β} (done : (m >>= f) s = .ok b t) :
    ∃ a u, m s = .ok a u ∧ f a u = .ok b t := by
  simp only [Bind.bind, EStateM.bind] at done
  cases run : m s with
  | ok a u =>
    rw [run] at done
    exact ⟨a, u, rfl, done⟩
  | error exit u =>
    rw [run] at done
    cases done

end Sequence

/-! ## Guarded writes -/

theorem editBlock_apply (id : Nat) (change : Array Value → Array Value) (s : State) :
    editBlock id change s =
      if s.heap.isBlockProtected id then .error (.raised { cause := .guarded }) s
      else .ok () { s with heap := s.heap.editBlock id change } := by
  change (if s.heap.isBlockProtected id then raise .guarded else modifyHeap _) s = _
  split <;> rfl

theorem editText_apply (id : TextId) (change : String → String) (s : State) :
    editText id change s =
      if s.heap.isTextProtected id then .error (.raised { cause := .guarded }) s
      else .ok () { s with heap := s.heap.editText id change } := by
  change (if s.heap.isTextProtected id then raise .guarded else modifyHeap _) s = _
  split <;> rfl

theorem assignField_apply (id : FrameId) (index : Nat) (value : Value) (s : State) :
    assignField id index value s =
      match (s.heap.frame id).denied? index with
      | some denied => .error (.raised { cause := denied.cause }) s
      | none => .ok () { s with heap := s.heap.modifyFrame id (·.put index value) } := by
  change (match (s.heap.frame id).denied? index with
    | some denied => raise denied.cause
    | none => modifyHeap _ : EvalM Unit) s = _
  cases (s.heap.frame id).denied? index <;> rfl

theorem assignWord_apply (name : String) (value : Value) (s : State) :
    assignWord name value s =
      match s.env.slot s.heap name with
      | .error denied => .error (.raised { cause := denied.cause }) s
      | .ok slot => .ok () { s with heap := s.env.write s.heap name value slot } := by
  change (match s.env.slot s.heap name with
    | .error denied => raise denied.cause
    | .ok slot => modify _ : EvalM Unit) s = _
  cases s.env.slot s.heap name <;> rfl

theorem assignNamed_apply (id : FrameId) (name : String) (value : Value) (missing : Cause)
    (s : State) :
    assignNamed id name value missing s =
      match (s.heap.frame id).find? name with
      | some index => assignField id index value s
      | none => .error (.raised { cause := missing }) s := by
  change (match (s.heap.frame id).find? name with
    | some index => assignField id index value
    | none => raise missing : EvalM Unit) s = _
  cases (s.heap.frame id).find? name <;> rfl

/-! ## Recovery points -/

def State.armed (s : State) : State :=
  { s with recovery := (s.recovery.arm s.env.depth s.calls.depth).2 }

theorem guarded_apply (body : EvalM α) (s : State) :
    guarded body s =
      match body s.armed with
      | .ok value t => .ok (.ok value) (t.disarm s.recovery.nextToken)
      | .error (.raised e) t => .ok (.error e) (t.land s.recovery.nextToken)
      | .error exit t => .error exit (t.disarm s.recovery.nextToken) := rfl

/-- A primitive computation makes one step, or exits and changes nothing. -/
theorem Primitive.outcome {walks : ProtectFlags → Prop} {m : EvalM α} (step : Primitive walks m)
    (s : State) :
    (∃ a t, m s = .ok a t ∧ s.Step walks t) ∨ ∃ exit, m s = .error exit s := by
  cases step with
  | pure a => exact .inl ⟨a, s, rfl, .read⟩
  | throw exit => exact .inr ⟨exit, rfl⟩
  | print line => exact .inl ⟨(), _, rfl, .print line⟩
  | newBlock items => exact .inl ⟨_, _, rfl, .heap (.newBlock items)⟩
  | newText content => exact .inl ⟨_, _, rfl, .heap (.newText content)⟩
  | newFrame fields => exact .inl ⟨_, _, rfl, .heap (.newFrame fields)⟩
  | newFunction params body => exact .inl ⟨_, _, rfl, .heap (.newFunction params body)⟩
  | loadBlock data => exact .inl ⟨_, _, rfl, .heap (.loadBlock data)⟩
  | shallowCopy v => exact .inl ⟨_, _, rfl, .heap (.shallowCopy v)⟩
  | deepCopy v => exact .inl ⟨_, _, rfl, .heap (.deepCopy v)⟩
  | editBlock id change =>
    rw [editBlock_apply]
    split
    · exact .inr ⟨_, rfl⟩
    · next h => exact .inl ⟨(), _, rfl, .heap (.editBlock id change (by simpa using h))⟩
  | editText id change =>
    rw [editText_apply]
    split
    · exact .inr ⟨_, rfl⟩
    · next h => exact .inl ⟨(), _, rfl, .heap (.editText id change (by simpa using h))⟩
  | assignNamed id name value missing =>
    rw [assignNamed_apply]
    split
    · next index visible =>
      rw [assignField_apply]
      split
      · exact .inr ⟨_, rfl⟩
      · next unlocked => exact .inl ⟨(), _, rfl, .heap (.put id name index value visible unlocked)⟩
    · exact .inr ⟨_, rfl⟩
  | assignWord name value =>
    rw [assignWord_apply]
    split
    · exact .inr ⟨_, rfl⟩
    · next slot h => exact .inl ⟨(), _, rfl, .assign name value slot h⟩
  | exitFunction args => exact .inr ⟨_, rfl⟩
  | walkValue allowed visited v => exact .inl ⟨_, _, rfl, .heap (.protectValue _ allowed visited v)⟩
  | walkField allowed visited id index =>
    exact .inl ⟨_, _, rfl, .heap (.protectField _ allowed visited id index)⟩

/-! ## Routines from routines -/

namespace Routine

variable {permit : Permit} {k : Evaluator → EvalM α}

theorem pure (a : α) : Routine permit fun _ => (Pure.pure a : EvalM α) := .primitive (.pure a)

theorem throw (exit : Exit) : Routine permit fun _ => (MonadExcept.throw exit : EvalM α) :=
  .primitive (.throw exit)

theorem raise (cause : Cause) : Routine permit fun _ => (raise cause : EvalM α) := throw _

theorem raiseType (function argument : String) (v : Value) :
    Routine permit fun _ => (raiseType function argument v : EvalM α) := raise _

theorem map (f : α → β) (h : Routine permit k) : Routine permit fun ev => f <$> k ev :=
  bind h fun a => pure (f a)

theorem ite {c : Prop} [Decidable c] {k' : Evaluator → EvalM α} (h : Routine permit k)
    (h' : Routine permit k') : Routine permit fun ev => if c then k ev else k' ev := by
  by_cases hc : c
  · simpa only [if_pos hc] using h
  · simpa only [if_neg hc] using h'

/-! Looks at the state. The first assumption says that what follows depends on no more than is
seen. -/

theorem get_then {f : State → Evaluator → EvalM α} (alike : ∀ {s t : State}, s.Alike t → f t = f s)
    (rest : ∀ s, Routine permit (f s)) : Routine permit fun ev => get >>= fun s => f s ev :=
  look (f := f) (fun _ _ same => (alike same).symm) rest

theorem getHeap_then {f : Heap → Evaluator → EvalM α}
    (alike : ∀ {h h' : Heap}, h.SameBut anyField h' → f h' = f h)
    (rest : ∀ h, Routine permit (f h)) : Routine permit fun ev => getHeap >>= fun h => f h ev :=
  look (f := fun s => f s.heap) (fun _ _ same => (alike same.heap).symm) fun s => rest s.heap

theorem lookup_then {name : String} {f : Option Value → Evaluator → EvalM α}
    (rest : ∀ found, Routine permit (f found)) :
    Routine permit fun ev => lookup name >>= fun found => f found ev := by
  refine look (f := fun s => f (s.env.lookup s.heap name)) (fun s t same => ?_) fun s => rest _
  rw [same.env, same.heap.lookup]

theorem foldlM {f : Evaluator → β → α → EvalM β} (h : ∀ b a, Routine permit fun ev => f ev b a)
    (items : List α) (start : β) : Routine permit fun ev => items.foldlM (f ev) start := by
  induction items generalizing start with
  | nil => exact pure start
  | cons item items ih =>
    simp only [List.foldlM_cons]
    exact bind (h start item) fun b => ih b

end Routine

end BlockScript
