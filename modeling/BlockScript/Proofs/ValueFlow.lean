import BlockScript.Proofs.Balance
import BlockScript.Proofs.Storage

/-!
# Flows of values

A flow says which values may be at hand, in an environment and once the heap has so many frames, and
what evaluation may make of a heap meanwhile. It is closed under the steps of evaluation: what is
stored may be at hand, what is at hand may be stored, and a frame may be made of it and go on the
scope stack. A computation keeps to a flow if its result, and what it throws, may be at hand where
it ends, and its heap is one that may be made of the heap it found.
-/

namespace BlockScript

variable {α β γ : Type} {E : Environment} {n k : Nat} {s t : State} {v : Value} {h h' h'' : Heap}

/-! ## Flows -/

def Value.Inert : Value → Prop
  | .object _ => False
  | .function _ => False
  | _ => True

structure ValueFlow where
  /-- The value may be at hand in an environment, when there are so many frames. -/
  value : Environment → Nat → Value → Prop
  /-- The heap may be found in an environment. -/
  heap : Environment → Heap → Prop
  /-- The second heap may be made of the first in an environment. -/
  leads : Environment → Heap → Heap → Prop
  /-- A frame may have fields of these names. -/
  names : List String → Prop
  /-- Fields may be hidden. -/
  hides : Prop
  mono {E : Environment} {n k : Nat} {v : Value} : value E n v → n ≤ k → value E k v
  inert {E : Environment} {n : Nat} {v : Value} : v.Inert → value E n v
  stored {E : Environment} {h : Heap} {v : Value} :
    heap E h → h.Stores v → value E h.frames.size v
  distinct {names' : List String} : names'.Nodup → names names'
  shown {E : Environment} {h : Heap} (id : FrameId) : heap E h → names (h.frame id).words
  function_iff {E : Environment} {n id : Nat} {params : List Param} {body : BlockRef} :
    value E n (.function (.user id params body)) ↔ names (params.map (·.name))
  frames_le {E : Environment} {h h' : Heap} : leads E h h' → h.frames.size ≤ h'.frames.size
  found {E : Environment} {h h' : Heap} : heap E h → leads E h h' → heap E h'
  refl (E : Environment) (h : Heap) : leads E h h
  trans {E : Environment} {h h' h'' : Heap} :
    heap E h → leads E h h' → leads E h' h'' → leads E h h''
  /-- Frames that stay as they are leave the rest free to store what may be at hand. -/
  beside {E : Environment} {h h' : Heap} :
    heap E h → h'.frames = h.frames →
      (∀ v, h'.Stores v → h.Stores v ∨ value E h.frames.size v) → leads E h h'
  write {E : Environment} {h : Heap} {name : String} {slot : Slot} {v : Value} :
    heap E h → E.slot h name = .ok slot → value E h.frames.size v →
      leads E h (E.write h name v slot)
  put {E : Environment} {h : Heap} {id : FrameId} {v : Value} (index : Nat) :
    heap E h → value E h.frames.size (.object id) → value E h.frames.size v →
      leads E h (h.modifyFrame id (·.put index v))
  marked {E : Environment} {h : Heap} {flags : ProtectFlags} (marks : List Container) :
    heap E h → (flags.hide = true → hides) → leads E h (h.marked flags marks)
  markField {E : Environment} {h : Heap} {flags : ProtectFlags} (id : FrameId) (index : Nat) :
    heap E h → (flags.hide = true → hides) →
      leads E h (h.modifyFrame id (·.modify index (ProtectWalk.markField flags)))
  frame {E : Environment} {h : Heap} {fields : List (String × Value)} :
    heap E h → names (fields.map (·.1)) → (∀ entry ∈ fields, value E h.frames.size entry.2) →
      leads E h (h.newFrame (.ofFields fields)).2 ∧
        value E (h.frames.size + 1) (.object h.frames.size) ∧
        heap (E.push h.frames.size) (h.newFrame (.ofFields fields)).2
  /-- What may be at hand with more scopes on the stack may be so with fewer. -/
  outer {E E' : Environment} {n : Nat} {v : Value} :
    E.scopes <:+ E'.scopes → value E' n v → value E n v
  leave {E E' : Environment} {h h' : Heap} :
    E.scopes <:+ E'.scopes → leads E' h h' → leads E h h'
  /-- Some heap may not be made. -/
  strict {E : Environment} {h : Heap} : heap E h → ∃ h', ¬ leads E h h'

/-! ## Results -/

def Plain (_ : Nat) (_ : α) : Prop := True

def Each (R : Nat → α → Prop) (n : Nat) (found : Option α) : Prop := ∀ a ∈ found, R n a

def First (R : Nat → α → Prop) (n : Nat) (p : α × β) : Prop := R n p.1

theorem Each.none {R : Nat → α → Prop} : Each R n (none : Option α) := nofun

theorem Each.some {R : Nat → α → Prop} {a : α} (holds : R n a) : Each R n (some a) := by
  rintro _ ⟨⟩
  exact holds

namespace ValueFlow

variable {F : ValueFlow}

theorem getD {found : Option Value} (each : Each (F.value E) n found) (default : F.value E n v) :
    F.value E n (found.getD v) := by
  cases found with
  | none => exact default
  | some w => exact each w rfl

/-! ## Heaps that are made -/

section Made

variable (F)

theorem aside (heap : F.heap E h) (frames : h'.frames = h.frames) (blocks : h'.blocks = h.blocks) :
    F.leads E h h' := F.beside heap frames fun _ stored => .inl (stored.of_same frames blocks)

theorem block {items : Array Value} (heap : F.heap E h)
    (given : ∀ v ∈ items, F.value E h.frames.size v) : F.leads E h (h.newBlock items).2 :=
  F.beside heap rfl fun v stored => stored.of_newBlock.imp_right (given v)

theorem edit {id : Nat} {change : Array Value → Array Value} (heap : F.heap E h)
    (given : ∀ v ∈ change (h.items id), F.value E h.frames.size v) :
    F.leads E h (h.editBlock id change) :=
  F.beside heap rfl fun v stored => stored.of_editBlock.imp_right (given v)

variable {flags : ProtectFlags} (heap : F.heap E h) (permitted : flags.hide = true → F.hides)
  (visited : List Container)

include heap permitted

theorem walk (v : Value) :
    F.leads E h (ProtectWalk.protectValue { flags, heap := h, visited } v).heap := by
  obtain ⟨marks, same⟩ := Heap.exists_marked_protectValue h flags visited v
  rw [same]
  exact F.marked marks heap permitted

theorem walkField (id : FrameId) (index : Nat) :
    F.leads E h (ProtectWalk.protectField { flags, heap := h, visited } id index).heap := by
  obtain ⟨marks, same⟩ := Heap.exists_marked_protectField h flags visited id index
  have field := F.markField id index heap permitted
  rw [same]
  exact F.trans heap field (F.marked marks (F.found heap field) permitted)

end Made

/-! ## Exits and arguments -/

def exit (F : ValueFlow) (E : Environment) (n : Nat) : Exit → Prop
  | .thrown exit => F.value E n exit.name ∧ F.value E n exit.payload
  | _ => True

def args (F : ValueFlow) (E : Environment) (n : Nat) (args : Args) : Prop :=
  ∀ v ∈ args, F.value E n v

theorem args.mono {args : Args} (given : F.args E n args) (le : n ≤ k) : F.args E k args :=
  fun v member => F.mono (given v member) le

theorem args.value {args : Args} (given : F.args E n args) (i : Nat) :
    F.value E n (args.value i) := by
  rw [Args.value, Array.getD_eq_getD_getElem?]
  cases found : args[i]? with
  | none => exact F.inert trivial
  | some v => exact given v (Array.mem_of_getElem? found)

theorem args.refinement? {args : Args} (given : F.args E n args) (i : Nat) :
    Each (F.value E) n (args.refinement? i) := by
  intro v found
  unfold Args.refinement? at found
  split at found
  · cases found
    exact given.value _
  · cases found

theorem exit.outer {E' : Environment} {exit : Exit} (given : F.exit E' n exit)
    (within : E.scopes <:+ E'.scopes) : F.exit E n exit := by
  cases exit with
  | thrown exit => exact ⟨F.outer within given.1, F.outer within given.2⟩
  | _ => trivial

/-! ## Ends -/

inductive Ends (F : ValueFlow) (R : Nat → α → Prop) (s : State) :
    EStateM.Result Exit State α → Prop where
  | ok {a : α} {t : State} (env : t.env = s.env) (leads : F.leads s.env s.heap t.heap)
      (result : R t.heap.frames.size a) : Ends F R s (.ok a t)
  | error {exit : Exit} {t : State} (env : t.env = s.env) (leads : F.leads s.env s.heap t.heap)
      (thrown : F.exit s.env t.heap.frames.size exit) : Ends F R s (.error exit t)

def Keeps (F : ValueFlow) (E : Environment) (n : Nat) (R : Nat → α → Prop) (m : EvalM α) : Prop :=
  ∀ s, s.env = E → F.heap E s.heap → n ≤ s.heap.frames.size → F.Ends R s (m s)

/-- The evaluator keeps to the flow. What is called may be at hand, and there is one argument for
each parameter. -/
structure KeptBy (F : ValueFlow) (ev : Evaluator) : Prop where
  balanced : ev.Balanced
  next (E : Environment) (n : Nat) (block : BlockRef) (index : Nat) :
    F.Keeps E n (Each (First (F.value E))) (ev.next block index)
  invoke (E : Environment) (n : Nat) (name : String) (f : Function) (args : Args) :
    F.value E n (.function f) → F.args E n args → args.size = f.arity →
      F.Keeps E n (F.value E) (ev.invoke name f args)

namespace Ends

variable {R R' : Nat → α → Prop} {r : EStateM.Result Exit State α} {m : EvalM α}

theorem after (heap : F.heap s.env s.heap) (env : t.env = s.env)
    (leads : F.leads s.env s.heap t.heap) (ends : F.Ends R t r) : F.Ends R s r := by
  cases ends with
  | ok env' later result =>
    exact .ok (env'.trans env) (F.trans heap leads (env ▸ later)) result
  | error env' later exit =>
    exact .error (env'.trans env) (F.trans heap leads (env ▸ later)) (env ▸ exit)

theorem bind {R' : Nat → β → Prop} {f : α → EvalM β} (heap : F.heap s.env s.heap)
    (first : F.Ends R s (m s))
    (rest : ∀ a k, s.heap.frames.size ≤ k → R k a → F.Keeps s.env k R' (f a)) :
    F.Ends R' s ((m >>= f) s) := by
  simp only [Bind.bind, EStateM.bind]
  generalize m s = r at first ⊢
  cases first with
  | @ok a t env leads result =>
    have later := rest a _ (F.frames_le leads) result t env (F.found heap leads) le_rfl
    exact later.after heap env leads
  | error env leads exit => exact .error env leads exit

theorem withScope {frame : FrameId} (heap : F.heap (s.env.push frame) s.heap)
    (body : F.Keeps (s.env.push frame) n R m) (le : n ≤ s.heap.frames.size)
    (results : ∀ k a, R k a → R' k a) : F.Ends R' s (withScope frame m s) := by
  have ends := body { s with env := s.env.push frame } rfl heap le
  have within : s.env.scopes <:+ (s.env.push frame).scopes := List.suffix_cons _ _
  rw [BlockScript.withScope]
  generalize m { s with env := s.env.push frame } = r at ends ⊢
  cases ends with
  | @ok a t env leads result =>
    have popped : t.env.pop = s.env := by rw [env]; rfl
    exact .ok popped (F.leave within leads) (results _ a result)
  | @error exit t env leads thrown =>
    have popped : t.env.pop = s.env := by rw [env]; rfl
    exact .error popped (F.leave within leads) (thrown.outer within)

theorem claiming {R' : Nat → β → Prop} {claim : Heap → Thrown → Option β} {result : α → β}
    (ends : F.Ends R s (m s))
    (claimed : ∀ k h x b, F.value s.env k x.name → F.value s.env k x.payload →
      claim h x = some b → R' k b)
    (results : ∀ k a, R k a → R' k (result a)) :
    F.Ends R' s (claiming claim result m s) := by
  rw [BlockScript.claiming]
  generalize m s = r at ends ⊢
  cases ends with
  | ok env leads value => exact .ok env leads (results _ _ value)
  | @error exit t env leads thrown =>
    cases exit with
    | thrown x =>
      dsimp only
      cases found : claim t.heap x with
      | some b => exact .ok env leads (claimed _ _ x b thrown.1 thrown.2 found)
      | none => exact .error env leads thrown
    | raised e => exact .error env leads thrown
    | outOfFuel => exact .error env leads thrown

end Ends

/-! ## Computations -/

namespace Keeps

variable {R : Nat → α → Prop} {R' : Nat → β → Prop} {m : EvalM α}

theorem pure {a : α} (holds : ∀ k, n ≤ k → R k a) : F.Keeps E n R (pure a) :=
  fun _ _ _ le => .ok rfl (F.refl _ _) (holds _ le)

theorem value (given : F.value E n v) : F.Keeps E n (F.value E) (Pure.pure v) :=
  pure fun _ => F.mono given

/-- A result that leads nowhere. -/
theorem inert (inert : v.Inert) : F.Keeps E n (F.value E) (Pure.pure v) := value (F.inert inert)

theorem plain (a : α) : F.Keeps E n Plain (Pure.pure a) := pure fun _ _ => trivial

theorem raise (cause : Cause) : F.Keeps E n R (raise cause) :=
  fun _ _ _ _ => .error rfl (F.refl _ _) trivial

theorem raiseType (function argument : String) (v : Value) :
    F.Keeps E n R (raiseType function argument v) := raise _

theorem outOfFuel : F.Keeps E n R (throw .outOfFuel) :=
  fun _ _ _ _ => .error rfl (F.refl _ _) trivial

theorem throwExit {exit : Thrown} (name : F.value E n exit.name)
    (payload : F.value E n exit.payload) : F.Keeps E n R (throwExit exit) := by
  rintro s rfl _ le
  exact .error rfl (F.refl _ _) ⟨F.mono name le, F.mono payload le⟩

theorem later (keeps : F.Keeps E n R m) (le : n ≤ k) : F.Keeps E k R m :=
  fun s env heap more => keeps s env heap (le.trans more)

theorem bind {f : α → EvalM β} (first : F.Keeps E n R m)
    (rest : ∀ a k, n ≤ k → R k a → F.Keeps E k R' (f a)) : F.Keeps E n R' (m >>= f) := by
  rintro s rfl heap le
  exact (first s rfl heap le).bind heap fun a k more => rest a k (le.trans more)

/-- A sequence whose first part gives no values. -/
theorem plain_then {f : α → EvalM β} (first : F.Keeps E n Plain m)
    (rest : ∀ a, F.Keeps E n R' (f a)) : F.Keeps E n R' (m >>= f) :=
  first.bind fun a _ le _ => (rest a).later le

theorem ite {c : Prop} [Decidable c] {m' : EvalM α} (yes : F.Keeps E n R m)
    (no : F.Keeps E n R m') : F.Keeps E n R (if c then m else m') := by
  by_cases holds : c
  · rwa [if_pos holds]
  · rwa [if_neg holds]

theorem get_then {f : State → EvalM α}
    (rest : ∀ s, s.env = E → F.heap E s.heap → n ≤ s.heap.frames.size →
      F.Keeps E s.heap.frames.size R (f s)) : F.Keeps E n R (get >>= f) :=
  fun s env heap le => rest s env heap le s env heap le_rfl

theorem getHeap_then {f : Heap → EvalM α}
    (rest : ∀ h, F.heap E h → n ≤ h.frames.size → F.Keeps E h.frames.size R (f h)) :
    F.Keeps E n R (getHeap >>= f) :=
  fun s env heap le => rest s.heap heap le s env heap le_rfl

/-- What follows a look at the heap that takes no values from it. -/
theorem getHeap_plain {f : Heap → EvalM α} (rest : ∀ h, F.Keeps E n R (f h)) :
    F.Keeps E n R (getHeap >>= f) := getHeap_then fun h _ le => (rest h).later le

theorem alloc {make : Heap → α × Heap}
    (makes : ∀ h, F.heap E h → n ≤ h.frames.size →
      F.leads E h (make h).2 ∧ R (make h).2.frames.size (make h).1) :
    F.Keeps E n R (alloc make) := by
  rintro s rfl heap le
  obtain ⟨leads, result⟩ := makes s.heap heap le
  exact .ok rfl leads result

/-- What is made is not a value itself. -/
theorem alloc_plain {make : Heap → α × Heap}
    (leads : ∀ h : Heap, F.heap E h → n ≤ h.frames.size → F.leads E h (make h).2) :
    F.Keeps E n Plain (BlockScript.alloc make) :=
  alloc fun h heap le => ⟨leads h heap le, trivial⟩

theorem foldlM {f : β → γ → EvalM β} (items : List γ) (start : β)
    (each : ∀ b, ∀ item ∈ items, F.Keeps E n Plain (f b item)) :
    F.Keeps E n Plain (items.foldlM f start) := by
  induction items generalizing start with
  | nil => exact plain start
  | cons item items ih =>
    rw [List.foldlM_cons]
    exact plain_then (each start item List.mem_cons_self) fun b =>
      ih b fun b item member => each b item (List.mem_cons_of_mem _ member)

/-! ### Brackets -/

theorem claiming {claim : Heap → Thrown → Option β} {result : α → β} (body : F.Keeps E n R m)
    (claimed : ∀ k h x b, F.value E k x.name → F.value E k x.payload → claim h x = some b → R' k b)
    (results : ∀ k a, R k a → R' k (result a)) :
    F.Keeps E n R' (claiming claim result m) := by
  rintro s rfl heap le
  exact (body s rfl heap le).claiming claimed results

theorem withCall (body : F.Keeps E n R m) (name : String) :
    F.Keeps E n R (withCall name m) := by
  rintro s rfl heap le
  rw [BlockScript.withCall]
  cases s.calls.push name with
  | error cause => exact .error rfl (F.refl _ _) trivial
  | ok calls =>
    have ends := body { s with calls } rfl heap le
    dsimp only
    generalize m { s with calls } = r at ends ⊢
    cases ends with
    | ok env leads result => exact .ok env leads result
    | @error exit t env leads thrown =>
      refine .error env leads ?_
      cases exit with
      | thrown x => exact thrown
      | _ => trivial

/-- The scopes are as they were when the body ended, so landing truncates nothing. -/
theorem guarded (body : F.Keeps E n R m) (balanced : Balanced m) :
    F.Keeps E n (fun k outcome => ∀ a, outcome = .ok a → R k a) (guarded m) := by
  rintro s rfl heap le
  have ends := body s.armed rfl heap le
  have kept := balanced s.armed
  rw [guarded_apply]
  unfold endState at kept
  generalize m s.armed = r at ends kept ⊢
  cases ends with
  | @ok a t env leads result =>
    refine .ok env leads ?_
    rintro _ ⟨⟩
    exact result
  | @error exit t env leads thrown =>
    cases exit with
    | raised e =>
      dsimp only at kept ⊢
      rw [kept.land_eq_disarm]
      exact .ok env leads nofun
    | thrown x => exact .error env leads thrown
    | outOfFuel => exact .error env leads thrown

/-- A new frame that goes on the stack. -/
theorem newFrame_then {fields : List (String × Value)} {f : FrameId → EvalM α}
    (names : F.names (fields.map (·.1))) (given : ∀ entry ∈ fields, F.value E n entry.2)
    (rest : ∀ (frame : FrameId) (s : State), s.env = E → F.heap E s.heap →
      F.heap (E.push frame) s.heap → F.value E s.heap.frames.size (.object frame) →
      n ≤ s.heap.frames.size → F.Ends R s (f frame s)) :
    F.Keeps E n R (BlockScript.alloc (·.newFrame (.ofFields fields)) >>= f) := by
  rintro s rfl heap le
  obtain ⟨leads, object, entered⟩ := F.frame heap names fun entry member =>
    F.mono (given entry member) le
  have size : (s.heap.newFrame (.ofFields fields)).2.frames.size = s.heap.frames.size + 1 :=
    Array.size_push _
  let t : State := { s with heap := (s.heap.newFrame (.ofFields fields)).2 }
  have ends : F.Ends R t (f s.heap.frames.size t) :=
    rest s.heap.frames.size t rfl (F.found heap leads) entered (size ▸ object)
      (le.trans (F.frames_le leads))
  exact Ends.after (t := t) heap rfl leads ends

end Keeps

/-! ## Copies and data -/

structure Makes (F : ValueFlow) (E : Environment) (h : Heap) (v : Value) (h' : Heap) : Prop where
  leads : F.leads E h h'
  value : F.value E h'.frames.size v

theorem Makes.self (given : F.value E h.frames.size v) : F.Makes E h v h := ⟨F.refl E h, given⟩

theorem makes_shallowCopy (heap : F.heap E h) (given : F.value E h.frames.size v) :
    F.Makes E h (h.shallowCopy v).1 (h.shallowCopy v).2 := by
  have items (r : BlockRef) (v : Value) (inside : v ∈ (h.tail r).toArray) :
      F.value E h.frames.size v := F.stored heap (.of_tail (List.mem_toArray.mp inside))
  cases v with
  | block r => exact ⟨F.block heap (items r), F.inert trivial⟩
  | paren r => exact ⟨F.block heap (items r), F.inert trivial⟩
  | text id => exact ⟨F.aside heap rfl rfl, F.inert trivial⟩
  | object id =>
    obtain ⟨leads, object, -⟩ := F.frame heap (F.shown id heap) fun entry member =>
      F.stored heap (.of_visible member)
    have size : (h.newFrame (.ofFields (h.frame id).visible)).2.frames.size = h.frames.size + 1 :=
      Array.size_push _
    exact ⟨leads, size ▸ object⟩
  | _ => exact .self given

/-- Copying some values one after another, if copying one of them keeps to the flow. -/
theorem makes_copyItems {fuel : Nat}
    (each : ∀ (c : Heap.Copying) (v : Value), F.heap E c.heap → F.value E c.heap.frames.size v →
      F.Makes E c.heap (Heap.copyDeep fuel c v).1 (Heap.copyDeep fuel c v).2.heap)
    (items : List Value) (values : Array Value) {c : Heap.Copying} (heap : F.heap E c.heap)
    (given : ∀ v ∈ items, F.value E c.heap.frames.size v)
    (before : ∀ v ∈ values, F.value E c.heap.frames.size v) :
    F.leads E c.heap (Heap.copyItems fuel (values, c) items).2.heap ∧
      ∀ v ∈ (Heap.copyItems fuel (values, c) items).1,
        F.value E (Heap.copyItems fuel (values, c) items).2.heap.frames.size v := by
  induction items generalizing values c with
  | nil => exact ⟨F.refl E _, before⟩
  | cons item items ih =>
    obtain ⟨leads, copied⟩ := each c item heap (given item List.mem_cons_self)
    have grown := F.frames_le leads
    obtain ⟨later, all⟩ := ih (values.push (Heap.copyDeep fuel c item).1) (F.found heap leads)
      (fun v member => F.mono (given v (List.mem_cons_of_mem _ member)) grown) fun v member => by
        rcases Array.mem_push.mp member with old | rfl
        · exact F.mono (before v old) grown
        · exact copied
    exact ⟨F.trans heap leads later, all⟩

theorem leads_fill {c : Heap.Copying} {copy : BlockRef} {items : Array Value}
    (heap : F.heap E c.heap) (given : ∀ v ∈ items, F.value E c.heap.frames.size v) :
    F.leads E c.heap (c.fill copy items).heap := by
  show F.leads E c.heap (c.heap.editBlock copy.id fun _ => items)
  exact F.edit heap given

theorem makes_copyDeep (fuel : Nat) (c : Heap.Copying) (v : Value) (heap : F.heap E c.heap)
    (given : F.value E c.heap.frames.size v) :
    F.Makes E c.heap (Heap.copyDeep fuel c v).1 (Heap.copyDeep fuel c v).2.heap := by
  induction fuel generalizing c v with
  | zero => exact .self given
  | succ fuel ih =>
    cases ref : v.ref? with
    | none =>
      rw [Heap.copyDeep_leaf ref]
      exact makes_shallowCopy heap given
    | some r =>
      rw [Heap.copyDeep_series ref]
      have block (copy : BlockRef) : (v.withRef copy).Inert := by cases v <;> cases ref <;> trivial
      refine ⟨?_, F.inert (block _)⟩
      cases found : c.copies.lookup r.id with
      | some copy =>
        rw [Heap.copySeries_known found]
        exact F.refl E _
      | none =>
        have allotted : F.leads E c.heap (c.allot r.id).2.heap :=
          F.block heap fun v inside => absurd inside (Array.not_mem_empty v)
        have opened := F.found heap allotted
        obtain ⟨copied, values⟩ := makes_copyItems ih (c.heap.tail r) #[] opened
          (fun v inside => F.mono (F.stored heap (.of_tail inside)) (F.frames_le allotted))
          fun v inside => absurd inside (Array.not_mem_empty v)
        rw [Heap.copySeries_fresh found]
        exact F.trans heap (F.trans heap allotted copied)
          (leads_fill (F.found opened copied) values)

theorem makes_deepCopy (heap : F.heap E h) (given : F.value E h.frames.size v) :
    F.Makes E h (h.deepCopy v).1 (h.deepCopy v).2 :=
  makes_copyDeep (h.blocks.size + 1) { heap := h } v heap given

/-- Placed values become the items of a new block. -/
theorem leads_placed {values : Array Value} (heap : F.heap E h)
    (placed : F.leads E h h' ∧ ∀ v ∈ values, v.Inert) : F.leads E h (h'.newBlock values).2 :=
  F.trans heap placed.1 (F.block (F.found heap placed.1) fun v member =>
    F.inert (placed.2 v member))

mutual

theorem makes_load (h : Heap) (heap : F.heap E h) :
    (d : Datum) → F.leads E h (h.load d).2 ∧ (h.load d).1.Inert
  | .integer _ => ⟨F.refl E h, trivial⟩
  | .decimal _ => ⟨F.refl E h, trivial⟩
  | .text _ => ⟨F.aside heap rfl rfl, trivial⟩
  | .word _ _ => ⟨F.refl E h, trivial⟩
  | .path _ _ => ⟨F.refl E h, trivial⟩
  | .block items => ⟨leads_placed heap (makes_loadItems h heap items #[] nofun), trivial⟩
  | .paren items => ⟨leads_placed heap (makes_loadItems h heap items #[] nofun), trivial⟩

theorem makes_loadItems (h : Heap) (heap : F.heap E h) :
    (items : List Datum) → (placed : Array Value) → (∀ v ∈ placed, v.Inert) →
      F.leads E h (h.loadItems items placed).2 ∧ ∀ v ∈ (h.loadItems items placed).1, v.Inert
  | [], _, before => ⟨F.refl E h, before⟩
  | item :: items, placed, before => by
    obtain ⟨leads, inert⟩ := makes_load h heap item
    obtain ⟨later, values⟩ := makes_loadItems (h.load item).2 (F.found heap leads) items
      (placed.push (h.load item).1) fun v member => by
        rcases Array.mem_push.mp member with old | rfl
        · exact before v old
        · exact inert
    exact ⟨F.trans heap leads later, values⟩

end

theorem leads_loadBlock (heap : F.heap E h) (data : List Datum) :
    F.leads E h (h.loadBlock data).2 := (makes_load h heap (.block data)).1

end ValueFlow

end BlockScript
