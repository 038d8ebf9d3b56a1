import BlockScript.Native.Run
import BlockScript.Proofs.Reachability

/-!
# States that look alike

What a program can tell about the heap does not depend on the values of hidden fields. Two heaps are
the same but for such values when all else agrees: series, texts, and of each field its name and its
marks. Looking up words, following paths, comparing, molding and forming then have the same results.
-/

namespace BlockScript

/-- The fields differ at most in their values, and that only if the field is secret: then it is
hidden, and neither value refers to a container. -/
structure Field.SameBut (secret : Prop) (a b : Field) : Prop where
  name : b.name = a.name
  locked : b.locked = a.locked
  hidden : b.hidden = a.hidden
  value : b.value = a.value ∨
    secret ∧ a.hidden = true ∧ a.value.container? = none ∧ b.value.container? = none

structure Frame.SameBut (secret : Nat → Prop) (f g : Frame) : Prop where
  isProtected : g.isProtected = f.isProtected
  size : g.fields.size = f.fields.size
  field (i : Nat) (a b : Field) :
    f.fields[i]? = some a → g.fields[i]? = some b → a.SameBut (secret i) b

structure Heap.SameBut (secret : FrameId → Nat → Prop) (h h' : Heap) : Prop where
  blocks : h'.blocks = h.blocks
  texts : h'.texts = h.texts
  functions : h'.functions = h.functions
  frameCount : h'.frames.size = h.frames.size
  frame (id : FrameId) : (h.frame id).SameBut (secret id) (h'.frame id)

/-! ## Fields and frames -/

theorem Field.SameBut.refl {secret : Prop} (a : Field) : a.SameBut secret a :=
  ⟨rfl, rfl, rfl, .inl rfl⟩

theorem Field.SameBut.value_of_visible {secret : Prop} {a b : Field} (same : a.SameBut secret b)
    (visible : a.hidden = false) : b.value = a.value := by
  rcases same.value with value | ⟨-, hidden, -⟩
  · exact value
  · rw [visible] at hidden
    cases hidden

namespace Frame

variable {secret : Nat → Prop} {f g : Frame} {name : String} {i : Nat}

/-- What is found by name is visible. -/
theorem visible_of_find? (found : f.find? name = some i) :
    ∃ field, f.fields[i]? = some field ∧ field.hidden = false := by
  obtain ⟨below, named, -⟩ := Array.findIdx?_eq_some_iff_getElem.mp found
  simp only [Bool.and_eq_true, Bool.not_eq_true'] at named
  exact ⟨_, Array.getElem?_eq_getElem below, named.2⟩

namespace SameBut

theorem refl (f : Frame) : f.SameBut secret f := by
  refine ⟨rfl, rfl, fun i a b here there => ?_⟩
  rw [here] at there
  cases there
  exact .refl a

theorem getElem? (same : f.SameBut secret g) {a : Field} (found : f.fields[i]? = some a) :
    ∃ b, g.fields[i]? = some b ∧ a.SameBut (secret i) b := by
  have below : i < g.fields.size := by
    rw [same.size]
    exact (Array.getElem?_eq_some_iff.mp found).1
  have there := Array.getElem?_eq_getElem below
  exact ⟨_, there, same.field i a _ found there⟩

theorem getElem?_none (same : f.SameBut secret g) (absent : f.fields[i]? = none) :
    g.fields[i]? = none := by
  rw [Array.getElem?_eq_none_iff] at absent ⊢
  rwa [same.size]

/-- What is seen of each field alone is seen of all fields. -/
theorem map {β : Type} (same : f.SameBut secret g) (view : Field → β)
    (seen : ∀ (i : Nat) (a b : Field), a.SameBut (secret i) b → view b = view a) :
    g.fields.map view = f.fields.map view := by
  refine Array.ext_getElem? fun i => ?_
  rw [Array.getElem?_map, Array.getElem?_map]
  cases found : f.fields[i]? with
  | none => rw [same.getElem?_none found]
  | some a =>
    obtain ⟨b, there, field⟩ := same.getElem? found
    rw [there, Option.map_some, Option.map_some, seen i a b field]

theorem find? (same : f.SameBut secret g) (name : String) : g.find? name = f.find? name := by
  have keys := same.map (fun field => (field.name, field.hidden)) fun _ _ _ field => by
    rw [field.name, field.hidden]
  have named := congrArg (Array.findIdx? fun key => key.1 == name && !key.2) keys
  rwa [Array.findIdx?_map, Array.findIdx?_map] at named

theorem value? (same : f.SameBut secret g) (found : f.find? name = some i) :
    g.value? i = f.value? i := by
  obtain ⟨a, here, visible⟩ := visible_of_find? found
  obtain ⟨b, there, field⟩ := same.getElem? here
  rw [Frame.value?, Frame.value?, here, there, Option.map_some, Option.map_some,
    field.value_of_visible visible]

theorem get? (same : f.SameBut secret g) (name : String) : g.get? name = f.get? name := by
  rw [Frame.get?, Frame.get?, same.find? name]
  cases found : f.find? name with
  | none => rfl
  | some i => exact same.value? found

theorem visible (same : f.SameBut secret g) : g.visible = f.visible := by
  let shown (field : Field) : Option (String × Value) :=
    if field.hidden then none else some (field.name, field.value)
  have all := same.map shown fun i a b field => by
    cases visible : a.hidden with
    | true => simp only [shown, field.hidden, visible, if_true]
    | false => simp only [shown, field.hidden, field.name, field.value_of_visible visible]
  have entries := congrArg (fun xs => xs.toList.filterMap id) all
  simp only [Array.toList_map, List.filterMap_map, Function.id_comp] at entries
  exact entries

theorem words (same : f.SameBut secret g) : g.words = f.words := by
  rw [Frame.words, Frame.words, same.visible]

theorem denied? (same : f.SameBut secret g) (i : Nat) : g.denied? i = f.denied? i := by
  rw [Frame.denied?, Frame.denied?]
  cases found : f.fields[i]? with
  | none => rw [same.getElem?_none found]
  | some a =>
    obtain ⟨b, there, field⟩ := same.getElem? found
    simp only [there, field.locked, field.name]

end SameBut

end Frame

/-! ## Heaps -/

namespace Heap.SameBut

variable {secret : FrameId → Nat → Prop} {h h' : Heap}

theorem refl (h : Heap) : h.SameBut secret h := ⟨rfl, rfl, rfl, rfl, fun _ => .refl _⟩

theorem items (same : h.SameBut secret h') : h'.items = h.items := by
  funext id
  rw [Heap.items, Heap.items, same.blocks]

theorem tail (same : h.SameBut secret h') : h'.tail = h.tail := by
  funext r
  rw [Heap.tail, Heap.tail, same.items]

theorem length (same : h.SameBut secret h') : h'.length = h.length := by
  funext r
  rw [Heap.length, Heap.length, same.items]

theorem item? (same : h.SameBut secret h') : h'.item? = h.item? := by
  funext r position
  rw [Heap.item?, Heap.item?, same.items]

theorem text (same : h.SameBut secret h') : h'.text = h.text := by
  funext id
  rw [Heap.text, Heap.text, same.texts]

theorem isBlockProtected (same : h.SameBut secret h') :
    h'.isBlockProtected = h.isBlockProtected := by
  funext id
  rw [Heap.isBlockProtected, Heap.isBlockProtected, same.blocks]

theorem isTextProtected (same : h.SameBut secret h') : h'.isTextProtected = h.isTextProtected := by
  funext id
  rw [Heap.isTextProtected, Heap.isTextProtected, same.texts]

theorem containerCount (same : h.SameBut secret h') : h'.containerCount = h.containerCount := by
  rw [Heap.containerCount, Heap.containerCount, same.blocks, same.frameCount]

/-! ## Comparing, molding and forming -/

theorem leavesEqual (same : h.SameBut secret h') : h'.leavesEqual = h.leavesEqual := by
  funext strict a b
  unfold Heap.leavesEqual
  simp only [same.text]

theorem compared (same : h.SameBut secret h') (strict : Bool) (fuel : Nat) :
    h'.same strict fuel = h.same strict fuel := by
  induction fuel with
  | zero => rfl
  | succ fuel ih =>
    funext path a b
    simp only [Heap.same, ih, same.leavesEqual, same.length, same.tail]

theorem equalIn (same : h.SameBut secret h') : h'.equalIn = h.equalIn := by
  funext strict a b
  have fuel : h'.pairFuel = h.pairFuel := by
    rw [Heap.pairFuel, Heap.pairFuel, Heap.itemCount, Heap.itemCount, same.blocks]
  unfold Heap.equalIn
  rw [same.leavesEqual, fuel, same.compared]

theorem equal (same : h.SameBut secret h') : h'.equal = h.equal := by
  funext a b
  rw [Heap.equal, Heap.equal, same.equalIn]

theorem moldLeaf (same : h.SameBut secret h') : h'.moldLeaf = h.moldLeaf := by
  funext v
  unfold Heap.moldLeaf
  simp only [same.text]

theorem formLeaf (same : h.SameBut secret h') : h'.formLeaf = h.formLeaf := by
  funext v
  unfold Heap.formLeaf
  simp only [same.text, same.moldLeaf]

theorem render (same : h.SameBut secret h') (fuel : Nat) : h'.render fuel = h.render fuel := by
  induction fuel with
  | zero => rfl
  | succ fuel ih =>
    funext style path v
    simp only [Heap.render, ih, same.tail, (same.frame _).visible, same.moldLeaf, same.formLeaf]

theorem mold (same : h.SameBut secret h') : h'.mold = h.mold := by
  funext v
  rw [Heap.mold, Heap.mold, Heap.renderFuel, Heap.renderFuel, same.containerCount, same.render]

theorem form (same : h.SameBut secret h') : h'.form = h.form := by
  funext v
  rw [Heap.form, Heap.form, Heap.renderFuel, Heap.renderFuel, same.containerCount, same.render]

end Heap.SameBut

/-! ## Words and paths -/

/-- A word is bound to a visible field. -/
theorem Environment.find?_of_resolve {env : Environment} {h : Heap} {name : String} {id : FrameId}
    {i : Nat} (resolved : env.resolve h name = some (id, i)) :
    (h.frame id).find? name = some i := by
  have bound {scope : FrameId}
      (found : ((h.frame scope).find? name).map (scope, ·) = some (id, i)) :
      (h.frame id).find? name = some i := by
    obtain ⟨index, here, same⟩ := Option.map_eq_some_iff.mp found
    cases same
    exact here
  rw [resolve, Option.or_eq_some_iff] at resolved
  rcases resolved with inner | ⟨-, root⟩
  · obtain ⟨scope, -, found⟩ := List.exists_of_findSome?_eq_some inner
    exact bound found
  · exact bound root

namespace Heap.SameBut

variable {secret : FrameId → Nat → Prop} {h h' : Heap}

theorem resolve (same : h.SameBut secret h') (env : Environment) (name : String) :
    env.resolve h' name = env.resolve h name := by
  simp only [Environment.resolve, (same.frame _).find?]

theorem lookup (same : h.SameBut secret h') (env : Environment) (name : String) :
    env.lookup h' name = env.lookup h name := by
  simp only [Environment.lookup, (same.frame _).get?]

theorem slot (same : h.SameBut secret h') (env : Environment) (name : String) :
    env.slot h' name = env.slot h name := by
  simp only [Environment.slot, same.resolve, (same.frame _).denied?, (same.frame _).isProtected]

theorem pick (same : h.SameBut secret h') : h'.pick = h.pick := by
  funext r place
  rw [Heap.pick, Heap.pick, same.item?]

theorem selectAfter (same : h.SameBut secret h') : h'.selectAfter = h.selectAfter := by
  funext r key
  rw [Heap.selectAfter, Heap.selectAfter, same.tail, same.equal]

/-! ## What natives read -/

theorem nextBody? (same : h.SameBut secret h') :
    Conditionals.nextBody? h' = Conditionals.nextBody? h := by
  funext cases index
  rw [Conditionals.nextBody?, Conditionals.nextBody?, same.items]

theorem spliced (same : h.SameBut secret h') :
    SeriesAccess.spliced h' = SeriesAccess.spliced h := by
  funext only v
  unfold SeriesAccess.spliced
  rw [same.tail]

theorem allowed (same : h.SameBut secret h') (env : Environment) :
    Raising.allowed env h' = Raising.allowed env h := by
  funext v
  unfold Raising.allowed
  simp only [same.lookup]

theorem params (same : h.SameBut secret h') : Evaluation.params h' = Evaluation.params h := by
  funext found items
  induction items generalizing found with
  | nil => rfl
  | cons item items ih => simp only [Evaluation.params, ih, same.mold]

theorem listed (same : h.SameBut secret h') :
    Exits.CatchFilter.listed h' = Exits.CatchFilter.listed h := by
  funext names
  unfold Exits.CatchFilter.listed
  rw [same.tail]

theorem claims (same : h.SameBut secret h') (filter : Exits.CatchFilter) :
    filter.claims h' = filter.claims h := by
  funext exit
  unfold Exits.CatchFilter.claims
  simp only [same.listed, same.equal]

theorem operator (same : h.SameBut secret h') : Operators.apply h' = Operators.apply h := by
  have order : Operators.order? h' = Operators.order? h := by
    funext a b
    unfold Operators.order?
    simp only [same.text]
  funext a b op
  unfold Operators.apply Operators.holds
  simp only [order, Heap.strictEqual, same.equal, same.equalIn]

end Heap.SameBut

/-! ## States -/

def anyField : FrameId → Nat → Prop := fun _ _ => True

structure State.Alike (s t : State) : Prop where
  heap : s.heap.SameBut anyField t.heap
  env : t.env = s.env

end BlockScript
