import BlockScript.Proofs.Copying
import BlockScript.Proofs.Effects
import BlockScript.Proofs.Footprint
import BlockScript.Proofs.Refusal

/-!
# Copies that share nothing

Every container that is met in a deep copy by going through blocks and parens was made by the copy,
and nothing protects it. While a copy is made, its series are empty and are filled one by one; all
that is put into them is new already, whether it comes from the table of the series met so far or
was made for the place. Since old containers stay as they are, what is done to a series on one side
does not show on the other.
-/

namespace BlockScript

/-- No field counts: objects are met, and what they hold is not. -/
def noField : Field → Bool := fun _ => false

def Value.RefersTo (P : Container → Prop) (v : Value) : Prop := ∀ c, v.container? = some c → P c

namespace Value.RefersTo

variable {P Q : Container → Prop} {v : Value} {c : Container}

theorem mono (refers : v.RefersTo P) (more : ∀ c, P c → Q c) : v.RefersTo Q :=
  fun c found => more c (refers c found)

theorem of_container (found : v.container? = some c) (holds : P c) : v.RefersTo P := by
  intro c' found'
  exact Option.some.inj (found.symm.trans found') ▸ holds

theorem of_leaf (leaf : v.container? = Option.none) : v.RefersTo P := by
  intro c found
  cases leaf.symm.trans found

end Value.RefersTo

namespace Heap

variable {h h' h'' : Heap} {c : Container} {v : Value}

/-! ## Containers that are made -/

structure Makes (h h' : Heap) (made : Container) : Prop where
  grows : h.Grows h'
  only : ∀ c, h.New h' c ↔ c = made
  unguarded : h'.Unguarded made

theorem New.mono (new : h.New h' c) (grows : h'.Grows h'') : h.New h'' c :=
  ⟨new.1, grows.has new.2⟩

theorem Makes.new {made : Container} (makes : h.Makes h' made) : h.New h' made :=
  (makes.only made).mpr rfl

theorem pushed_iff {α : Type} (xs : Array α) (x : α) (i : Nat) :
    ¬ i < xs.size ∧ i < (xs.push x).size ↔ i = xs.size := by
  rw [Array.size_push]
  omega

theorem Makes.newBlock (h : Heap) (items : Array Value) :
    h.Makes (h.newBlock items).2 (.block h.blocks.size) := by
  refine ⟨.newBlock h items, fun c => ?_, ?_⟩
  · cases c <;> simp only [New, Has, Heap.newBlock, pushed_iff, not_and_self, Container.block.injEq,
      reduceCtorEq]
  · simp [Unguarded, isBlockProtected, Heap.newBlock]

theorem Makes.newText (h : Heap) (content : String) :
    h.Makes (h.newText content).2 (.text h.texts.size) := by
  refine ⟨.newText h content, fun c => ?_, ?_⟩
  · cases c <;> simp only [New, Has, Heap.newText, pushed_iff, not_and_self, Container.text.injEq,
      reduceCtorEq]
  · simp [Unguarded, isTextProtected, Heap.newText]

theorem Makes.newFrame (h : Heap) (fields : List (String × Value)) :
    h.Makes (h.newFrame (.ofFields fields)).2 (.object h.frames.size) := by
  refine ⟨.newFrame h _, fun c => ?_, ?_⟩
  · cases c <;> simp only [New, Has, Heap.newFrame, pushed_iff, not_and_self,
      Container.object.injEq, reduceCtorEq]
  · have made : (h.newFrame (.ofFields fields)).2.frame h.frames.size = .ofFields fields :=
      frame_of_getElem? Array.getElem?_push_size
    rw [Unguarded, made]
    refine ⟨rfl, fun field inside => ?_⟩
    rw [Frame.ofFields, List.mem_toArray, List.mem_map] at inside
    obtain ⟨entry, -, rfl⟩ := inside
    rfl

theorem Unguarded.of_sameAt (free : h.Unguarded c) (same : h.SameAt h' c) : h'.Unguarded c := by
  cases c with
  | block id =>
    have same : h'.blocks[id]? = h.blocks[id]? := same
    rwa [Unguarded, isBlockProtected, same]
  | text id =>
    have same : h'.texts[id]? = h.texts[id]? := same
    rwa [Unguarded, isTextProtected, same]
  | object id =>
    have same : h'.frames[id]? = h.frames[id]? := same
    have frames : h'.frame id = h.frame id := by
      rw [frame, frame, Array.getD_eq_getD_getElem?, Array.getD_eq_getD_getElem?, same]
    rwa [Unguarded, frames]

theorem Unguarded.of_not_has (outside : ¬ h.Has c) : h.Unguarded c := by
  cases c with
  | block id => simp [Unguarded, isBlockProtected, Array.getElem?_eq_none (not_lt.mp outside)]
  | text id => simp [Unguarded, isTextProtected, Array.getElem?_eq_none (not_lt.mp outside)]
  | object id =>
    have outside : ¬ id < h.frames.size := outside
    simp [Unguarded, frame, Array.getD, outside]

theorem has_editBlock (id : Nat) (change : Array Value → Array Value) :
    (h.editBlock id change).Has c ↔ h.Has c := by
  cases c with
  | block i => rw [Has, editBlock, Array.size_modify, Has]
  | text i => rfl
  | object i => rfl

theorem Unguarded.editBlock (free : h.Unguarded c) (id : Nat)
    (change : Array Value → Array Value) : (h.editBlock id change).Unguarded c := by
  cases c with
  | block i =>
    rw [Unguarded, isBlockProtected, Heap.editBlock, Array.getElem?_modify]
    split
    · rw [Option.map_map]
      exact free
    · exact free
  | text i => exact free
  | object i => exact free

theorem items_editBlock (id i : Nat) (values : Array Value) (present : h.Has (.block id)) :
    (h.editBlock id fun _ => values).items i = if id = i then values else h.items i := by
  rw [items, editBlock, Array.getElem?_modify]
  split
  · next same =>
    subst same
    rw [Array.getElem?_eq_getElem present]
    rfl
  · rfl

/-! ## Copies under way -/

/-- A copy under way is apart from the heap it started from: the containers of that heap are as they
were, nothing protects the others, and the copies known and all that they hold are new. -/
structure Copying.Apart (h : Heap) (c : Copying) : Prop where
  grown : h.Grows c.heap
  unguarded : ∀ d, ¬ h.Has d → c.heap.Unguarded d
  copies : ∀ id copy, c.copies.lookup id = some copy → h.New c.heap (.block copy.id)
  items : ∀ id, ¬ h.Has (.block id) → ∀ v ∈ c.heap.items id, v.RefersTo (h.New c.heap)

namespace Copying.Apart

variable {c : Copying} {made : Container}

theorem start (h : Heap) : Copying.Apart h { heap := h } where
  grown := .refl h
  unguarded d := .of_not_has
  copies id copy known := by cases known
  items id outside v item := by
    rw [Heap.items, Array.getElem?_eq_none (not_lt.mp outside)] at item
    exact absurd item (Array.not_mem_empty v)

theorem new_of_makes (apart : c.Apart h) (makes : c.heap.Makes h' made) : h.New h' made :=
  ⟨fun old => makes.new.1 (apart.grown.has old), makes.new.2⟩

/-- Making a container, with nothing in it yet if it is a block. -/
theorem makes (apart : c.Apart h) (makes : c.heap.Makes h' made)
    (empty : ∀ id, made = .block id → h'.items id = #[]) :
    Copying.Apart h { c with heap := h' } := by
  have more (d : Container) (new : h.New c.heap d) : h.New h' d := new.mono makes.grows
  refine ⟨apart.grown.trans makes.grows, fun d outside => ?_, fun id copy known => ?_,
    fun id outside v item => ?_⟩
  · by_cases before : c.heap.Has d
    · exact (apart.unguarded d outside).of_sameAt (makes.grows.sameAt before)
    · by_cases after : h'.Has d
      · exact (makes.only d).mp ⟨before, after⟩ ▸ makes.unguarded
      · exact .of_not_has after
  · exact more _ (apart.copies id copy known)
  · by_cases before : c.heap.Has (.block id)
    · rw [makes.grows.items_eq before] at item
      exact (apart.items id outside v item).mono more
    · have nothing : h'.items id = #[] := by
        by_cases after : h'.Has (.block id)
        · exact empty id ((makes.only _).mp ⟨before, after⟩).symm
        · rw [Heap.items, Array.getElem?_eq_none (not_lt.mp after)]
          rfl
      rw [nothing] at item
      exact absurd item (Array.not_mem_empty v)

theorem allot (apart : c.Apart h) (id : Nat) : (c.allot id).2.Apart h := by
  have made := Makes.newBlock c.heap #[]
  have opened := apart.makes made fun i same => by
    cases same
    simp [Heap.newBlock, Heap.items]
  refine ⟨opened.grown, opened.unguarded, fun i copy known => ?_, opened.items⟩
  rw [c.lookup_allot] at known
  split at known
  · cases known
    exact apart.new_of_makes made
  · exact opened.copies i copy known

theorem fill (apart : c.Apart h) {copy : BlockRef} {values : Array Value}
    (new : h.New c.heap (.block copy.id)) (inside : ∀ v ∈ values, v.RefersTo (h.New c.heap)) :
    (c.fill copy values).Apart h := by
  have more (d : Container) (new : h.New c.heap d) : h.New (c.fill copy values).heap d :=
    ⟨new.1, (has_editBlock _ _).mpr new.2⟩
  have grown : h.Grows (c.fill copy values).heap :=
    apart.grown.editBlock (not_lt.mp new.1) fun _ => values
  refine ⟨grown, fun d outside => ?_, fun id copy' known => ?_, fun id outside v item => ?_⟩
  · exact (apart.unguarded d outside).editBlock _ _
  · exact more _ (apart.copies id copy' known)
  · rw [Copying.fill, items_editBlock _ _ _ new.2] at item
    split at item
    · exact (inside v item).mono more
    · exact (apart.items id outside v item).mono more

theorem leaf (apart : c.Apart h) (leaf : v.ref? = none) :
    Copying.Apart h { c with heap := (c.heap.shallowCopy v).2 } ∧
      (c.heap.shallowCopy v).1.RefersTo (h.New (c.heap.shallowCopy v).2) := by
  cases v with
  | block r => cases leaf
  | paren r => cases leaf
  | text id =>
    have made := Makes.newText c.heap (c.heap.text id)
    exact ⟨apart.makes made fun _ same => (by cases same),
      .of_container rfl (apart.new_of_makes made)⟩
  | object id =>
    have made := Makes.newFrame c.heap (c.heap.frame id).visible
    exact ⟨apart.makes made fun _ same => (by cases same),
      .of_container rfl (apart.new_of_makes made)⟩
  | _ => exact ⟨apart, .of_leaf rfl⟩

end Copying.Apart

theorem container_withRef {r copy : BlockRef} (ref : v.ref? = some r) :
    (v.withRef copy).container? = some (.block copy.id) := by
  cases v <;> cases ref <;> rfl

theorem Copied.grows {c c' : Copying} {vs ws : List Value} (copied : Copied c vs ws c') :
    c.heap.Grows c'.heap := by
  induction copied with
  | nil c => exact .refl c.heap
  | known ref known rest ih => exact ih
  | fresh ref fresh inside rest ih_inside ih =>
    exact (Grows.editNewBlock ih_inside fun _ => _).trans ih
  | leaf leaf rest ih => exact (shallowCopy_grows _ _).trans ih

/-- What copying makes of values is new, and the copy stays apart. -/
theorem Copied.apart {c c' : Copying} {vs ws : List Value} (copied : Copied c vs ws c')
    (apart : c.Apart h) : c'.Apart h ∧ ∀ x ∈ ws, x.RefersTo (h.New c'.heap) := by
  induction copied with
  | nil c => exact ⟨apart, fun x item => absurd item List.not_mem_nil⟩
  | known ref known rest ih =>
    obtain ⟨last, new⟩ := ih apart
    have here := (apart.copies _ _ known).mono rest.grows
    exact ⟨last, List.forall_mem_cons.mpr ⟨.of_container (container_withRef ref) here, new⟩⟩
  | @fresh c c' c'' v vs ws values r ref fresh inside rest ih_inside ih =>
    have opened := apart.allot r.id
    have made : h.New (c.allot r.id).2.heap (.block (c.allot r.id).1.id) :=
      opened.copies r.id _ (by rw [c.lookup_allot, if_pos rfl])
    obtain ⟨closed, items⟩ := ih_inside opened
    have here := made.mono inside.grows
    obtain ⟨last, new⟩ := ih (closed.fill here fun x item => items x (List.mem_toArray.mp item))
    have here' : h.New c''.heap (.block (c.allot r.id).1.id) :=
      ⟨here.1, rest.grows.has ((has_editBlock _ _).mpr here.2)⟩
    exact ⟨last, List.forall_mem_cons.mpr ⟨.of_container (container_withRef ref) here', new⟩⟩
  | leaf leaf rest ih =>
    obtain ⟨opened, made⟩ := apart.leaf leaf
    obtain ⟨last, new⟩ := ih opened
    have here := made.mono fun _ new => new.mono rest.grows
    exact ⟨last, List.forall_mem_cons.mpr ⟨here, new⟩⟩

/-! ## What is met -/

theorem held_noField (leaf : v.ref? = none) : h.held noField v = [] := by
  cases v with
  | block r => cases leaf
  | paren r => cases leaf
  | object id =>
    rw [held, List.map_eq_nil_iff]
    exact List.filter_eq_nil_iff.mpr fun _ _ => Bool.false_ne_true
  | _ => rfl

/-- What a new value leads to is new. -/
theorem Copying.Apart.reaches {c : Copying} {w : Value} (apart : c.Apart h)
    (new : v.RefersTo (h.New c.heap)) (reach : c.heap.Reaches noField v w) :
    w.RefersTo (h.New c.heap) := by
  induction reach with
  | refl => exact new
  | @tail x y _ item ih =>
    cases ref : x.ref? with
    | none =>
      rw [Holds, held_noField ref] at item
      exact absurd item List.not_mem_nil
    | some r =>
      rw [Holds, held_of_ref ref] at item
      have own := ih _ (container_of_ref ref)
      exact apart.items r.id own.1 y (Array.mem_toList_iff.mp (List.mem_of_mem_drop item))

/-- In a heap that has grown, an old value leads to what it led to before. -/
theorem Grows.reaches {w : Value} (grows : h.Grows h')
    (present : ∀ c, h.ReachesContainer noField v c → h.Has c) (reach : h'.Reaches noField v w) :
    h.Reaches noField v w := by
  induction reach with
  | refl => exact .start
  | @tail x y _ item ih =>
    cases ref : x.ref? with
    | none =>
      rw [Holds, held_noField ref] at item
      exact absurd item List.not_mem_nil
    | some r =>
      have below : h.Has (.block r.id) := present _ ⟨x, ih, container_of_ref ref⟩
      rw [Holds, held_of_ref ref, grows.tail_eq below] at item
      exact ih.held (held_of_ref ref ▸ item)

theorem sameAt_editBlock {id : Nat} (other : c ≠ .block id)
    (change : Array Value → Array Value) : h.SameAt (h.editBlock id change) c := by
  cases c with
  | block i =>
    have apart : id ≠ i := fun same => other (congrArg Container.block same.symm)
    change (h.blocks.modify _ _)[i]? = _
    rw [Array.getElem?_modify, if_neg apart]
  | text i => rfl
  | object i => rfl

theorem sameAt_editText {id : TextId} (other : c ≠ .text id) (change : String → String) :
    h.SameAt (h.editText id change) c := by
  cases c with
  | text i =>
    have apart : id ≠ i := fun same => other (congrArg Container.text same.symm)
    change (h.texts.modify _ _)[i]? = _
    rw [Array.getElem?_modify, if_neg apart]
  | block i => rfl
  | object i => rfl

theorem sameAt_walked {flags : ProtectFlags} (other : v.container? ≠ some c)
    (below : flags.deep = true → ¬ h.ReachesContainer everyField v c) :
    h.SameAt (h.walked flags v) c := by
  obtain ⟨touched, entered, footprint⟩ := h.exists_footprint flags.deep v
  rw [footprint.walked_eq flags rfl rfl]
  refine sameAt_marked fun member => ?_
  cases deep : flags.deep with
  | false => exact other ((footprint.shallow deep).2 c member)
  | true => exact below deep (footprint.reached c member)

end Heap

/-! ## Calls that change a series -/

/-- A call that adds to one of some series, removes from it, or guards it. A deep walk stays among
them; the words and values that a list names are not what is guarded. -/
inductive SeriesCall (among : Container → Prop) (s : State) : State → Prop where
  | write {n : Native} {args : Args} {c : Container}
      (writer : n ∈ [.append, .insert, .poke, .clear])
      (target : (args.value 0).container? = some c) (member : among c) (fuel : Nat)
      (name : String) :
      SeriesCall among s (endState ((evaluator fuel).invoke name (.native n) args) s)
  | guard {n : Native} {args : Args} {c : Container} (guards : n = .protect ∨ n = .unprotect)
      (unnamed : args.refined 2 = false ∧ args.refined 3 = false)
      (target : (args.value 0).container? = some c) (member : among c)
      (below : args.refined 1 = true →
        ∀ d, s.heap.ReachesContainer everyField (args.value 0) d → among d)
      (fuel : Nat) (name : String) :
      SeriesCall among s (endState ((evaluator fuel).invoke name (.native n) args) s)

section Calls

variable {α β : Type} {m : EvalM α} {f : α → EvalM β} {s t : State} {ev : Evaluator} {args : Args}
  {v : Value} {c d : Container}

def Avoids (c : Container) (m : EvalM α) : Prop := Relates (fun h h' => h.SameAt h' c) m

namespace Avoids

theorem bind (first : Avoids c m) (rest : ∀ a, Avoids c (f a)) : Avoids c (m >>= f) :=
  Relates.bind .trans first rest

/-- What only reads changes nothing anywhere. -/
theorem reads (reads : Reads m) : Avoids c m := .of_reads (.refl · c) reads

theorem pure (a : α) : Avoids c (Pure.pure a : EvalM α) := .reads (.pure a)

theorem raise (cause : Cause) : Avoids c (raise cause : EvalM α) := .reads (.throw _)

theorem ite {p : Prop} [Decidable p] {m' : EvalM α} (yes : Avoids c m) (no : Avoids c m') :
    Avoids c (if p then m else m') := Relates.ite yes no

theorem editBlock {id : Nat} (other : c ≠ .block id) (change : Array Value → Array Value) :
    Avoids c (editBlock id change) := by
  intro s
  by_cases guarded : s.heap.isBlockProtected id
  · rw [endState_error (by rw [editBlock_apply, if_pos guarded])]
    exact .refl s.heap c
  · rw [endState_ok (by rw [editBlock_apply, if_neg guarded])]
    exact Heap.sameAt_editBlock other change

theorem editText {id : TextId} (other : c ≠ .text id) (change : String → String) :
    Avoids c (editText id change) := by
  intro s
  by_cases guarded : s.heap.isTextProtected id
  · rw [endState_error (by rw [editText_apply, if_pos guarded])]
    exact .refl s.heap c
  · rw [endState_ok (by rw [editText_apply, if_neg guarded])]
    exact Heap.sameAt_editText other change

theorem pokeItem {r : BlockRef} (other : c ≠ .block r.id) (place : Int64) (value : Value) :
    Avoids c (pokeItem r place value) :=
  .ite (.raise _) (.bind (.reads .getHeap) fun _ =>
    .ite (.raise _) (.ite (.editBlock other _) (.raise _)))

theorem write {n : Native} (writer : n ∈ [.append, .insert, .poke, .clear])
    (target : (args.value 0).container? = some d) (other : c ≠ d) : Avoids c (n.run ev args) := by
  simp only [List.mem_cons, List.not_mem_nil, or_false] at writer
  cases first : args.value 0 with
  | block r =>
    obtain rfl := Option.some.inj (target.symm.trans (congrArg Value.container? first))
    rcases writer with rfl | rfl | rfl | rfl
    · simp only [Native.run, SeriesAccess.append, first]
      exact .bind (.reads .getHeap) fun _ => .bind (.editBlock other _) fun _ => .pure _
    · simp only [Native.run, SeriesAccess.insert, first]
      exact .bind (.reads .getHeap) fun _ => .bind (.editBlock other _) fun _ => .pure _
    · simp only [Native.run, SeriesAccess.poke, first]
      exact .bind (.reads (.expectInteger _ _ _)) fun _ =>
        .bind (.pokeItem other _ _) fun _ => .pure _
    · simp only [Native.run, SeriesAccess.clear, first]
      exact .bind (.editBlock other _) fun _ => .pure _
  | text id =>
    obtain rfl := Option.some.inj (target.symm.trans (congrArg Value.container? first))
    rcases writer with rfl | rfl | rfl | rfl
    · simp only [Native.run, SeriesAccess.append, first]
      exact .bind (.reads (.formValue _)) fun _ => .bind (.editText other _) fun _ => .pure _
    · simp only [Native.run, SeriesAccess.insert, first]
      exact .bind (.reads (.formValue _)) fun _ => .bind (.editText other _) fun _ => .pure _
    · simp only [Native.run, SeriesAccess.poke, first]
      exact .raise _
    · simp only [Native.run, SeriesAccess.clear, first]
      exact .bind (.editText other _) fun _ => .pure _
  | paren r =>
    -- only a block or a text can be written to
    rcases writer with rfl | rfl | rfl | rfl <;>
      simp only [Native.run, SeriesAccess.append, SeriesAccess.insert, SeriesAccess.poke,
        SeriesAccess.clear, first] <;> exact .raise _
  | object id =>
    rcases writer with rfl | rfl | rfl | rfl <;>
      simp only [Native.run, SeriesAccess.append, SeriesAccess.insert, SeriesAccess.poke,
        SeriesAccess.clear, first] <;> exact .raise _
  | _ =>
    rw [first] at target
    cases target

end Avoids

/-- Guarding a container, not what words name, is one walk over its value. -/
theorem apply_container (ev : Evaluator) (s : State) {target : Protecting.Target}
    (unnamed : target.words = false) (unnamed' : target.values = false)
    (found : v.container? = some d) :
    Protecting.apply ev target v s =
      if target.flags.hide then .error (.raised { cause := .badRefines }) s
      else .ok v { s with heap := s.heap.walked target.flags v } := by
  obtain ⟨flags, words, values⟩ := target
  obtain rfl : words = false := unnamed
  obtain rfl : values = false := unnamed'
  cases hide : flags.hide <;> cases v <;> cases found <;> simp only [Protecting.apply, hide] <;> rfl

theorem sameAt_apply {target : Protecting.Target} (unnamed : target.words = false)
    (unnamed' : target.values = false) (found : v.container? = some d) (other : c ≠ d)
    (below : target.flags.deep = true → ¬ s.heap.ReachesContainer everyField v c) :
    s.heap.SameAt (endState (Protecting.apply ev target v) s).heap c := by
  have applied := apply_container ev s unnamed unnamed' found
  cases hide : target.flags.hide with
  | true =>
    rw [hide] at applied
    rw [endState_error applied]
    exact .refl s.heap c
  | false =>
    rw [hide] at applied
    rw [endState_ok applied]
    refine Heap.sameAt_walked (fun same => other ?_) below
    exact Option.some.inj (same.symm.trans found)

/-- A call does what the body does in the same heap. -/
theorem sameAt_invoke {f : Function} (name : String) (fuel : Nat)
    (body : ∀ (ev : Evaluator) (s' : State), s'.heap = s.heap →
      s.heap.SameAt (endState (f.run ev args) s').heap c) :
    s.heap.SameAt (endState ((evaluator fuel).invoke name f args) s).heap c := by
  cases fuel with
  | zero => exact .refl s.heap c
  | succ fuel =>
    change s.heap.SameAt (endState (withCall name (f.run (evaluator fuel) args)) s).heap c
    rw [endState_withCall]
    cases s.calls.push name with
    | error cause => exact .refl s.heap c
    | ok calls => exact body (evaluator fuel) { s with calls } rfl

theorem SeriesCall.sameAt {among : Container → Prop} (call : SeriesCall among s t)
    (outside : ¬ among c) : s.heap.SameAt t.heap c := by
  cases call with
  | @write n args d writer target member fuel name =>
    have other : c ≠ d := fun same => outside (same ▸ member)
    refine sameAt_invoke name fuel fun ev s' same => ?_
    rw [← same]
    exact Avoids.write writer target other s'
  | @guard n args d guards unnamed target member below fuel name =>
    have other : c ≠ d := fun same => outside (same ▸ member)
    refine sameAt_invoke name fuel fun ev s' same => ?_
    rw [← same] at below ⊢
    have below' (deep : args.refined 1 = true) :
        ¬ s'.heap.ReachesContainer everyField (args.value 0) c :=
      fun reach => outside (below deep c reach)
    rcases guards with rfl | rfl
    · exact sameAt_apply unnamed.1 unnamed.2 target other below'
    · exact sameAt_apply unnamed.1 unnamed.2 target other below'

end Calls

/-! ## Deep copies -/

/-- The containers met in one value are not met in the other, and calls that change them do not
show there. -/
structure Heap.Independent (h : Heap) (v w : Value) : Prop where
  apart (c : Container) : h.ReachesContainer noField v c → ¬ h.ReachesContainer noField w c
  later {s t : State} {c : Container} :
    Relation.ReflTransGen (SeriesCall (h.ReachesContainer noField v)) s t →
      h.ReachesContainer noField w c → s.heap.SameAt t.heap c

theorem Heap.Independent.of_apart {h : Heap} {v w : Value}
    (apart : ∀ c, h.ReachesContainer noField v c → ¬ h.ReachesContainer noField w c) :
    h.Independent v w := by
  refine ⟨apart, fun {s t c} calls met => ?_⟩
  induction calls with
  | refl => exact .refl s.heap c
  | tail _ call ih => exact ih.trans (call.sameAt fun reached => apart c reached met)

structure Heap.CopiesApart (h : Heap) (v copy : Value) (h' : Heap) : Prop where
  returns (args : Args) (s : State) : s.heap = h → args.value 0 = v → args.refined 1 = true →
    SeriesAccess.copy args s = .ok copy { s with heap := h' }
  /-- More fuel than there are series makes no difference, so copying ends by itself. -/
  ends (fuel : Nat) : h.blocks.size < fuel →
    (copyDeep fuel { heap := h } v).1 = copy ∧ (copyDeep fuel { heap := h } v).2.heap = h'
  kind : copy.kind = v.kind
  kept (c : Container) : h.Has c → h.SameAt h' c
  fresh (c : Container) : h'.ReachesContainer noField copy c →
    ¬ h.Has c ∧ h'.Has c ∧ h'.Unguarded c
  original : h'.Independent v copy
  copied : h'.Independent copy v

theorem Heap.deepCopy_kind (h : Heap) (v : Value) : (h.deepCopy v).1.kind = v.kind := by
  cases v <;> rfl

/-- A deep copy of a value in whose graph no reference dangles shares no series with it: what the
copy meets by going through blocks and parens is new and nothing protects it, the rest of the heap
is as it was, and calls on a series of one side leave the other side as it is. -/
theorem Heap.deepCopy_apart (h : Heap) (v : Value)
    (present : ∀ c, h.ReachesContainer noField v c → h.Has c) :
    h.CopiesApart v (h.deepCopy v).1 (h.deepCopy v).2 := by
  have series (x : Value) (r : BlockRef) (reach : h.Reaches noField v x) (ref : x.ref? = some r) :
      r.id < h.blocks.size :=
    present (.block r.id) ⟨x, reach, container_of_ref ref⟩
  have copied := copied_copyDeep series (Nat.lt_succ_self h.blocks.size)
  obtain ⟨apart, copies⟩ := copied.apart (.start h)
  have new := copies _ (List.mem_singleton_self _)
  have grows := h.deepCopy_grows v
  have original {c : Container} (met : (h.deepCopy v).2.ReachesContainer noField v c) :
      h.Has c := by
    obtain ⟨w, reach, found⟩ := met
    exact present c ⟨w, grows.reaches present reach, found⟩
  have made {c : Container} (met : (h.deepCopy v).2.ReachesContainer noField (h.deepCopy v).1 c) :
      h.New (h.deepCopy v).2 c := by
    obtain ⟨w, reach, found⟩ := met
    exact apart.reaches new reach c found
  exact
    { returns := fun args s same first deep => by
        subst same first
        simp only [SeriesAccess.copy, deep, if_true]
        rfl
      ends := fun fuel enough => by
        have same := copyDeep_fuel series enough (Nat.lt_succ_self h.blocks.size)
        exact ⟨congrArg Prod.fst same, congrArg (·.2.heap) same⟩
      kind := h.deepCopy_kind v
      kept := fun c => grows.sameAt
      fresh := fun c met => ⟨(made met).1, (made met).2, apart.unguarded c (made met).1⟩
      original := .of_apart fun c met met' => (made met').1 (original met)
      copied := .of_apart fun c met met' => (made met).1 (original met') }

/-- A protected block that holds itself, and a text twice, once through a paren. -/
theorem Heap.deepCopy_apart_cycle :
    let s : Series (Array Value) :=
      { data := #[.block ⟨0, 0⟩, .paren ⟨1, 0⟩, .text 0], isProtected := true }
    let t : Series (Array Value) := { data := #[.text 0, .object 0] }
    let text : Series String := { data := "a", isProtected := true }
    let h : Heap :=
      { blocks := #[s, t], texts := #[text], frames := #[.ofFields [("x", .text 0)]] }
    let v := Value.block ⟨0, 0⟩
    (∀ c, h.ReachesContainer noField v c → h.Has c) ∧
      h.CopiesApart v (h.deepCopy v).1 (h.deepCopy v).2 ∧ (h.deepCopy v).1 = .block ⟨2, 0⟩ := by
  intro s t text h v
  let values := [v, .paren ⟨1, 0⟩, .text 0, .object 0]
  have closed : ∀ x ∈ values, ∀ y ∈ h.held noField x, y ∈ values := by
    simp [values, h, s, t, v, held, tail, items, noField]
  have all : ∀ x ∈ values, x.RefersTo h.Has := by
    simp [values, h, v, Value.RefersTo, Value.container?, Has]
  have present (c : Container) (met : h.ReachesContainer noField v c) : h.Has c := by
    obtain ⟨w, reach, found⟩ := met
    exact all w (reach.mem_of_closed List.mem_cons_self closed) c found
  exact ⟨present, h.deepCopy_apart v present, rfl⟩

end BlockScript
