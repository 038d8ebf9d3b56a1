import BlockScript.Heap

/-!
# Heaps that grow

A heap grows when containers are made and those that were there stay as they are: contents,
protection and fields. Making containers and loading data only ever grow the heap.
-/

namespace BlockScript

/-! ## Elements in their places -/

section Kept

variable {α : Type} {R : α → α → Prop} {xs ys zs : Array α} {i : Nat}

theorem getElem?_push_of_some {x y : α} (present : xs[i]? = some x) :
    (xs.push y)[i]? = some x := by
  have below : i < xs.size := (Array.getElem?_eq_some_iff.mp present).1
  rw [Array.getElem?_push, if_neg (Nat.ne_of_lt below), present]

theorem map_modify_of_commutes {β : Type} (g : α → β) (xs : Array α) (i : Nat) (change : α → α)
    (change' : β → β) (commutes : ∀ x, change' (g x) = g (change x)) :
    (xs.map g).modify i change' = (xs.modify i change).map g := by
  refine Array.ext_getElem? fun j => ?_
  simp only [Array.getElem?_modify, Array.getElem?_map]
  split
  · simp only [Option.map_map, Function.comp_def, commutes]
  · rfl

theorem map_modify_of_same {β : Type} {g : α → β} {change : α → α}
    (same : ∀ x, xs[i]? = some x → g (change x) = g x) : (xs.modify i change).map g = xs.map g := by
  refine Array.ext_getElem? fun j => ?_
  rw [Array.getElem?_map, Array.getElem?_map, Array.getElem?_modify]
  split
  · next here =>
    subst here
    cases found : xs[i]? with
    | none => rfl
    | some x => exact congrArg some (same x found)
  · rfl

def Kept (R : α → α → Prop) (xs ys : Array α) : Prop :=
  ∀ (i : Nat) (a : α), xs[i]? = some a → ∃ b, ys[i]? = some b ∧ R a b

namespace Kept

theorem refl (refl : ∀ a, R a a) (xs : Array α) : Kept R xs xs :=
  fun _ a found => ⟨a, found, refl a⟩

theorem trans (trans : ∀ {a b c}, R a b → R b c → R a c) (first : Kept R xs ys)
    (second : Kept R ys zs) : Kept R xs zs := by
  intro i a found
  obtain ⟨b, found', keeps⟩ := first i a found
  obtain ⟨c, found'', keeps'⟩ := second i b found'
  exact ⟨c, found'', trans keeps keeps'⟩

theorem push (refl : ∀ a, R a a) (xs : Array α) (x : α) : Kept R xs (xs.push x) :=
  fun _ a found => ⟨a, getElem?_push_of_some found, refl a⟩

theorem modify {change : α → α} (refl : ∀ a, R a a)
    (keeps : ∀ a, xs[i]? = some a → R a (change a)) : Kept R xs (xs.modify i change) := by
  intro j a found
  rw [Array.getElem?_modify]
  by_cases here : i = j
  · subst here
    rw [if_pos rfl, found]
    exact ⟨change a, rfl, keeps a found⟩
  · rw [if_neg here]
    exact ⟨a, found, refl a⟩

theorem map {change : α → α} (keeps : ∀ a, R a (change a)) (xs : Array α) :
    Kept R xs (xs.map change) := by
  intro i a found
  rw [Array.getElem?_map, found]
  exact ⟨change a, rfl, keeps a⟩

end Kept

end Kept

/-! ## Growth -/

theorem Heap.frame_of_getElem? {h : Heap} {id : FrameId} {f : Frame}
    (found : h.frames[id]? = some f) : h.frame id = f := by
  rw [frame, Array.getD_eq_getD_getElem?, found, Option.getD_some]

structure Heap.Grows (h h' : Heap) : Prop where
  blocks (id : Nat) (s : Series (Array Value)) :
    h.blocks[id]? = some s → h'.blocks[id]? = some s
  texts (id : TextId) (s : Series String) : h.texts[id]? = some s → h'.texts[id]? = some s
  frames (id : FrameId) (f : Frame) : h.frames[id]? = some f → h'.frames[id]? = some f

namespace Heap.Grows

variable {h h' h'' : Heap}

theorem refl (h : Heap) : h.Grows h := ⟨fun _ _ => id, fun _ _ => id, fun _ _ => id⟩

theorem trans (first : h.Grows h') (second : h'.Grows h'') : h.Grows h'' := by
  refine ⟨fun id s present => ?_, fun id s present => ?_, fun id f present => ?_⟩
  · exact second.blocks id s (first.blocks id s present)
  · exact second.texts id s (first.texts id s present)
  · exact second.frames id f (first.frames id f present)

theorem newBlock (h : Heap) (items : Array Value) : h.Grows (h.newBlock items).2 :=
  ⟨fun _ _ => getElem?_push_of_some, fun _ _ => id, fun _ _ => id⟩

theorem newText (h : Heap) (content : String) : h.Grows (h.newText content).2 :=
  ⟨fun _ _ => id, fun _ _ => getElem?_push_of_some, fun _ _ => id⟩

theorem newFrame (h : Heap) (frame : Frame) : h.Grows (h.newFrame frame).2 :=
  ⟨fun _ _ => id, fun _ _ => id, fun _ _ => getElem?_push_of_some⟩

theorem newFunction (h : Heap) (params : List Param) (body : BlockRef) :
    h.Grows (h.newFunction params body).2 :=
  ⟨fun _ _ => id, fun _ _ => id, fun _ _ => id⟩

theorem editBlock {id : Nat} (grown : h.Grows h') (new : h.blocks.size ≤ id)
    (change : Array Value → Array Value) : h.Grows (h'.editBlock id change) := by
  refine ⟨fun i s present => ?_, grown.texts, grown.frames⟩
  have below := (Array.getElem?_eq_some_iff.mp present).1
  change (h'.blocks.modify _ _)[i]? = _
  rw [Array.getElem?_modify, if_neg (by omega)]
  exact grown.blocks i s present

/-- A container may still be filled after it was made. -/
theorem editNewBlock {items : Array Value} (later : (h.newBlock items).2.Grows h')
    (change : Array Value → Array Value) :
    h.Grows (h'.editBlock (h.newBlock items).1.id change) :=
  ((newBlock h items).trans later).editBlock (Nat.le_refl _) change

mutual

theorem load (h : Heap) : (d : Datum) → h.Grows (h.load d).2
  | .integer _ => .refl h
  | .decimal _ => .refl h
  | .text content => .newText h content
  | .word _ _ => .refl h
  | .path _ _ => .refl h
  | .block items => (loadItems h items #[]).trans (.newBlock _ _)
  | .paren items => (loadItems h items #[]).trans (.newBlock _ _)

theorem loadItems (h : Heap) :
    (items : List Datum) → (placed : Array Value) →
      h.Grows (h.loadItems items placed).2
  | [], _ => .refl h
  | item :: items, _ => (load h item).trans (loadItems (h.load item).2 items _)

end

theorem loadBlock (h : Heap) (data : List Datum) : h.Grows (h.loadBlock data).2 :=
  load h (.block data)

/-! ## What stays -/

theorem text_eq (grows : h.Grows h') {id : TextId} (present : id < h.texts.size) :
    h'.text id = h.text id := by
  have found := Array.getElem?_eq_getElem present
  rw [Heap.text, Heap.text, grows.texts id _ found, found]

theorem items_eq (grows : h.Grows h') {id : Nat} (present : id < h.blocks.size) :
    h'.items id = h.items id := by
  have found := Array.getElem?_eq_getElem present
  rw [Heap.items, Heap.items, grows.blocks id _ found, found]

theorem tail_eq (grows : h.Grows h') {r : BlockRef} (present : r.id < h.blocks.size) :
    h'.tail r = h.tail r := by
  rw [Heap.tail, Heap.tail, grows.items_eq present]

theorem blockCount_le (grows : h.Grows h') : h.blocks.size ≤ h'.blocks.size := by
  refine Nat.le_of_not_lt fun fewer => ?_
  have found := Array.getElem?_eq_getElem fewer
  have kept := grows.blocks _ _ found
  rw [Array.getElem?_eq_none (Nat.le_refl _)] at kept
  cases kept

end Heap.Grows

/-! ## Single containers -/

namespace Heap

def Has (h : Heap) : Container → Prop
  | .block id => id < h.blocks.size
  | .text id => id < h.texts.size
  | .object id => id < h.frames.size

def SameAt (h h' : Heap) : Container → Prop
  | .block id => h'.blocks[id]? = h.blocks[id]?
  | .text id => h'.texts[id]? = h.texts[id]?
  | .object id => h'.frames[id]? = h.frames[id]?

def Unguarded (h : Heap) : Container → Prop
  | .block id => h.isBlockProtected id = false
  | .text id => h.isTextProtected id = false
  | .object id => (h.frame id).isProtected = false ∧
      ∀ field ∈ (h.frame id).fields, field.locked = false

def New (h h' : Heap) (c : Container) : Prop := ¬ h.Has c ∧ h'.Has c

variable {h h' h'' : Heap} {c : Container}

theorem SameAt.refl (h : Heap) (c : Container) : h.SameAt h c := by cases c <;> rfl

theorem SameAt.trans (first : h.SameAt h' c) (second : h'.SameAt h'' c) : h.SameAt h'' c := by
  cases c <;> exact Eq.trans second first

theorem Grows.sameAt (grows : h.Grows h') (present : h.Has c) : h.SameAt h' c := by
  cases c with
  | block id =>
    have found := Array.getElem?_eq_getElem (present : id < h.blocks.size)
    exact (grows.blocks id _ found).trans found.symm
  | text id =>
    have found := Array.getElem?_eq_getElem (present : id < h.texts.size)
    exact (grows.texts id _ found).trans found.symm
  | object id =>
    have found := Array.getElem?_eq_getElem (present : id < h.frames.size)
    exact (grows.frames id _ found).trans found.symm

theorem Has.of_sameAt (present : h.Has c) (same : h.SameAt h' c) : h'.Has c := by
  have below {α : Type} {xs ys : Array α} {i : Nat} (inside : i < xs.size)
      (same : ys[i]? = xs[i]?) : i < ys.size := by
    rw [Array.getElem?_eq_getElem inside] at same
    exact (Array.getElem?_eq_some_iff.mp same).1
  cases c with
  | block id => exact below present same
  | text id => exact below present same
  | object id => exact below present same

theorem Grows.has (grows : h.Grows h') (present : h.Has c) : h'.Has c :=
  present.of_sameAt (grows.sameAt present)

end Heap

end BlockScript
