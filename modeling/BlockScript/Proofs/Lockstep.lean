import BlockScript.Proofs.Copying
import BlockScript.Proofs.Likeness
import BlockScript.Proofs.Marking

/-!
# Changing two heaps alike

What changes heaps that are the same but for the values of secret fields leaves them so. New
containers get the same number in both, a copy of an object has its visible fields only, and an
assigned field holds the same value afterwards. A deep walk does meet hidden values, but it goes on
from containers only, and no secret value is one.
-/

namespace BlockScript

variable {β : Type}

/-! ## Fields and frames -/

theorem Field.SameBut.mono {secret secret' : Prop} {a b : Field} (same : a.SameBut secret b)
    (more : secret → secret') : a.SameBut secret' b :=
  ⟨same.name, same.locked, same.hidden, same.value.imp_right (And.imp_left more)⟩

/-- Marks do not depend on the value, and a hidden field stays hidden. -/
theorem Field.SameBut.markField {secret : Prop} {a b : Field} (same : a.SameBut secret b)
    (flags : ProtectFlags) :
    (ProtectWalk.markField flags a).SameBut secret (ProtectWalk.markField flags b) := by
  refine ⟨same.name, ?_, ?_, same.value.imp_right fun ⟨known, hidden, leaves⟩ => ?_⟩
  · simp only [ProtectWalk.markField, same.locked]
  · simp only [ProtectWalk.markField, same.hidden]
  · exact ⟨known, by simp only [ProtectWalk.markField, hidden, Bool.true_or], leaves⟩

namespace Frame.SameBut

variable {secret : Nat → Prop} {f g : Frame}

theorem mono {secret' : Nat → Prop} (same : f.SameBut secret g)
    (more : ∀ i, secret i → secret' i) : f.SameBut secret' g :=
  ⟨same.isProtected, same.size, fun i a b here there => (same.field i a b here there).mono (more i)⟩

theorem modify (same : f.SameBut secret g) (i : Nat) {change : Field → Field}
    (changed : ∀ a b, a.SameBut (secret i) b → (change a).SameBut (secret i) (change b)) :
    (f.modify i change).SameBut secret (g.modify i change) := by
  refine ⟨same.isProtected, ?_, fun j a b here there => ?_⟩
  · simp only [Frame.modify, Array.size_modify, same.size]
  · simp only [Frame.modify, Array.getElem?_modify] at here there
    by_cases target : i = j
    · subst target
      rw [if_pos rfl, Option.map_eq_some_iff] at here there
      obtain ⟨a, here, rfl⟩ := here
      obtain ⟨b, there, rfl⟩ := there
      exact changed a b (same.field i a b here there)
    · rw [if_neg target] at here there
      exact same.field j a b here there

/-- An assigned field holds the same value afterwards, whatever it held. -/
theorem put (same : f.SameBut secret g) (i : Nat) (value : Value) :
    (f.put i value).SameBut secret (g.put i value) :=
  same.modify i fun _ _ field => ⟨field.name, field.locked, field.hidden, .inl rfl⟩

theorem push (same : f.SameBut secret g) (name : String) (value : Value) :
    (f.push name value).SameBut secret (g.push name value) := by
  refine ⟨same.isProtected, ?_, fun i a b here there => ?_⟩
  · simp only [Frame.push, Array.size_push, same.size]
  · simp only [Frame.push, Array.getElem?_push, same.size] at here there
    by_cases last : i = f.fields.size
    · rw [if_pos last] at here there
      cases here
      cases there
      exact .refl _
    · rw [if_neg last] at here there
      exact same.field i a b here there

theorem mark (same : f.SameBut secret g) (flags : ProtectFlags) :
    (ProtectWalk.markFrame flags f).SameBut secret (ProtectWalk.markFrame flags g) := by
  refine ⟨rfl, ?_, fun i a b here there => ?_⟩
  · simp only [ProtectWalk.markFrame, Array.size_map, same.size]
  · rw [ProtectWalk.markFrame, Array.getElem?_map, Option.map_eq_some_iff] at here there
    obtain ⟨a, here, rfl⟩ := here
    obtain ⟨b, there, rfl⟩ := there
    exact (same.field i a b here there).markField flags

end Frame.SameBut

/-! ## Heaps -/

theorem Heap.frame_modifyFrame (h : Heap) (id i : FrameId) (change : Frame → Frame) :
    (h.modifyFrame id change).frame i =
      if id = i ∧ i < h.frames.size then change (h.frame i) else h.frame i := by
  simp only [frame, modifyFrame, Array.getD_eq_getD_getElem?, Array.getElem?_modify]
  by_cases here : id = i
  · subst here
    by_cases present : id < h.frames.size
    · simp only [present, and_self, if_true, Array.getElem?_eq_getElem, Option.map_some,
        Option.getD_some]
    · simp only [present, and_false, if_true, if_false,
        Array.getElem?_eq_none (Nat.le_of_not_lt present), Option.map_none]
  · simp only [here, false_and, if_false]

theorem Heap.frame_newFrame (h : Heap) (new : Frame) (i : FrameId) :
    (h.newFrame new).2.frame i = if i = h.frames.size then new else h.frame i := by
  simp only [frame, newFrame, Array.getD_eq_getD_getElem?, Array.getElem?_push]
  split <;> rfl

def Heap.MakesSame (secret : FrameId → Nat → Prop) (make : Heap → β × Heap) : Prop :=
  ∀ h h', h.SameBut secret h' →
    (make h').1 = (make h).1 ∧ (make h).2.SameBut secret (make h').2

variable {secret : FrameId → Nat → Prop}

namespace Heap.SameBut

variable {h h' : Heap}

theorem mono {secret' : FrameId → Nat → Prop} (same : h.SameBut secret h')
    (more : ∀ id i, secret id i → secret' id i) : h.SameBut secret' h' :=
  ⟨same.blocks, same.texts, same.functions, same.frameCount,
    fun id => (same.frame id).mono (more id)⟩

theorem withBlocks (same : h.SameBut secret h') (blocks : Array (Series (Array Value))) :
    { h with blocks }.SameBut secret { h' with blocks } :=
  ⟨rfl, same.texts, same.functions, same.frameCount, same.frame⟩

theorem withTexts (same : h.SameBut secret h') (texts : Array (Series String)) :
    { h with texts }.SameBut secret { h' with texts } :=
  ⟨same.blocks, rfl, same.functions, same.frameCount, same.frame⟩

theorem modifyFrame (same : h.SameBut secret h') (id : FrameId) {change : Frame → Frame}
    (changed : ∀ {f g : Frame}, f.SameBut (secret id) g →
      (change f).SameBut (secret id) (change g)) :
    (h.modifyFrame id change).SameBut secret (h'.modifyFrame id change) := by
  refine ⟨same.blocks, same.texts, same.functions, ?_, fun i => ?_⟩
  · simp only [Heap.modifyFrame, Array.size_modify, same.frameCount]
  · rw [frame_modifyFrame, frame_modifyFrame, same.frameCount]
    split
    · next target =>
      rw [← target.1]
      exact changed (same.frame id)
    · exact same.frame i

theorem editBlock (same : h.SameBut secret h') (id : Nat) (change : Array Value → Array Value) :
    (h.editBlock id change).SameBut secret (h'.editBlock id change) := by
  rw [Heap.editBlock, Heap.editBlock, same.blocks]
  exact same.withBlocks _

theorem editText (same : h.SameBut secret h') (id : TextId) (change : String → String) :
    (h.editText id change).SameBut secret (h'.editText id change) := by
  rw [Heap.editText, Heap.editText, same.texts]
  exact same.withTexts _

end Heap.SameBut

namespace Heap.MakesSame

/-! ### Making containers -/

theorem newBlock (items : Array Value) : MakesSame secret (·.newBlock items) := by
  intro h h' same
  simp only [Heap.newBlock, same.blocks, true_and]
  exact same.withBlocks _

theorem newText (content : String) : MakesSame secret (·.newText content) := by
  intro h h' same
  simp only [Heap.newText, same.texts, true_and]
  exact same.withTexts _

theorem newFrame (new : Frame) : MakesSame secret (·.newFrame new) := by
  intro h h' same
  refine ⟨same.frameCount, same.blocks, same.texts, same.functions, ?_, fun i => ?_⟩
  · simp only [Heap.newFrame, Array.size_push, same.frameCount]
  · rw [frame_newFrame, frame_newFrame, same.frameCount]
    split
    · exact .refl new
    · exact same.frame i

theorem newFunction (params : List Param) (body : BlockRef) :
    MakesSame secret (·.newFunction params body) := by
  intro h h' same
  simp only [Heap.newFunction, same.functions, true_and]
  exact ⟨same.blocks, same.texts, rfl, same.frameCount, same.frame⟩

mutual

theorem load : (d : Datum) → MakesSame secret (·.load d)
  | .integer _ => fun _ _ same => ⟨rfl, same⟩
  | .decimal _ => fun _ _ same => ⟨rfl, same⟩
  | .text content => newText content
  | .word _ _ => fun _ _ same => ⟨rfl, same⟩
  | .path _ _ => fun _ _ same => ⟨rfl, same⟩
  | .block items => fun h h' same => by
    obtain ⟨values, loaded⟩ := loadItems items #[] h h' same
    obtain ⟨ref, made⟩ := newBlock (h.loadItems items #[]).1 _ _ loaded
    simp only [Heap.load, values]
    exact ⟨congrArg Value.block ref, made⟩
  | .paren items => fun h h' same => by
    obtain ⟨values, loaded⟩ := loadItems items #[] h h' same
    obtain ⟨ref, made⟩ := newBlock (h.loadItems items #[]).1 _ _ loaded
    simp only [Heap.load, values]
    exact ⟨congrArg Value.paren ref, made⟩

theorem loadItems : (items : List Datum) → (placed : Array Value) →
    MakesSame secret (·.loadItems items placed)
  | [], _ => fun _ _ same => ⟨rfl, same⟩
  | item :: items, placed => fun h h' same => by
    obtain ⟨value, loaded⟩ := load item h h' same
    simp only [Heap.loadItems, value]
    exact loadItems items _ _ _ loaded

end

theorem loadBlock (data : List Datum) : MakesSame secret (·.loadBlock data) := by
  intro h h' same
  obtain ⟨values, loaded⟩ := loadItems data #[] h h' same
  simp only [Heap.loadBlock, values]
  exact newBlock _ _ _ loaded

/-! ### Copies -/

theorem shallowCopy (v : Value) : MakesSame secret (·.shallowCopy v) := by
  intro h h' same
  cases v with
  | block r =>
    obtain ⟨ref, made⟩ := newBlock (h.tail r).toArray h h' same
    simp only [Heap.shallowCopy, same.tail]
    exact ⟨congrArg Value.block ref, made⟩
  | paren r =>
    obtain ⟨ref, made⟩ := newBlock (h.tail r).toArray h h' same
    simp only [Heap.shallowCopy, same.tail]
    exact ⟨congrArg Value.paren ref, made⟩
  | text id =>
    simp only [Heap.shallowCopy, same.text]
    exact newText _ h h' same
  | object id =>
    obtain ⟨copy, made⟩ := newFrame (.ofFields (h.frame id).visible) h h' same
    simp only [Heap.shallowCopy, (same.frame id).visible]
    exact ⟨congrArg Value.object copy, made⟩
  | _ => exact ⟨rfl, same⟩

end Heap.MakesSame

structure Heap.Copying.SameBut (secret : FrameId → Nat → Prop) (c c' : Copying) : Prop where
  heap : c.heap.SameBut secret c'.heap
  copies : c'.copies = c.copies

open Heap in
theorem Heap.Copying.SameBut.copyDeep {c c' : Copying} (same : c.SameBut secret c') (fuel : Nat)
    (v : Value) :
    (copyDeep fuel c' v).1 = (copyDeep fuel c v).1 ∧
      (copyDeep fuel c v).2.SameBut secret (copyDeep fuel c' v).2 := by
  induction fuel generalizing c c' v with
  | zero => exact ⟨rfl, same⟩
  | succ fuel ih =>
    have items (items : List Value) (values : Array Value) {c c' : Copying}
        (same : c.SameBut secret c') :
        (copyItems fuel (values, c') items).1 = (copyItems fuel (values, c) items).1 ∧
          (copyItems fuel (values, c) items).2.SameBut secret
            (copyItems fuel (values, c') items).2 := by
      induction items generalizing values c c' with
      | nil => exact ⟨rfl, same⟩
      | cons item items rest =>
        obtain ⟨value, copied⟩ := ih same item
        rw [copyItems_cons, copyItems_cons, value]
        exact rest _ copied
    have series (r : BlockRef) :
        (copySeries fuel c' r).1 = (copySeries fuel c r).1 ∧
          (copySeries fuel c r).2.SameBut secret (copySeries fuel c' r).2 := by
      cases known : c.copies.lookup r.id with
      | some copy =>
        rw [copySeries_known known, copySeries_known (same.copies ▸ known)]
        exact ⟨rfl, same⟩
      | none =>
        obtain ⟨copy, made⟩ := Heap.MakesSame.newBlock #[] c.heap c'.heap same.heap
        have opened : (c.allot r.id).2.SameBut secret (c'.allot r.id).2 := by
          refine ⟨made, ?_⟩
          simp only [Copying.allot, same.copies, copy]
        obtain ⟨values, filled⟩ := items (c.heap.tail r) #[] opened
        rw [copySeries_fresh known, copySeries_fresh (same.copies ▸ known), same.heap.tail]
        have own : (c'.allot r.id).1 = (c.allot r.id).1 := copy
        rw [own, values]
        exact ⟨rfl, filled.heap.editBlock _ fun _ => _, filled.copies⟩
    cases v with
    | block r => exact (series r).imp_left (congrArg Value.block)
    | paren r => exact (series r).imp_left (congrArg Value.paren)
    | text id =>
      obtain ⟨copy, made⟩ := Heap.MakesSame.shallowCopy (.text id) c.heap c'.heap same.heap
      exact ⟨copy, made, same.copies⟩
    | object id =>
      obtain ⟨copy, made⟩ := Heap.MakesSame.shallowCopy (.object id) c.heap c'.heap same.heap
      exact ⟨copy, made, same.copies⟩
    | _ => exact ⟨rfl, same⟩

theorem Heap.MakesSame.deepCopy (v : Value) : Heap.MakesSame secret (·.deepCopy v) := by
  intro h h' same
  have start : Heap.Copying.SameBut secret { heap := h } { heap := h' } := ⟨same, rfl⟩
  obtain ⟨copy, copied⟩ := start.copyDeep (h.blocks.size + 1) v
  simp only [Heap.deepCopy, same.blocks]
  exact ⟨copy, copied.heap⟩

/-! ### Walks -/

/-- The values are the same, or a walk goes on from neither. -/
def Value.LeadsAsFar (v v' : Value) : Prop :=
  v' = v ∨ v.container? = Option.none ∧ v'.container? = Option.none

theorem Field.SameBut.leadsAsFar {known : Prop} {a b : Field} (same : a.SameBut known b) :
    a.value.LeadsAsFar b.value :=
  same.value.imp_right fun ⟨_, _, leaves⟩ => leaves

theorem Heap.SameBut.held {h h' : Heap} (same : h.SameBut secret h') (v : Value) :
    List.Forall₂ Value.LeadsAsFar (h.held everyField v) (h'.held everyField v) := by
  have equal (values : List Value) : List.Forall₂ Value.LeadsAsFar values values :=
    List.forall₂_same.mpr fun _ _ => .inl rfl
  cases v with
  | block r => simpa only [Heap.held, same.tail] using equal (h.tail r)
  | paren r => simpa only [Heap.held, same.tail] using equal (h.tail r)
  | object id =>
    rw [held_object, held_object, List.forall₂_map_left_iff, List.forall₂_map_right_iff,
      List.forall₂_iff_get]
    refine ⟨by simp only [Array.length_toList, (same.frame id).size], fun i below below' => ?_⟩
    refine ((same.frame id).field i _ _ ?_ ?_).leadsAsFar
    · exact Array.getElem?_eq_getElem below
    · exact Array.getElem?_eq_getElem below'
  | _ => exact .nil

namespace ProtectWalk

structure SameBut (secret : FrameId → Nat → Prop) (w w' : ProtectWalk) : Prop where
  flags : w'.flags = w.flags
  heap : w.heap.SameBut secret w'.heap
  visited : w'.visited = w.visited

namespace SameBut

variable {w w' : ProtectWalk} {v v' : Value}

theorem protect (same : w.SameBut secret w') (c : Container) :
    (w.protect c).SameBut secret (w'.protect c) := by
  cases c with
  | block id =>
    refine ⟨same.flags, ?_, same.visited⟩
    simp only [ProtectWalk.protect, protectBlock, Heap.protectBlock, same.flags, same.heap.blocks]
    exact same.heap.withBlocks _
  | text id =>
    refine ⟨same.flags, ?_, same.visited⟩
    simp only [ProtectWalk.protect, protectText, Heap.protectText, same.flags, same.heap.texts]
    exact same.heap.withTexts _
  | object id =>
    refine ⟨same.flags, ?_, same.visited⟩
    simp only [ProtectWalk.protect, protectFrame, same.flags]
    exact same.heap.modifyFrame id fun frame => frame.mark w.flags

theorem enter (same : w.SameBut secret w') (c : Container) :
    (w.enter c).SameBut secret (w'.enter c) :=
  ⟨same.flags, same.heap, congrArg (c :: ·) same.visited⟩

theorem walk (same : w.SameBut secret w') (fuel : Nat) (alike : v.LeadsAsFar v') :
    (walk fuel w v).SameBut secret (walk fuel w' v') := by
  induction fuel generalizing w w' v v' with
  | zero => exact same
  | succ fuel ih =>
    have fold {values values' : List Value} (alike : List.Forall₂ Value.LeadsAsFar values values')
        {w w' : ProtectWalk} (same : w.SameBut secret w') :
        (values.foldl (ProtectWalk.walk fuel) w).SameBut secret
          (values'.foldl (ProtectWalk.walk fuel) w') := by
      induction alike generalizing w w' with
      | nil => exact same
      | cons first _ rest => exact rest (ih same first)
    rcases alike with rfl | ⟨none, none'⟩
    · cases found : v'.container? with
      | none =>
        rw [walk_none found, walk_none found]
        exact same
      | some c =>
        rw [walk_some found, walk_some found, same.visited, same.flags]
        split
        · exact same
        · split
          · exact fold ((same.protect c).heap.held v') ((same.protect c).enter c)
          · exact same.protect c
    · rw [walk_none none, walk_none none']
      exact same

theorem protectValue (same : w.SameBut secret w') (alike : v.LeadsAsFar v') :
    (w.protectValue v).SameBut secret (w'.protectValue v') := by
  rw [ProtectWalk.protectValue, ProtectWalk.protectValue, same.heap.containerCount]
  exact same.walk _ alike

theorem protectField (same : w.SameBut secret w') (id : FrameId) (i : Nat) :
    (w.protectField id i).SameBut secret (w'.protectField id i) := by
  have marked : SameBut secret
      { w with heap := w.heap.modifyFrame id (·.modify i (markField w.flags)) }
      { w' with heap := w'.heap.modifyFrame id (·.modify i (markField w'.flags)) } := by
    refine ⟨same.flags, ?_, same.visited⟩
    rw [same.flags]
    exact same.heap.modifyFrame id fun frame =>
      frame.modify i fun _ _ field => field.markField w.flags
  have frame := same.heap.frame id
  cases found : (w.heap.frame id).fields[i]? with
  | none =>
    have absent := frame.getElem?_none found
    simp only [ProtectWalk.protectField, Frame.value?, found, absent, Option.map_none]
    exact marked
  | some a =>
    obtain ⟨b, found', field⟩ := frame.getElem? found
    simp only [ProtectWalk.protectField, Frame.value?, found, found', Option.map_some, same.flags]
    split
    · exact (same.flags ▸ marked).protectValue field.leadsAsFar
    · exact same.flags ▸ marked

end SameBut

end ProtectWalk

end BlockScript
