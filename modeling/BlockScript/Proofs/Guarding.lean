import BlockScript.Proofs.Copying
import BlockScript.Proofs.Marking
import BlockScript.Proofs.Routine

/-!
# What protection keeps

Protected series keep their contents and locked fields their values, and both stay as protected as
they were. Every primitive step keeps this, whatever aliases there are, because each way to change
the heap asks first; only a walk that clears takes protection away.
-/

namespace BlockScript

/-! ## Locked fields -/

def Frame.KeepsLocked (f f' : Frame) : Prop :=
  ∀ (index : Nat) (field : Field), f.fields[index]? = some field → field.locked = true →
    ∃ field', f'.fields[index]? = some field' ∧ field'.name = field.name ∧
      field'.value = field.value ∧ field'.locked = true

namespace Frame.KeepsLocked

variable {f f' f'' : Frame}

theorem refl (f : Frame) : f.KeepsLocked f := fun _ field found locked =>
  ⟨field, found, rfl, rfl, locked⟩

theorem trans (first : f.KeepsLocked f') (second : f'.KeepsLocked f'') : f.KeepsLocked f'' := by
  intro index field found locked
  obtain ⟨field', found', name, value, locked'⟩ := first index field found locked
  obtain ⟨field'', found'', name', value', locked''⟩ := second index field' found' locked'
  exact ⟨field'', found'', name'.trans name, value'.trans value, locked''⟩

theorem modify (f : Frame) (index : Nat) (change : Field → Field)
    (keeps : ∀ field, f.fields[index]? = some field → field.locked = true →
      (change field).name = field.name ∧ (change field).value = field.value ∧
        (change field).locked = true) : f.KeepsLocked (f.modify index change) := by
  intro i field found locked
  rw [Frame.modify, Array.getElem?_modify]
  by_cases here : index = i
  · subst here
    rw [if_pos rfl, found]
    exact ⟨change field, rfl, keeps field found locked⟩
  · rw [if_neg here]
    exact ⟨field, found, rfl, rfl, locked⟩

/-- Assignment is refused at a locked field. -/
theorem put {index : Nat} (free : f.denied? index = none) (value : Value) :
    f.KeepsLocked (f.put index value) := by
  refine modify f index _ fun field found locked => ?_
  rw [denied?, found] at free
  simp [locked] at free

theorem push (f : Frame) (name : String) (value : Value) : f.KeepsLocked (f.push name value) :=
  fun _ field found locked => ⟨field, getElem?_push_of_some found, rfl, rfl, locked⟩

theorem markField {flags : ProtectFlags} (sets : flags.set = true) {field : Field}
    (locked : field.locked = true) :
    (ProtectWalk.markField flags field).name = field.name ∧
      (ProtectWalk.markField flags field).value = field.value ∧
      (ProtectWalk.markField flags field).locked = true := by
  refine ⟨rfl, rfl, ?_⟩
  rw [ProtectWalk.markField]
  split
  · exact sets
  · exact locked

theorem mark {flags : ProtectFlags} (sets : flags.set = true) (f : Frame) :
    f.KeepsLocked (ProtectWalk.markFrame flags f) := by
  intro index field found locked
  rw [ProtectWalk.markFrame, Array.getElem?_map, found]
  exact ⟨_, rfl, markField sets locked⟩

end Frame.KeepsLocked

/-! ## Protected series -/

/-- Protected series have the same contents in the second heap, and are still protected; so have
locked fields their values. -/
structure Heap.KeepsProtected (h h' : Heap) : Prop where
  blocks (id : Nat) (s : Series (Array Value)) :
    h.blocks[id]? = some s → s.isProtected = true → h'.blocks[id]? = some s
  texts (id : TextId) (s : Series String) :
    h.texts[id]? = some s → s.isProtected = true → h'.texts[id]? = some s
  frames (id : FrameId) (f : Frame) :
    h.frames[id]? = some f → ∃ f', h'.frames[id]? = some f' ∧ f.KeepsLocked f'

namespace Heap.KeepsProtected

variable {h h' h'' : Heap}

theorem refl (h : Heap) : h.KeepsProtected h :=
  ⟨fun _ _ found _ => found, fun _ _ found _ => found, Kept.refl .refl h.frames⟩

theorem trans (first : h.KeepsProtected h') (second : h'.KeepsProtected h'') :
    h.KeepsProtected h'' := by
  refine ⟨fun id s found guarded => ?_, fun id s found guarded => ?_, ?_⟩
  · exact second.blocks id s (first.blocks id s found guarded) guarded
  · exact second.texts id s (first.texts id s found guarded) guarded
  · exact Kept.trans .trans first.frames second.frames

theorem of_grows (grows : h.Grows h') : h.KeepsProtected h' :=
  ⟨fun id s found _ => grows.blocks id s found, fun id s found _ => grows.texts id s found,
    fun id f found => ⟨f, grows.frames id f found, .refl f⟩⟩

theorem getElem?_modify_series {α : Type} {xs : Array (Series α)} {id i : Nat}
    {change : Series α → Series α} {s : Series α}
    (keeps : ∀ s, xs[id]? = some s → s.isProtected = true → change s = s)
    (found : xs[i]? = some s) (guarded : s.isProtected = true) :
    (xs.modify id change)[i]? = some s := by
  rw [Array.getElem?_modify]
  by_cases here : id = i
  · subst here
    rw [if_pos rfl, found, Option.map_some, keeps s found guarded]
  · rw [if_neg here, found]

theorem modifyBlock (id : Nat) (change : Series (Array Value) → Series (Array Value))
    (keeps : ∀ s, h.blocks[id]? = some s → s.isProtected = true → change s = s) :
    h.KeepsProtected { h with blocks := h.blocks.modify id change } :=
  ⟨fun _ _ => getElem?_modify_series keeps, fun _ _ found _ => found, Kept.refl .refl h.frames⟩

theorem modifyText (id : TextId) (change : Series String → Series String)
    (keeps : ∀ s, h.texts[id]? = some s → s.isProtected = true → change s = s) :
    h.KeepsProtected { h with texts := h.texts.modify id change } :=
  ⟨fun _ _ found _ => found, fun _ _ => getElem?_modify_series keeps, Kept.refl .refl h.frames⟩

theorem modifyFrame (id : FrameId) (change : Frame → Frame)
    (keeps : (h.frame id).KeepsLocked (change (h.frame id))) :
    h.KeepsProtected (h.modifyFrame id change) := by
  refine ⟨fun _ _ found _ => found, fun _ _ found _ => found, ?_⟩
  exact Kept.modify .refl fun _ found => frame_of_getElem? found ▸ keeps

/-! ## Steps -/

theorem editBlock {id : Nat} (unguarded : h.isBlockProtected id = false)
    (change : Array Value → Array Value) : h.KeepsProtected (h.editBlock id change) := by
  refine modifyBlock id _ fun s found guarded => ?_
  rw [isBlockProtected, found, Option.map_some, Option.getD_some, guarded] at unguarded
  cases unguarded

theorem editText {id : TextId} (unguarded : h.isTextProtected id = false)
    (change : String → String) : h.KeepsProtected (h.editText id change) := by
  refine modifyText id _ fun s found guarded => ?_
  rw [isTextProtected, found, Option.map_some, Option.getD_some, guarded] at unguarded
  cases unguarded

theorem protect (w : ProtectWalk) (sets : w.flags.set = true) (c : Container) :
    w.heap.KeepsProtected (w.protect c).heap := by
  have kept {α : Type} (s : Series α) (guarded : s.isProtected = true) :
      ({ s with isProtected := w.flags.set } : Series α) = s := by
    rw [sets, ← guarded]
  cases c with
  | block id => exact modifyBlock id _ fun s _ => kept s
  | text id => exact modifyText id _ fun s _ => kept s
  | object id => exact modifyFrame id _ (.mark sets _)

theorem protectValue (w : ProtectWalk) (sets : w.flags.set = true) (v : Value) :
    w.heap.KeepsProtected (w.protectValue v).heap := by
  let R (w w' : ProtectWalk) : Prop :=
    w.flags.set = true → w'.flags.set = true ∧ w.heap.KeepsProtected w'.heap
  have walked : R w (w.protectValue v) :=
    ProtectWalk.walk_along (fun w sets => ⟨sets, .refl _⟩)
      (fun first second sets =>
        ⟨(second (first sets).1).1, (first sets).2.trans (second (first sets).1).2⟩)
      (fun w c sets => ⟨by cases c <;> exact sets, protect w sets c⟩)
      (fun w c sets => ⟨sets, .refl _⟩) _ w v
  exact (walked sets).2

theorem protectField (w : ProtectWalk) (sets : w.flags.set = true) (id : FrameId) (index : Nat) :
    w.heap.KeepsProtected (w.protectField id index).heap := by
  let marked := w.heap.modifyFrame id (·.modify index (ProtectWalk.markField w.flags))
  have kept : w.heap.KeepsProtected marked :=
    modifyFrame id _ (.modify _ index _ fun _ _ => Frame.KeepsLocked.markField sets)
  rw [ProtectWalk.protectField]
  split
  · split
    · exact kept.trans (protectValue { w with heap := marked } sets _)
    · exact kept
  · exact kept

end Heap.KeepsProtected

/-- Every step but a walk that clears keeps what is protected. -/
theorem Heap.Step.keepsProtected {h h' : Heap} (step : h.Step (·.set = true) h') :
    h.KeepsProtected h' := by
  cases step with
  | newBlock items => exact .of_grows (.newBlock h items)
  | newText content => exact .of_grows (.newText h content)
  | newFrame fields => exact .of_grows (.newFrame h _)
  | newFunction params body => exact .of_grows (.newFunction h params body)
  | loadBlock data => exact .of_grows (.loadBlock h data)
  | shallowCopy v => exact .of_grows (h.shallowCopy_grows v)
  | deepCopy v => exact .of_grows (h.deepCopy_grows v)
  | editBlock id change unguarded => exact .editBlock unguarded change
  | editText id change unguarded => exact .editText unguarded change
  | put id name index value _ unlocked => exact .modifyFrame id _ (.put unlocked value)
  | protectValue flags sets visited v => exact .protectValue { flags, heap := h, visited } sets v
  | protectField flags sets visited id index =>
    exact .protectField { flags, heap := h, visited } sets id index

/-- A word is assigned where its frame allows it, or added to the root. -/
theorem Environment.write_keepsProtected {env : Environment} {h : Heap} {name : String}
    {slot : Slot} (free : env.slot h name = .ok slot) (value : Value) :
    h.KeepsProtected (env.write h name value slot) := by
  rw [Environment.slot] at free
  split at free
  · next id index resolved =>
    split at free
    · cases free
    · next unlocked =>
      cases free
      exact .modifyFrame id _ (.put unlocked value)
  · split at free
    · cases free
    · cases free
      exact .modifyFrame env.root _ (.push _ name value)

theorem State.Step.keepsProtected {s t : State} (step : s.Step (·.set = true) t) :
    s.heap.KeepsProtected t.heap := by
  cases step with
  | read => exact .refl _
  | heap step => exact step.keepsProtected
  | assign name value slot free => exact Environment.write_keepsProtected free value
  | print line => exact .refl _

end BlockScript
