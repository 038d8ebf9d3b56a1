import BlockScript.Proofs.Bindings
import BlockScript.Proofs.Copying
import BlockScript.Proofs.Marking

/-!
# What a heap stores

A heap stores the items of its blocks and the values of its fields. What a step stores is what was
stored before or what the step is given; marking containers and copying one of them store nothing
new.
-/

namespace BlockScript

variable {E : Environment} {h : Heap} {v w : Value} {f : Frame} {flags : ProtectFlags}
  {frame id : FrameId} {name : String} {index : Nat}

/-- The fields hold what they held or the value that was put. -/
theorem Frame.value_of_mem_put {value : Value} {field : Field}
    (inside : field ∈ (f.put index value).fields) :
    (∃ before ∈ f.fields, before.value = field.value) ∨ field.value = value := by
  obtain ⟨i, here⟩ := Array.mem_iff_getElem?.mp inside
  rw [getElem?_put] at here
  split at here
  · obtain ⟨before, -, rfl⟩ := Option.map_eq_some_iff.mp here
    exact .inr rfl
  · exact .inl ⟨field, Array.mem_of_getElem? here, rfl⟩

theorem Frame.value_of_mem_modify (change : Field → Field)
    (same : ∀ a, (change a).value = a.value) {field : Field}
    (inside : field ∈ (f.modify index change).fields) :
    ∃ before ∈ f.fields, before.value = field.value := by
  obtain ⟨i, here⟩ := Array.mem_iff_getElem?.mp inside
  rw [Frame.modify, Array.getElem?_modify] at here
  split at here
  · obtain ⟨before, there, rfl⟩ := Option.map_eq_some_iff.mp here
    exact ⟨before, Array.mem_of_getElem? there, (same before).symm⟩
  · exact ⟨field, Array.mem_of_getElem? here, rfl⟩

/-- An assignment that is not refused goes to the field that the name is bound to, or adds one to
the root. -/
theorem Environment.slot_cases {slot : Slot} (free : E.slot h name = .ok slot) :
    (∃ place, E.resolve h name = some place ∧ slot = .field place.1 place.2) ∨
      E.resolve h name = none ∧ slot = .newInRoot := by
  unfold Environment.slot at free
  split at free
  · next id index resolved =>
    split at free
    · cases free
    · cases free
      exact .inl ⟨_, resolved, rfl⟩
  · next unresolved =>
    split at free
    · cases free
    · cases free
      exact .inr ⟨unresolved, rfl⟩

namespace Heap

inductive Stores (h : Heap) (v : Value) : Prop where
  | item (id : Nat) (inside : v ∈ h.items id)
  | field (id : FrameId) (field : Field) (inside : field ∈ (h.frame id).fields)
      (same : field.value = v)

variable {marks : List Container}

theorem frame_marked (h : Heap) (flags : ProtectFlags) (marks : List Container) (id : FrameId) :
    (h.marked flags marks).frame id = h.frame id ∨
      (h.marked flags marks).frame id = ProtectWalk.markFrame flags (h.frame id) := by
  rw [Heap.frame, Heap.frame, marked, Array.getD_eq_getD_getElem?, Array.getD_eq_getD_getElem?,
    getElem?_markEach]
  cases h.frames[id]? with
  | none => exact .inl rfl
  | some f =>
    simp only [Option.map_some, Option.getD_some]
    split
    · exact .inr rfl
    · exact .inl rfl

theorem exists_marked_protectValue (h : Heap) (flags : ProtectFlags) (visited : List Container)
    (v : Value) : ∃ marks,
      (ProtectWalk.protectValue { flags, heap := h, visited } v).heap = h.marked flags marks := by
  have start : ({ flags, heap := h, visited } : ProtectWalk) = h.walkAt flags ⟨[], visited⟩ := by
    rw [walkAt, marked_nil]
  rw [start, ProtectWalk.protectValue, walk_eq_tour]
  exact ⟨_, rfl⟩

/-- A walk from a field marks the field, and then containers. -/
theorem exists_marked_protectField (h : Heap) (flags : ProtectFlags) (visited : List Container)
    (id : FrameId) (index : Nat) : ∃ marks,
      (ProtectWalk.protectField { flags, heap := h, visited } id index).heap =
        (h.modifyFrame id (·.modify index (ProtectWalk.markField flags))).marked flags marks := by
  rw [ProtectWalk.protectField]
  split
  · split
    · exact exists_marked_protectValue _ flags visited _
    · exact ⟨[], (marked_nil _ _).symm⟩
  · exact ⟨[], (marked_nil _ _).symm⟩

namespace Stores

theorem of_tail {r : BlockRef} (inside : v ∈ h.tail r) : h.Stores v :=
  .item r.id (Array.mem_toList_iff.mp (List.mem_of_mem_drop inside))

theorem of_item? {r : BlockRef} (found : h.item? r index = some v) : h.Stores v :=
  .item r.id (Array.mem_of_getElem? found)

theorem of_get? (found : (h.frame id).get? name = some v) : h.Stores v := by
  rw [Frame.get?, Option.bind_eq_some_iff] at found
  obtain ⟨i, -, here⟩ := found
  rw [Frame.value?, Option.map_eq_some_iff] at here
  obtain ⟨field, here, same⟩ := here
  exact .field id field (Array.mem_of_getElem? here) same

theorem of_visible {entry : String × Value} (shown : entry ∈ (h.frame id).visible) :
    h.Stores entry.2 := by
  simp only [Frame.visible, List.mem_filterMap, Array.mem_toList_iff] at shown
  obtain ⟨field, inside, same⟩ := shown
  split at same
  · cases same
  · cases same
    exact .field id field inside rfl

theorem of_lookup (found : E.lookup h name = some v) : h.Stores v := by
  rw [Environment.lookup_eq_findSome?] at found
  obtain ⟨_, id, _, _, here, -⟩ := List.findSome?_eq_some_iff.mp found
  exact of_get? here

/-! ### After a step -/

theorem of_same {h' : Heap} (frames : h'.frames = h.frames) (blocks : h'.blocks = h.blocks)
    (stored : h'.Stores v) : h.Stores v := by
  cases stored with
  | item id inside => exact .item id (by rwa [items, blocks] at inside)
  | field id field inside same => exact .field id field (by rwa [Heap.frame, frames] at inside) same

theorem of_newBlock {items : Array Value} (stored : (h.newBlock items).2.Stores v) :
    h.Stores v ∨ v ∈ items := by
  cases stored with
  | item id inside =>
    rw [Heap.items, newBlock, Array.getElem?_push] at inside
    split at inside
    · exact .inr inside
    · exact .inl (.item id inside)
  | field id field inside same => exact .inl (.field id field inside same)

theorem of_editBlock {id : Nat} {change : Array Value → Array Value}
    (stored : (h.editBlock id change).Stores v) : h.Stores v ∨ v ∈ change (h.items id) := by
  cases stored with
  | item i inside =>
    rw [items, editBlock, Array.getElem?_modify] at inside
    split at inside
    · next here =>
      subst here
      cases found : h.blocks[id]? with
      | none =>
        rw [found] at inside
        exact absurd inside (Array.not_mem_empty v)
      | some series =>
        rw [found] at inside
        rw [items, found]
        exact .inr inside
    · exact .inl (.item i inside)
  | field i field inside same => exact .inl (.field i field inside same)

theorem of_newFrame {fields : List (String × Value)}
    (stored : (h.newFrame (.ofFields fields)).2.Stores v) :
    h.Stores v ∨ ∃ entry ∈ fields, entry.2 = v := by
  cases stored with
  | item id inside => exact .inl (.item id inside)
  | field id field inside named =>
    rw [frame_newFrame] at inside
    split at inside
    · rw [Frame.ofFields, List.mem_toArray, List.mem_map] at inside
      obtain ⟨entry, member, rfl⟩ := inside
      exact .inr ⟨entry, member, named⟩
    · exact .inl (.field id field inside named)

theorem of_modifyFrame {change : Frame → Frame} (stored : (h.modifyFrame frame change).Stores v) :
    h.Stores v ∨ ∃ field ∈ (change (h.frame frame)).fields, field.value = v := by
  cases stored with
  | item id inside => exact .inl (.item id inside)
  | field id field inside same =>
    rw [frame_modifyFrame] at inside
    split at inside
    · next here =>
      obtain ⟨rfl, -⟩ := here
      exact .inr ⟨field, inside, same⟩
    · exact .inl (.field id field inside same)

theorem of_put (stored : (h.modifyFrame frame (·.put index w)).Stores v) :
    h.Stores v ∨ v = w := by
  rcases of_modifyFrame stored with before | ⟨field, inside, rfl⟩
  · exact .inl before
  · rcases Frame.value_of_mem_put inside with ⟨before, inside, same⟩ | same
    · exact .inl (.field _ before inside same)
    · exact .inr same

theorem of_push (stored : (h.modifyFrame frame (·.push name w)).Stores v) :
    h.Stores v ∨ v = w := by
  rcases of_modifyFrame stored with before | ⟨field, inside, rfl⟩
  · exact .inl before
  · rcases Array.mem_push.mp inside with before | rfl
    · exact .inl (.field _ field before rfl)
    · exact .inr rfl

theorem of_marked (stored : (h.marked flags marks).Stores v) : h.Stores v := by
  cases stored with
  | item id inside => exact .item id (items_marked id ▸ inside)
  | field id field inside same =>
    rcases h.frame_marked flags marks id with frame | frame
    · exact .field id field (frame ▸ inside) same
    · rw [frame, ProtectWalk.markFrame, Array.mem_map] at inside
      obtain ⟨field', inside, rfl⟩ := inside
      exact .field id field' inside same

theorem of_markField
    (stored : (h.modifyFrame frame (·.modify index (ProtectWalk.markField flags))).Stores v) :
    h.Stores v := by
  rcases of_modifyFrame stored with before | ⟨field, inside, rfl⟩
  · exact before
  · obtain ⟨before, inside, same⟩ :=
      Frame.value_of_mem_modify (ProtectWalk.markField flags) (fun _ => rfl) inside
    exact .field _ before inside same

end Stores

end Heap

end BlockScript
