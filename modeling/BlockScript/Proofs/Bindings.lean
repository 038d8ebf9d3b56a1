import BlockScript.Proofs.Lockstep
import BlockScript.Proofs.Routine

/-!
# Bindings

A name is bound to a place: the first visible field with that name in the innermost frame that has
one. Hidden fields are passed over, so they uncover the bindings behind them, and a frame may stand
on the stack several times. Looking a name up reads its place, assigning it writes there, and a name
that is bound nowhere gets a new place at the end of the root. No other place changes, and a name
never moves to another place because a different one is assigned.
-/

namespace BlockScript

variable {f : Frame} {h h' : Heap} {env : Environment} {name other : String} {value : Value}
  {index : Nat} {id : FrameId}

/-! ## Frames -/

namespace Frame

def Shows (f : Frame) (name : String) : Prop :=
  ∃ field ∈ f.fields, field.name = name ∧ field.hidden = false

structure ShowsAt (f : Frame) (name : String) (index : Nat) (field : Field) : Prop where
  here : f.fields[index]? = some field
  named : field.name = name
  visible : field.hidden = false
  first (i : Nat) (earlier : Field) : i < index → f.fields[i]? = some earlier →
    earlier.name = name → earlier.hidden = true

theorem find?_eq_none_iff : f.find? name = none ↔ ¬ f.Shows name := by
  simp [find?, Shows, Array.findIdx?_eq_none_iff]

theorem find?_eq_some_iff :
    f.find? name = some index ↔ ∃ field, f.ShowsAt name index field := by
  rw [find?, Array.findIdx?_eq_some_iff_getElem]
  constructor
  · rintro ⟨below, named, first⟩
    simp only [Bool.and_eq_true, beq_iff_eq, Bool.not_eq_true'] at named
    refine ⟨f.fields[index], Array.getElem?_eq_getElem below, named.1, named.2, ?_⟩
    intro i earlier before here same
    have other := first i before
    rw [Array.getElem?_eq_getElem (before.trans below), Option.some_inj] at here
    rw [here, same] at other
    simpa using other
  · rintro ⟨field, here, named, visible, first⟩
    obtain ⟨below, same⟩ := Array.getElem?_eq_some_iff.mp here
    refine ⟨below, by simp [same, named, visible], fun i before => ?_⟩
    have hidden := first i f.fields[i] before (Array.getElem?_eq_getElem (before.trans below))
    by_cases named : f.fields[i].name = name <;> simp [named, hidden]

theorem shows_iff : f.Shows name ↔ name ∈ f.words := by
  simp only [Shows, words, visible, List.mem_map, List.mem_filterMap, Array.mem_toList_iff]
  constructor
  · rintro ⟨field, inside, rfl, visible⟩
    exact ⟨_, ⟨field, inside, by rw [visible]; rfl⟩, rfl⟩
  · rintro ⟨_, ⟨field, inside, found⟩, rfl⟩
    split at found
    · cases found
    · next shown =>
      cases found
      exact ⟨field, inside, rfl, by simpa using shown⟩

theorem map_modify {β : Type} {key : Field → β} {change : Field → Field}
    (same : ∀ field, f.fields[index]? = some field → key (change field) = key field) :
    (f.modify index change).fields.map key = f.fields.map key := map_modify_of_same same

theorem getElem?_put (f : Frame) (index i : Nat) (value : Value) :
    (f.put index value).fields[i]? =
      if index = i then f.fields[i]?.map ({ · with value }) else f.fields[i]? := by
  rw [put, modify, Array.getElem?_modify]

theorem getElem?_push (f : Frame) (name : String) (value : Value) (i : Nat) :
    (f.push name value).fields[i]? =
      if i = f.size then some { name, value } else f.fields[i]? := by
  rw [push, Array.getElem?_push, size]

/-- Values do not matter for where a name is found. -/
theorem find?_put (f : Frame) (index : Nat) (value : Value) (name : String) :
    (f.put index value).find? name = f.find? name := by
  have keys : (f.put index value).fields.map (fun field => (field.name, field.hidden)) =
      f.fields.map fun field => (field.name, field.hidden) := map_modify fun _ _ => rfl
  have found := congrArg (Array.findIdx? fun key => key.1 == name && !key.2) keys
  rwa [Array.findIdx?_map, Array.findIdx?_map] at found

theorem find?_push_of_ne (f : Frame) (value : Value) (distinct : other ≠ name) :
    (f.push name value).find? other = f.find? other := by
  simp [find?, push, Array.findIdx?_push, distinct.symm]

theorem find?_push_self (value : Value) (absent : f.find? name = none) :
    (f.push name value).find? name = some f.size := by
  rw [find?] at absent
  simp [find?, push, Array.findIdx?_push, absent, size]

end Frame

/-! ## Places -/

def Heap.fieldAt (h : Heap) (place : FrameId × Nat) : Option Field :=
  (h.frame place.1).fields[place.2]?

structure Heap.SameBesides (place : FrameId × Nat) (h h' : Heap) : Prop where
  fields (p : FrameId × Nat) : p ≠ place → h'.fieldAt p = h.fieldAt p
  isProtected (id : FrameId) : (h'.frame id).isProtected = (h.frame id).isProtected
  frameCount : h'.frames.size = h.frames.size
  blocks : h'.blocks = h.blocks
  texts : h'.texts = h.texts
  functions : h'.functions = h.functions

namespace Environment

/-- A name is bound to a place: the frame shows it there, and no frame further in shows it. -/
def Binds (env : Environment) (h : Heap) (name : String) (place : FrameId × Nat) (field : Field) :
    Prop :=
  (h.frame place.1).ShowsAt name place.2 field ∧
    ∃ inner outer, env.scopes = inner ++ place.1 :: outer ∧ ∀ id ∈ inner, ¬ (h.frame id).Shows name

inductive Assigns (env : Environment) (h : Heap) (name : String) (value : Value) (h' : Heap) :
    Prop where
  | bound {place : FrameId × Nat} {field : Field} (resolved : env.resolve h name = some place)
      (held : h.fieldAt place = some field) (now : h'.fieldAt place = some { field with value })
      (rest : h.SameBesides place h') : Assigns env h name value h'
  | unbound (unresolved : env.resolve h name = none)
      (now : h'.fieldAt (env.root, (h.frame env.root).size) = some { name, value })
      (last : (h'.frame env.root).size = (h.frame env.root).size + 1)
      (rest : h.SameBesides (env.root, (h.frame env.root).size) h') : Assigns env h name value h'

inductive Refuses (env : Environment) (h : Heap) (name : String) : WriteDenied → Prop where
  | locked {place : FrameId × Nat} {field : Field} (resolved : env.resolve h name = some place)
      (held : h.fieldAt place = some field) (locked : field.locked = true) :
      Refuses env h name (.lockedField name)
  | guarded (unresolved : env.resolve h name = none)
      (closed : (h.frame env.root).isProtected = true) : Refuses env h name .guardedFrame

/-! ## Searching -/

theorem resolve_eq_findSome? (env : Environment) (h : Heap) (name : String) :
    env.resolve h name = env.scopes.findSome? fun id => ((h.frame id).find? name).map (id, ·) := by
  rw [scopes, List.findSome?_append, List.findSome?_singleton]
  rfl

theorem lookup_eq_findSome? (env : Environment) (h : Heap) (name : String) :
    env.lookup h name = env.scopes.findSome? fun id => (h.frame id).get? name := by
  rw [scopes, List.findSome?_append, List.findSome?_singleton]
  rfl

/-- Both searches stop at the same field. -/
theorem lookup_eq (env : Environment) (h : Heap) (name : String) :
    env.lookup h name =
      (env.resolve h name).bind fun place => (h.fieldAt place).map (·.value) := by
  rw [lookup_eq_findSome?, resolve_eq_findSome?]
  induction env.scopes with
  | nil => rfl
  | cons id outer ih =>
    rw [List.findSome?_cons, List.findSome?_cons, Frame.get?]
    cases found : (h.frame id).find? name with
    | none => exact ih
    | some index =>
      obtain ⟨field, shown⟩ := Frame.find?_eq_some_iff.mp found
      simp [Frame.value?, Heap.fieldAt, shown.here]

theorem resolve_eq_none_iff :
    env.resolve h name = none ↔ ∀ id ∈ env.scopes, ¬ (h.frame id).Shows name := by
  simp [resolve_eq_findSome?, Frame.find?_eq_none_iff]

theorem resolve_eq_some_iff {place : FrameId × Nat} :
    env.resolve h name = some place ↔ ∃ field, env.Binds h name place field := by
  rw [resolve_eq_findSome?, List.findSome?_eq_some_iff]
  constructor
  · rintro ⟨inner, id, outer, split, found, before⟩
    obtain ⟨index, here, rfl⟩ := Option.map_eq_some_iff.mp found
    obtain ⟨field, shown⟩ := Frame.find?_eq_some_iff.mp here
    refine ⟨field, shown, inner, outer, split, fun i further => ?_⟩
    exact Frame.find?_eq_none_iff.mp (Option.map_eq_none_iff.mp (before i further))
  · rintro ⟨field, shown, inner, outer, split, before⟩
    refine ⟨inner, place.1, outer, split, ?_, fun i further => ?_⟩
    · rw [Frame.find?_eq_some_iff.mpr ⟨field, shown⟩]
      rfl
    · rw [Frame.find?_eq_none_iff.mpr (before i further)]
      rfl

end Environment

/-! ## Writing -/

namespace Heap

theorem fieldAt_modifyFrame (h : Heap) (id : FrameId) (change : Frame → Frame)
    (p : FrameId × Nat) :
    (h.modifyFrame id change).fieldAt p =
      if id = p.1 ∧ p.1 < h.frames.size then (change (h.frame p.1)).fields[p.2]?
      else h.fieldAt p := by
  rw [fieldAt, frame_modifyFrame]
  split <;> rfl

theorem lt_size_of_fieldAt {place : FrameId × Nat} {field : Field}
    (held : h.fieldAt place = some field) : place.1 < h.frames.size := by
  by_contra absent
  rw [fieldAt, frame, Array.getD_eq_getD_getElem?,
    Array.getElem?_eq_none (Nat.le_of_not_lt absent)] at held
  cases held

namespace SameBesides

/-- One frame changes, and of its fields one. -/
theorem modifyFrame {change : Frame → Frame}
    (fields : ∀ i, i ≠ index → (change (h.frame id)).fields[i]? = (h.frame id).fields[i]?)
    (isProtected : (change (h.frame id)).isProtected = (h.frame id).isProtected) :
    h.SameBesides (id, index) (h.modifyFrame id change) := by
  refine ⟨fun p apart => ?_, fun i => ?_, Array.size_modify, rfl, rfl, rfl⟩
  · rw [fieldAt_modifyFrame]
    split
    · next here =>
      obtain ⟨rfl, -⟩ := here
      exact fields p.2 fun same => apart (Prod.ext rfl same)
    · rfl
  · rw [frame_modifyFrame]
    split
    · next here =>
      obtain ⟨rfl, -⟩ := here
      exact isProtected
    · rfl

theorem put (h : Heap) (place : FrameId × Nat) (value : Value) :
    h.SameBesides place (h.modifyFrame place.1 (·.put place.2 value)) :=
  modifyFrame (fun i apart => by rw [Frame.getElem?_put, if_neg apart.symm]) rfl

theorem push (h : Heap) (id : FrameId) (name : String) (value : Value) :
    h.SameBesides (id, (h.frame id).size) (h.modifyFrame id (·.push name value)) :=
  modifyFrame (fun i apart => by rw [Frame.getElem?_push, if_neg apart]) rfl

end SameBesides

end Heap

namespace Environment

theorem denied?_of_fieldAt {place : FrameId × Nat} {field : Field}
    (held : h.fieldAt place = some field) :
    (h.frame place.1).denied? place.2 =
      if field.locked then some (.lockedField field.name) else none := by
  rw [Frame.denied?, show (h.frame place.1).fields[place.2]? = some field from held]

/-- The field that a name is bound to. -/
theorem exists_field_of_resolve {place : FrameId × Nat}
    (resolved : env.resolve h name = some place) :
    ∃ field, h.fieldAt place = some field ∧ field.name = name := by
  obtain ⟨field, shown, -⟩ := resolve_eq_some_iff.mp resolved
  exact ⟨field, shown.here, shown.named⟩

/-- The four ways that an assignment goes. -/
theorem assign_cases (env : Environment) (h : Heap) (name : String) (value : Value) :
    (∃ place field, env.resolve h name = some place ∧ h.fieldAt place = some field ∧
      field.name = name ∧
      (field.locked = true ∧ env.assign h name value = .error (.lockedField name) ∨
        field.locked = false ∧
          env.assign h name value = .ok (h.modifyFrame place.1 (·.put place.2 value)))) ∨
    (env.resolve h name = none ∧
      ((h.frame env.root).isProtected = true ∧ env.assign h name value = .error .guardedFrame ∨
        (h.frame env.root).isProtected = false ∧
          env.assign h name value = .ok (h.modifyFrame env.root (·.push name value)))) := by
  cases resolved : env.resolve h name with
  | none =>
    refine .inr ⟨rfl, ?_⟩
    rw [assign, slot, resolved]
    cases closed : (h.frame env.root).isProtected with
    | true => exact .inl ⟨rfl, rfl⟩
    | false => exact .inr ⟨rfl, rfl⟩
  | some place =>
    obtain ⟨field, held, named⟩ := exists_field_of_resolve resolved
    refine .inl ⟨place, field, rfl, held, named, ?_⟩
    rw [assign, slot, resolved]
    dsimp only
    rw [denied?_of_fieldAt held, named]
    cases locked : field.locked with
    | true => exact .inl ⟨rfl, rfl⟩
    | false => exact .inr ⟨rfl, rfl⟩

/-- Putting a value somewhere leaves all names where they are. -/
theorem resolve_put (env : Environment) (h : Heap) (id : FrameId) (index : Nat) (value : Value)
    (name : String) :
    env.resolve (h.modifyFrame id (·.put index value)) name = env.resolve h name := by
  have found (i : FrameId) : ((h.modifyFrame id (·.put index value)).frame i).find? name =
      (h.frame i).find? name := by
    rw [Heap.frame_modifyFrame]
    split
    · exact Frame.find?_put _ _ _ _
    · rfl
  simp only [resolve, found]

theorem resolve_push_of_ne (env : Environment) (h : Heap) (id : FrameId) (value : Value)
    (distinct : other ≠ name) :
    env.resolve (h.modifyFrame id (·.push name value)) other = env.resolve h other := by
  have found (i : FrameId) : ((h.modifyFrame id (·.push name value)).frame i).find? other =
      (h.frame i).find? other := by
    rw [Heap.frame_modifyFrame]
    split
    · exact Frame.find?_push_of_ne _ _ distinct
    · rfl
  simp only [resolve, found]

/-- The root may stand on the stack again further in; the new field is found there, which is the
same. -/
theorem resolve_push_self (value : Value) (unresolved : env.resolve h name = none)
    (present : env.root < h.frames.size) :
    env.resolve (h.modifyFrame env.root (·.push name value)) name =
      some (env.root, (h.frame env.root).size) := by
  have absent (i : FrameId) (scope : i ∈ env.scopes) : (h.frame i).find? name = none :=
    Frame.find?_eq_none_iff.mpr (resolve_eq_none_iff.mp unresolved i scope)
  have root : env.root ∈ env.scopes := List.mem_append_right _ List.mem_cons_self
  have found (i : FrameId) (scope : i ∈ env.scopes) :
      ((h.modifyFrame env.root (·.push name value)).frame i).find? name =
        if i = env.root then some (h.frame env.root).size else none := by
    rw [Heap.frame_modifyFrame]
    by_cases here : i = env.root
    · subst here
      rw [if_pos ⟨rfl, present⟩, if_pos rfl, Frame.find?_push_self value (absent _ root)]
    · rw [if_neg fun same => here same.1.symm, if_neg here, absent i scope]
  cases resolved : env.resolve (h.modifyFrame env.root (·.push name value)) name with
  | none =>
    have shown := resolve_eq_none_iff.mp resolved env.root root
    rw [← Frame.find?_eq_none_iff, found _ root, if_pos rfl] at shown
    cases shown
  | some place =>
    obtain ⟨field, shown, inner, outer, split, -⟩ := resolve_eq_some_iff.mp resolved
    have scope : place.1 ∈ env.scopes := split ▸ List.mem_append_right _ List.mem_cons_self
    have here := Frame.find?_eq_some_iff.mpr ⟨field, shown⟩
    rw [found _ scope] at here
    split at here
    · next same => exact congrArg some (Prod.ext same (Option.some_inj.mp here).symm)
    · cases here

/-- A name that stays at its place keeps its value when another place is written. -/
theorem lookup_eq_of_sameBesides {place : FrameId × Nat} (rest : h.SameBesides place h')
    (resolved : env.resolve h' name = env.resolve h name)
    (apart : env.resolve h name ≠ some place) : env.lookup h' name = env.lookup h name := by
  rw [lookup_eq, lookup_eq, resolved]
  cases found : env.resolve h name with
  | none => rfl
  | some p =>
    refine congrArg (Option.map (·.value)) (rest.fields p ?_)
    rintro rfl
    exact apart found

theorem resolve_ne {place : FrameId × Nat} (resolved : env.resolve h name = some place)
    (distinct : other ≠ name) : env.resolve h other ≠ some place := by
  intro same
  obtain ⟨field, held, named⟩ := exists_field_of_resolve resolved
  obtain ⟨field', held', named'⟩ := exists_field_of_resolve same
  cases held.symm.trans held'
  exact distinct (named'.symm.trans named)

theorem resolve_ne_end (env : Environment) (h : Heap) (name : String) (id : FrameId) :
    env.resolve h name ≠ some (id, (h.frame id).size) := by
  intro resolved
  obtain ⟨field, held, -⟩ := exists_field_of_resolve resolved
  exact absurd (Array.getElem?_eq_some_iff.mp held).1 (Nat.lt_irrefl _)

/-- An assignment that succeeds is seen by the name and by no other. -/
theorem lookup_of_assign (present : env.root < h.frames.size)
    (assigned : env.assign h name value = .ok h') :
    env.lookup h' name = some value ∧
      (∀ other, other ≠ name → env.lookup h' other = env.lookup h other) ∧
      env.Assigns h name value h' := by
  rcases env.assign_cases h name value with
    ⟨place, field, resolved, held, -, ⟨-, done⟩ | ⟨-, done⟩⟩ |
      ⟨unresolved, ⟨-, done⟩ | ⟨-, done⟩⟩
  · cases done.symm.trans assigned
  · cases done.symm.trans assigned
    have rest := Heap.SameBesides.put h place value
    have now : (h.modifyFrame place.1 (·.put place.2 value)).fieldAt place =
        some { field with value } := by
      rw [Heap.fieldAt_modifyFrame, if_pos ⟨rfl, Heap.lt_size_of_fieldAt held⟩,
        Frame.getElem?_put, if_pos rfl, show (h.frame place.1).fields[place.2]? = _ from held]
      rfl
    refine ⟨?_, fun other distinct => ?_, .bound resolved held now rest⟩
    · rw [lookup_eq, resolve_put, resolved, Option.bind_some, now]
      rfl
    · exact lookup_eq_of_sameBesides rest (resolve_put _ _ _ _ _ _) (resolve_ne resolved distinct)
  · cases done.symm.trans assigned
  · cases done.symm.trans assigned
    have rest := Heap.SameBesides.push h env.root name value
    have now : (h.modifyFrame env.root (·.push name value)).fieldAt
        (env.root, (h.frame env.root).size) = some { name, value } := by
      rw [Heap.fieldAt_modifyFrame, if_pos ⟨rfl, present⟩, Frame.getElem?_push, if_pos rfl]
    have last : ((h.modifyFrame env.root (·.push name value)).frame env.root).size =
        (h.frame env.root).size + 1 := by
      rw [Heap.frame_modifyFrame, if_pos ⟨rfl, present⟩]
      exact Array.size_push ..
    refine ⟨?_, fun other distinct => ?_, .unbound unresolved now last rest⟩
    · rw [lookup_eq, resolve_push_self value unresolved present, Option.bind_some, now]
      rfl
    · exact lookup_eq_of_sameBesides rest (resolve_push_of_ne _ _ _ _ distinct)
        (resolve_ne_end _ _ _ _)

theorem assign_eq_error_iff {denied : WriteDenied} :
    env.assign h name value = .error denied ↔ env.Refuses h name denied := by
  constructor
  · intro refused
    rcases env.assign_cases h name value with
      ⟨place, field, resolved, held, -, ⟨locked, done⟩ | ⟨-, done⟩⟩ |
        ⟨unresolved, ⟨closed, done⟩ | ⟨-, done⟩⟩
    · cases done.symm.trans refused
      exact .locked resolved held locked
    · cases done.symm.trans refused
    · cases done.symm.trans refused
      exact .guarded unresolved closed
    · cases done.symm.trans refused
  · rintro (⟨resolved, held, locked⟩ | ⟨unresolved, closed⟩)
    · obtain ⟨field, held', named⟩ := exists_field_of_resolve resolved
      cases held.symm.trans held'
      rw [assign, slot, resolved]
      dsimp only
      rw [denied?_of_fieldAt held, if_pos locked, named]
      rfl
    · rw [assign, slot, unresolved]
      dsimp only
      rw [if_pos closed]
      rfl

/-- The frame that a name is bound in assigns its field itself; the root defines a new one. -/
theorem assign_eq_frame (env : Environment) (h : Heap) (name : String) (value : Value) :
    env.assign h name value =
      match env.resolve h name with
      | some place =>
        ((h.frame place.1).assign place.2 value).map fun f => h.modifyFrame place.1 fun _ => f
      | none =>
        ((h.frame env.root).define name value).map fun (_, f) =>
          h.modifyFrame env.root fun _ => f := by
  have replace (id : FrameId) (change : Frame → Frame) :
      h.modifyFrame id change = h.modifyFrame id fun _ => change (h.frame id) := by
    unfold Heap.modifyFrame
    congr 1
    refine Array.ext_getElem? fun i => ?_
    rw [Array.getElem?_modify, Array.getElem?_modify]
    by_cases here : id = i
    · subst here
      rw [if_pos rfl, if_pos rfl]
      cases found : h.frames[id]? with
      | none => rfl
      | some f => rw [Option.map_some, Option.map_some, Heap.frame_of_getElem? found]
    · rw [if_neg here, if_neg here]
  rw [assign, slot]
  cases resolved : env.resolve h name with
  | some place =>
    dsimp only
    rw [Frame.assign]
    cases (h.frame place.1).denied? place.2 with
    | some denied => rfl
    | none => exact congrArg Except.ok (replace _ _)
  | none =>
    have root : env.root ∈ env.scopes := List.mem_append_right _ List.mem_cons_self
    have absent := Frame.find?_eq_none_iff.mpr (resolve_eq_none_iff.mp resolved env.root root)
    dsimp only
    rw [Frame.define, absent]
    dsimp only
    split
    · rfl
    · exact congrArg Except.ok (replace _ _)

end Environment

/-! ## Bindings as a whole -/

/-- What looking a name up and assigning it mean, however the frames on the stack repeat and hide
their fields. -/
structure StoreLaws (s : State) (name : String) (value : Value) : Prop where
  bound (place : FrameId × Nat) :
    s.env.resolve s.heap name = some place ↔ ∃ field, s.env.Binds s.heap name place field
  unbound :
    s.env.resolve s.heap name = none ↔ ∀ id ∈ s.env.scopes, ¬ (s.heap.frame id).Shows name
  /-- Looking up searches for itself, and ends at the same field. -/
  lookup :
    s.env.lookup s.heap name =
      (s.env.resolve s.heap name).bind fun place => (s.heap.fieldAt place).map (·.value)
  /-- The name has the value afterwards, all others have what they had, and one place was
  written. -/
  assigned (h : Heap) : s.env.assign s.heap name value = .ok h →
    s.env.lookup h name = some value ∧
      (∀ other, other ≠ name → s.env.lookup h other = s.env.lookup s.heap other) ∧
      s.env.Assigns s.heap name value h
  refused (denied : WriteDenied) :
    s.env.assign s.heap name value = .error denied ↔ s.env.Refuses s.heap name denied
  /-- The frame assigns its own field, or the root defines one. -/
  frames :
    s.env.assign s.heap name value =
      match s.env.resolve s.heap name with
      | some place =>
        ((s.heap.frame place.1).assign place.2 value).map fun f =>
          s.heap.modifyFrame place.1 fun _ => f
      | none =>
        ((s.heap.frame s.env.root).define name value).map fun (_, f) =>
          s.heap.modifyFrame s.env.root fun _ => f
  /-- A set-word changes what the assignment changes, and nothing when it is refused. -/
  word :
    assignWord name value s =
      match s.env.assign s.heap name value with
      | .ok heap => .ok () { s with heap }
      | .error denied => .error (.raised { cause := denied.cause }) s

/-- The root is one of the frames in the heap, as the root of an interpreter is from its start. -/
theorem environment_obeys_laws {s : State} (present : s.env.root < s.heap.frames.size)
    (name : String) (value : Value) : StoreLaws s name value where
  bound _ := Environment.resolve_eq_some_iff
  unbound := Environment.resolve_eq_none_iff
  lookup := Environment.lookup_eq s.env s.heap name
  assigned _ := Environment.lookup_of_assign present
  refused _ := Environment.assign_eq_error_iff
  frames := Environment.assign_eq_frame s.env s.heap name value
  word := by
    rw [assignWord_apply, Environment.assign]
    cases s.env.slot s.heap name <;> rfl

/-- A state with one frame twice on the stack. It hides its first `x`, which uncovers the second,
and the root has another. -/
def uncovered : State where
  heap :=
    { frames := #[.ofFields [("x", .integer 1)],
        { fields := #[{ name := "x", value := .integer 2, hidden := true },
            { name := "x", value := .integer 3 }] }] }
  env := { root := 0, inner := [1, 1] }

theorem environment_obeys_laws_uncovered :
    uncovered.env.root < uncovered.heap.frames.size ∧
      uncovered.env.Binds uncovered.heap "x" (1, 1) { name := "x", value := .integer 3 } ∧
      ∃ h, uncovered.env.assign uncovered.heap "x" (.integer 4) = .ok h ∧
        uncovered.env.lookup h "x" = some (.integer 4) := by
  have present : uncovered.env.root < uncovered.heap.frames.size := by decide
  have laws := environment_obeys_laws present "x" (.integer 4)
  obtain ⟨field, bound⟩ := (laws.bound (1, 1)).mp (by with_unfolding_all rfl)
  have held : uncovered.heap.fieldAt (1, 1) = some { name := "x", value := .integer 3 } := rfl
  cases bound.1.here.symm.trans held
  have done : uncovered.env.assign uncovered.heap "x" (.integer 4) =
      .ok (uncovered.heap.modifyFrame 1 (·.put 1 (.integer 4))) := by with_unfolding_all rfl
  exact ⟨present, bound, _, done, (laws.assigned _ done).1⟩

end BlockScript
