import BlockScript.Proofs.DeclaredNames
import BlockScript.Proofs.FrameColumns
import BlockScript.Proofs.Moments

/-!
# Fields have names of their own

A frame is made without a check that its names are different. They are, wherever one is made: the
names that are bound before a program runs, the parameters of a function, the set-words of an
object's body, and the visible names of an object that is copied. A field is added only to the root,
and only under a name that no frame on the stack shows. So whatever programs run, a frame never
shows two fields of one name.
-/

namespace BlockScript

variable {E : Environment} {h h' h'' : Heap} {id : FrameId} {v : Value} {f : Frame} {s : State}
  {fields : List (String × Value)} {name : String} {index : Nat}

/-! ## Frames -/

namespace Frame

theorem put_of_size_le (past : f.size ≤ index) (value : Value) : f.put index value = f := by
  have fields : (f.put index value).fields = f.fields := by
    apply Array.ext_getElem?
    intro i
    rw [getElem?_put]
    split
    · next here => rw [← here, Array.getElem?_eq_none past, Option.map_none]
    · rfl
  exact congrArg (Frame.mk · f.isProtected) fields

theorem made_put (made : f.columns.Made) (index : Nat) (value : Value) :
    (f.put index value).columns.Made := by
  by_cases below : index < f.size
  · exact made.put (columns_put below)
  · rwa [put_of_size_le (Nat.le_of_not_lt below)]

theorem made_push (made : f.columns.Made) (absent : f.find? name = none) (value : Value) :
    (f.push name value).columns.Made := by
  rw [columns_push]
  apply made.push
  rw [find?_columns, absent]

theorem made_ofFields (distinct : (fields.map (·.1)).Nodup) :
    (Frame.ofFields fields).columns.Made := by
  rw [columns_ofFields]
  exact .ofFields distinct

theorem made_markField (made : f.columns.Made) (index : Nat) (flags : ProtectFlags) :
    (f.modify index (ProtectWalk.markField flags)).columns.Made := by
  rw [columns_modify]
  exact made.modify index flags

theorem made_markFrame (made : f.columns.Made) (flags : ProtectFlags) :
    (ProtectWalk.markFrame flags f).columns.Made := by
  rw [columns_markFrame]
  exact made.modifyAll flags

theorem nodup_words (made : f.columns.Made) : f.words.Nodup := by
  rw [← f.implements_columns.words]
  exact made.apart.nodup_words

/-- The field that is found by a name is the only visible one with it. -/
theorem find?_eq_some_iff_of_made (made : f.columns.Made) : f.find? name = some index ↔
    ∃ field, f.fields[index]? = some field ∧ field.name = name ∧ field.hidden = false := by
  rw [← find?_columns, made.apart.find?_eq_some_iff]
  simp [getElem?_keys, Field.key]

end Frame

/-! ## Natives -/

namespace Native

/-- The number that stands for a native in a function value: its place in the table of natives, as
far as 16 bits can tell. -/
def number (n : Native) : Nat := min (all.idxOf n) (UInt16.size - 1)

theorem mem_all (n : Native) : n ∈ all := by
  cases n with
  | operator op => cases op <;> decide
  | _ => decide

theorem number_eq (n : Native) : n.number = all.idxOf n := by
  have below := List.idxOf_lt_length_of_mem n.mem_all
  have few : all.length ≤ UInt16.size - 1 := by decide
  exact min_eq_left (below.le.trans few)

theorem getElem?_number (n : Native) : all[n.number]? = some n := by
  rw [number_eq]
  exact List.getElem?_idxOf n.mem_all

theorem number_of_getElem? {n : Native} (here : all[index]? = some n) : n.number = index := by
  obtain ⟨below, rfl⟩ := List.getElem?_eq_some_iff.mp here
  have distinct : all.Nodup := by decide
  rw [number_eq, distinct.idxOf_getElem index below]

end Native

/-! ## Heaps -/

def Value.ParamsApart (v : Value) : Prop :=
  ∀ id params body, v = .function (.user id params body) → (params.map (·.name)).Nodup

/-- The number of a native leads to it, and a function that a program made has different
parameters. -/
def Function.WellMade : Function → Prop
  | native n => Native.all[n.number]? = some n
  | user _ params _ => (params.map (·.name)).Nodup

theorem Value.ParamsApart.wellMade {g : Function} (apart : (Value.function g).ParamsApart) :
    g.WellMade := by
  cases g with
  | native n => exact n.getElem?_number
  | user id params body => exact apart id params body rfl

namespace Heap

structure NamesApart (h : Heap) : Prop where
  made (id : FrameId) : (h.frame id).columns.Made
  params (v : Value) : h.Stores v → v.ParamsApart

end Heap

structure Heap.KeepsApart (h h' : Heap) : Prop where
  frames : h.frames.size ≤ h'.frames.size
  apart : h.NamesApart → h'.NamesApart

namespace Heap.KeepsApart

theorem refl (h : Heap) : h.KeepsApart h := ⟨le_rfl, id⟩

theorem trans (first : h.KeepsApart h') (second : h'.KeepsApart h'') : h.KeepsApart h'' :=
  ⟨first.frames.trans second.frames, second.apart ∘ first.apart⟩

theorem of_frames (frames : h'.frames = h.frames)
    (stored : ∀ v, h'.Stores v → h.Stores v ∨ v.ParamsApart) : h.KeepsApart h' := by
  refine ⟨Nat.le_of_eq (congrArg Array.size frames.symm), fun apart => ⟨fun id => ?_, ?_⟩⟩
  · rw [frame, frames]
    exact apart.made id
  · intro v inside
    exact (stored v inside).elim (apart.params v) id

theorem newFrame (distinct : (fields.map (·.1)).Nodup)
    (given : ∀ entry ∈ fields, entry.2.ParamsApart) :
    h.KeepsApart (h.newFrame (.ofFields fields)).2 := by
  have more : h.frames.size ≤ (h.newFrame (.ofFields fields)).2.frames.size := by
    rw [Heap.newFrame, Array.size_push]
    exact Nat.le_succ _
  refine ⟨more, fun apart => ⟨fun id => ?_, fun v stored => ?_⟩⟩
  · rw [frame_newFrame]
    by_cases new : id = h.frames.size
    · rw [if_pos new]
      exact Frame.made_ofFields distinct
    · rw [if_neg new]
      exact apart.made id
  · rcases stored.of_newFrame with before | ⟨entry, member, rfl⟩
    · exact apart.params v before
    · exact given entry member

theorem modifyFrame {change : Frame → Frame}
    (made : (h.frame id).columns.Made → (change (h.frame id)).columns.Made)
    (stored : ∀ v, (h.modifyFrame id change).Stores v → h.Stores v ∨ v.ParamsApart) :
    h.KeepsApart (h.modifyFrame id change) := by
  refine ⟨Nat.le_of_eq Array.size_modify.symm, fun apart => ⟨fun other => ?_, fun v inside => ?_⟩⟩
  · rw [frame_modifyFrame]
    split
    · next same => exact same.1 ▸ made (apart.made id)
    · exact apart.made other
  · rcases stored v inside with before | given
    · exact apart.params v before
    · exact given

theorem put (id : FrameId) (index : Nat) (given : v.ParamsApart) :
    h.KeepsApart (h.modifyFrame id (·.put index v)) := by
  apply modifyFrame fun made => Frame.made_put made index v
  intro w stored
  rcases stored.of_put with before | rfl
  · exact .inl before
  · exact .inr given

/-- A word that is bound nowhere is not shown by the root, so it may be added there. -/
theorem write {slot : Slot} (free : E.slot h name = .ok slot) (given : v.ParamsApart) :
    h.KeepsApart (E.write h name v slot) := by
  rcases Environment.slot_cases free with ⟨place, -, rfl⟩ | ⟨unresolved, rfl⟩
  · exact put place.1 place.2 given
  · have root : E.root ∈ E.scopes := List.mem_append_right _ (List.mem_singleton_self _)
    have absent := Frame.find?_eq_none_iff.mpr
      (Environment.resolve_eq_none_iff.mp unresolved E.root root)
    apply modifyFrame fun made => Frame.made_push made absent v
    intro w stored
    rcases stored.of_push with before | rfl
    · exact .inl before
    · exact .inr given

theorem marked (h : Heap) (flags : ProtectFlags) (marks : List Container) :
    h.KeepsApart (h.marked flags marks) := by
  refine ⟨Nat.le_of_eq Array.size_mapIdx.symm, fun apart => ⟨fun id => ?_, fun v stored => ?_⟩⟩
  · rcases h.frame_marked flags marks id with same | same
    · rw [same]
      exact apart.made id
    · rw [same]
      exact Frame.made_markFrame (apart.made id) flags
  · exact apart.params v stored.of_marked

theorem markField (h : Heap) (flags : ProtectFlags) (id : FrameId) (index : Nat) :
    h.KeepsApart (h.modifyFrame id (·.modify index (ProtectWalk.markField flags))) :=
  modifyFrame (fun made => Frame.made_markField made index flags)
    fun _ stored => .inl stored.of_markField

end Heap.KeepsApart

/-! ## Evaluation -/

def apartFlow : ValueFlow where
  value _ _ v := v.ParamsApart
  heap _ h := h.NamesApart
  leads _ h h' := h.KeepsApart h'
  names names := names.Nodup
  hides := True
  mono apart _ := apart
  inert inert := by
    rintro id params body rfl
    exact inert.elim
  stored apart stored := apart.params _ stored
  distinct distinct := distinct
  shown id apart := Frame.nodup_words (apart.made id)
  function_iff {E n id params body} := by
    constructor
    · intro apart
      exact apart id params body rfl
    · rintro distinct _ _ _ ⟨⟩
      exact distinct
  frames_le keeps := keeps.frames
  found apart keeps := keeps.apart apart
  refl _ h := .refl h
  trans _ first second := first.trans second
  beside _ frames stored := .of_frames frames stored
  write _ free given := .write free given
  put {E h id v} index _ _ given := .put id index given
  marked {E h flags} marks _ _ := .marked h flags marks
  markField {E h flags} id index _ _ := .markField h flags id index
  frame {E h fields} apart distinct given := by
    have made : h.KeepsApart (h.newFrame (.ofFields fields)).2 := .newFrame distinct given
    refine ⟨made, ?_, made.apart apart⟩
    rintro _ _ _ ⟨⟩
  outer _ apart := apart
  leave _ keeps := keeps
  strict {E h} apart := by
    refine ⟨(h.newFrame (.ofFields [("", .none), ("", .none)])).2, fun keeps => ?_⟩
    have twice := Frame.nodup_words ((keeps.apart apart).made h.frames.size)
    rw [Heap.frame_newFrame, if_pos rfl] at twice
    revert twice
    decide

namespace Interpreter

/-- The constants, the datatypes and the natives have different names. -/
theorem nodup_rootFields : (rootFields.map (·.1)).Nodup := by decide

theorem paramsApart_of_mem_rootFields {entry : String × Value} (bound : entry ∈ rootFields) :
    entry.2.ParamsApart := by
  rintro id params body same
  simp only [rootFields, List.mem_append, List.mem_map] at bound
  rcases bound with (constant | ⟨kind, -, rfl⟩) | ⟨native, -, rfl⟩
  · simp only [List.mem_cons, List.not_mem_nil, or_false] at constant
    rcases constant with rfl | rfl | rfl | rfl | rfl | rfl | rfl <;> cases same
  · cases same
  · cases same

theorem initial_apart (limit : Nat) (exitAsReturn : Bool) :
    (initial limit exitAsReturn).heap.NamesApart := by
  have empty : ({} : Heap).NamesApart := by
    have none : (([] : List (String × Value)).map (·.1)).Nodup := List.nodup_nil
    refine ⟨fun id => Frame.made_ofFields none, fun v stored => ?_⟩
    rcases stored with ⟨id, inside⟩ | ⟨id, field, inside, -⟩
    · exact absurd inside (Array.not_mem_empty v)
    · exact absurd inside (Array.not_mem_empty field)
  have root : ({} : Heap).KeepsApart (({} : Heap).newFrame (.ofFields rootFields)).2 :=
    .newFrame nodup_rootFields fun _ => paramsApart_of_mem_rootFields
  exact root.apart empty

/-- The states that programs reach: before and after each of them, and where a moment of its run
begins and ends. -/
inductive Reached : State → Prop where
  | between {s : State} (session : Session s) : Reached s
  | begins {source : String} {s : State} {a : Moment} (session : Session s)
      (reaches : Reaches source s a) : Reached a.state
  | ends {source : String} {s : State} {a : Moment} (session : Session s)
      (reaches : Reaches source s a) : Reached a.after

theorem Reached.apart (reached : Reached s) : s.heap.NamesApart := by
  cases reached with
  | between session => exact session.flow (F := apartFlow) trivial initial_apart
  | begins session reaches =>
    exact (reaches.flow (F := apartFlow) trivial initial_apart session).heap
  | @ends source s a session reaches =>
    have holds := reaches.flow (F := apartFlow) trivial initial_apart session
    exact (holds.leads_after (.of_holds trivial a)).2.apart holds.heap

/-! ## Names -/

/-- The natives are bound after the constants and the datatypes, in the order of their table. -/
theorem rootFields_native {n : Native} (here : Native.all[index]? = some n) :
    rootFields[7 + Kind.all.length + index]? = some (n.name, .function (.native n)) := by
  rw [rootFields, List.getElem?_append_right (by simp; omega)]
  have rest : 7 + Kind.all.length + index - (Kind.all.length + 7) = index := by omega
  simp [rest, here]

theorem wordsOf_object {args : Args} {id : FrameId} (given : args.value 0 = .object id)
    (s : State) :
    ∃ r t, SeriesAccess.wordsOf args s = .ok (.block r) t ∧
      t.heap.tail r = (s.heap.frame id).words.map (.word .word) := by
  rw [SeriesAccess.wordsOf, given]
  refine ⟨_, _, rfl, ?_⟩
  simp [Heap.tail, Heap.items]

/-- In every state that programs reach, no frame shows two fields of one name. -/
structure NamesStayApart : Prop where
  /-- The two arrays of a frame are made by the operations on them, which do what the frame does. -/
  columns (s : State) (id : FrameId) : Reached s →
    (s.heap.frame id).columns.Made ∧ (s.heap.frame id).columns.Implements (s.heap.frame id)
  /-- Arrays that the operations made, and so those of every frame, have as many values as keys. -/
  paired (c : Columns) : c.Made → c.values.size = c.keys.size
  /-- Two visible fields with one name are one field. -/
  apart (s : State) (id : FrameId) (i j : Nat) (a b : Field) : Reached s →
    (s.heap.frame id).fields[i]? = some a → (s.heap.frame id).fields[j]? = some b →
      a.hidden = false → b.hidden = false → a.name = b.name → i = j
  /-- A name is found where the only visible field with it is. -/
  find (s : State) (id : FrameId) (name : String) (index : Nat) : Reached s →
    ((s.heap.frame id).find? name = some index ↔ ∃ field,
      (s.heap.frame id).fields[index]? = some field ∧ field.name = name ∧ field.hidden = false)
  /-- It gives the value of that field. -/
  get (s : State) (id : FrameId) (name : String) (field : Field) : Reached s →
    field ∈ (s.heap.frame id).fields → field.name = name → field.hidden = false →
      (s.heap.frame id).get? name = some field.value
  /-- The words of an object are the names that it shows, each once. -/
  wordsOf (s : State) (id : FrameId) (ev : Evaluator) (args : Args) : Reached s →
    args.value 0 = .object id → ∃ (r : BlockRef) (t : State) (names : List String),
      Native.wordsOf.run ev args s = .ok (.block r) t ∧
        t.heap.tail r = names.map (.word .word) ∧ names.Nodup ∧
        ∀ name, name ∈ names ↔ (s.heap.frame id).Shows name
  /-- The natives are bound in the order of their table, under their numbers. -/
  bound (index : Nat) (n : Native) : Native.all[index]? = some n → n.number = index ∧
    rootFields[7 + Kind.all.length + index]? = some (n.name, .function (.native n))
  /-- The function values that are kept. -/
  functions (s : State) (g : Function) : Reached s → s.heap.Stores (.function g) → g.WellMade
  /-- The functions that are called. -/
  called (source : String) (s : State) (a : Moment) (name : String) (g : Function) (args : Args) :
    Session s → Reaches source s a → a.request = .invoke name g args → g.WellMade

theorem names_stay_apart : NamesStayApart where
  columns s id reached := ⟨reached.apart.made id, Frame.implements_columns _⟩
  paired c made := made.paired
  apart s id i j a b reached here there shown shown' same := by
    have keys (i : Nat) (field : Field) (here : (s.heap.frame id).fields[i]? = some field) :
        (s.heap.frame id).columns.keys[i]? = some field.key := by
      rw [Frame.getElem?_keys, here, Option.map_some]
    exact (reached.apart.made id).apart i j a.key b.key (keys i a here) (keys j b there) shown
      shown' same
  find s id name index reached := Frame.find?_eq_some_iff_of_made (reached.apart.made id)
  get s id name field reached inside named shown := by
    obtain ⟨index, here⟩ := Array.mem_iff_getElem?.mp inside
    have found := (Frame.find?_eq_some_iff_of_made (reached.apart.made id)).mpr
      ⟨field, here, named, shown⟩
    rw [Frame.get?, found, Option.bind_some, Frame.value?, here, Option.map_some]
  wordsOf s id ev args reached given := by
    obtain ⟨r, t, run, items⟩ := wordsOf_object given s
    exact ⟨r, t, _, run, items, Frame.nodup_words (reached.apart.made id), fun name =>
      Frame.shows_iff.symm⟩
  bound index n here := ⟨Native.number_of_getElem? here, rootFields_native here⟩
  functions s g reached stored := (reached.apart.params _ stored).wellMade
  called source s a name g args session reaches invokes := by
    have request := (reaches.flow (F := apartFlow) trivial initial_apart session).request
    rw [invokes] at request
    exact request.1.wellMade

end Interpreter

end BlockScript
