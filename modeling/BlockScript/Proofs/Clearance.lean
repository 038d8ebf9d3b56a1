import BlockScript.Proofs.Moments

/-!
# Heaps that are clear of the stack

No value that is kept in a heap refers to a frame on the scope stack: a frame becomes the value of
an object only when it has left the stack. So a frame on the stack is changed only by assignments to
words, and these go to the innermost frame that shows the word. A frame that shows a name shields
the fields of that name in all frames behind it.
-/

namespace BlockScript

variable {hides : Prop} {E E' : Environment} {n m : Nat} {h h' h'' : Heap} {v : Value} {f g : Frame}
  {name other : String} {flags : ProtectFlags} {frame id : FrameId}

/-! ## Words and values of frames -/

namespace Frame

def valuesOf (f : Frame) (name : String) : List Value :=
  (f.fields.toList.filter (·.name == name)).map (·.value)

theorem words_congr
    (same : g.fields.map (fun field => (field.name, field.hidden)) =
      f.fields.map fun field => (field.name, field.hidden)) : g.words = f.words := by
  have words (f : Frame) : f.words =
      (f.fields.map fun field => (field.name, field.hidden)).toList.filterMap
        fun key => if key.2 then none else some key.1 := by
    rw [Frame.words, visible, List.map_filterMap, Array.toList_map, List.filterMap_map]
    refine List.filterMap_congr fun field _ => ?_
    cases field with
    | mk name value locked hidden => cases hidden <;> rfl
  rw [words, words, same]

def keyOf (name : String) (field : Field) : Option Value :=
  if field.name == name then some field.value else none

theorem valuesOf_congr (same : g.fields.map (keyOf name) = f.fields.map (keyOf name)) :
    g.valuesOf name = f.valuesOf name := by
  have values (f : Frame) : f.valuesOf name = (f.fields.map (keyOf name)).toList.filterMap id := by
    rw [valuesOf, Array.toList_map, List.filterMap_map, ← List.filterMap_eq_map,
      ← List.filterMap_eq_filter, List.filterMap_filterMap]
    refine List.filterMap_congr fun field _ => ?_
    simp only [Option.guard, keyOf, Function.comp_def, id]
    split <;> rfl
  rw [values, values, same]

theorem words_put (f : Frame) (index : Nat) (value : Value) : (f.put index value).words = f.words :=
  words_congr (map_modify fun _ _ => rfl)

theorem valuesOf_put {index : Nat} {field : Field} (here : f.fields[index]? = some field)
    (distinct : field.name ≠ name) (value : Value) :
    (f.put index value).valuesOf name = f.valuesOf name := by
  refine valuesOf_congr (map_modify fun field' here' => ?_)
  cases here.symm.trans here'
  simp only [keyOf, beq_iff_eq, if_neg distinct]

theorem valuesOf_push (distinct : other ≠ name) (value : Value) :
    (f.push other value).valuesOf name = f.valuesOf name := by
  simp [valuesOf, push, distinct]

theorem words_markFrame (shown : flags.hide = false) (f : Frame) :
    (ProtectWalk.markFrame flags f).words = f.words := by
  refine words_congr ?_
  rw [ProtectWalk.markFrame, Array.map_map]
  refine Array.map_congr_left fun field _ => ?_
  simp [ProtectWalk.markField, shown]

theorem valuesOf_markFrame (f : Frame) :
    (ProtectWalk.markFrame flags f).valuesOf name = f.valuesOf name := by
  refine valuesOf_congr ?_
  rw [ProtectWalk.markFrame, Array.map_map]
  rfl

end Frame

/-! ## Values that are clear -/

/-- If the value is an object, its frame has been made and is not on the stack. -/
def Value.Clear (E : Environment) (n : Nat) (v : Value) : Prop :=
  ∀ id, v = .object id → id < n ∧ id ∉ E.scopes

namespace Value.Clear

theorem mono (clear : v.Clear E n) (le : n ≤ m) : v.Clear E m := by
  intro id same
  obtain ⟨made, off⟩ := clear id same
  exact ⟨Nat.lt_of_lt_of_le made le, off⟩

theorem of_leaf (leaf : v.container? = Option.none) : v.Clear E n := by
  rintro id rfl
  cases leaf

theorem pushed (clear : v.Clear E n) (fresh : n ≤ frame) : v.Clear (E.push frame) n := by
  intro id same
  obtain ⟨made, off⟩ := clear id same
  refine ⟨made, fun on => ?_⟩
  rcases List.mem_cons.mp on with rfl | on
  · exact Nat.not_lt_of_le fresh made
  · exact off on

/-- What is clear of a stack is clear of the outer scopes on it. -/
theorem outer (clear : v.Clear E' n) (within : E.scopes <:+ E'.scopes) : v.Clear E n := by
  intro id same
  obtain ⟨made, off⟩ := clear id same
  exact ⟨made, fun on => off (within.subset on)⟩

end Value.Clear

namespace Heap

structure Clear (E : Environment) (h : Heap) : Prop where
  distinct : E.scopes.Nodup
  made (id : FrameId) : id ∈ E.scopes → id < h.frames.size
  values (v : Value) : h.Stores v → v.Clear E h.frames.size

/-- Behind a frame that shows a name, no field of that name has changed or was added. -/
structure Shields (E : Environment) (h h' : Heap) : Prop where
  words (id : FrameId) : id < h.frames.size → id ≠ E.root → (h'.frame id).words = (h.frame id).words
  values (inner outer : List FrameId) (g : FrameId) (name : String) :
    E.scopes = inner ++ g :: outer → (h.frame g).Shows name →
      ∀ id ∈ outer, (h'.frame id).valuesOf name = (h.frame id).valuesOf name

/-- What evaluation makes of a heap: values are stored only if they are clear of the stack, and as
long as nothing is hidden, frames shield those behind them. -/
structure Leads (hides : Prop) (E : Environment) (h h' : Heap) : Prop where
  frames : h.frames.size ≤ h'.frames.size
  values (v : Value) : h'.Stores v → h.Stores v ∨ v.Clear E h'.frames.size
  shields : ¬ hides → h.Shields E h'

end Heap

/-! ## Shields -/

theorem Environment.getLast?_scopes (E : Environment) : E.scopes.getLast? = some E.root := by
  rw [scopes, List.getLast?_concat]

theorem Environment.root_of_suffix (within : E.scopes <:+ E'.scopes) : E'.root = E.root := by
  obtain ⟨further, same⟩ := within
  have last := congrArg List.getLast? same
  rw [List.getLast?_append, getLast?_scopes, getLast?_scopes, Option.some_or] at last
  exact (Option.some_inj.mp last).symm

theorem Environment.ne_root (distinct : E.scopes.Nodup) {inner outer : List FrameId} {g : FrameId}
    (split : E.scopes = inner ++ g :: outer) (behind : id ∈ outer) : g ≠ E.root := by
  intro same
  have root : E.root ∈ outer := by
    have last := congrArg List.getLast? split
    rw [getLast?_scopes, List.getLast?_append_cons, List.getLast?_cons] at last
    cases found : outer.getLast? with
    | none => simp [List.getLast?_eq_none_iff.mp found] at behind
    | some id =>
      rw [found] at last
      exact Option.some_inj.mp last ▸ List.mem_of_getLast? found
  rw [split] at distinct
  exact (List.nodup_cons.mp (List.nodup_append.mp distinct).2.1).1 (same ▸ root)

namespace Heap.Shields

theorem refl (E : Environment) (h : Heap) : h.Shields E h :=
  ⟨fun _ _ _ => rfl, fun _ _ _ _ _ _ _ _ => rfl⟩

theorem trans (clear : h.Clear E) (grown : h.frames.size ≤ h'.frames.size)
    (first : h.Shields E h') (second : h'.Shields E h'') : h.Shields E h'' := by
  refine ⟨fun id made inner => ?_, fun inner outer g name split shows id behind => ?_⟩
  · rw [second.words id (Nat.lt_of_lt_of_le made grown) inner, first.words id made inner]
  · have on : g ∈ E.scopes := split ▸ List.mem_append_right _ List.mem_cons_self
    have shows' : (h'.frame g).Shows name := by
      rw [Frame.shows_iff] at shows ⊢
      rwa [first.words g (clear.made g on) (Environment.ne_root clear.distinct split behind)]
    rw [second.values inner outer g name split shows' id behind,
      first.values inner outer g name split shows id behind]

theorem outer (shields : h.Shields E' h') (within : E.scopes <:+ E'.scopes) :
    h.Shields E h' := by
  refine ⟨fun id made inner => ?_, fun inner outer g name split => ?_⟩
  · exact shields.words id made (Environment.root_of_suffix within ▸ inner)
  · obtain ⟨further, same⟩ := within
    refine shields.values (further ++ inner) outer g name ?_
    rw [← same, split, List.append_assoc]

theorem of_same (clear : h.Clear E) (same : ∀ id < h.frames.size, h'.frame id = h.frame id) :
    h.Shields E h' := by
  refine ⟨fun id made _ => by rw [same id made], fun inner outer g name split _ id behind => ?_⟩
  have on : id ∈ E.scopes := split ▸ List.mem_append_right _ (List.mem_cons_of_mem g behind)
  rw [same id (clear.made id on)]

/-- A field of an object is assigned, whose frame is not on the stack. -/
theorem put (off : frame ∉ E.scopes) (index : Nat) (value : Value) :
    h.Shields E (h.modifyFrame frame (·.put index value)) := by
  refine ⟨fun id _ _ => ?_, fun inner outer g name split _ id behind => ?_⟩
  · rw [frame_modifyFrame]
    split
    · exact Frame.words_put _ _ _
    · rfl
  · have on : id ∈ E.scopes := split ▸ List.mem_append_right _ (List.mem_cons_of_mem g behind)
    rw [frame_modifyFrame, if_neg]
    rintro ⟨rfl, -⟩
    exact off on

end Heap.Shields

theorem Environment.before_of_mem_behind {E : Environment} (distinct : E.scopes.Nodup)
    {inner outer inner' outer' : List FrameId} {g : FrameId}
    (split : E.scopes = inner ++ id :: outer) (split' : E.scopes = inner' ++ g :: outer')
    (behind : id ∈ outer') : g ∈ inner := by
  rw [split'] at distinct
  rw [split'] at split
  have other : g ≠ id := by
    rintro rfl
    exact (List.nodup_cons.mp (List.nodup_append.mp distinct).2.1).1 behind
  rcases List.append_eq_append_iff.mp split with ⟨middle, rfl, later⟩ | ⟨middle, rfl, earlier⟩
  · rcases middle with _ | ⟨first, middle⟩
    · exact absurd (List.cons.inj later).1 other
    · rw [(List.cons.inj later).1]
      exact List.mem_append_right _ List.mem_cons_self
  · rcases middle with _ | ⟨first, middle⟩
    · exact absurd (List.cons.inj earlier).1.symm other
    · have here : id ∈ inner ++ first :: middle := by
        rw [(List.cons.inj earlier).1]
        exact List.mem_append_right _ List.mem_cons_self
      exact absurd rfl
        ((List.nodup_append.mp distinct).2.2 id here id (List.mem_cons_of_mem g behind))

namespace Heap.Shields

/-- A word is assigned in the innermost frame that shows it, and no frame behind it. -/
theorem write (clear : h.Clear E) {slot : Slot} (free : E.slot h name = .ok slot) (value : Value) :
    h.Shields E (E.write h name value slot) := by
  rcases Environment.slot_cases free with ⟨place, resolved, rfl⟩ | ⟨unresolved, rfl⟩
  · obtain ⟨field, shown, before, behind, here, nowhere⟩ :=
      Environment.resolve_eq_some_iff.mp resolved
    refine ⟨fun id _ _ => ?_, fun inner outer g other split shows id inside => ?_⟩
    · rw [Environment.write, frame_modifyFrame]
      split
      · exact Frame.words_put _ _ _
      · rfl
    · rw [Environment.write, frame_modifyFrame]
      split
      · next same =>
        obtain ⟨rfl, -⟩ := same
        refine Frame.valuesOf_put shown.here (fun named => ?_) value
        have first := Environment.before_of_mem_behind clear.distinct here split inside
        exact nowhere g first (shown.named ▸ named ▸ shows)
      · rfl
  · refine ⟨fun id _ inner => ?_, fun inner outer g other split shows id inside => ?_⟩
    · rw [Environment.write, frame_modifyFrame, if_neg fun same => inner same.1.symm]
    · rw [Environment.write, frame_modifyFrame]
      split
      · refine Frame.valuesOf_push (fun named => ?_) value
        have on : g ∈ E.scopes := split ▸ List.mem_append_right _ List.mem_cons_self
        exact Environment.resolve_eq_none_iff.mp unresolved g on (named ▸ shows)
      · rfl

end Heap.Shields

/-! ## Marks -/

namespace Heap

variable {marks : List Container}

theorem Shields.marked (shown : flags.hide = false) :
    h.Shields E (h.marked flags marks) := by
  refine ⟨fun id _ _ => ?_, fun inner outer g name split _ id behind => ?_⟩
  · rcases h.frame_marked flags marks id with frame | frame
    · rw [frame]
    · rw [frame, Frame.words_markFrame shown]
  · rcases h.frame_marked flags marks id with frame | frame
    · rw [frame]
    · rw [frame, Frame.valuesOf_markFrame]

end Heap

/-! ## What evaluation makes of a heap -/

/-- When a new frame goes on the stack, no value leads to it yet. -/
theorem Heap.Clear.push_newFrame (clear : h.Clear E) {fields : List (String × Value)}
    (given : ∀ entry ∈ fields, entry.2.Clear E h.frames.size) :
    (h.newFrame (.ofFields fields)).2.Clear (E.push h.frames.size) := by
  have size : (h.newFrame (.ofFields fields)).2.frames.size = h.frames.size + 1 :=
    Array.size_push _
  refine ⟨List.nodup_cons.mpr ⟨fun on => ?_, clear.distinct⟩, fun id on => ?_, fun v stored => ?_⟩
  · exact Nat.lt_irrefl _ (clear.made _ on)
  · rw [size]
    rcases List.mem_cons.mp on with rfl | on
    · exact Nat.lt_succ_self _
    · exact Nat.lt_succ_of_lt (clear.made id on)
  · have before : v.Clear E h.frames.size := by
      rcases stored.of_newFrame with before | ⟨entry, member, rfl⟩
      · exact clear.values v before
      · exact given entry member
    exact (before.pushed (Nat.le_refl _)).mono (size ▸ Nat.le_succ _)

theorem Heap.Clear.leads (clear : h.Clear E) (leads : h.Leads hides E h') : h'.Clear E := by
  refine ⟨clear.distinct, fun id on => ?_, fun v stored => ?_⟩
  · exact Nat.lt_of_lt_of_le (clear.made id on) leads.frames
  · rcases leads.values v stored with before | clearly
    · exact (clear.values v before).mono leads.frames
    · exact clearly

namespace Heap.Leads

theorem refl (E : Environment) (h : Heap) : h.Leads hides E h :=
  ⟨Nat.le_refl _, fun _ => .inl, fun _ => .refl E h⟩

theorem trans (clear : h.Clear E) (first : h.Leads hides E h') (second : h'.Leads hides E h'') :
    h.Leads hides E h'' := by
  refine ⟨first.frames.trans second.frames, fun v stored => ?_, fun shown => ?_⟩
  · rcases second.values v stored with between | clearly
    · exact (first.values v between).imp_right fun clearly => clearly.mono second.frames
    · exact .inr clearly
  · exact (first.shields shown).trans clear first.frames (second.shields shown)

theorem outer (leads : h.Leads hides E' h') (within : E.scopes <:+ E'.scopes) :
    h.Leads hides E h' :=
  ⟨leads.frames, fun v stored => (leads.values v stored).imp_right (·.outer within),
    fun shown => (leads.shields shown).outer within⟩

/-- What keeps the frames shields them. -/
theorem of_frames (clear : h.Clear E) (frames : h'.frames = h.frames)
    (values : ∀ v, h'.Stores v → h.Stores v ∨ v.Clear E h.frames.size) :
    h.Leads hides E h' := by
  refine ⟨Nat.le_of_eq (congrArg Array.size frames.symm), fun v stored => ?_, fun _ =>
    .of_same clear fun id _ => by rw [frame, frame, frames]⟩
  rw [frames]
  exact values v stored

theorem modifyFrame {change : Frame → Frame} (shields : h.Shields E (h.modifyFrame frame change))
    (values : ∀ v, (h.modifyFrame frame change).Stores v →
      h.Stores v ∨ v.Clear E h.frames.size) :
    h.Leads hides E (h.modifyFrame frame change) := by
  have size : (h.modifyFrame frame change).frames.size = h.frames.size := Array.size_modify
  refine ⟨Nat.le_of_eq size.symm, fun v stored => ?_, fun _ => shields⟩
  rw [size]
  exact values v stored

theorem newFrame (clear : h.Clear E) {fields : List (String × Value)}
    (clearly : ∀ entry ∈ fields, h.Stores entry.2 ∨ entry.2.Clear E h.frames.size) :
    h.Leads hides E (h.newFrame (.ofFields fields)).2 := by
  have more : h.frames.size ≤ (h.newFrame (.ofFields fields)).2.frames.size := by
    rw [Heap.newFrame, Array.size_push]
    exact Nat.le_succ _
  refine ⟨more, fun v stored => ?_, fun _ => .of_same clear fun id made => ?_⟩
  · rcases stored.of_newFrame with before | ⟨entry, member, rfl⟩
    · exact .inl before
    · exact (clearly entry member).imp_right fun clearly => clearly.mono more
  · rw [frame_newFrame, if_neg (Nat.ne_of_lt made)]

theorem put_of_shields {index : Nat}
    (shields : h.Shields E (h.modifyFrame frame (·.put index v)))
    (clearly : v.Clear E h.frames.size) :
    h.Leads hides E (h.modifyFrame frame (·.put index v)) := by
  refine modifyFrame shields fun w stored => ?_
  rcases stored.of_put with before | rfl
  · exact .inl before
  · exact .inr clearly

theorem put (off : frame ∉ E.scopes) (index : Nat) (clearly : v.Clear E h.frames.size) :
    h.Leads hides E (h.modifyFrame frame (·.put index v)) :=
  put_of_shields (.put off index v) clearly

theorem write (clear : h.Clear E) {slot : Slot} (free : E.slot h name = .ok slot)
    (clearly : v.Clear E h.frames.size) : h.Leads hides E (E.write h name v slot) := by
  have shields := Shields.write clear free v
  cases slot with
  | field id index => exact put_of_shields shields clearly
  | newInRoot =>
    refine modifyFrame shields fun w stored => ?_
    rcases stored.of_push with before | rfl
    · exact .inl before
    · exact .inr clearly

theorem marked (permitted : flags.hide = true → hides) (marks : List Container) :
    h.Leads hides E (h.marked flags marks) := by
  have size : (h.marked flags marks).frames.size = h.frames.size := Array.size_mapIdx
  refine ⟨Nat.le_of_eq size.symm, fun v stored => .inl stored.of_marked, fun shown => ?_⟩
  exact .marked (Bool.eq_false_iff.mpr fun hide => shown (permitted hide))

theorem markField (permitted : flags.hide = true → hides) (id : FrameId) (index : Nat) :
    h.Leads hides E (h.modifyFrame id (·.modify index (ProtectWalk.markField flags))) := by
  have size : (h.modifyFrame id (·.modify index (ProtectWalk.markField flags))).frames.size =
      h.frames.size := Array.size_modify
  refine ⟨Nat.le_of_eq size.symm, fun v stored => .inl stored.of_markField, fun shown =>
    ⟨fun i _ _ => ?_, ?_⟩⟩
  · have open' : flags.hide = false := Bool.eq_false_iff.mpr fun hide => shown (permitted hide)
    rw [frame_modifyFrame]
    split
    · exact Frame.words_congr (Frame.map_modify fun field _ => by
        simp [ProtectWalk.markField, open'])
    · rfl
  · intro inner outer g name split _ i behind
    rw [frame_modifyFrame]
    split
    · exact Frame.valuesOf_congr (Frame.map_modify fun _ _ => rfl)
    · rfl

end Heap.Leads

/-! ## Evaluation -/

def clearFlow (hides : Prop) : ValueFlow where
  value E n v := v.Clear E n
  heap E h := h.Clear E
  leads E h h' := h.Leads hides E h'
  names _ := True
  hides := hides
  mono clear le := clear.mono le
  inert inert := by
    rintro id rfl
    exact inert.elim
  stored clear stored := clear.values _ stored
  distinct _ := trivial
  shown _ _ := trivial
  function_iff := ⟨fun _ => trivial, fun _ => nofun⟩
  frames_le leads := leads.frames
  found clear leads := clear.leads leads
  refl E h := .refl E h
  trans clear first second := first.trans clear second
  beside clear frames values := .of_frames clear frames values
  write clear free given := .write clear free given
  put index _ object given := .put (object _ rfl).2 index given
  marked marks _ permitted := .marked permitted marks
  markField id index _ permitted := .markField permitted id index
  frame {E h fields} clear _ given := by
    refine ⟨.newFrame clear fun entry member => .inr (given entry member), ?_,
      clear.push_newFrame given⟩
    rintro _ ⟨⟩
    exact ⟨Nat.lt_succ_self _, fun on => Nat.lt_irrefl _ (clear.made _ on)⟩
  outer within clear := clear.outer within
  leave within leads := leads.outer within
  strict {E h} clear := by
    let dirty : Heap := (h.newBlock #[.object E.root]).2
    have stored : dirty.Stores (.object E.root) :=
      .item h.blocks.size (by simp [dirty, Heap.items, Heap.newBlock])
    have root : E.root ∈ E.scopes := List.mem_append_right _ (List.mem_singleton_self _)
    exact ⟨dirty, fun leads => ((clear.leads leads).values _ stored _ rfl).2 root⟩

namespace Interpreter

/-- What is bound before a program runs is no object. -/
theorem leaf_of_mem_rootFields :
    ∀ entry ∈ rootFields, entry.2.container? = none := by
  decide

theorem initial_clear (limit : Nat) (exitAsReturn : Bool) :
    (initial limit exitAsReturn).heap.Clear (initial limit exitAsReturn).env := by
  refine ⟨List.nodup_singleton _, fun id on => ?_, fun v stored => ?_⟩
  · rw [List.mem_singleton.mp on]
    exact Nat.zero_lt_one
  · have stored : (({} : Heap).newFrame (.ofFields rootFields)).2.Stores v := stored
    rcases stored.of_newFrame with (⟨id, inside⟩ | ⟨id, field, inside, -⟩) | ⟨entry, member, rfl⟩
    · exact absurd inside (Array.not_mem_empty v)
    · exact absurd inside (Array.not_mem_empty field)
    · exact .of_leaf (leaf_of_mem_rootFields entry member)

end Interpreter

abbrev Moment.Clear : Moment → Prop := (clearFlow True).Holds

namespace Moment.Clear

variable {a b : Moment}

/-- Whether words may be hidden does not matter. -/
theorem holds (clear : a.Clear) (hides : Prop) : (clearFlow hides).Holds a :=
  ⟨clear.heap, clear.request⟩

end Moment.Clear

theorem Interpreter.Reaches.clear {source : String} {s : State} {a : Moment}
    (reaches : Reaches source s a) (session : Session s) : a.Clear :=
  reaches.flow trivial initial_clear session

end BlockScript
