import BlockScript.Proofs.Growth
import BlockScript.Proofs.Marking

/-!
# What a walk touches

The containers that a walk touches and enters are those of its tour, and a tour is decided by what
the values hold. So they are the same whether the walk protects or unprotects, hides or not, and
whatever was protected, locked or hidden before. Walks over one value therefore undo or repeat each
other container by container.
-/

namespace BlockScript

open ProtectWalk

/-! ## Graphs -/

def Series.unmarked {α : Type} (s : Series α) : Series α := { s with isProtected := false }

def Field.unmarked (field : Field) : Field := { field with locked := false, hidden := false }

def Frame.unmarked (f : Frame) : Frame := { fields := f.fields.map Field.unmarked }

namespace Heap

variable {h h' : Heap} {flags : ProtectFlags} {marks : List Container} {v : Value} {c : Container}

def unmarked (h : Heap) : Heap :=
  { h with
    blocks := h.blocks.map Series.unmarked
    texts := h.texts.map Series.unmarked
    frames := h.frames.map Frame.unmarked }

theorem items_unmarked (id : Nat) : h.unmarked.items id = h.items id := by
  rw [items, items, unmarked, Array.getElem?_map, Option.map_map]
  rfl

theorem values_unmarked (id : FrameId) :
    (h.unmarked.frame id).fields.toList.map (·.value) =
      (h.frame id).fields.toList.map (·.value) := by
  rw [frame, frame, unmarked, Array.getD_eq_getD_getElem?, Array.getD_eq_getD_getElem?,
    Array.getElem?_map]
  cases h.frames[id]? with
  | none => rfl
  | some f =>
    rw [Option.map_some, Option.getD_some, Option.getD_some, Frame.unmarked, Array.toList_map,
      List.map_map]
    rfl

theorem held_unmarked : h.unmarked.held everyField = h.held everyField := by
  funext v
  cases v with
  | block r => rw [held, held, tail, tail, items_unmarked]
  | paren r => rw [held, held, tail, tail, items_unmarked]
  | object id => rw [held_object, held_object, values_unmarked]
  | _ => rfl

theorem containerCount_unmarked : h.unmarked.containerCount = h.containerCount := by
  simp [containerCount, unmarked]

theorem map_markEach {α : Type} {label : Nat → Container} {mark unmark : α → α}
    (same : ∀ x, unmark (mark x) = unmark x) (marks : List Container) (xs : Array α) :
    (markEach label mark marks xs).map unmark = xs.map unmark := by
  refine Array.ext_getElem? fun i => ?_
  rw [Array.getElem?_map, Array.getElem?_map, getElem?_markEach, Option.map_map]
  congr 1
  funext x
  dsimp only [Function.comp_apply]
  split
  · exact same x
  · rfl

/-- Marks are no part of the graph. -/
theorem unmarked_marked : (h.marked flags marks).unmarked = h.unmarked := by
  have series {α : Type} (s : Series α) : (markSeries flags s).unmarked = s.unmarked := rfl
  have frames (f : Frame) : (markFrame flags f).unmarked = f.unmarked := by
    rw [Frame.unmarked, markFrame, Array.map_map]
    rfl
  simp only [unmarked, marked, map_markEach series, map_markEach frames]

/-! ## Marks on marks -/

section MarkTwice

variable {α : Type} {label : Nat → Container} {mark mark' : α → α}

theorem markEach_markEach (covers : ∀ x, mark' (mark x) = mark' x) (marks : List Container)
    (xs : Array α) :
    markEach label mark' marks (markEach label mark marks xs) = markEach label mark' marks xs := by
  refine Array.ext_getElem? fun i => ?_
  simp only [getElem?_markEach, Option.map_map]
  congr 1
  funext x
  dsimp only [Function.comp_apply]
  split
  · exact covers x
  · rfl

theorem markEach_eq_self {xs : Array α}
    (same : ∀ i x, label i ∈ marks → xs[i]? = some x → mark x = x) :
    markEach label mark marks xs = xs := by
  refine Array.ext_getElem? fun i => ?_
  rw [getElem?_markEach]
  cases found : xs[i]? with
  | none => rfl
  | some x =>
    rw [Option.map_some]
    split
    · next member => rw [same i x member found]
    · rfl

end MarkTwice

theorem marked_marked {flags' : ProtectFlags}
    (covers : ∀ field, markField flags' (markField flags field) = markField flags' field) :
    (h.marked flags marks).marked flags' marks = h.marked flags' marks := by
  have series {α : Type} (s : Series α) :
      markSeries flags' (markSeries flags s) = markSeries flags' s := rfl
  simp only [marked, markEach_markEach series, markEach_markEach (markFrame_covers covers)]

/-- Clearing what is not protected and not locked changes nothing. -/
theorem marked_eq_self (unset : flags.set = false) (unguarded : ∀ c ∈ marks, h.Unguarded c) :
    h.marked flags marks = h := by
  have blocks : markEach .block (markSeries flags) marks h.blocks = h.blocks := by
    refine markEach_eq_self fun i s member found => ?_
    have free : h.isBlockProtected i = false := unguarded _ member
    rw [isBlockProtected, found, Option.map_some, Option.getD_some] at free
    rw [markSeries, unset, ← free]
  have texts : markEach .text (markSeries flags) marks h.texts = h.texts := by
    refine markEach_eq_self fun i s member found => ?_
    have free : h.isTextProtected i = false := unguarded _ member
    rw [isTextProtected, found, Option.map_some, Option.getD_some] at free
    rw [markSeries, unset, ← free]
  have frames : markEach .object (markFrame flags) marks h.frames = h.frames := by
    refine markEach_eq_self fun i f member found => ?_
    obtain ⟨free, unlocked⟩ := (unguarded _ member : h.Unguarded (.object i))
    rw [frame_of_getElem? found] at free unlocked
    have fields : f.fields.map (markField flags) = f.fields := by
      refine (Array.map_congr_left fun field inside => ?_).trans (Array.map_id _)
      have locked : (if flags.word then flags.set else field.locked) = field.locked := by
        rw [unset, unlocked field inside, ite_self]
      have hidden : (field.hidden || (flags.hide && flags.set)) = field.hidden := by
        rw [unset, Bool.and_false, Bool.or_false]
      rw [markField, locked, hidden]
      rfl
    rw [markFrame, fields, unset, ← free]
  rw [marked, blocks, texts, frames]

theorem sameAt_marked (unmarked : c ∉ marks) : h.SameAt (h.marked flags marks) c := by
  have same {α : Type} {label : Nat → Container} {mark : α → α} {xs : Array α} {i : Nat}
      (outside : label i ∉ marks) : (markEach label mark marks xs)[i]? = xs[i]? := by
    rw [getElem?_markEach]
    simp [outside]
  cases c with
  | block id => exact same unmarked
  | text id => exact same unmarked
  | object id => exact same unmarked

/-! ## Walks over one value -/

def walked (h : Heap) (flags : ProtectFlags) (v : Value) : Heap :=
  (protectValue { flags, heap := h } v).heap

/-- What walks over a value touch and enter. Touching an object touches all its fields. -/
structure Footprint (h : Heap) (deep : Bool) (v : Value) (touched entered : List Container) :
    Prop where
  /-- Whatever a walk changes, and whatever was protected, locked or hidden in the graph before.
  The fuel makes no difference, so the walk ends by itself. -/
  walks (h' : Heap) (flags : ProtectFlags) (fuel : Nat) :
    h'.unmarked = h.unmarked → flags.deep = deep → h.containerCount < fuel →
      walk fuel { flags, heap := h' } v = ⟨flags, h'.marked flags touched, entered⟩
  once : entered.Nodup
  enters : entered ⊆ touched
  starts : v.LiesIn touched
  reached (c : Container) : c ∈ touched → h.ReachesContainer everyField v c
  shallow : deep = false → entered = [] ∧ ∀ c ∈ touched, v.container? = some c
  below : deep = true → h.EnteredOnce v touched

theorem exists_footprint (h : Heap) (deep : Bool) (v : Value) :
    ∃ touched entered, h.Footprint deep v touched entered := by
  have enough {fuel : Nat} (more : h.containerCount < fuel) : unmet h.containers [] < fuel :=
    ((unmet_le _ _).trans h.card_containers_le).trans_lt more
  have enough' := enough (Nat.lt_succ_self h.containerCount)
  let p := tour (h.held everyField) deep (h.containerCount + 1) {} v
  have covers : h.Covers [v] {} p := tour_covers (List.Subset.refl _) enough'
  refine ⟨p.marks, p.entered, ?_⟩
  exact
    { walks := fun h' flags fuel graph same more => by
        have start : { flags, heap := h' } = h'.walkAt flags {} := by rw [walkAt, marked_nil]
        have held : h'.held everyField = h.held everyField := by
          rw [← held_unmarked, graph, held_unmarked]
        rw [start, walk_eq_tour, held, same, tour_fuel (h := h) (enough more) enough']
        rfl
      once := nodup_tour List.nodup_nil
      enters := marked_tour (List.Subset.refl _)
      starts := covers.starts v (List.mem_singleton_self v)
      reached := fun c touched => by
        rcases covers.reached c touched with old | ⟨w, item, reach⟩
        · exact absurd old List.not_mem_nil
        · rwa [List.mem_singleton.mp item] at reach
      shallow := fun shallow => by
        simp only [p, shallow]
        cases found : v.container? with
        | none => simp [tour_none found]
        | some c => simp [tour_some found]
      below := fun deep => by
        refine covers.enteredOnce ?_
        simp only [p, deep]
        exact steady_tour ⟨List.Subset.refl _, fun c old => absurd old List.not_mem_nil⟩ }

theorem Footprint.walked_eq {deep : Bool} {touched entered : List Container}
    (footprint : h.Footprint deep v touched entered) (flags : ProtectFlags)
    (graph : h'.unmarked = h.unmarked) (same : flags.deep = deep) :
    h'.walked flags v = h'.marked flags touched := by
  have count : h'.containerCount = h.containerCount := by
    rw [← containerCount_unmarked, graph, containerCount_unmarked]
  have walk := footprint.walks h' flags (h'.containerCount + 1) graph same (by omega)
  exact congrArg ProtectWalk.heap walk

structure WalkLaws (h : Heap) (deep : Bool) (v : Value) : Prop where
  /-- Unprotecting what was protected is the same as unprotecting it straight away, and brings the
  heap back if nothing that is touched was protected or locked before. -/
  undone :
    (h.walked { set := true, word := true, deep } v).walked { word := true, deep } v =
      h.walked { word := true, deep } v
  restored (touched entered : List Container) :
    h.Footprint deep v touched entered → (∀ c ∈ touched, h.Unguarded c) →
      (h.walked { set := true, word := true, deep } v).walked { word := true, deep } v = h
  repeated (flags : ProtectFlags) :
    flags.deep = deep → (h.walked flags v).walked flags v = h.walked flags v
  /-- Contents of series, names and values of fields stay. -/
  contents (flags : ProtectFlags) : flags.deep = deep → (h.walked flags v).unmarked = h.unmarked
  elsewhere (flags : ProtectFlags) (c : Container) :
    flags.deep = deep → ¬ h.ReachesContainer everyField v c → h.SameAt (h.walked flags v) c

/-- Walks over a value touch the same containers, each enters a container at most once, and they
undo and repeat each other. -/
theorem walks_undo (h : Heap) (deep : Bool) (v : Value) :
    (∃ touched entered, h.Footprint deep v touched entered) ∧ h.WalkLaws deep v := by
  refine ⟨h.exists_footprint deep v, ?_⟩
  let protecting : ProtectFlags := { set := true, word := true, deep }
  let clearing : ProtectFlags := { word := true, deep }
  have cleared {touched entered : List Container} (footprint : h.Footprint deep v touched entered) :
      (h.walked protecting v).walked clearing v = h.marked clearing touched := by
    have undone (field : Field) :
        markField clearing (markField protecting field) = markField clearing field := by
      simp [markField, protecting, clearing]
    rw [footprint.walked_eq protecting rfl rfl, footprint.walked_eq clearing unmarked_marked rfl,
      marked_marked undone]
  obtain ⟨touched, entered, footprint⟩ := h.exists_footprint deep v
  exact
    { undone := (cleared footprint).trans (footprint.walked_eq clearing rfl rfl).symm
      restored := fun touched entered footprint unguarded =>
        (cleared footprint).trans (marked_eq_self rfl unguarded)
      repeated := fun flags same => by
        rw [footprint.walked_eq flags rfl same, footprint.walked_eq flags unmarked_marked same,
          marked_marked (markField_markField flags)]
      contents := fun flags same => by rw [footprint.walked_eq flags rfl same, unmarked_marked]
      elsewhere := fun flags c same unreached => by
        rw [footprint.walked_eq flags rfl same]
        exact sameAt_marked fun touched => unreached (footprint.reached c touched) }

end Heap

end BlockScript
