import BlockScript.Heap.Protection
import BlockScript.Proofs.Reachability

/-!
# What a deep walk marks

A walk enters each container once, through the reference by which it meets it first, and goes on
with what that reference holds. It marks nothing that cannot be reached, and all that can be reached
if it makes no difference by which reference a container is entered. It does make a difference when
two references into one series have different positions.
-/

namespace BlockScript

def Value.LiesIn (v : Value) (containers : List Container) : Prop :=
  ∀ c, v.container? = some c → c ∈ containers

theorem Value.LiesIn.of_container {v : Value} {c : Container} {containers : List Container}
    (found : v.container? = some c) (member : c ∈ containers) : v.LiesIn containers := by
  intro c' found'
  exact Option.some.inj (found.symm.trans found') ▸ member

theorem Heap.held_object (h : Heap) (id : FrameId) :
    h.held everyField (.object id) = (h.frame id).fields.toList.map (·.value) := by
  have all : (h.frame id).fields.toList.filter everyField = (h.frame id).fields.toList :=
    List.filter_eq_self.mpr fun _ _ => rfl
  rw [held, all]

namespace ProtectWalk

variable {w : ProtectWalk} {v : Value} {c : Container} {fuel : Nat}

/-! ## One level of a walk -/

def protect (w : ProtectWalk) : Container → ProtectWalk
  | .block id => w.protectBlock id
  | .text id => w.protectText id
  | .object id => w.protectFrame id

def canEnter : Container → Bool
  | .text _ => false
  | _ => true

theorem walk_none (none : v.container? = none) : walk (fuel + 1) w v = w := by
  cases v <;> first | rfl | cases none

theorem walk_some (some : v.container? = some c) :
    walk (fuel + 1) w v =
      if canEnter c ∧ c ∈ w.visited then w
      else if canEnter c ∧ w.flags.deep then
        ((w.protect c).heap.held everyField v).foldl (walk fuel) ((w.protect c).enter c)
      else w.protect c := by
  cases v with
  | block r => cases some; simp only [walk, canEnter, true_and]; rfl
  | paren r => cases some; simp only [walk, canEnter, true_and]; rfl
  | text id => cases some; simp only [walk, canEnter, Bool.false_eq_true, false_and, if_false]; rfl
  | object id =>
    cases some
    simp only [walk, canEnter, true_and, Heap.held_object]
    rfl
  | _ => cases some

/-- What the steps of a walk preserve, the walk preserves. -/
theorem walk_along {R : ProtectWalk → ProtectWalk → Prop} (refl : ∀ w, R w w)
    (trans : ∀ {a b c}, R a b → R b c → R a c) (protect : ∀ w c, R w (w.protect c))
    (enter : ∀ w c, R w (w.enter c)) (fuel : Nat) (w : ProtectWalk) (v : Value) :
    R w (walk fuel w v) := by
  induction fuel generalizing w v with
  | zero => exact refl w
  | succ fuel ih =>
    have fold (values : List Value) (w : ProtectWalk) : R w (values.foldl (walk fuel) w) := by
      induction values generalizing w with
      | nil => exact refl w
      | cons v values rest => exact trans (ih w v) (rest _)
    cases found : v.container? with
    | none =>
      rw [walk_none found]
      exact refl w
    | some c =>
      rw [walk_some found]
      split
      · exact refl w
      · split
        · exact trans (protect w c) (trans (enter _ c) (fold _ _))
        · exact protect w c

def markSeries {α : Type} (flags : ProtectFlags) (s : Series α) : Series α :=
  { s with isProtected := flags.set }

def markFrame (flags : ProtectFlags) (f : Frame) : Frame :=
  { fields := f.fields.map (markField flags), isProtected := flags.set }

theorem markField_markField (flags : ProtectFlags) (field : Field) :
    markField flags (markField flags field) = markField flags field := by
  cases flags.word <;> cases field.hidden <;> simp_all [markField]

/-- Marks are written over earlier ones if they are on every field. -/
theorem markFrame_covers {flags flags' : ProtectFlags}
    (covers : ∀ field, markField flags' (markField flags field) = markField flags' field)
    (f : Frame) : markFrame flags' (markFrame flags f) = markFrame flags' f := by
  have fields : markField flags' ∘ markField flags = markField flags' := funext covers
  rw [markFrame, markFrame, Array.map_map, fields]
  rfl

end ProtectWalk

open ProtectWalk

/-! ## Marked heaps -/

section MarkEach

variable {α : Type} {label : Nat → Container} {mark : α → α}

def markEach (label : Nat → Container) (mark : α → α) (marks : List Container) (xs : Array α) :
    Array α :=
  xs.mapIdx fun i x => if label i ∈ marks then mark x else x

theorem markEach_nil (xs : Array α) : markEach label mark [] xs = xs := by
  ext <;> simp [markEach]

theorem getElem?_markEach (marks : List Container) (xs : Array α) (i : Nat) :
    (markEach label mark marks xs)[i]? =
      xs[i]?.map fun x => if label i ∈ marks then mark x else x := by
  rw [markEach, Array.getElem?_mapIdx]

/-- Marking one more container of the sort. -/
theorem modify_markEach (injective : label.Injective) (again : ∀ x, mark (mark x) = mark x)
    (marks : List Container) (xs : Array α) (i : Nat) :
    (markEach label mark marks xs).modify i mark = markEach label mark (label i :: marks) xs := by
  refine Array.ext_getElem? fun j => ?_
  rw [Array.getElem?_modify, getElem?_markEach, getElem?_markEach]
  by_cases here : i = j
  · subst here
    by_cases old : label i ∈ marks <;> simp [old, again, Function.comp_def]
  · have other : label j ≠ label i := fun same => here (injective same).symm
    simp [here, other]

theorem markEach_cons_of_ne {c : Container} (other : ∀ i, label i ≠ c) (marks : List Container)
    (xs : Array α) : markEach label mark (c :: marks) xs = markEach label mark marks xs := by
  simp [markEach, other]

end MarkEach

namespace Heap

variable {h : Heap} {flags : ProtectFlags} {marks : List Container}

def marked (h : Heap) (flags : ProtectFlags) (marks : List Container) : Heap :=
  { h with
    blocks := markEach .block (markSeries flags) marks h.blocks
    texts := markEach .text (markSeries flags) marks h.texts
    frames := markEach .object (markFrame flags) marks h.frames }

theorem marked_nil (h : Heap) (flags : ProtectFlags) : h.marked flags [] = h := by
  rw [marked, markEach_nil, markEach_nil, markEach_nil]

theorem marked_cons_block (id : Nat) :
    h.marked flags (.block id :: marks) =
      { h.marked flags marks with
        blocks := (h.marked flags marks).blocks.modify id (markSeries flags) } := by
  have injective : Container.block.Injective := fun _ _ => Container.block.inj
  simp only [marked, modify_markEach injective fun s => show _ = markSeries flags s from rfl]
  simp [markEach_cons_of_ne]

theorem marked_cons_text (id : TextId) :
    h.marked flags (.text id :: marks) =
      { h.marked flags marks with
        texts := (h.marked flags marks).texts.modify id (markSeries flags) } := by
  have injective : Container.text.Injective := fun _ _ => Container.text.inj
  simp only [marked, modify_markEach injective fun s => show _ = markSeries flags s from rfl]
  simp [markEach_cons_of_ne]

theorem marked_cons_object (id : FrameId) :
    h.marked flags (.object id :: marks) =
      { h.marked flags marks with
        frames := (h.marked flags marks).frames.modify id (markFrame flags) } := by
  have injective : Container.object.Injective := fun _ _ => Container.object.inj
  simp only [marked, modify_markEach injective (markFrame_covers (markField_markField flags))]
  simp [markEach_cons_of_ne]

theorem protect_marked {w : ProtectWalk} (now : w.heap = h.marked w.flags marks) (c : Container) :
    w.protect c = { w with heap := h.marked w.flags (c :: marks) } := by
  cases c with
  | block id =>
    rw [marked_cons_block, ← now]
    rfl
  | text id =>
    rw [marked_cons_text, ← now]
    rfl
  | object id =>
    rw [marked_cons_object, ← now]
    rfl

theorem items_marked (id : Nat) : (h.marked flags marks).items id = h.items id := by
  rw [items, items, marked, getElem?_markEach]
  cases h.blocks[id]? with
  | none => rfl
  | some s =>
    simp only [Option.map_some, Option.getD_some]
    split <;> rfl

theorem values_marked (id : FrameId) :
    ((h.marked flags marks).frame id).fields.toList.map (·.value) =
      (h.frame id).fields.toList.map (·.value) := by
  rw [frame, frame, marked, Array.getD_eq_getD_getElem?, Array.getD_eq_getD_getElem?,
    getElem?_markEach]
  cases h.frames[id]? with
  | none => rfl
  | some f =>
    simp only [Option.map_some, Option.getD_some]
    split
    · rw [markFrame, Array.toList_map, List.map_map]
      rfl
    · rfl

/-- Marks do not change what is held. -/
theorem held_marked (v : Value) :
    (h.marked flags marks).held everyField v = h.held everyField v := by
  cases v with
  | block r => rw [held, held, tail, tail, items_marked]
  | paren r => rw [held, held, tail, tail, items_marked]
  | object id => rw [held_object, held_object, values_marked]
  | _ => rfl

/-! ## Deep walks -/

structure Progress where
  marks : List Container := []
  entered : List Container := []

structure Progress.Steady (p : Progress) : Prop where
  marked : p.entered ⊆ p.marks
  entered : ∀ c ∈ p.marks, canEnter c → c ∈ p.entered

namespace Progress.Steady

variable {p : Progress}

theorem enter (steady : p.Steady) (c : Container) :
    Progress.Steady ⟨c :: p.marks, c :: p.entered⟩ := by
  refine ⟨List.cons_subset_cons c steady.marked, fun c' hc' can => ?_⟩
  rcases List.mem_cons.mp hc' with rfl | old
  · exact List.mem_cons_self
  · exact List.mem_cons_of_mem _ (steady.entered c' old can)

theorem mark (steady : p.Steady) {c : Container} (outside : ¬ canEnter c) :
    Progress.Steady { p with marks := c :: p.marks } := by
  refine ⟨fun c' hc' => List.mem_cons_of_mem _ (steady.marked hc'), fun c' hc' can => ?_⟩
  rcases List.mem_cons.mp hc' with rfl | old
  · exact absurd can outside
  · exact steady.entered c' old can

end Progress.Steady

/-- What walks over some values add to the progress made before: containers that can be reached,
among them those of the values. All that is held where a container was entered is marked. -/
structure Covers (h : Heap) (values : List Value) (p q : Progress) : Prop where
  marks : p.marks ⊆ q.marks
  entered : p.entered ⊆ q.entered
  starts : ∀ v ∈ values, v.LiesIn q.marks
  reached : ∀ c ∈ q.marks, c ∈ p.marks ∨ ∃ v ∈ values, h.ReachesContainer everyField v c
  closed : ∀ c ∈ q.entered, c ∈ p.entered ∨ ∃ v ∈ values, ∃ w,
    h.Reaches everyField v w ∧ w.container? = some c ∧ ∀ x ∈ h.held everyField w, x.LiesIn q.marks

namespace Covers

variable {p q r : Progress} {v : Value} {c : Container}

theorem nil (h : Heap) (p : Progress) : h.Covers [] p p :=
  ⟨List.Subset.refl _, List.Subset.refl _, by simp, fun _ => .inl, fun _ => .inl⟩

/-- A value without a container, or with one that was met before, adds nothing. -/
theorem stay (met : v.LiesIn p.marks) : h.Covers [v] p p := by
  refine ⟨List.Subset.refl _, List.Subset.refl _, fun x item => ?_, fun _ => .inl, fun _ => .inl⟩
  rw [List.mem_singleton.mp item]
  exact met

theorem mark (found : v.container? = some c) (p : Progress) :
    h.Covers [v] p { p with marks := c :: p.marks } := by
  refine ⟨List.subset_cons_self _ _, List.Subset.refl _, fun x hx => ?_, fun c' hc' => ?_,
    fun _ => .inl⟩
  · rw [List.mem_singleton.mp hx]
    exact .of_container found List.mem_cons_self
  · rcases List.mem_cons.mp hc' with rfl | old
    · exact .inr ⟨v, List.mem_singleton_self v, v, .start, found⟩
    · exact .inl old

/-- Entering a container and walking over what it holds. -/
theorem enter (found : v.container? = some c)
    (below : h.Covers (h.held everyField v) ⟨c :: p.marks, c :: p.entered⟩ q) :
    h.Covers [v] p q := by
  have self : v ∈ [v] := List.mem_singleton_self v
  refine ⟨fun c' hc' => below.marks (List.mem_cons_of_mem _ hc'),
    fun c' hc' => below.entered (List.mem_cons_of_mem _ hc'), fun x hx => ?_,
    fun c' hc' => ?_, fun c' hc' => ?_⟩
  · rw [List.mem_singleton.mp hx]
    exact .of_container found (below.marks List.mem_cons_self)
  · rcases below.reached c' hc' with here | ⟨x, item, w, reach, at_c⟩
    · rcases List.mem_cons.mp here with rfl | old
      · exact .inr ⟨v, self, v, .start, found⟩
      · exact .inl old
    · exact .inr ⟨v, self, w, .below item reach, at_c⟩
  · rcases below.closed c' hc' with here | ⟨x, item, w, reach, closed⟩
    · rcases List.mem_cons.mp here with rfl | old
      · exact .inr ⟨v, self, v, .start, found, below.starts⟩
      · exact .inl old
    · exact .inr ⟨v, self, w, .below item reach, closed⟩

theorem cons {values : List Value} (first : h.Covers [v] p q) (rest : h.Covers values q r) :
    h.Covers (v :: values) p r := by
  have self : v ∈ v :: values := List.mem_cons_self
  refine ⟨fun _ hc => rest.marks (first.marks hc), fun _ hc => rest.entered (first.entered hc),
    fun x hx c some => ?_, fun c hc => ?_, fun c hc => ?_⟩
  · rcases List.mem_cons.mp hx with rfl | later
    · exact rest.marks (first.starts _ (List.mem_singleton_self _) c some)
    · exact rest.starts x later c some
  · rcases rest.reached c hc with now | ⟨x, item, reach⟩
    · rcases first.reached c now with old | ⟨x, item, reach⟩
      · exact .inl old
      · exact .inr ⟨v, self, List.mem_singleton.mp item ▸ reach⟩
    · exact .inr ⟨x, List.mem_cons_of_mem _ item, reach⟩
  · rcases rest.closed c hc with now | ⟨x, item, closed⟩
    · rcases first.closed c now with old | ⟨x, item, w, reach, at_c, closed⟩
      · exact .inl old
      · refine .inr ⟨v, self, w, List.mem_singleton.mp item ▸ reach, at_c, fun x hx c' some => ?_⟩
        exact rest.marks (closed x hx c' some)
    · exact .inr ⟨x, List.mem_cons_of_mem _ item, closed⟩

end Covers

/-! ## Tours -/

/-- The way that a walk takes through a graph, whatever it changes there. What each value holds
decides it. -/
def tour (held : Value → List Value) (deep : Bool) : Nat → Progress → Value → Progress
  | 0, p, _ => p
  | fuel + 1, p, v =>
    match v.container? with
    | none => p
    | some c =>
      if canEnter c ∧ c ∈ p.entered then p
      else if canEnter c ∧ deep then
        (held v).foldl (tour held deep fuel) ⟨c :: p.marks, c :: p.entered⟩
      else { p with marks := c :: p.marks }

def walkAt (h : Heap) (flags : ProtectFlags) (p : Progress) : ProtectWalk :=
  ⟨flags, h.marked flags p.marks, p.entered⟩

/-- A walk marks and enters what its tour does. -/
theorem walk_eq_tour (fuel : Nat) (p : Progress) (v : Value) :
    walk fuel (h.walkAt flags p) v =
      h.walkAt flags (tour (h.held everyField) flags.deep fuel p v) := by
  induction fuel generalizing p v with
  | zero => rfl
  | succ fuel ih =>
    cases found : v.container? with
    | none =>
      rw [walk_none found, tour, found]
    | some c =>
      have marked : (h.walkAt flags p).protect c =
          h.walkAt flags { p with marks := c :: p.marks } := protect_marked rfl c
      have held : (h.walkAt flags { p with marks := c :: p.marks }).heap.held everyField v =
        h.held everyField v := held_marked v
      rw [walk_some found, marked, held, tour, found]
      dsimp only
      rw [apply_ite (h.walkAt flags), apply_ite (h.walkAt flags),
        ← List.foldl_hom (h.walkAt flags) ih]
      rfl

section Tour

variable {held : Value → List Value} {deep : Bool} {fuel fuel' : Nat} {p : Progress} {v : Value}
  {c : Container}

theorem tour_none (none : v.container? = none) : tour held deep (fuel + 1) p v = p := by
  rw [tour, none]

theorem tour_some (some : v.container? = some c) :
    tour held deep (fuel + 1) p v =
      if canEnter c ∧ c ∈ p.entered then p
      else if canEnter c ∧ deep then
        (held v).foldl (tour held deep fuel) ⟨c :: p.marks, c :: p.entered⟩
      else { p with marks := c :: p.marks } := by
  rw [tour, some]

/-- What the steps of a tour keep, the tour keeps. -/
theorem tour_keeps {P : Progress → Prop}
    (enter : ∀ p c, P p → c ∉ p.entered → P ⟨c :: p.marks, c :: p.entered⟩)
    (mark : ∀ p c, P p → ¬ (canEnter c ∧ deep) → P { p with marks := c :: p.marks })
    (start : P p) : P (tour held deep fuel p v) := by
  induction fuel generalizing p v with
  | zero => exact start
  | succ fuel ih =>
    have fold (values : List Value) {p : Progress} (start : P p) :
        P (values.foldl (tour held deep fuel) p) := by
      induction values generalizing p with
      | nil => exact start
      | cons v values rest => exact rest (ih start)
    cases found : v.container? with
    | none =>
      rw [tour_none found]
      exact start
    | some c =>
      rw [tour_some found]
      split
      · exact start
      · next fresh =>
        split
        · next enters => exact fold _ (enter p c start fun old => fresh ⟨enters.1, old⟩)
        · next stays => exact mark p c start stays

theorem marked_tour (marked : p.entered ⊆ p.marks) :
    (tour held deep fuel p v).entered ⊆ (tour held deep fuel p v).marks :=
  tour_keeps (P := fun p => p.entered ⊆ p.marks)
    (fun _ c marked _ => List.cons_subset_cons c marked)
    (fun _ _ marked _ => List.subset_cons_of_subset _ marked) marked

theorem entered_tour : p.entered ⊆ (tour held deep fuel p v).entered :=
  tour_keeps (P := fun q => p.entered ⊆ q.entered)
    (fun _ _ more _ => List.subset_cons_of_subset _ more) (fun _ _ more _ => more)
    (List.Subset.refl _)

theorem nodup_tour (once : p.entered.Nodup) : (tour held deep fuel p v).entered.Nodup :=
  tour_keeps (P := fun p => p.entered.Nodup)
    (fun _ _ once fresh => List.nodup_cons.mpr ⟨fresh, once⟩) (fun _ _ once _ => once) once

theorem steady_tour (steady : p.Steady) : (tour held true fuel p v).Steady :=
  tour_keeps (fun _ c steady _ => steady.enter c)
    (fun _ _ steady stays => steady.mark fun can => stays ⟨can, rfl⟩) steady

/-- What holds something is one container less to enter once it is entered. -/
theorem unmet_enter {w : Value} (item : w ∈ h.held everyField v) (found : v.container? = some c)
    (fresh : c ∉ p.entered) (enough : unmet h.containers p.entered < fuel + 1) :
    unmet h.containers (c :: p.entered) < fuel := by
  have fewer := unmet_held_lt item found fresh
  omega

theorem covers_foldl
    (each : ∀ p v, p.entered ⊆ p.marks → unmet h.containers p.entered < fuel →
      h.Covers [v] p (tour (h.held everyField) deep fuel p v))
    (marked : p.entered ⊆ p.marks) (values : List Value)
    (enough : ∀ v ∈ values, unmet h.containers p.entered < fuel) :
    h.Covers values p (values.foldl (tour (h.held everyField) deep fuel) p) := by
  induction values generalizing p with
  | nil => exact .nil h p
  | cons v values rest =>
    have first := each p v marked (enough v List.mem_cons_self)
    refine first.cons (rest (marked_tour marked) fun w later => ?_)
    exact (unmet_mono entered_tour).trans_lt (enough w (List.mem_cons_of_mem _ later))

/-- A tour with enough fuel covers what it goes over. -/
theorem tour_covers (marked : p.entered ⊆ p.marks) (enough : unmet h.containers p.entered < fuel) :
    h.Covers [v] p (tour (h.held everyField) deep fuel p v) := by
  induction fuel generalizing p v with
  | zero => exact absurd enough (Nat.not_lt_zero _)
  | succ fuel ih =>
    cases found : v.container? with
    | none =>
      rw [tour_none found]
      refine .stay fun c found' => ?_
      rw [found] at found'
      cases found'
    | some c =>
      rw [tour_some found]
      split
      · next met => exact .stay (.of_container found (marked met.2))
      · next fresh =>
        split
        · next enters =>
          have fresh' : c ∉ p.entered := fun old => fresh ⟨enters.1, old⟩
          refine .enter found (covers_foldl (fun p v marked enough => ih marked enough)
            (List.cons_subset_cons c marked) _ fun w item => ?_)
          exact unmet_enter item found fresh' enough
        · exact .mark found p

theorem foldl_tour_fuel
    (each : ∀ p v, unmet h.containers p.entered < fuel → unmet h.containers p.entered < fuel' →
      tour (h.held everyField) deep fuel p v = tour (h.held everyField) deep fuel' p v)
    (values : List Value)
    (enough : ∀ v ∈ values, unmet h.containers p.entered < fuel)
    (enough' : ∀ v ∈ values, unmet h.containers p.entered < fuel') :
    values.foldl (tour (h.held everyField) deep fuel) p =
      values.foldl (tour (h.held everyField) deep fuel') p := by
  induction values generalizing p with
  | nil => rfl
  | cons v values rest =>
    have first := each p v (enough v List.mem_cons_self) (enough' v List.mem_cons_self)
    rw [List.foldl_cons, List.foldl_cons, ← first]
    refine rest (fun w later => ?_) (fun w later => ?_)
    · exact (unmet_mono entered_tour).trans_lt (enough w (List.mem_cons_of_mem _ later))
    · exact (unmet_mono entered_tour).trans_lt (enough' w (List.mem_cons_of_mem _ later))

/-- Fuel for the containers that are left is enough, and more of it changes nothing. -/
theorem tour_fuel (enough : unmet h.containers p.entered < fuel)
    (enough' : unmet h.containers p.entered < fuel') :
    tour (h.held everyField) deep fuel p v = tour (h.held everyField) deep fuel' p v := by
  induction fuel generalizing fuel' p v with
  | zero => exact absurd enough (Nat.not_lt_zero _)
  | succ fuel ih =>
    obtain ⟨fuel', rfl⟩ := Nat.exists_eq_add_one.mpr (Nat.zero_lt_of_lt enough')
    cases found : v.container? with
    | none => rw [tour_none found, tour_none found]
    | some c =>
      rw [tour_some found, tour_some found]
      split
      · rfl
      · next fresh =>
        split
        · next enters =>
          have fresh' : c ∉ p.entered := fun old => fresh ⟨enters.1, old⟩
          refine foldl_tour_fuel (fun p v enough enough' => ih enough enough') _
            (fun w item => ?_) (fun w item => ?_)
          · exact unmet_enter item found fresh' enough
          · exact unmet_enter item found fresh' enough'
        · rfl

end Tour

/-- A deep walk with enough fuel covers what it walks over. -/
theorem walk_advances (deep : flags.deep = true) (fuel : Nat) (p : Progress) (steady : p.Steady)
    (enough : unmet h.containers p.entered < fuel) (v : Value) :
    ∃ q : Progress, walk fuel (h.walkAt flags p) v = h.walkAt flags q ∧ q.Steady ∧
      h.Covers [v] p q := by
  refine ⟨_, walk_eq_tour fuel p v, ?_, tour_covers steady.marked enough⟩
  rw [deep]
  exact steady_tour steady

/-- The container of the value is covered, and so is, for each container that is covered, all that
is held at one reference to it which is reached from the value. -/
structure EnteredOnce (h : Heap) (v : Value) (covered : List Container) : Prop where
  start : v.LiesIn covered
  entry : ∀ c ∈ covered, ∃ w, h.Reaches everyField v w ∧ w.container? = some c ∧
    ∀ x ∈ h.held everyField w, x.LiesIn covered

namespace EnteredOnce

variable {v : Value} {c : Container} {covered : List Container}

theorem reached (entered : h.EnteredOnce v covered) (member : c ∈ covered) :
    h.ReachesContainer everyField v c := by
  obtain ⟨w, reach, found, -⟩ := entered.entry c member
  exact ⟨w, reach, found⟩

theorem mem_of_uniform (entered : h.EnteredOnce v covered) (uniform : h.Uniform everyField v)
    (reached : h.ReachesContainer everyField v c) : c ∈ covered := by
  obtain ⟨w, reach, found⟩ := reached
  induction reach generalizing c with
  | refl => exact entered.start c found
  | @tail x y reach item ih =>
    obtain ⟨d, -, at_d⟩ := mem_containers_of_held item
    obtain ⟨w, reach', at_d', held⟩ := entered.entry d (ih at_d)
    have same := uniform w x reach' reach (at_d'.trans at_d.symm)
    exact held y (same ▸ item) c found

end EnteredOnce

/-- What is marked when nothing was marked before. -/
theorem Covers.enteredOnce {q : Progress} {v : Value} (covers : h.Covers [v] {} q)
    (steady : q.Steady) : h.EnteredOnce v q.marks := by
  refine ⟨covers.starts v (List.mem_singleton_self v), fun c marked => ?_⟩
  by_cases can : canEnter c
  · rcases covers.closed c (steady.entered c marked can) with old | ⟨x, item, entry⟩
    · exact absurd old List.not_mem_nil
    · rwa [List.mem_singleton.mp item] at entry
  · rcases covers.reached c marked with old | ⟨x, item, w, reach, found⟩
    · exact absurd old List.not_mem_nil
    · rw [List.mem_singleton.mp item] at reach
      refine ⟨w, reach, found, fun x held => ?_⟩
      -- a text holds nothing
      cases w <;> cases found <;> first | exact absurd rfl can | exact absurd held List.not_mem_nil

/-- A deep walk marks only containers that can be reached, namely those that are reached when each
container is entered once. If all references that are reached lead to the same values as others
into the same container, these are all containers that can be reached. -/
theorem deep_walk_marks (h : Heap) (on : Bool) (v : Value) :
    ∃ covered : List Container,
      (protectValue { flags := { set := on, deep := true, word := true }, heap := h } v).heap =
        h.marked { set := on, deep := true, word := true } covered ∧
      h.EnteredOnce v covered ∧
      (∀ c ∈ covered, h.ReachesContainer everyField v c) ∧
      (h.Uniform everyField v → ∀ c, h.ReachesContainer everyField v c → c ∈ covered) := by
  let flags : ProtectFlags := { set := on, deep := true, word := true }
  have deep : flags.deep = true := rfl
  have steady : Progress.Steady {} := ⟨List.Subset.refl _, fun c old => absurd old List.not_mem_nil⟩
  have enough : unmet h.containers [] < h.containerCount + 1 :=
    Nat.lt_succ_of_le ((unmet_le _ _).trans h.card_containers_le)
  obtain ⟨q, walked, steady', covers⟩ := walk_advances deep _ {} steady enough v
  rw [walkAt, marked_nil] at walked
  have entered := covers.enteredOnce steady'
  refine ⟨q.marks, congrArg ProtectWalk.heap walked, entered, fun c => entered.reached, ?_⟩
  intro uniform c
  exact entered.mem_of_uniform uniform

/-- A block that is entered past an item is not entered again at that item: after a walk from
`[s' s]`, where `s` is `["a" "b"]` and `s'` the same series from its second item on, the text `"a"`
can be reached and is not protected. -/
theorem deep_walk_misses_text :
    let s : Series (Array Value) := { data := #[.text 0, .text 1] }
    let t : Series (Array Value) := { data := #[.block ⟨0, 1⟩, .block ⟨0, 0⟩] }
    let h : Heap := { blocks := #[s, t], texts := #[{ data := "a" }, { data := "b" }] }
    let v := Value.block ⟨1, 0⟩
    let w : ProtectWalk := { flags := { set := true, deep := true, word := true }, heap := h }
    h.ReachesContainer everyField v (.text 0) ∧
      (w.protectValue v).heap.isTextProtected 0 = false := by
  intro s t h v w
  have first : Value.block ⟨0, 0⟩ ∈ h.held everyField v := .tail _ (.head _)
  have second : Value.text 0 ∈ h.held everyField (.block ⟨0, 0⟩) := .head _
  exact ⟨⟨.text 0, .below first (.below second .start), rfl⟩, by decide⟩

end Heap

end BlockScript
