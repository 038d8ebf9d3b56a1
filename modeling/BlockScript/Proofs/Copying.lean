import BlockScript.Heap.Copy
import BlockScript.Proofs.Bisimulation
import BlockScript.Proofs.Growth
import BlockScript.Proofs.Reachability

/-!
# Deep copies

A deep copy makes one copy of each series, with the items from the position at which the series is
met first. The copy unfolds to the same tree as the original exactly if all references that are
reached in one series have the same items before them. That is the case for cycles and for shared
blocks, and it is not when a series is reached at two positions.
-/

namespace BlockScript

def Value.withRef (r : BlockRef) : Value → Value
  | .block _ => .block r
  | .paren _ => .paren r
  | v => v

namespace Heap

variable {h : Heap} {c c' c'' : Copying} {v x y root : Value} {r : BlockRef} {fuel : Nat}

/-! ## One level of a copy -/

def copyItem (fuel : Nat) (state : Array Value × Copying) (item : Value) : Array Value × Copying :=
  let (value, c) := copyDeep fuel state.2 item
  (state.1.push value, c)

def copyItems (fuel : Nat) (state : Array Value × Copying) (items : List Value) :
    Array Value × Copying :=
  items.foldl (copyItem fuel) state

def copySeries (fuel : Nat) (c : Copying) (r : BlockRef) : BlockRef × Copying :=
  match c.copies.lookup r.id with
  | some copy => (copy, c)
  | none =>
    let (copy, opened) := c.allot r.id
    let (values, copied) := copyItems fuel (#[], opened) (c.heap.tail r)
    (copy, copied.fill copy values)

theorem copyDeep_series (ref : v.ref? = some r) :
    copyDeep (fuel + 1) c v =
      (v.withRef (copySeries fuel c r).1, (copySeries fuel c r).2) := by
  cases v <;> cases ref <;> rfl

theorem copyDeep_leaf (leaf : v.ref? = none) :
    copyDeep (fuel + 1) c v =
      ((c.heap.shallowCopy v).1, { c with heap := (c.heap.shallowCopy v).2 }) := by
  cases v <;> first | rfl | cases leaf

theorem copyItems_cons (state : Array Value × Copying) (item : Value) (items : List Value) :
    copyItems fuel state (item :: items) =
      copyItems fuel (state.1.push (copyDeep fuel state.2 item).1, (copyDeep fuel state.2 item).2)
        items := rfl

theorem copySeries_known {copy : BlockRef} (known : c.copies.lookup r.id = some copy) :
    copySeries fuel c r = (copy, c) := by
  rw [copySeries, known]

theorem copySeries_fresh (fresh : c.copies.lookup r.id = none) :
    copySeries fuel c r =
      ((c.allot r.id).1,
        (copyItems fuel (#[], (c.allot r.id).2) (c.heap.tail r)).2.fill (c.allot r.id).1
          (copyItems fuel (#[], (c.allot r.id).2) (c.heap.tail r)).1) := by
  rw [copySeries, fresh]

theorem shallowCopy_grows (h : Heap) (v : Value) : h.Grows (h.shallowCopy v).2 := by
  cases v with
  | block r => exact .newBlock h _
  | paren r => exact .newBlock h _
  | text id => exact .newText h _
  | object id => exact .newFrame h _
  | _ => exact .refl h

/-- What the steps of a copy preserve, the copy preserves. -/
theorem copyDeep_along {R : Copying → Copying → Prop} (refl : ∀ c, R c c)
    (trans : ∀ {a b c}, R a b → R b c → R a c)
    (leaf : ∀ (c : Copying) (v : Value), R c { c with heap := (c.heap.shallowCopy v).2 })
    (series : ∀ (c c' : Copying) (id : Nat) (values : Array Value),
      R (c.allot id).2 c' → R c (c'.fill (c.allot id).1 values))
    (fuel : Nat) (c : Copying) (v : Value) : R c (copyDeep fuel c v).2 := by
  induction fuel generalizing c v with
  | zero => exact refl c
  | succ fuel ih =>
    have items (items : List Value) (values : Array Value) (c : Copying) :
        R c (copyItems fuel (values, c) items).2 := by
      induction items generalizing values c with
      | nil => exact refl c
      | cons item items rest => exact trans (ih c item) (rest _ _)
    have entered (r : BlockRef) : R c (copySeries fuel c r).2 := by
      cases found : c.copies.lookup r.id with
      | some copy =>
        rw [copySeries_known found]
        exact refl c
      | none =>
        rw [copySeries_fresh found]
        exact series c _ r.id _ (items (c.heap.tail r) #[] (c.allot r.id).2)
    cases ref : v.ref? with
    | some r =>
      rw [copyDeep_series ref]
      exact entered r
    | none =>
      rw [copyDeep_leaf ref]
      exact leaf c v

theorem copyDeep_grows (fuel : Nat) (c : Copying) (v : Value) :
    c.heap.Grows (copyDeep fuel c v).2.heap :=
  copyDeep_along (R := fun c c' => c.heap.Grows c'.heap) (fun c => .refl c.heap) .trans
    (fun c => shallowCopy_grows c.heap)
    (fun _ _ _ values later => Grows.editNewBlock later fun _ => values) fuel c v

theorem deepCopy_grows (h : Heap) (v : Value) : h.Grows (h.deepCopy v).2 :=
  copyDeep_grows (h.blocks.size + 1) { heap := h } v

def Copying.met (c : Copying) : List Nat := c.copies.map (·.1)

theorem met_copyDeep (fuel : Nat) (c : Copying) (v : Value) :
    c.met ⊆ (copyDeep fuel c v).2.met :=
  copyDeep_along (R := fun c c' => c.met ⊆ c'.met) (fun c => List.Subset.refl c.met)
    List.Subset.trans (fun c _ => List.Subset.refl c.met)
    (fun _ _ _ _ later => List.Subset.trans (List.subset_cons_self _ _) later) fuel c v

/-! ## Copies without fuel -/

inductive Copied : Copying → List Value → List Value → Copying → Prop where
  | nil (c : Copying) : Copied c [] [] c
  | known {c c' : Copying} {v : Value} {vs ws : List Value} {r copy : BlockRef}
      (ref : v.ref? = some r) (known : c.copies.lookup r.id = some copy)
      (rest : Copied c vs ws c') : Copied c (v :: vs) (v.withRef copy :: ws) c'
  | fresh {c c' c'' : Copying} {v : Value} {vs ws values : List Value} {r : BlockRef}
      (ref : v.ref? = some r) (fresh : c.copies.lookup r.id = none)
      (inside : Copied (c.allot r.id).2 (c.heap.tail r) values c')
      (rest : Copied (c'.fill (c.allot r.id).1 values.toArray) vs ws c'') :
      Copied c (v :: vs) (v.withRef (c.allot r.id).1 :: ws) c''
  | leaf {c c' : Copying} {v : Value} {vs ws : List Value} (leaf : v.ref? = none)
      (rest : Copied { c with heap := (c.heap.shallowCopy v).2 } vs ws c') :
      Copied c (v :: vs) ((c.heap.shallowCopy v).1 :: ws) c'

namespace Copied

variable {vs ws ws' : List Value}

theorem cons (first : Copied c [v] [x] c') (rest : Copied c' vs ws c'') :
    Copied c (v :: vs) (x :: ws) c'' := by
  cases first with
  | known ref known done =>
    cases done
    exact .known ref known rest
  | fresh ref fresh inside done =>
    cases done
    exact .fresh ref fresh inside rest
  | leaf leaf done =>
    cases done
    exact .leaf leaf rest

/-- Values have only one copy. -/
theorem unique (copied : Copied c vs ws c') (copied' : Copied c vs ws' c'') :
    ws' = ws ∧ c'' = c' := by
  induction copied generalizing ws' c'' with
  | nil =>
    cases copied'
    exact ⟨rfl, rfl⟩
  | known ref known rest ih =>
    cases copied' with
    | known ref' known' rest' =>
      obtain rfl := Option.some.inj (ref.symm.trans ref')
      obtain rfl := Option.some.inj (known.symm.trans known')
      obtain ⟨rfl, rfl⟩ := ih rest'
      exact ⟨rfl, rfl⟩
    | fresh ref' fresh' =>
      obtain rfl := Option.some.inj (ref.symm.trans ref')
      cases known.symm.trans fresh'
    | leaf leaf' => cases ref.symm.trans leaf'
  | fresh ref fresh inside rest ih_inside ih =>
    cases copied' with
    | known ref' known' =>
      obtain rfl := Option.some.inj (ref.symm.trans ref')
      cases fresh.symm.trans known'
    | fresh ref' fresh' inside' rest' =>
      obtain rfl := Option.some.inj (ref.symm.trans ref')
      obtain ⟨rfl, rfl⟩ := ih_inside inside'
      obtain ⟨rfl, rfl⟩ := ih rest'
      exact ⟨rfl, rfl⟩
    | leaf leaf' => cases ref.symm.trans leaf'
  | leaf leaf rest ih =>
    cases copied' with
    | known ref' => cases leaf.symm.trans ref'
    | fresh ref' => cases leaf.symm.trans ref'
    | leaf leaf' rest' =>
      obtain ⟨rfl, rfl⟩ := ih rest'
      exact ⟨rfl, rfl⟩

end Copied

theorem held_of_ref {counts : Field → Bool} (ref : v.ref? = some r) :
    h.held counts v = h.tail r := by
  cases v <;> cases ref <;> rfl

theorem not_mem_met (fresh : c.copies.lookup r.id = none) : r.id ∉ c.met := by
  intro member
  obtain ⟨p, inside, same⟩ := List.mem_map.mp member
  have other := List.lookup_eq_none_iff.mp fresh p inside
  simp [same] at other

section Enough

variable {counts : Field → Bool}
  (present : ∀ x r, h.Reaches counts root x → x.ref? = some r → r.id < h.blocks.size)

/-- With fuel for the series that are left, a value that is reached is copied. -/
def CopiesReached (h : Heap) (counts : Field → Bool) (root : Value) (fuel : Nat) : Prop :=
  ∀ (c : Copying) (v : Value), h.Grows c.heap →
    unmet (Finset.range h.blocks.size) c.met < fuel → h.Reaches counts root v →
      Copied c [v] [(copyDeep fuel c v).1] (copyDeep fuel c v).2

theorem copyItems_copied (each : h.CopiesReached counts root fuel) (items : List Value)
    (values : Array Value) (grown : h.Grows c.heap)
    (enough : unmet (Finset.range h.blocks.size) c.met < fuel)
    (reach : ∀ x ∈ items, h.Reaches counts root x) :
    ∃ ws, (copyItems fuel (values, c) items).1.toList = values.toList ++ ws ∧
      Copied c items ws (copyItems fuel (values, c) items).2 := by
  induction items generalizing values c with
  | nil => exact ⟨[], (List.append_nil _).symm, .nil c⟩
  | cons item items ih =>
    have first := each c item grown enough (reach item List.mem_cons_self)
    have fewer := (unmet_mono (met_copyDeep fuel c item)).trans_lt enough
    obtain ⟨ws, values', rest⟩ := ih (values.push (copyDeep fuel c item).1)
      (grown.trans (copyDeep_grows fuel c item)) fewer
      (fun x later => reach x (List.mem_cons_of_mem _ later))
    refine ⟨(copyDeep fuel c item).1 :: ws, ?_, first.cons rest⟩
    rw [copyItems_cons, values', Array.toList_push, List.append_assoc, List.singleton_append]

include present

theorem copiesReached (fuel : Nat) : h.CopiesReached counts root fuel := by
  induction fuel with
  | zero => exact fun c v _ enough _ => absurd enough (Nat.not_lt_zero _)
  | succ fuel ih =>
    intro c v grown enough reach
    cases ref : v.ref? with
    | none =>
      rw [copyDeep_leaf ref]
      exact .leaf ref (.nil _)
    | some r =>
      have below := present v r reach ref
      rw [copyDeep_series ref]
      cases found : c.copies.lookup r.id with
      | some copy =>
        rw [copySeries_known found]
        exact .known ref found (.nil c)
      | none =>
        have left := unmet_cons_lt (Finset.mem_range.mpr below) (not_mem_met found)
        have fewer : unmet (Finset.range h.blocks.size) (c.allot r.id).2.met < fuel := by
          change unmet _ (r.id :: c.met) < _
          omega
        have inside (x : Value) (item : x ∈ c.heap.tail r) : h.Reaches counts root x := by
          rw [grown.tail_eq below] at item
          exact reach.held (held_of_ref ref ▸ item)
        obtain ⟨ws, values, copied⟩ := copyItems_copied ih (c.heap.tail r) #[]
          (grown.trans (.newBlock _ _)) fewer inside
        have whole : (copyItems fuel (#[], (c.allot r.id).2) (c.heap.tail r)).1 = ws.toArray :=
          Array.toList_inj.mp values
        rw [copySeries_fresh found, whole]
        exact .fresh ref found copied (.nil _)

theorem copied_copyDeep (enough : h.blocks.size < fuel) :
    Copied { heap := h } [root] [(copyDeep fuel { heap := h } root).1]
      (copyDeep fuel { heap := h } root).2 := by
  have left : unmet (Finset.range h.blocks.size) [] < fuel :=
    ((unmet_le _ _).trans_eq (Finset.card_range _)).trans_lt enough
  exact copiesReached present fuel { heap := h } root (.refl h) left .start

/-- Copying ends by itself: more fuel than there are series makes no difference. -/
theorem copyDeep_fuel {fuel' : Nat} (enough : h.blocks.size < fuel)
    (enough' : h.blocks.size < fuel') :
    copyDeep fuel { heap := h } root = copyDeep fuel' { heap := h } root := by
  have copied := copied_copyDeep present enough
  obtain ⟨values, states⟩ := (copied_copyDeep present enough').unique copied
  exact Prod.ext (List.singleton_inj.mp values) states

end Enough

/-! ## Values and their copies -/

/-- What a value becomes: the copy of its series, a text of its own, or itself. -/
inductive Copying.IsCopy (h : Heap) (c : Copying) : Value → Value → Prop where
  | block {r copy : BlockRef} (known : c.copies.lookup r.id = some copy) :
      IsCopy h c (.block r) (.block copy)
  | paren {r copy : BlockRef} (known : c.copies.lookup r.id = some copy) :
      IsCopy h c (.paren r) (.paren copy)
  | text {id own : TextId} {s : Series String} (present : c.heap.texts[own]? = some s)
      (same : s.data = h.text id) : IsCopy h c (.text id) (.text own)
  | leaf {v : Value} (leaf : v.container? = none) : IsCopy h c v v

structure Copying.Filled (h : Heap) (root : Value) (c : Copying) (id : Nat) (copy : BlockRef) :
    Prop where
  present : copy.id < c.heap.blocks.size
  items : ∃ x r, h.Reaches everyField root x ∧ x.ref? = some r ∧ r.id = id ∧
    List.Forall₂ (c.IsCopy h) (h.tail r) (c.heap.tail copy)

/-- What copying something that is reached does: the heap grows, the copies known stay, and every
other copy is new and filled. -/
structure CopyStep (h : Heap) (root : Value) (c c' : Copying) : Prop where
  grows : c.heap.Grows c'.heap
  known : ∀ id copy, c.copies.lookup id = some copy → c'.copies.lookup id = some copy
  made : ∀ id copy, c'.copies.lookup id = some copy → c.copies.lookup id = some copy ∨
    c.heap.blocks.size ≤ copy.id ∧ c'.Filled h root id copy

theorem Copying.IsCopy.mono (is_copy : c.IsCopy h x y) (step : CopyStep h root c c') :
    c'.IsCopy h x y := by
  cases is_copy with
  | block known => exact .block (step.known _ _ known)
  | paren known => exact .paren (step.known _ _ known)
  | text present same => exact .text (step.grows.texts _ _ present) same
  | leaf leaf => exact .leaf leaf

theorem Copying.Filled.mono {id : Nat} {copy : BlockRef} (filled : c.Filled h root id copy)
    (step : CopyStep h root c c') : c'.Filled h root id copy := by
  obtain ⟨present, x, r, reach, ref, at_id, items⟩ := filled
  refine ⟨Nat.lt_of_lt_of_le present step.grows.blockCount_le, x, r, reach, ref, at_id, ?_⟩
  rw [step.grows.tail_eq present]
  exact items.imp fun _ _ is_copy => is_copy.mono step

namespace CopyStep

theorem refl (c : Copying) : CopyStep h root c c := ⟨.refl _, fun _ _ => id, fun _ _ => .inl⟩

theorem trans (first : CopyStep h root c c') (second : CopyStep h root c' c'') :
    CopyStep h root c c'' := by
  refine ⟨first.grows.trans second.grows,
    fun id copy known => second.known id copy (first.known id copy known), fun id copy last => ?_⟩
  rcases second.made id copy last with now | ⟨new, filled⟩
  · rcases first.made id copy now with old | ⟨new, filled⟩
    · exact .inl old
    · exact .inr ⟨new, filled.mono second⟩
  · exact .inr ⟨Nat.le_trans first.grows.blockCount_le new, filled⟩

end CopyStep

/-! ## Filling a copy -/

theorem Copying.lookup_allot (c : Copying) (own id : Nat) :
    (c.allot own).2.copies.lookup id =
      if id = own then some (c.allot own).1 else c.copies.lookup id := by
  change List.lookup id ((own, _) :: c.copies) = _
  rw [List.lookup_cons]
  by_cases same : id = own
  · rw [if_pos same, same, beq_self_eq_true]
    rfl
  · rw [if_neg same, beq_false_of_ne same]

theorem Copying.size_fill (c : Copying) (copy : BlockRef) (values : Array Value) :
    (c.fill copy values).heap.blocks.size = c.heap.blocks.size := Array.size_modify

theorem Copying.tail_fill {copy : BlockRef} (present : copy.id < c.heap.blocks.size)
    (values : Array Value) :
    (c.fill copy values).heap.tail copy = values.toList.drop copy.index := by
  have found := Array.getElem?_eq_getElem present
  simp [fill, editBlock, tail, Heap.items, Array.getElem?_modify, found]

theorem Copying.tail_fill_of_ne {copy other : BlockRef} (apart : other.id ≠ copy.id)
    (values : Array Value) : (c.fill copy values).heap.tail other = c.heap.tail other := by
  simp [fill, editBlock, tail, Heap.items, Array.getElem?_modify, apart.symm]

theorem Copying.IsCopy.fill (is_copy : c.IsCopy h x y) (copy : BlockRef) (values : Array Value) :
    (c.fill copy values).IsCopy h x y := by
  cases is_copy with
  | block known => exact .block known
  | paren known => exact .paren known
  | text present same => exact .text present same
  | leaf leaf => exact .leaf leaf

/-- When copies of the items of a fresh series were made, they become the items of its copy. -/
theorem CopyStep.fill {values : Array Value} (reach : h.Reaches everyField root v)
    (ref : v.ref? = some r) (fresh : c.copies.lookup r.id = none)
    (items : CopyStep h root (c.allot r.id).2 c')
    (copies : List.Forall₂ (c'.IsCopy h) (h.tail r) values.toList) :
    CopyStep h root c (c'.fill (c.allot r.id).1 values) := by
  have own : (c.allot r.id).1.id = c.heap.blocks.size := rfl
  have size : (c.allot r.id).2.heap.blocks.size = c.heap.blocks.size + 1 := Array.size_push _
  have larger := items.grows.blockCount_le
  refine ⟨Grows.editNewBlock items.grows fun _ => values, fun id copy known => ?_,
    fun id copy last => ?_⟩
  · have other : id ≠ r.id := by
      rintro rfl
      rw [fresh] at known
      cases known
    exact items.known id copy (by rw [c.lookup_allot, if_neg other, known])
  · rcases items.made id copy last with now | ⟨new, present, x, s, reach', ref', at_id, copies'⟩
    · rw [c.lookup_allot] at now
      split at now
      · next same =>
        cases now
        subst same
        have present : (c.allot r.id).1.id < c'.heap.blocks.size := by omega
        refine .inr ⟨Nat.le_refl _, by rw [c'.size_fill]; exact present, v, r, reach, ref, rfl, ?_⟩
        rw [Copying.tail_fill present]
        exact copies.imp fun _ _ is_copy => is_copy.fill _ _
      · exact .inl now
    · have apart : copy.id ≠ (c.allot r.id).1.id := by omega
      refine .inr ⟨by omega, by rw [c'.size_fill]; exact present, x, s, reach', ref', at_id, ?_⟩
      rw [Copying.tail_fill_of_ne apart]
      exact copies'.imp fun _ _ is_copy => is_copy.fill _ _

/-! ## Everything that is reached is copied -/

/-- A value whose copy can be equal to it. The copy of an object is a new object, and some decimals
are not equal to themselves. -/
def Copyable (h : Heap) : Value → Prop
  | .block r => r.id < h.blocks.size
  | .paren r => r.id < h.blocks.size
  | .text id => id < h.texts.size
  | .object _ => False
  | .decimal x => (x == x) = true
  | _ => True

theorem Copyable.series (copyable : h.Copyable v) (ref : v.ref? = some r) :
    r.id < h.blocks.size := by
  cases v <;> cases ref <;> exact copyable

/-- What is copied is known as a copy afterwards. -/
theorem Copying.IsCopy.of_known {copy : BlockRef} (ref : v.ref? = some r)
    (known : c.copies.lookup r.id = some copy) : c.IsCopy h v (v.withRef copy) := by
  cases v <;> cases ref
  · exact .block known
  · exact .paren known

/-- A copyable value that refers to no series is copied to one that is equal to it. -/
theorem CopyStep.leaf (root : Value) (copyable : h.Copyable v) (leaf : v.ref? = none)
    (grown : h.Grows c.heap) :
    let c' : Copying := { c with heap := (c.heap.shallowCopy v).2 }
    CopyStep h root c c' ∧ c'.IsCopy h v (c.heap.shallowCopy v).1 := by
  cases v with
  | block r => cases leaf
  | paren r => cases leaf
  | text id =>
    have step : CopyStep h root c { c with heap := (c.heap.newText (c.heap.text id)).2 } :=
      ⟨.newText c.heap _, fun _ _ known => known, fun _ _ => .inl⟩
    exact ⟨step, .text Array.getElem?_push_size (grown.text_eq copyable)⟩
  | object id => exact copyable.elim
  | _ => exact ⟨.refl c, .leaf rfl⟩

theorem Copied.step {vs ws : List Value} (copied : Copied c vs ws c')
    (copyable : ∀ x, h.Reaches everyField root x → h.Copyable x) (grown : h.Grows c.heap)
    (reach : ∀ x ∈ vs, h.Reaches everyField root x) :
    CopyStep h root c c' ∧ List.Forall₂ (c'.IsCopy h) vs ws := by
  induction copied with
  | nil c => exact ⟨.refl c, .nil⟩
  | known ref known rest ih =>
    obtain ⟨step, copies⟩ := ih grown fun x later => reach x (List.mem_cons_of_mem _ later)
    exact ⟨step, .cons ((Copying.IsCopy.of_known ref known).mono step) copies⟩
  | @fresh c c' c'' v vs ws values r ref fresh inside rest ih_inside ih =>
    have here := reach v List.mem_cons_self
    have tail := grown.tail_eq ((copyable v here).series ref)
    obtain ⟨steps, items⟩ := ih_inside (grown.trans (.newBlock _ _)) fun x item =>
      here.held (held_of_ref ref ▸ tail ▸ item)
    have first : CopyStep h root c (c'.fill (c.allot r.id).1 values.toArray) :=
      .fill here ref fresh steps (tail ▸ items)
    have known : (c'.fill (c.allot r.id).1 values.toArray).copies.lookup r.id =
        some (c.allot r.id).1 :=
      steps.known r.id _ (by rw [c.lookup_allot, if_pos rfl])
    obtain ⟨step, copies⟩ := ih (grown.trans first.grows) fun x later =>
      reach x (List.mem_cons_of_mem _ later)
    exact ⟨first.trans step, .cons ((Copying.IsCopy.of_known ref known).mono step) copies⟩
  | @leaf c c' v vs ws leaf rest ih =>
    obtain ⟨first, is_copy⟩ :=
      CopyStep.leaf root (copyable v (reach v List.mem_cons_self)) leaf grown
    obtain ⟨step, copies⟩ := ih (grown.trans first.grows) fun x later =>
      reach x (List.mem_cons_of_mem _ later)
    exact ⟨first.trans step, .cons (is_copy.mono step) copies⟩

theorem deepCopy_copies (copyable : ∀ x, h.Reaches everyField v x → h.Copyable x) :
    ∃ c, CopyStep h v { heap := h } c ∧ c.IsCopy h v (h.deepCopy v).1 ∧
      c.heap = (h.deepCopy v).2 := by
  have copied := copied_copyDeep (fun x _ reach => (copyable x reach).series) (Nat.lt_succ_self _)
  obtain ⟨step, copies⟩ := copied.step copyable (.refl h) fun x item =>
    List.mem_singleton.mp item ▸ .start
  cases copies with
  | cons is_copy _ => exact ⟨_, step, is_copy, rfl⟩

/-! ## When a copy is equal to the original -/

theorem container_of_ref (ref : v.ref? = some r) : v.container? = some (.block r.id) := by
  cases v <;> cases ref <;> rfl

theorem ref_of_container {id : Nat} (found : v.container? = some (.block id)) :
    ∃ r, v.ref? = some r ∧ r.id = id := by
  cases v with
  | block r => exact ⟨r, rfl, by cases found; rfl⟩
  | paren r => exact ⟨r, rfl, by cases found; rfl⟩
  | _ => cases found

theorem held_of_no_ref (copyable : h.Copyable v) (noRef : v.ref? = none) :
    h.held everyField v = [] := by
  cases v with
  | block r => cases noRef
  | paren r => cases noRef
  | object id => exact copyable.elim
  | _ => rfl

/-- Two tails of one series are equal when they are equally long. -/
theorem tail_eq_of_length {s : BlockRef} (same : s.id = r.id)
    (lengths : (h.tail s).length = (h.tail r).length) : h.tail s = h.tail r := by
  have suffix (r : BlockRef) : h.tail r <:+ (h.items r.id).toList := List.drop_suffix _ _
  have inside := List.suffix_of_suffix_length_le (same ▸ suffix s) (suffix r) lengths.le
  exact inside.eq_of_length lengths

theorem leavesEqual_self (copyable : h.Copyable v) (leaf : v.container? = none) (h' : Heap) :
    h'.leavesEqual true v v = true := by
  cases v with
  | decimal x => exact copyable
  | function f => cases f <;> simp [leavesEqual, Function.isSame]
  | block r => cases leaf
  | paren r => cases leaf
  | text id => cases leaf
  | object id => cases leaf
  | _ => simp [leavesEqual]

theorem exists_both_of_mem {α β : Type} {P : α → β → Prop} {Q : β → α → Prop} {xs : List α}
    {ys : List β} (left : List.Forall₂ P xs ys) (right : List.Forall₂ Q ys xs) {x : α}
    (member : x ∈ xs) : ∃ y, P x y ∧ Q y x := by
  induction left with
  | nil => cases member
  | cons related _ ih =>
    cases right with
    | cons related' rest =>
      rcases List.mem_cons.mp member with rfl | later
      · exact ⟨_, related, related'⟩
      · exact ih rest later

section Finished

variable (copyable : ∀ x, h.Reaches everyField root x → h.Copyable x)
  (step : CopyStep h root { heap := h } c)

include step

theorem CopyStep.filled {id : Nat} {copy : BlockRef} (known : c.copies.lookup id = some copy) :
    c.Filled h root id copy := by
  rcases step.made id copy known with old | ⟨-, filled⟩
  · cases old
  · exact filled

include copyable

/-- Copies of equal parts are equal to the originals. -/
theorem bisimilar_of_uniform (uniform : h.Uniform everyField root)
    (reach : h.Reaches everyField root x) (is_copy : c.IsCopy h x y) :
    Bisimilar c.heap true y x := by
  let R : Value → Value → Prop := fun y x =>
    (∃ segment : Segment, y = segment.value ∧ x = segment.value) ∨
      h.Reaches everyField root x ∧ c.IsCopy h x y
  refine ⟨R, ?_, .inr ⟨reach, is_copy⟩⟩
  have items (r copy : BlockRef) (x : Value) (reach : h.Reaches everyField root x)
      (ref : x.ref? = some r) (known : c.copies.lookup r.id = some copy) :
      List.Forall₂ R (c.heap.tail copy) (c.heap.tail r) := by
    obtain ⟨-, x', s, reach', ref', same, copies⟩ := step.filled known
    have held := uniform x' x reach' reach
      (by rw [container_of_ref ref', container_of_ref ref, same])
    rw [held_of_ref ref', held_of_ref ref] at held
    rw [step.grows.tail_eq ((copyable x reach).series ref)]
    rw [held] at copies
    obtain ⟨lengths, pairs⟩ := List.forall₂_iff_zip.mp copies
    refine List.Forall₂.flip (List.forall₂_iff_zip.mpr ⟨lengths, fun {a b} pair => .inr ?_⟩)
    exact ⟨reach.held (held_of_ref ref ▸ (List.of_mem_zip pair).1), pairs pair⟩
  rintro y x (⟨segment, rfl, rfl⟩ | ⟨reach, is_copy⟩)
  · cases segment with
    | name text => exact .leaves (.word (fun _ => rfl) text)
    | index n => exact .leaves (.integer n)
  · cases is_copy with
    | block known => exact .blocks (items _ _ _ reach rfl known)
    | paren known => exact .parens (items _ _ _ reach rfl known)
    | @text id own s present same =>
      have inside : id < h.texts.size := copyable _ reach
      refine .leaves (.exactText rfl ?_)
      rw [step.grows.text_eq inside, ← same, text, present]
      rfl
    | leaf leaf =>
      exact matches_of_leavesEqual (leavesEqual_self (copyable _ reach) leaf c.heap)
        fun segment => .inl ⟨segment, rfl, rfl⟩

/-- A copy that is equal to its original has as many items. -/
theorem items_of_bisimilar (reach : h.Reaches everyField root x) (ref : x.ref? = some r)
    (is_copy : c.IsCopy h x y) (similar : Bisimilar c.heap true y x) :
    ∃ copy, c.copies.lookup r.id = some copy ∧
      List.Forall₂ (c.IsCopy h) (h.tail r) (c.heap.tail copy) ∧
      List.Forall₂ (Bisimilar c.heap true) (c.heap.tail copy) (h.tail r) := by
  have pair : ∃ copy, c.copies.lookup r.id = some copy ∧ blockPair? y x = some (copy, r) := by
    cases is_copy with
    | block known => cases ref; exact ⟨_, known, rfl⟩
    | paren known => cases ref; exact ⟨_, known, rfl⟩
    | text present same => cases ref
    | leaf leaf => rw [container_of_ref ref] at leaf; cases leaf
  obtain ⟨copy, known, pair⟩ := pair
  obtain ⟨-, x', s, reach', ref', same, copies⟩ := step.filled known
  have items := items_of_pair pair similar.unfold
  rw [step.grows.tail_eq ((copyable x reach).series ref)] at items
  have tails := tail_eq_of_length same (copies.length_eq.trans items.length_eq)
  exact ⟨copy, known, tails ▸ copies, items⟩

theorem bisimilar_below (is_copy : c.IsCopy h root y) (similar : Bisimilar c.heap true y root)
    (reach : h.Reaches everyField root x) :
    ∃ z, c.IsCopy h x z ∧ Bisimilar c.heap true z x := by
  induction reach with
  | refl => exact ⟨y, is_copy, similar⟩
  | @tail x w reach item ih =>
    obtain ⟨z, is_copy', similar'⟩ := ih
    cases ref : x.ref? with
    | none =>
      rw [Holds, held_of_no_ref (copyable x reach) ref] at item
      cases item
    | some r =>
      obtain ⟨copy, -, copies, items⟩ :=
        items_of_bisimilar copyable step reach ref is_copy' similar'
      exact exists_both_of_mem copies items (held_of_ref ref ▸ item)

theorem uniform_of_bisimilar (is_copy : c.IsCopy h root y)
    (similar : Bisimilar c.heap true y root) : h.Uniform everyField root := by
  intro x x' reach reach' same
  cases ref : x.ref? with
  | none =>
    have ref' : x'.ref? = none := by
      by_contra some
      obtain ⟨s, ref'⟩ := Option.ne_none_iff_exists'.mp some
      obtain ⟨r, ref'', -⟩ := ref_of_container (same.trans (container_of_ref ref'))
      exact Option.some_ne_none r (ref''.symm.trans ref)
    rw [held_of_no_ref (copyable x reach) ref, held_of_no_ref (copyable x' reach') ref']
  | some r =>
    obtain ⟨s, ref', at_id⟩ := ref_of_container (same.symm.trans (container_of_ref ref))
    obtain ⟨z, copied, similar_z⟩ := bisimilar_below copyable step is_copy similar reach
    obtain ⟨copy, known, copies, -⟩ := items_of_bisimilar copyable step reach ref copied similar_z
    obtain ⟨z', copied', similar_z'⟩ := bisimilar_below copyable step is_copy similar reach'
    obtain ⟨copy', known', copies', -⟩ :=
      items_of_bisimilar copyable step reach' ref' copied' similar_z'
    rw [at_id, known] at known'
    cases known'
    rw [held_of_ref ref, held_of_ref ref']
    exact (tail_eq_of_length at_id (copies'.length_eq.trans copies.length_eq.symm)).symm

end Finished

/-- A deep copy of a value without objects is strictly equal to it exactly if all references that
are reached in one series have the same items before them. -/
theorem deepCopy_equal_iff (h : Heap) (v : Value)
    (copyable : ∀ x, h.Reaches everyField v x → h.Copyable x) :
    (h.deepCopy v).2.strictEqual (h.deepCopy v).1 v = true ↔ h.Uniform everyField v := by
  obtain ⟨c, step, is_copy, heap⟩ := deepCopy_copies copyable
  rw [← heap, strictEqual, equalIn_iff_bisimilar]
  constructor
  · exact uniform_of_bisimilar copyable step is_copy
  · intro uniform
    exact bisimilar_of_uniform copyable step uniform .start is_copy

/-- A block that holds itself and, twice, another one. -/
theorem deepCopy_equal_cycle :
    let s : Series (Array Value) := { data := #[.integer 1, .text 0] }
    let t : Series (Array Value) := { data := #[.block ⟨1, 0⟩, .block ⟨0, 1⟩, .paren ⟨0, 1⟩] }
    let h : Heap := { blocks := #[s, t], texts := #[{ data := "a" }] }
    let v := Value.block ⟨1, 0⟩
    (∀ x, h.Reaches everyField v x → h.Copyable x) ∧
      ((h.deepCopy v).2.strictEqual (h.deepCopy v).1 v = true ↔ h.Uniform everyField v) ∧
      (h.deepCopy v).2.strictEqual (h.deepCopy v).1 v = true := by
  intro s t h v
  let values := [v, .block ⟨0, 1⟩, .paren ⟨0, 1⟩, .text 0]
  have closed : ∀ x ∈ values, ∀ y ∈ h.held everyField x, y ∈ values := by
    simp [values, h, s, t, v, held, tail, items]
  have all : ∀ x ∈ values, h.Copyable x := by
    simp [values, h, s, t, v, Copyable]
  have copyable : ∀ x, h.Reaches everyField v x → h.Copyable x := fun x reach =>
    all x (reach.mem_of_closed List.mem_cons_self closed)
  exact ⟨copyable, deepCopy_equal_iff h v copyable, by decide⟩

/-- The copy of `[s' s]`, where `s'` is the series `s` from its second item on, is not equal to it:
both references become the copy of `s'`. -/
theorem deepCopy_unequal :
    let s : Series (Array Value) := { data := #[.integer 1, .integer 2] }
    let t : Series (Array Value) := { data := #[.block ⟨0, 1⟩, .block ⟨0, 0⟩] }
    let h : Heap := { blocks := #[s, t] }
    let v := Value.block ⟨1, 0⟩
    (∀ x, h.Reaches everyField v x → h.Copyable x) ∧
      (h.deepCopy v).2.strictEqual (h.deepCopy v).1 v = false := by
  intro s t h v
  let values := [v, .block ⟨0, 1⟩, .block ⟨0, 0⟩, .integer 1, .integer 2]
  have closed : ∀ x ∈ values, ∀ y ∈ h.held everyField x, y ∈ values := by
    simp [values, h, s, t, v, held, tail, items]
  have all : ∀ x ∈ values, h.Copyable x := by
    simp [values, h, s, t, v, Copyable]
  exact ⟨fun x reach => all x (reach.mem_of_closed List.mem_cons_self closed), by decide⟩

end Heap

end BlockScript
