import BlockScript.Interpreter
import BlockScript.Proofs.Sites
import Mathlib.Algebra.Group.Nat.Defs

/-!
# Series as lists

The natives that change or read a block are operations on the list of its items. A reference may lie
past the tail, as another one may have cleared the series in the meantime, and what is added may be
the series itself or a reference into it: what is added is read before anything is changed, and a
position past the tail counts as the tail for insertion and clearing, and has no items behind it. No
other container changes, nor anything else.
-/

namespace BlockScript

def Heap.Open (h : Heap) (id : Nat) (xs : List Value) : Prop :=
  h.blocks[id]? = some ⟨xs.toArray, false⟩

/-- One series was open and has other items now. It still is open, and nothing else changed. -/
structure State.Rewrites (s : State) (id : Nat) (ys : List Value) (t : State) : Prop where
  contents : t.heap.Open id ys
  others : ∀ id', id' ≠ id → t.heap.blocks[id']? = s.heap.blocks[id']?
  size : t.heap.blocks.size = s.heap.blocks.size
  besides : { t with heap := { t.heap with blocks := s.heap.blocks } } = s

namespace SeriesAccess

/-- What a value adds to a block: the items of a block from its position on, or the value, if it is
no block or is to be added as it is. -/
inductive Adds (h : Heap) (only : Bool) : Value → List Value → Prop where
  | tail {r : BlockRef} (spliced : only = false) :
      Adds h only (.block r) ((h.items r.id).toList.drop r.index)
  | value {v : Value} (whole : only = true ∨ ∀ r, v ≠ .block r) : Adds h only v [v]

def position (r : BlockRef) (place : Int64) : Nat := r.index + (place.toInt.toNat - 1)

/-- The same position, counted in words of 64 bits that wrap around. -/
def wordPosition (r : BlockRef) (place : Int64) : UInt64 :=
  UInt64.ofNat r.index + (place.toUInt64 - 1)

def Within (r : BlockRef) (xs : List Value) (place : Int64) : Prop :=
  1 ≤ place.toInt ∧ place.toInt ≤ (xs.length : Int) - r.index

instance (r : BlockRef) (xs : List Value) (place : Int64) : Decidable (Within r xs place) :=
  inferInstanceAs (Decidable (_ ∧ _))

variable {ev : Evaluator} {s : State} {h : Heap} {r : BlockRef} {xs : List Value} {args : Args}
  {place : Int64}

/-! ## Positions -/

theorem adds_spliced (h : Heap) (only : Bool) (v : Value) : Adds h only v (spliced h only v) := by
  cases v with
  | block r =>
    cases only with
    | false => exact .tail rfl
    | true => exact .value (.inl rfl)
  | _ => exact .value (.inr fun _ => Value.noConfusion)

/-- A position at or past the tail has no places. -/
theorem within_iff : Within r xs place ↔ 1 ≤ place.toInt ∧ position r place < xs.length := by
  unfold Within position
  omega

/-- No place leads a position past what a word holds. -/
theorem toNat_wordPosition (small : r.index < 2 ^ 63) (counted : 1 ≤ place.toInt) :
    (wordPosition r place).toNat = position r place := by
  have word : place.toInt = place.toUInt64.toBitVec.toInt := rfl
  rw [BitVec.toInt_eq_toNat_cond, UInt64.toNat_toBitVec] at word
  have bounded : place.toUInt64.toNat < 2 ^ 64 := place.toUInt64.toNat_lt
  have size : UInt64.size = 2 ^ 64 := rfl
  have one : (1 : UInt64) ≤ place.toUInt64 := by
    rw [UInt64.le_iff_toNat_le]
    change 1 ≤ place.toUInt64.toNat
    split at word <;> omega
  rw [wordPosition, position, UInt64.toNat_add, UInt64.toNat_sub_of_le _ _ one,
    UInt64.toNat_ofNat_of_lt' (by omega), UInt64.toNat_one]
  split at word <;> omega

/-! ## Changes -/

theorem items_of_open (opened : h.Open r.id xs) : h.items r.id = xs.toArray := by
  rw [Heap.items, opened]
  rfl

theorem isBlockProtected_of_open (opened : h.Open r.id xs) : h.isBlockProtected r.id = false := by
  rw [Heap.isBlockProtected, opened]
  rfl

/-- A change of an open series is carried out, and is all that changes. -/
theorem editBlock_rewrites (opened : s.heap.Open r.id xs) (change : Array Value → Array Value)
    (ys : List Value) (changed : change xs.toArray = ys.toArray) :
    ∃ t, editBlock r.id change s = .ok () t ∧ s.Rewrites r.id ys t := by
  refine ⟨{ s with heap := s.heap.editBlock r.id change }, ?_, ?_, fun id other => ?_, ?_, rfl⟩
  · rw [editBlock_apply, isBlockProtected_of_open opened]
    rfl
  · have held : s.heap.blocks[r.id]? = some ⟨xs.toArray, false⟩ := opened
    simp [Heap.Open, Heap.editBlock, Array.getElem?_modify, held, changed]
  · simp [Heap.editBlock, Array.getElem?_modify, other.symm]
  · simp [Heap.editBlock]

/-! ## Poke and pick at a place -/

theorem pokeItem_open (opened : s.heap.Open r.id xs) (place : Int64) (v : Value) :
    pokeItem r place v s =
      if Within r xs place then editBlock r.id (·.setIfInBounds (position r place) v) s
      else .error (.raised { cause := .pastEnd }) s := by
  have size : (s.heap.items r.id).size = xs.length := by simp [items_of_open opened]
  unfold pokeItem
  by_cases counted : place.toInt < 1
  · rw [if_pos counted, if_neg]
    · rfl
    · exact fun within => absurd within.1 (by omega)
  · rw [if_neg counted]
    refine (bind_getHeap _).trans ?_
    rw [isBlockProtected_of_open opened, size]
    have inside : Within r xs place ↔ r.index + (place.toInt.toNat - 1) < xs.length :=
      within_iff.trans (and_iff_right (by omega))
    simp only [inside, Bool.false_eq_true, if_false]
    split <;> rfl

theorem pick_open (opened : h.Open r.id xs) (place : Int64) :
    h.pick r place = if Within r xs place then xs[position r place]?.getD .none else .none := by
  have item : h.item? r (r.index + (place.toInt.toNat - 1)) = xs[position r place]? := by
    simp [Heap.item?, items_of_open opened, position]
  rw [Heap.pick, item]
  by_cases counted : 1 ≤ place.toInt
  · by_cases inside : position r place < xs.length
    · rw [if_pos counted, if_pos (within_iff.mpr ⟨counted, inside⟩)]
    · rw [if_pos counted, if_neg fun within => inside (within_iff.mp within).2,
        List.getElem?_eq_none (not_lt.mp inside)]
      rfl
  · rw [if_neg counted, if_neg fun within => counted within.1]

/-! ## The natives -/

section Natives

variable (opened : s.heap.Open r.id xs) (series : args.value 0 = .block r)

include opened series

theorem append_refines : ∃ items t, Adds s.heap (args.refined 2) (args.value 1) items ∧
    append args s = .ok (.block r) t ∧ s.Rewrites r.id (xs ++ items) t := by
  obtain ⟨t, edited, rewrites⟩ :=
    editBlock_rewrites opened (· ++ spliced s.heap (args.refined 2) (args.value 1))
      (xs ++ spliced s.heap (args.refined 2) (args.value 1)) (by simp)
  refine ⟨_, t, adds_spliced _ _ _, ?_, rewrites⟩
  unfold append
  rw [series]
  refine (bind_getHeap _).trans ?_
  exact bind_of_ok edited _

theorem insert_refines : ∃ items t, Adds s.heap (args.refined 2) (args.value 1) items ∧
    insert args s =
      .ok (.block { r with index := min r.index xs.length + items.length }) t ∧
    s.Rewrites r.id (xs.take (min r.index xs.length) ++ items ++ xs.drop (min r.index xs.length))
      t := by
  let items := spliced s.heap (args.refined 2) (args.value 1)
  let start := min r.index (s.heap.items r.id).size
  have same : start = min r.index xs.length := by
    simp [start, items_of_open opened]
  obtain ⟨t, edited, rewrites⟩ :=
    editBlock_rewrites opened (fun own => own.take start ++ items ++ own.drop start)
      (xs.take start ++ items ++ xs.drop start) (by simp)
  refine ⟨items, t, adds_spliced _ _ _, ?_, same ▸ rewrites⟩
  unfold insert
  rw [series, ← same]
  refine (bind_getHeap _).trans ?_
  exact bind_of_ok edited _

theorem clear_refines : ∃ t, clear args s = .ok (.block r) t ∧
    s.Rewrites r.id (xs.take r.index) t := by
  obtain ⟨t, edited, rewrites⟩ :=
    editBlock_rewrites opened (·.take r.index) (xs.take r.index) (by simp)
  refine ⟨t, ?_, rewrites⟩
  unfold clear
  rw [series]
  exact bind_of_ok edited _

omit opened in
theorem poke_apply (counted : args.value 1 = .integer place) :
    poke args s = (pokeItem r place (args.value 2) >>= fun _ => pure (args.value 2)) s := by
  unfold poke
  rw [series, counted]
  rfl

theorem poke_within (counted : args.value 1 = .integer place) (within : Within r xs place) :
    ∃ t, poke args s = .ok (args.value 2) t ∧
      s.Rewrites r.id (xs.set (position r place) (args.value 2)) t := by
  obtain ⟨t, edited, rewrites⟩ :=
    editBlock_rewrites opened (·.setIfInBounds (position r place) (args.value 2))
      (xs.set (position r place) (args.value 2)) (by simp)
  have poked : pokeItem r place (args.value 2) s = .ok () t := by
    rw [pokeItem_open opened, if_pos within, edited]
  exact ⟨t, (poke_apply series counted).trans (bind_of_ok poked _), rewrites⟩

theorem poke_outside (counted : args.value 1 = .integer place) (outside : ¬ Within r xs place) :
    poke args s = .error (.raised { cause := .pastEnd }) s := by
  have refused : pokeItem r place (args.value 2) s = .error (.raised { cause := .pastEnd }) s := by
    rw [pokeItem_open opened, if_neg outside]
  exact (poke_apply series counted).trans (bind_of_error refused _)

end Natives

theorem pick_apply (series : args.value 0 = .block r ∨ args.value 0 = .paren r)
    (counted : args.value 1 = .integer place) : pick args s = .ok (s.heap.pick r place) s := by
  unfold pick
  rw [counted]
  rcases series with series | series
  · rw [series]
    rfl
  · rw [series]
    rfl

theorem pick_within (opened : s.heap.Open r.id xs)
    (series : args.value 0 = .block r ∨ args.value 0 = .paren r)
    (counted : args.value 1 = .integer place) (within : Within r xs place) :
    ∃ v, xs[position r place]? = some v ∧ pick args s = .ok v s := by
  obtain ⟨v, item⟩ : ∃ v, xs[position r place]? = some v :=
    ⟨_, List.getElem?_eq_getElem (within_iff.mp within).2⟩
  refine ⟨v, item, ?_⟩
  rw [pick_apply series counted, pick_open opened, if_pos within, item]
  rfl

theorem pick_outside (opened : s.heap.Open r.id xs)
    (series : args.value 0 = .block r ∨ args.value 0 = .paren r)
    (counted : args.value 1 = .integer place) (outside : ¬ Within r xs place) :
    pick args s = .ok .none s := by
  rw [pick_apply series counted, pick_open opened, if_neg outside]

end SeriesAccess

open SeriesAccess

structure RefinesLists (ev : Evaluator) (s : State) (r : BlockRef) (xs : List Value) : Prop where
  append (args : Args) (series : args.value 0 = .block r) :
    ∃ items t, Adds s.heap (args.refined 2) (args.value 1) items ∧
      Native.append.run ev args s = .ok (.block r) t ∧ s.Rewrites r.id (xs ++ items) t
  /-- What is returned stands behind what was inserted, and not past the tail. -/
  insert (args : Args) (series : args.value 0 = .block r) :
    ∃ items t before, Adds s.heap (args.refined 2) (args.value 1) items ∧
      before = min r.index xs.length ∧ before + items.length ≤ (xs ++ items).length ∧
      Native.insert.run ev args s = .ok (.block { r with index := before + items.length }) t ∧
      s.Rewrites r.id (xs.take before ++ items ++ xs.drop before) t
  clear (args : Args) (series : args.value 0 = .block r) :
    ∃ t, Native.clear.run ev args s = .ok (.block r) t ∧ s.Rewrites r.id (xs.take r.index) t
  pick (args : Args) (place : Int64) (series : args.value 0 = .block r ∨ args.value 0 = .paren r)
    (counted : args.value 1 = .integer place) :
    (Within r xs place →
      ∃ v, xs[position r place]? = some v ∧ Native.pick.run ev args s = .ok v s) ∧
    (¬ Within r xs place → Native.pick.run ev args s = .ok .none s)
  /-- What was poked is picked at its place, and all other items stay. -/
  poke (args : Args) (place : Int64) (series : args.value 0 = .block r)
    (counted : args.value 1 = .integer place) :
    (Within r xs place →
      ∃ t ys, Native.poke.run ev args s = .ok (args.value 2) t ∧ s.Rewrites r.id ys t ∧
        ys.length = xs.length ∧ (∀ n, n ≠ position r place → ys[n]? = xs[n]?) ∧
        ∀ args' : Args, args'.value 0 = .block r → args'.value 1 = .integer place →
          Native.pick.run ev args' t = .ok (args.value 2) t) ∧
    (¬ Within r xs place →
      Native.poke.run ev args s = .error (.raised { cause := .pastEnd }) s)
  /-- No place moves a position that fits in 63 bits past what a word holds. -/
  words (small : r.index < 2 ^ 63) (place : Int64) (counted : 1 ≤ place.toInt) :
    (wordPosition r place).toNat = position r place

/-- Append, insert, clear, pick and poke are operations on the list of items of a series, whatever
the position of the reference and whatever is added. -/
theorem natives_refine_lists (ev : Evaluator) {s : State} {r : BlockRef} {xs : List Value}
    (opened : s.heap.Open r.id xs) : RefinesLists ev s r xs where
  append args series := append_refines opened series
  insert args series := by
    obtain ⟨items, t, adds, inserted, rewrites⟩ := insert_refines opened series
    refine ⟨items, t, _, adds, rfl, ?_, inserted, rewrites⟩
    rw [List.length_append]
    omega
  clear args series := clear_refines opened series
  pick args place series counted :=
    ⟨pick_within opened series counted, pick_outside opened series counted⟩
  poke args place series counted := by
    refine ⟨fun within => ?_, poke_outside opened series counted⟩
    obtain ⟨t, poked, rewrites⟩ := poke_within opened series counted within
    have inside := (within_iff.mp within).2
    refine ⟨t, _, poked, rewrites, List.length_set, fun n other => ?_, ?_⟩
    · rw [List.getElem?_set_ne other.symm]
    · intro args' series' counted'
      have still : Within r (xs.set (position r place) (args.value 2)) place := by
        rwa [Within, List.length_set]
      obtain ⟨v, item, picked⟩ := pick_within rewrites.contents (.inl series') counted' still
      rw [List.getElem?_set_self inside] at item
      cases item
      exact picked
  words small place counted := toNat_wordPosition small counted

/-- Through a reference past the tail, a series is inserted into itself: that is at its tail, and
what is inserted is what the series was before. -/
theorem natives_refine_lists_itself :
    let s : State := { heap := { blocks := #[⟨#[.integer 1, .integer 2], false⟩] }, env := ⟨0, []⟩ }
    s.heap.Open 0 [.integer 1, .integer 2] ∧
      ∃ t, Native.insert.run Interpreter.standard #[.block ⟨0, 7⟩, .block ⟨0, 1⟩, .none] s =
          .ok (.block ⟨0, 3⟩) t ∧
        s.Rewrites 0 [.integer 1, .integer 2, .integer 2] t := by
  intro s
  have opened : s.heap.Open 0 [.integer 1, .integer 2] := rfl
  refine ⟨opened, ?_⟩
  obtain ⟨items, t, before, adds, rfl, -, inserted, rewrites⟩ :=
    (natives_refine_lists (r := ⟨0, 7⟩) Interpreter.standard opened).insert
      #[.block ⟨0, 7⟩, .block ⟨0, 1⟩, .none] rfl
  cases adds with
  | tail spliced => exact ⟨t, inserted, rewrites⟩
  | value whole =>
    rcases whole with whole | whole
    · cases whole
    · exact absurd rfl (whole ⟨0, 1⟩)

end BlockScript
