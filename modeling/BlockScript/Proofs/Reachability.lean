import BlockScript.Heap
import Mathlib.Data.Finset.Card
import Mathlib.Logic.Relation

/-!
# Reachability

A block or paren holds the items from the position of the reference on, an object the values of its
fields. Two references into one series can have different positions and hold different items, so
what can be reached is a relation between values and not between containers.
-/

namespace BlockScript

def Value.container? : Value → Option Container
  | .block r => some (.block r.id)
  | .paren r => some (.block r.id)
  | .text id => some (.text id)
  | .object id => some (.object id)
  | _ => Option.none

def everyField : Field → Bool := fun _ => true

namespace Heap

variable (h : Heap) (counts : Field → Bool)

/-- The values directly inside a value; of an object those of the fields that count. -/
def held : Value → List Value
  | .block r => h.tail r
  | .paren r => h.tail r
  | .object id => ((h.frame id).fields.toList.filter counts).map (·.value)
  | _ => []

def Holds (v w : Value) : Prop := w ∈ h.held counts v

def Reaches : Value → Value → Prop := Relation.ReflTransGen (h.Holds counts)

def Inside : Value → Value → Prop := Relation.TransGen (h.Holds counts)

def ReachesContainer (v : Value) (c : Container) : Prop :=
  ∃ w, h.Reaches counts v w ∧ w.container? = some c

/-- All that is reached in one container leads to the same values. -/
def Uniform (v : Value) : Prop :=
  ∀ x y, h.Reaches counts v x → h.Reaches counts v y → x.container? = y.container? →
    h.held counts x = h.held counts y

variable {h : Heap} {counts : Field → Bool} {v w x : Value} {c : Container}

theorem Reaches.start : h.Reaches counts v v := .refl

theorem Reaches.held (reach : h.Reaches counts v w) (item : x ∈ h.held counts w) :
    h.Reaches counts v x := .tail reach item

theorem Reaches.below (item : w ∈ h.held counts v) (reach : h.Reaches counts w x) :
    h.Reaches counts v x := .head item reach

/-- What contains a value and all that is held by its members contains all that is reached. -/
theorem Reaches.mem_of_closed {values : List Value} (start : v ∈ values)
    (closed : ∀ x ∈ values, ∀ y ∈ h.held counts x, y ∈ values)
    (reach : h.Reaches counts v w) : w ∈ values := by
  induction reach with
  | refl => exact start
  | tail _ item ih => exact closed _ ih _ item

/-- What falls with every step down is lower inside. -/
theorem Inside.rank_lt {values : List Value} {rank : Value → Nat}
    (falls : ∀ x ∈ values, ∀ y ∈ h.held counts x, y ∈ values ∧ rank y < rank x) (start : v ∈ values)
    (inside : h.Inside counts v w) : rank w < rank v := by
  have below : w ∈ values ∧ rank w < rank v := by
    induction inside with
    | single item => exact falls v start _ item
    | tail _ item ih =>
      obtain ⟨member, lower⟩ := falls _ ih.1 _ item
      exact ⟨member, Nat.lt_trans lower ih.2⟩
  exact below.2

/-! ## Containers that can be entered -/

def containers (h : Heap) : Finset Container :=
  (Finset.range h.blocks.size).image .block ∪ (Finset.range h.frames.size).image .object

theorem card_containers_le (h : Heap) : h.containers.card ≤ h.containerCount := by
  calc h.containers.card
      ≤ ((Finset.range h.blocks.size).image Container.block).card +
          ((Finset.range h.frames.size).image Container.object).card := Finset.card_union_le _ _
    _ ≤ (Finset.range h.blocks.size).card + (Finset.range h.frames.size).card :=
        Nat.add_le_add Finset.card_image_le Finset.card_image_le
    _ = h.containerCount := by rw [Finset.card_range, Finset.card_range, containerCount]

theorem lt_size_of_mem_tail {r : BlockRef} (item : v ∈ h.tail r) : r.id < h.blocks.size := by
  have member : v ∈ (h.items r.id).toList := List.mem_of_mem_drop item
  by_contra outside
  simp [items, Array.getElem?_eq_none (Nat.le_of_not_lt outside)] at member

theorem lt_size_of_mem_fields {id : FrameId} {field : Field}
    (member : field ∈ (h.frame id).fields.toList) : id < h.frames.size := by
  by_contra outside
  simp [frame, Array.getD, outside] at member

/-- What holds something is a container in the heap. -/
theorem mem_containers_of_held (item : w ∈ h.held counts v) :
    ∃ c ∈ h.containers, v.container? = some c := by
  cases v with
  | block r =>
    have present := lt_size_of_mem_tail item
    exact ⟨.block r.id, by simp [containers, present], rfl⟩
  | paren r =>
    have present := lt_size_of_mem_tail item
    exact ⟨.block r.id, by simp [containers, present], rfl⟩
  | object id =>
    obtain ⟨field, member, -⟩ := List.mem_map.mp item
    have present := lt_size_of_mem_fields (List.mem_filter.mp member).1
    exact ⟨.object id, by simp [containers, present], rfl⟩
  | _ => exact absurd item List.not_mem_nil

end Heap

/-! ## What is left to meet -/

section Unmet

variable {α : Type} [DecidableEq α] {all : Finset α} {met met' : List α} {a : α}

def unmet (all : Finset α) (met : List α) : Nat := (all \ met.toFinset).card

theorem unmet_le (all : Finset α) (met : List α) : unmet all met ≤ all.card :=
  Finset.card_le_card Finset.sdiff_subset

theorem unmet_mono (more : met ⊆ met') : unmet all met' ≤ unmet all met := by
  refine Finset.card_le_card (Finset.sdiff_subset_sdiff (Finset.Subset.refl _) fun b hb => ?_)
  exact List.mem_toFinset.mpr (more (List.mem_toFinset.mp hb))

theorem unmet_cons_lt (member : a ∈ all) (fresh : a ∉ met) :
    unmet all (a :: met) < unmet all met := by
  unfold unmet
  rw [List.toFinset_cons, Finset.sdiff_insert]
  refine Finset.card_erase_lt_of_mem (Finset.mem_sdiff.mpr ⟨member, ?_⟩)
  rwa [List.mem_toFinset]

end Unmet

/-- What holds something is in the heap, so it is one container less to meet. -/
theorem Heap.unmet_held_lt {h : Heap} {counts : Field → Bool} {v w : Value} {c : Container}
    {met : List Container} (item : w ∈ h.held counts v) (found : v.container? = some c)
    (fresh : c ∉ met) : unmet h.containers (c :: met) < unmet h.containers met := by
  obtain ⟨c', present, found'⟩ := mem_containers_of_held item
  obtain rfl := Option.some.inj (found.symm.trans found')
  exact unmet_cons_lt present fresh

end BlockScript
