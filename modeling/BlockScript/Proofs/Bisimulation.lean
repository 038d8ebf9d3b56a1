import BlockScript.Heap.Equality
import Mathlib.Data.Finset.Prod
import Mathlib.Data.Finset.SDiff
import Mathlib.Data.List.Forall2

/-!
# Equality is bisimilarity

Blocks may hold themselves, so what it means for two values to be equal is said by bisimulations:
two values are bisimilar when some relation holds between them that nothing below them contradicts.
Equality decides this. A pair taken to be equal on the way down is one that is still being compared,
and induction on the depth at which a difference could show removes the assumption again.
-/

namespace BlockScript

def Segment.value : Segment → Value
  | .name text => .word .word text
  | .index n => .integer n

inductive LeavesAgree (h : Heap) (strict : Bool) : Value → Value → Prop where
  | unset : LeavesAgree h strict .unset .unset
  | none : LeavesAgree h strict .none .none
  | logic (flag : Bool) : LeavesAgree h strict (.logic flag) (.logic flag)
  | integer (n : Int64) : LeavesAgree h strict (.integer n) (.integer n)
  | decimal {x y : Float} (same : (x == y) = true) :
      LeavesAgree h strict (.decimal x) (.decimal y)
  | integerDecimal {n : Int64} {x : Float} (mode : strict = false)
      (same : (Decimal.nearest n == x) = true) : LeavesAgree h strict (.integer n) (.decimal x)
  | decimalInteger {n : Int64} {x : Float} (mode : strict = false)
      (same : (Decimal.nearest n == x) = true) : LeavesAgree h strict (.decimal x) (.integer n)
  | sameText (id : TextId) : LeavesAgree h strict (.text id) (.text id)
  | exactText {a b : TextId} (mode : strict = true) (same : h.text a = h.text b) :
      LeavesAgree h strict (.text a) (.text b)
  | foldedText {a b : TextId} (mode : strict = false)
      (same : Text.lower (h.text a) = Text.lower (h.text b)) :
      LeavesAgree h strict (.text a) (.text b)
  | word {ka kb : WordKind} (flavour : strict = true → ka = kb) (name : String) :
      LeavesAgree h strict (.word ka name) (.word kb name)
  | object (id : FrameId) : LeavesAgree h strict (.object id) (.object id)
  | function {f g : Function} (same : f.isSame g = true) :
      LeavesAgree h strict (.function f) (.function g)
  | error {e e' : EvalError} (same : e.cause = e'.cause) :
      LeavesAgree h strict (.error e) (.error e')
  | datatype (kind : Kind) : LeavesAgree h strict (.datatype kind) (.datatype kind)

/-- Two values match when they agree as far as the relation holds between what they are made of. -/
inductive Matches (h : Heap) (strict : Bool) (R : Value → Value → Prop) : Value → Value → Prop where
  | leaves {a b : Value} (agree : LeavesAgree h strict a b) : Matches h strict R a b
  | paths {ka kb : PathKind} {as bs : List Segment} (flavour : strict = true → ka = kb)
      (segments : List.Forall₂ (fun x y : Segment => R x.value y.value) as bs) :
      Matches h strict R (.path ka as) (.path kb bs)
  | blocks {r s : BlockRef} (items : List.Forall₂ R (h.tail r) (h.tail s)) :
      Matches h strict R (.block r) (.block s)
  | parens {r s : BlockRef} (items : List.Forall₂ R (h.tail r) (h.tail s)) :
      Matches h strict R (.paren r) (.paren s)

/-- The largest relation that implies that two values match in it. -/
def Bisimilar (h : Heap) (strict : Bool) (a b : Value) : Prop :=
  ∃ R : Value → Value → Prop, (∀ x y, R x y → Matches h strict R x y) ∧ R a b

variable {h : Heap} {strict : Bool} {a b : Value} {R S : Value → Value → Prop}

theorem Matches.mono (m : Matches h strict R a b) (hRS : ∀ x y, R x y → S x y) :
    Matches h strict S a b := by
  cases m with
  | leaves agree => exact .leaves agree
  | paths flavour segments => exact .paths flavour (segments.imp fun _ _ => hRS _ _)
  | blocks items => exact .blocks (items.imp hRS)
  | parens items => exact .parens (items.imp hRS)

/-- Bisimilarity is such a relation itself. -/
theorem Bisimilar.unfold (similar : Bisimilar h strict a b) :
    Matches h strict (Bisimilar h strict) a b := by
  obtain ⟨R, post, related⟩ := similar
  exact (post a b related).mono fun x y below => ⟨R, post, below⟩

/-! ## Leaves -/

theorem LeavesAgree.not_pair (agree : LeavesAgree h strict a b) :
    Heap.blockPair? a b = Option.none := by
  cases agree <;> rfl

theorem LeavesAgree.equal (agree : LeavesAgree h strict a b) :
    h.leavesEqual strict a b = true := by
  cases agree with
  | exactText mode same => simp [Heap.leavesEqual, mode, same]
  | foldedText mode same => simp [Heap.leavesEqual, mode, same]
  | word flavour name => cases strict <;> simp_all [Heap.leavesEqual]
  | _ => simp_all [Heap.leavesEqual]

/-- What is equal as a leaf or path matches in every relation that holds of equal segments. -/
theorem matches_of_leavesEqual (equal : h.leavesEqual strict a b = true)
    (refl : ∀ segment : Segment, R segment.value segment.value) : Matches h strict R a b := by
  unfold Heap.leavesEqual at equal
  split at equal
  · exact .leaves .unset
  · exact .leaves .none
  · obtain rfl := beq_iff_eq.mp equal
    exact .leaves (.logic _)
  · obtain rfl := beq_iff_eq.mp equal
    exact .leaves (.integer _)
  · exact .leaves (.decimal equal)
  · simp only [Bool.and_eq_true, Bool.not_eq_true'] at equal
    exact .leaves (.integerDecimal equal.1 equal.2)
  · simp only [Bool.and_eq_true, Bool.not_eq_true'] at equal
    exact .leaves (.decimalInteger equal.1 equal.2)
  · rcases Bool.or_eq_true_iff.mp equal with same | same
    · obtain rfl := beq_iff_eq.mp same
      exact .leaves (.sameText _)
    · cases strict with
      | true => exact .leaves (.exactText rfl (beq_iff_eq.mp same))
      | false => exact .leaves (.foldedText rfl (beq_iff_eq.mp same))
  · simp only [Bool.and_eq_true, Bool.or_eq_true, Bool.not_eq_true', beq_iff_eq] at equal
    obtain ⟨rfl, flavour⟩ := equal
    refine .leaves (.word (fun mode => ?_) _)
    exact flavour.resolve_left (by simp [mode])
  · simp only [Bool.and_eq_true, Bool.or_eq_true, Bool.not_eq_true', beq_iff_eq] at equal
    obtain ⟨flavour, rfl⟩ := equal
    refine .paths (fun mode => ?_) (List.forall₂_same.mpr fun segment _ => refl segment)
    exact flavour.resolve_left (by simp [mode])
  · obtain rfl := beq_iff_eq.mp equal
    exact .leaves (.object _)
  · exact .leaves (.function equal)
  · exact .leaves (.error (beq_iff_eq.mp equal))
  · obtain rfl := beq_iff_eq.mp equal
    exact .leaves (.datatype _)
  · cases equal

theorem Segment.eq_of_matches {x y : Segment} (m : Matches h strict R x.value y.value) : x = y := by
  cases x <;> cases y <;> cases m with
  | leaves agree => cases agree <;> rfl

theorem segments_eq {as bs : List Segment} (post : ∀ x y, R x y → Matches h strict R x y)
    (segments : List.Forall₂ (fun x y : Segment => R x.value y.value) as bs) : as = bs := by
  induction segments with
  | nil => rfl
  | cons related _ ih => rw [Segment.eq_of_matches (post _ _ related), ih]

/-- What matches in a bisimulation and is not a pair of blocks is equal as a leaf. -/
theorem leavesEqual_of_matches (post : ∀ x y, R x y → Matches h strict R x y)
    (m : Matches h strict R a b) (leaf : Heap.blockPair? a b = none) :
    h.leavesEqual strict a b = true := by
  cases m with
  | leaves agree => exact agree.equal
  | paths flavour segments =>
    rw [segments_eq post segments]
    cases strict <;> simp_all [Heap.leavesEqual]
  | blocks items => cases leaf
  | parens items => cases leaf

/-! ## Pairs of blocks -/

theorem Heap.length_tail (h : Heap) (r : BlockRef) : (h.tail r).length = h.length r := by
  rw [tail, length, List.length_drop, Array.length_toList]

theorem items_of_pair {r s : BlockRef} (pair : Heap.blockPair? a b = some (r, s))
    (m : Matches h strict R a b) : List.Forall₂ R (h.tail r) (h.tail s) := by
  cases m with
  | leaves agree => rw [agree.not_pair] at pair; cases pair
  | paths flavour segments => cases pair
  | blocks items => cases pair; exact items
  | parens items => cases pair; exact items

theorem matches_of_pair {r s : BlockRef} (pair : Heap.blockPair? a b = some (r, s))
    (items : List.Forall₂ R (h.tail r) (h.tail s)) : Matches h strict R a b := by
  unfold Heap.blockPair? at pair
  split at pair
  · cases pair; exact .blocks items
  · cases pair; exact .parens items
  · cases pair

/-- One level of the comparison of two blocks that is not cut short. -/
theorem same_pair_iff {r s : BlockRef} {fuel : Nat} {path : List (BlockRef × BlockRef)}
    (pair : Heap.blockPair? a b = some (r, s)) :
    h.same strict (fuel + 1) path a b = true ↔
      (h.tail r).length = (h.tail s).length ∧
        ((r, s) ∈ path ∨ ∀ x y, (x, y) ∈ (h.tail r).zip (h.tail s) →
          h.same strict fuel ((r, s) :: path) x y = true) := by
  rw [Heap.same, pair, h.length_tail, h.length_tail]
  simp only [Bool.and_eq_true, Bool.or_eq_true, beq_iff_eq, decide_eq_true_eq, List.all_eq_true,
    Prod.forall]

theorem same_leaf {fuel : Nat} {path : List (BlockRef × BlockRef)}
    (leaf : Heap.blockPair? a b = none) :
    h.same strict (fuel + 1) path a b = h.leavesEqual strict a b := by
  rw [Heap.same, leaf]

/-- Bisimilar values are found equal, whatever is assumed. -/
theorem same_of_bisimulation (post : ∀ x y, R x y → Matches h strict R x y) (fuel : Nat)
    (path : List (BlockRef × BlockRef)) (related : R a b) : h.same strict fuel path a b = true := by
  induction fuel generalizing path a b with
  | zero => rfl
  | succ fuel ih =>
    have m := post a b related
    cases pair : Heap.blockPair? a b with
    | none => rw [same_leaf pair, leavesEqual_of_matches post m pair]
    | some p =>
      obtain ⟨lengths, items⟩ := List.forall₂_iff_zip.mp (items_of_pair pair m)
      exact (same_pair_iff pair).mpr ⟨lengths, .inr fun x y item => ih _ (items item)⟩

/-! ## Agreement up to a depth -/

/-- Two values agree when no difference shows within a depth. -/
def Agree (h : Heap) (strict : Bool) : Nat → Value → Value → Prop
  | 0 => fun _ _ => True
  | n + 1 => Matches h strict (Agree h strict n)

theorem Agree.of_succ {n : Nat} (agree : Agree h strict (n + 1) a b) : Agree h strict n a b := by
  induction n generalizing a b with
  | zero => trivial
  | succ n ih => exact Matches.mono agree fun _ _ => ih

theorem Agree.segment (n : Nat) (segment : Segment) :
    Agree h strict n segment.value segment.value := by
  cases n with
  | zero => trivial
  | succ n =>
    cases segment with
    | name text => exact .leaves (.word (fun _ => rfl) text)
    | index i => exact .leaves (.integer i)

theorem Agree.blocks {n : Nat} {r s : BlockRef} (pair : Heap.blockPair? a b = some (r, s))
    (agree : Agree h strict n a b) : Agree h strict n (.block r) (.block s) := by
  cases n with
  | zero => trivial
  | succ n => exact Matches.blocks (items_of_pair pair agree)

theorem Bisimilar.agree (similar : Bisimilar h strict a b) (n : Nat) : Agree h strict n a b := by
  obtain ⟨R, post, related⟩ := similar
  induction n generalizing a b with
  | zero => trivial
  | succ n ih => exact (post a b related).mono fun x y => ih

theorem forall₂_of_forall {α : Type} {P : Nat → α → α → Prop} {as bs : List α}
    (all : ∀ n, List.Forall₂ (P n) as bs) : List.Forall₂ (fun x y => ∀ n, P n x y) as bs :=
  List.forall₂_iff_zip.mpr ⟨(all 0).length_eq, fun item n => List.forall₂_zip (all n) item⟩

theorem segments_of_matches {ka kb : PathKind} {as bs : List Segment}
    (m : Matches h strict R (.path ka as) (.path kb bs)) :
    List.Forall₂ (fun x y : Segment => R x.value y.value) as bs := by
  cases m with
  | leaves agree => cases agree
  | paths flavour segments => exact segments

/-- Agreement at every depth is a bisimulation. -/
theorem matches_of_forall_agree (all : ∀ n, Agree h strict n a b) :
    Matches h strict (fun x y => ∀ n, Agree h strict n x y) a b := by
  have shape : Matches h strict (Agree h strict 0) a b := all 1
  cases shape with
  | leaves agree => exact .leaves agree
  | paths flavour segments =>
    exact .paths flavour (forall₂_of_forall fun n => segments_of_matches (all (n + 1)))
  | blocks items => exact .blocks (forall₂_of_forall fun n => items_of_pair rfl (all (n + 1)))
  | parens items => exact .parens (forall₂_of_forall fun n => items_of_pair rfl (all (n + 1)))

theorem bisimilar_iff_agree : Bisimilar h strict a b ↔ ∀ n, Agree h strict n a b :=
  ⟨fun similar => similar.agree,
    fun all => ⟨fun x y => ∀ n, Agree h strict n x y, fun _ _ => matches_of_forall_agree, all⟩⟩

/-! ## References -/

def Value.ref? : Value → Option BlockRef
  | .block r => some r
  | .paren r => some r
  | _ => Option.none

def Heap.refs (h : Heap) : List BlockRef :=
  (h.blocks.toList.flatMap (·.data.toList)).filterMap Value.ref?

theorem Heap.mem_refs {h : Heap} {r s : BlockRef} {v : Value} (item : v ∈ h.tail r)
    (ref : v.ref? = some s) : s ∈ h.refs := by
  refine List.mem_filterMap.mpr ⟨v, ?_, ref⟩
  have member : v ∈ (h.items r.id).toList := List.mem_of_mem_drop item
  unfold items at member
  cases found : h.blocks[r.id]? with
  | none => simp [found] at member
  | some series =>
    rw [found] at member
    exact List.mem_flatMap.mpr ⟨series, by simpa using Array.mem_of_getElem? found, member⟩

theorem Heap.length_refs_le (h : Heap) : h.refs.length ≤ h.itemCount := by
  have count (series : List (Series (Array Value))) (n : Nat) :
      series.foldl (fun n s => n + s.data.size) n =
        n + (series.flatMap (·.data.toList)).length := by
    induction series generalizing n with
    | nil => simp
    | cons s series ih =>
      rw [List.foldl_cons, ih, List.flatMap_cons, List.length_append, Nat.add_assoc]
      rfl
  have total := count h.blocks.toList 0
  rw [Array.foldl_toList, Nat.zero_add] at total
  rw [itemCount, total]
  exact List.length_filterMap_le _ _

theorem refs_of_pair {r s : BlockRef} (pair : Heap.blockPair? a b = some (r, s)) :
    a.ref? = some r ∧ b.ref? = some s := by
  unfold Heap.blockPair? at pair
  split at pair
  · cases pair; exact ⟨rfl, rfl⟩
  · cases pair; exact ⟨rfl, rfl⟩
  · cases pair

def Value.Within (V : Finset BlockRef) (v : Value) : Prop := ∀ r, v.ref? = some r → r ∈ V

/-- How many pairs of given references are not yet being compared. -/
def remaining (V : Finset BlockRef) (path : List (BlockRef × BlockRef)) : Nat :=
  ((V ×ˢ V) \ path.toFinset).card

theorem remaining_cons_lt {V : Finset BlockRef} {path : List (BlockRef × BlockRef)}
    {r s : BlockRef} (hr : r ∈ V) (hs : s ∈ V) (fresh : (r, s) ∉ path) :
    remaining V ((r, s) :: path) < remaining V path := by
  unfold remaining
  rw [List.toFinset_cons, Finset.sdiff_insert]
  refine Finset.card_erase_lt_of_mem (Finset.mem_sdiff.mpr ⟨Finset.mk_mem_product hr hs, ?_⟩)
  rwa [List.mem_toFinset]

section Within

variable {V : Finset BlockRef} {path : List (BlockRef × BlockRef)}
  (closed : ∀ r ∈ h.refs, r ∈ V)

include closed

theorem within_of_mem_tail {r : BlockRef} {v : Value} (item : v ∈ h.tail r) : v.Within V :=
  fun _ ref => closed _ (Heap.mem_refs item ref)

/-- What is found equal under assumptions that hold up to a depth agrees up to that depth. -/
theorem agree_of_same {n fuel : Nat} (ha : a.Within V) (hb : b.Within V)
    (enough : remaining V path < fuel)
    (assumed : ∀ p ∈ path, Agree h strict n (.block p.1) (.block p.2))
    (same : h.same strict fuel path a b = true) : Agree h strict n a b := by
  induction n generalizing fuel path a b with
  | zero => trivial
  | succ n ih =>
    obtain ⟨fuel, rfl⟩ := Nat.exists_eq_succ_of_ne_zero (Nat.ne_zero_of_lt enough)
    cases pair : Heap.blockPair? a b with
    | none =>
      rw [Nat.succ_eq_add_one, same_leaf pair] at same
      exact matches_of_leavesEqual same (Agree.segment n)
    | some p =>
      obtain ⟨r, s⟩ := p
      by_cases active : (r, s) ∈ path
      · exact matches_of_pair pair (items_of_pair rfl (assumed (r, s) active))
      have below : Agree h strict n a b :=
        ih ha hb enough (fun p hp => (assumed p hp).of_succ) same
      obtain ⟨lengths, items⟩ := (same_pair_iff pair).mp same
      have items := items.resolve_left active
      obtain ⟨hr, hs⟩ := refs_of_pair pair
      have fewer := remaining_cons_lt (ha r hr) (hb s hs) active
      refine matches_of_pair pair (List.forall₂_iff_zip.mpr ⟨lengths, fun {x y} item => ?_⟩)
      obtain ⟨hx, hy⟩ := List.of_mem_zip item
      refine ih (within_of_mem_tail closed hx) (within_of_mem_tail closed hy)
        (Nat.lt_of_lt_of_le fewer (Nat.le_of_lt_succ enough)) (fun p hp => ?_) (items x y item)
      -- the pair just entered is one of the assumptions for its own items
      rcases List.mem_cons.mp hp with rfl | hp
      · exact below.blocks pair
      · exact (assumed p hp).of_succ

inductive Descends (h : Heap) : List (BlockRef × BlockRef) × Value × Value →
    List (BlockRef × BlockRef) × Value × Value → Prop where
  | enter {path : List (BlockRef × BlockRef)} {a b x y : Value} {r s : BlockRef}
      (pair : Heap.blockPair? a b = some (r, s)) (lengths : h.length r = h.length s)
      (fresh : (r, s) ∉ path) (item : (x, y) ∈ (h.tail r).zip (h.tail s)) :
      Descends h ((r, s) :: path, x, y) (path, a, b)

theorem acc_descends (ha : a.Within V) (hb : b.Within V) : Acc (Descends h) (path, a, b) := by
  induction count : remaining V path using Nat.strong_induction_on generalizing path a b with
  | _ count' ih =>
    subst count
    refine ⟨_, fun below step => ?_⟩
    cases step with
    | enter pair _ fresh item =>
      obtain ⟨hr, hs⟩ := refs_of_pair pair
      obtain ⟨hx, hy⟩ := List.of_mem_zip item
      have fewer := remaining_cons_lt (ha _ hr) (hb _ hs) fresh
      exact ih _ fewer (within_of_mem_tail closed hx) (within_of_mem_tail closed hy) rfl

end Within

def Heap.refsWith (h : Heap) (a b : Value) : Finset BlockRef :=
  (a.ref?.toList ++ b.ref?.toList ++ h.refs).toFinset

theorem Heap.closed_refsWith (h : Heap) (a b : Value) : ∀ r ∈ h.refs, r ∈ h.refsWith a b :=
  fun _ hr => List.mem_toFinset.mpr (List.mem_append_right _ hr)

theorem Heap.within_refsWith (h : Heap) (a b : Value) :
    a.Within (h.refsWith a b) ∧ b.Within (h.refsWith a b) := by
  constructor <;> intro r ref <;> simp [refsWith, ref]

theorem Heap.remaining_lt_pairFuel (h : Heap) (a b : Value) (path : List (BlockRef × BlockRef)) :
    remaining (h.refsWith a b) path < h.pairFuel := by
  have one (v : Value) : v.ref?.toList.length ≤ 1 := by cases v.ref? <;> simp
  have refs : (h.refsWith a b).card ≤ h.itemCount + 2 := by
    refine (List.toFinset_card_le _).trans ?_
    rw [List.length_append, List.length_append]
    have := h.length_refs_le
    have := one a
    have := one b
    omega
  calc remaining (h.refsWith a b) path
      ≤ (h.refsWith a b ×ˢ h.refsWith a b).card := Finset.card_le_card Finset.sdiff_subset
    _ = (h.refsWith a b).card * (h.refsWith a b).card := Finset.card_product _ _
    _ ≤ (h.itemCount + 2) * (h.itemCount + 2) := Nat.mul_le_mul refs refs
    _ < h.pairFuel := Nat.lt_succ_self _

theorem descends_wellFounded (h : Heap) : WellFounded (Descends h) := by
  refine ⟨fun (path, a, b) => ?_⟩
  obtain ⟨ha, hb⟩ := h.within_refsWith a b
  exact acc_descends (h.closed_refsWith a b) ha hb

/-- With enough fuel, what is found equal under assumptions that hold is bisimilar. -/
theorem same_iff_bisimilar {fuel : Nat} {known : List (BlockRef × BlockRef)}
    (enough : h.pairFuel ≤ fuel)
    (sound : ∀ p ∈ known, Bisimilar h strict (.block p.1) (.block p.2)) :
    h.same strict fuel known a b = true ↔ Bisimilar h strict a b := by
  constructor
  · intro same
    obtain ⟨ha, hb⟩ := h.within_refsWith a b
    have fuelled := Nat.lt_of_lt_of_le (h.remaining_lt_pairFuel a b known) enough
    exact bisimilar_iff_agree.mpr fun n => agree_of_same (h.closed_refsWith a b) ha hb fuelled
      (fun p hp => (sound p hp).agree n) same
  · rintro ⟨R, post, related⟩
    exact same_of_bisimulation post fuel known related

theorem Heap.equalIn_eq_same (h : Heap) (strict : Bool) (a b : Value) :
    h.equalIn strict a b = h.same strict h.pairFuel [] a b := by
  unfold equalIn
  cases pair : blockPair? a b with
  | none => exact (same_leaf pair).symm
  | some p => rfl

theorem Heap.equalIn_iff_bisimilar (h : Heap) (strict : Bool) (a b : Value) :
    h.equalIn strict a b = true ↔ Bisimilar h strict a b := by
  rw [equalIn_eq_same]
  exact same_iff_bisimilar le_rfl fun _ hp => absurd hp List.not_mem_nil

/-- Equality decides bisimilarity in both modes. The comparison ends, with any fuel beyond the bound
its answer is the same, and so it is when pairs that are bisimilar are taken to be equal from the
start; the answer is that of comparing ever deeper without taking anything to be equal. -/
theorem equality_decides_bisimilarity (h : Heap) (a b : Value) :
    (h.equal a b = true ↔ Bisimilar h false a b) ∧
    (h.strictEqual a b = true ↔ Bisimilar h true a b) ∧
    WellFounded (Descends h) ∧
    (∀ strict fuel known, h.pairFuel ≤ fuel →
      (∀ p ∈ known, Bisimilar h strict (.block p.1) (.block p.2)) →
      h.same strict fuel known a b = h.equalIn strict a b) ∧
    ∀ strict, h.equalIn strict a b = true ↔ ∀ depth, Agree h strict depth a b := by
  refine ⟨h.equalIn_iff_bisimilar false a b, h.equalIn_iff_bisimilar true a b,
    descends_wellFounded h, fun strict fuel known enough sound => ?_, fun strict => ?_⟩
  · rw [Bool.eq_iff_iff, same_iff_bisimilar enough sound, h.equalIn_iff_bisimilar]
  · rw [h.equalIn_iff_bisimilar, bisimilar_iff_agree]

-- two blocks that each hold nothing but themselves
example : Heap.strictEqual
    { blocks := #[{ data := #[.block ⟨0, 0⟩] }, { data := #[.block ⟨1, 0⟩] }] }
    (.block ⟨0, 0⟩) (.block ⟨1, 0⟩) = true := by decide

end BlockScript
