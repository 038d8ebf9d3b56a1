import BlockScript.Proofs.Bisimulation
import BlockScript.Proofs.Numbers

/-!
# The laws of equality

Strict equality is an equivalence relation, coerced equality is reflexive and symmetric, and what is
strictly equal is equal in the coerced mode too. Both decide bisimilarity, so each law is one about
the largest bisimulation: the identity, the converse and the composition of bisimulations are
bisimulations, and a strict one is a coerced one.
-/

namespace BlockScript

/-! ## Leaves -/

theorem Function.isSame_self (f : Function) : f.isSame f = true := by
  cases f <;> simp [isSame]

theorem Function.isSame_symm {f g : Function} (same : f.isSame g = true) : g.isSame f = true := by
  cases f <;> cases g <;> simp_all [isSame]

theorem Function.isSame_trans {f g k : Function} (first : f.isSame g = true)
    (second : g.isSame k = true) : f.isSame k = true := by
  cases f <;> cases g <;> cases k <;> simp_all [isSame]

variable {h : Heap} {strict : Bool} {a b c : Value} {R S : Value → Value → Prop}

theorem LeavesAgree.symm (agree : LeavesAgree h strict a b) : LeavesAgree h strict b a := by
  cases agree with
  | unset => exact .unset
  | none => exact .none
  | logic flag => exact .logic flag
  | integer n => exact .integer n
  | decimal same => exact .decimal (Decimal.beq_symm same)
  | integerDecimal mode same => exact .decimalInteger mode same
  | decimalInteger mode same => exact .integerDecimal mode same
  | sameText id => exact .sameText id
  | exactText mode same => exact .exactText mode same.symm
  | foldedText mode same => exact .foldedText mode same.symm
  | word flavour name => exact .word (fun mode => (flavour mode).symm) name
  | object id => exact .object id
  | function same => exact .function (Function.isSame_symm same)
  | error same => exact .error same.symm
  | datatype kind => exact .datatype kind

theorem LeavesAgree.trans (first : LeavesAgree h true a b) (second : LeavesAgree h true b c) :
    LeavesAgree h true a c := by
  cases first with
  | unset => exact second
  | none => exact second
  | logic flag => exact second
  | integer n => exact second
  | sameText id => exact second
  | object id => exact second
  | datatype kind => exact second
  | integerDecimal mode => cases mode
  | decimalInteger mode => cases mode
  | foldedText mode => cases mode
  | decimal same =>
    cases second with
    | decimal same' => exact .decimal (Decimal.beq_trans same same')
    | decimalInteger mode => cases mode
  | exactText _ same =>
    cases second with
    | sameText => exact .exactText rfl same
    | exactText _ same' => exact .exactText rfl (same.trans same')
    | foldedText mode => cases mode
  | word flavour name =>
    cases second with
    | word flavour' => exact .word (fun mode => (flavour mode).trans (flavour' mode)) name
  | function same =>
    cases second with
    | function same' => exact .function (Function.isSame_trans same same')
  | error same =>
    cases second with
    | error same' => exact .error (same.trans same')

/-- What agrees strictly agrees in the coerced mode. -/
theorem LeavesAgree.coerced (agree : LeavesAgree h true a b) : LeavesAgree h false a b := by
  cases agree with
  | unset => exact .unset
  | none => exact .none
  | logic flag => exact .logic flag
  | integer n => exact .integer n
  | decimal same => exact .decimal same
  | integerDecimal mode => cases mode
  | decimalInteger mode => cases mode
  | sameText id => exact .sameText id
  | exactText _ same => exact .foldedText rfl (congrArg Text.lower same)
  | foldedText mode => cases mode
  | word _ name => exact .word (fun mode => by cases mode) name
  | object id => exact .object id
  | function same => exact .function same
  | error same => exact .error same
  | datatype kind => exact .datatype kind

/-! ## Values -/

theorem forall₂_comp {α : Type} {R S : α → α → Prop} {as bs cs : List α}
    (first : List.Forall₂ R as bs) (second : List.Forall₂ S bs cs) :
    List.Forall₂ (Relation.Comp R S) as cs := by
  induction first generalizing cs with
  | nil =>
    cases second
    exact .nil
  | cons related _ ih =>
    cases second with
    | cons related' others => exact .cons ⟨_, related, related'⟩ (ih others)

namespace Matches

theorem flip (m : Matches h strict R a b) : Matches h strict (flip R) b a := by
  cases m with
  | leaves agree => exact .leaves agree.symm
  | paths flavour segments => exact .paths (fun mode => (flavour mode).symm) segments.flip
  | blocks items => exact .blocks items.flip
  | parens items => exact .parens items.flip

theorem comp (first : Matches h true R a b) (second : Matches h true S b c) :
    Matches h true (Relation.Comp R S) a c := by
  cases first with
  | leaves agree =>
    cases second with
    | leaves agree' => exact .leaves (agree.trans agree')
    | paths => cases agree
    | blocks => cases agree
    | parens => cases agree
  | paths flavour segments =>
    cases second with
    | leaves agree => cases agree
    | paths flavour' segments' =>
      have composed := forall₂_comp segments segments'
      refine .paths (fun mode => (flavour mode).trans (flavour' mode)) (composed.imp ?_)
      rintro x z ⟨y, related, related'⟩
      exact ⟨y.value, related, related'⟩
  | blocks items =>
    cases second with
    | leaves agree => cases agree
    | blocks items' => exact .blocks (forall₂_comp items items')
  | parens items =>
    cases second with
    | leaves agree => cases agree
    | parens items' => exact .parens (forall₂_comp items items')

theorem coerced (m : Matches h true R a b) : Matches h false R a b := by
  cases m with
  | leaves agree => exact .leaves agree.coerced
  | paths _ segments => exact .paths (fun mode => by cases mode) segments
  | blocks items => exact .blocks items
  | parens items => exact .parens items

end Matches

/-- A decimal that is no number; it differs from itself. -/
def Value.isNaN : Value → Bool
  | .decimal x => x.isNaN
  | _ => false

def Heap.WithoutNaN (h : Heap) : Prop := ∀ s ∈ h.blocks, ∀ v ∈ s.data, v.isNaN = false

theorem Heap.WithoutNaN.tail (numbers : h.WithoutNaN) {r : BlockRef} {v : Value}
    (member : v ∈ h.tail r) : v.isNaN = false := by
  have item : v ∈ h.items r.id := Array.mem_toList_iff.mp (List.mem_of_mem_drop member)
  unfold Heap.items at item
  cases found : h.blocks[r.id]? with
  | none =>
    rw [found] at item
    simp at item
  | some s =>
    rw [found] at item
    exact numbers s (Array.mem_of_getElem? found) v item

theorem Segment.isNaN_value (segment : Segment) : segment.value.isNaN = false := by
  cases segment <;> rfl

namespace Bisimilar

/-- Being the same value is a bisimulation between values that equal themselves. -/
theorem refl (numbers : h.WithoutNaN) (number : a.isNaN = false) : Bisimilar h strict a a := by
  refine ⟨fun x y => x = y ∧ x.isNaN = false, ?_, rfl, number⟩
  rintro x _ ⟨rfl, number⟩
  have items (r : BlockRef) :
      List.Forall₂ (fun x y : Value => x = y ∧ x.isNaN = false) (h.tail r) (h.tail r) :=
    List.forall₂_same.mpr fun v member => ⟨rfl, numbers.tail member⟩
  cases x with
  | unset => exact .leaves .unset
  | none => exact .leaves .none
  | logic flag => exact .leaves (.logic flag)
  | integer n => exact .leaves (.integer n)
  | decimal x => exact .leaves (.decimal (Decimal.beq_self number))
  | text id => exact .leaves (.sameText id)
  | block r => exact .blocks (items r)
  | paren r => exact .parens (items r)
  | word kind name => exact .leaves (.word (fun _ => rfl) name)
  | path kind segments =>
    exact .paths (fun _ => rfl) (List.forall₂_same.mpr fun segment _ =>
      ⟨rfl, segment.isNaN_value⟩)
  | object id => exact .leaves (.object id)
  | function f => exact .leaves (.function f.isSame_self)
  | error e => exact .leaves (.error rfl)
  | datatype kind => exact .leaves (.datatype kind)

theorem symm (similar : Bisimilar h strict a b) : Bisimilar h strict b a := by
  obtain ⟨R, post, related⟩ := similar
  exact ⟨fun x y => R y x, fun x y below => (post y x below).flip, related⟩

theorem trans (first : Bisimilar h true a b) (second : Bisimilar h true b c) :
    Bisimilar h true a c := by
  obtain ⟨R, post, related⟩ := first
  obtain ⟨S, post', related'⟩ := second
  refine ⟨Relation.Comp R S, ?_, b, related, related'⟩
  rintro x z ⟨y, below, below'⟩
  exact (post x y below).comp (post' y z below')

theorem coerced (similar : Bisimilar h true a b) : Bisimilar h false a b := by
  obtain ⟨R, post, related⟩ := similar
  exact ⟨R, fun x y below => (post x y below).coerced, related⟩

end Bisimilar

/-! ## The laws -/

/-- Strict equality is an equivalence relation between values that are no NaN. Coerced equality is
reflexive and symmetric, and it holds wherever strict equality does. -/
structure EqualityLaws (h : Heap) : Prop where
  strictEqual_self (a : Value) : a.isNaN = false → h.strictEqual a a = true
  equal_self (a : Value) : a.isNaN = false → h.equal a a = true
  strictEqual_symm (a b : Value) : h.strictEqual a b = true → h.strictEqual b a = true
  equal_symm (a b : Value) : h.equal a b = true → h.equal b a = true
  strictEqual_trans (a b c : Value) :
    h.strictEqual a b = true → h.strictEqual b c = true → h.strictEqual a c = true
  equal_of_strictEqual (a b : Value) : h.strictEqual a b = true → h.equal a b = true

/-- Equality obeys its laws in every heap without NaN, whatever cycles there are in it. -/
theorem equality_obeys_laws (numbers : h.WithoutNaN) : EqualityLaws h := by
  have decides (strict : Bool) (a b : Value) := h.equalIn_iff_bisimilar strict a b
  exact
    { strictEqual_self := fun a number => (decides true a a).mpr (.refl numbers number)
      equal_self := fun a number => (decides false a a).mpr (.refl numbers number)
      strictEqual_symm := fun a b same => (decides true b a).mpr ((decides true a b).mp same).symm
      equal_symm := fun a b same => (decides false b a).mpr ((decides false a b).mp same).symm
      strictEqual_trans := fun a b c first second =>
        (decides true a c).mpr (((decides true a b).mp first).trans ((decides true b c).mp second))
      equal_of_strictEqual := fun a b same =>
        (decides false a b).mpr ((decides true a b).mp same).coerced }

/-- Two blocks that hold each other and a decimal, and the first once more past its head. -/
def interlocked : Heap where
  blocks := #[{ data := #[.block ⟨1, 0⟩, .decimal 2.5, .paren ⟨0, 1⟩] },
    { data := #[.block ⟨0, 0⟩, .decimal 2.5, .paren ⟨1, 1⟩] }]

theorem interlocked_obeys_laws :
    interlocked.WithoutNaN ∧ interlocked.strictEqual (.block ⟨0, 0⟩) (.block ⟨1, 0⟩) = true ∧
      EqualityLaws interlocked := by
  have numbers : interlocked.WithoutNaN := by
    unfold Heap.WithoutNaN
    decide +kernel
  exact ⟨numbers, by decide +kernel, equality_obeys_laws numbers⟩

end BlockScript
