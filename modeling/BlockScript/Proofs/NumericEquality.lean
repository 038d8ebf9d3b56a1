import BlockScript.Proofs.Catching
import BlockScript.Proofs.Comparisons
import BlockScript.Proofs.Selection

/-!
# Equality of numbers

An integer equals a decimal when that decimal is nearest to it. Different integers from 2 ^ 53 on
can have one nearest decimal: it is equal to all of them, and they are not equal to each other.
Nothing else keeps the equality of numbers from being transitive. Whatever compares numbers, be it
an operator, a switch or a catch, compares them in this one way.
-/

namespace BlockScript

inductive ProperNumber : Value → Prop where
  | integer (n : Int64) : ProperNumber (.integer n)
  | decimal {x : Float} (number : x.isNaN = false) : ProperNumber (.decimal x)

/-- Different integers, both large, and between them the decimal that is nearest to both. -/
inductive SharedDecimal : Value → Value → Value → Prop where
  | mk {m n : Int64} {x : Float} (different : m ≠ n) (near : (Decimal.nearest m == x) = true)
      (near' : (Decimal.nearest n == x) = true) (large : 2 ^ 53 ≤ m.toInt.natAbs)
      (large' : 2 ^ 53 ≤ n.toInt.natAbs) :
      SharedDecimal (.integer m) (.decimal x) (.integer n)

variable {h : Heap} {a b c : Value}

namespace ProperNumber

theorem isNumber (proper : ProperNumber a) : a.isNumber = true := by
  cases proper <;> rfl

theorem isNaN (proper : ProperNumber a) : a.isNaN = false := by
  cases proper with
  | integer => rfl
  | decimal number => exact number

theorem equal_iff_place (proper : ProperNumber a) (proper' : ProperNumber b)
    (mixed : a.kind = .decimal ∨ b.kind = .decimal) : h.equal a b = true ↔ a.place = b.place := by
  have ordered : Ordered h a b (compare a.place b.place) :=
    .numbers proper.isNumber proper'.isNumber mixed
  rw [ordered.equal_iff proper.isNaN proper'.isNaN, compare_eq_iff_eq]

end ProperNumber

theorem equal_integers_iff {m n : Int64} : h.equal (.integer m) (.integer n) = true ↔ m = n :=
  beq_iff_eq

theorem place_of_equal (proper : ProperNumber a) (proper' : ProperNumber b)
    (equal : h.equal a b = true) : a.place = b.place := by
  rcases Value.integers_or_mixed proper.isNumber proper'.isNumber with ⟨m, n, rfl, rfl⟩ | mixed
  · rw [equal_integers_iff.mp equal]
  · exact (proper.equal_iff_place proper' mixed).mp equal

/-- Different integers that share a place are large. -/
theorem large_of_place {m n : Int64} (same : (Value.integer m).place = (Value.integer n).place)
    (different : m ≠ n) : 2 ^ 53 ≤ m.toInt.natAbs := by
  by_contra small
  have equal := (Decimal.unpack_nearest m).inj (Decimal.unpack_nearest n) (by omega) same
  exact different (Int64.toInt_inj.mp equal)

theorem equal_or_sharedDecimal (proper : ProperNumber a) (proper' : ProperNumber b)
    (proper'' : ProperNumber c) (first : h.equal a b = true) (second : h.equal b c = true) :
    h.equal a c = true ∨ SharedDecimal a b c := by
  have place := place_of_equal proper proper' first
  have place' := place_of_equal proper' proper'' second
  have same := place.trans place'
  rcases Value.integers_or_mixed proper.isNumber proper''.isNumber with ⟨m, n, rfl, rfl⟩ | mixed
  · by_cases equal : m = n
    · exact .inl (equal_integers_iff.mpr equal)
    · right
      cases proper' with
      | integer k =>
        have chain := (equal_integers_iff.mp first).trans (equal_integers_iff.mp second)
        exact absurd chain equal
      | decimal number =>
        have near := Decimal.beq_iff_place (Decimal.nearest_isNaN m) number
        have near' := Decimal.beq_iff_place (Decimal.nearest_isNaN n) number
        exact ⟨equal, near.mpr place, near'.mpr place'.symm, large_of_place same equal,
          large_of_place same.symm (Ne.symm equal)⟩
  · exact .inl ((proper.equal_iff_place proper'' mixed).mpr same)

theorem SharedDecimal.equal (shared : SharedDecimal a b c) :
    h.equal a b = true ∧ h.equal b c = true ∧ h.equal a c = false := by
  obtain ⟨different, near, near', -, -⟩ := shared
  exact ⟨near, near', beq_eq_false_iff_ne.mpr different⟩

/-- Numbers are compared without a look at the heap. -/
theorem equal_of_heap (h h' : Heap) (proper : ProperNumber a) (proper' : ProperNumber b) :
    h.equal a b = h'.equal a b := by
  cases proper <;> cases proper' <;> rfl

/-! ## What compares numbers -/

section Constructs

variable {ev : Evaluator} {s t : State}

/-- A switch on a value with one case for a number. -/
theorem switchOn_number {cases body : BlockRef} (proper : ProperNumber b)
    (items : s.heap.tail cases = [b, .block body]) (enough : 2 < ev.fuel) :
    Native.switchOn.run ev #[a, .block cases, .none, .none, .none, .none] s =
      if s.heap.equal a b then ev.all body s else .ok .none s := by
  have literal : b.IsCaseLiteral := by
    cases proper <;> trivial
  have undisturbed : Conditionals.Undisturbed ev a false cases s := by
    apply Conditionals.undisturbed_of_noParen
    intro r listed
    rw [items, List.mem_pair] at listed
    rcases listed with rfl | same
    · exact literal
    · cases same
  have compared : Conditionals.Compared ev s b (.ok b s) := .literal literal
  apply Conditionals.SwitchEnds.switchOn rfl rfl (by rw [items]; exact enough) undisturbed
  rw [items]
  cases equal : s.heap.equal a b with
  | true =>
    have split : [b, .block body] = [] ++ b :: ([] ++ .block body :: []) := rfl
    exact .body split .nil compared equal fun _ listed => nomatch listed
  | false => exact .last (.body (.key .nil compared equal) body) rfl

theorem listed_number (proper : ProperNumber a) : Exits.CatchFilter.listed h a = [a] := by
  cases proper <;> rfl

/-- A catch of one number, whose block throws under the name of a number. -/
theorem catchThrown_number {payload : Value} {block : BlockRef} (proper : ProperNumber a)
    (proper' : ProperNumber b) (thrown : ev.all block s = .error (.thrown ⟨b, payload⟩) t) :
    Native.catchThrown.run ev #[.block block, .logic true, a, .none, .none, .none, .none] s =
      if s.heap.equal a b then .ok payload t else .error (.thrown ⟨b, payload⟩) t := by
  have call : Exits.CatchCall #[.block block, .logic true, a, .none, .none, .none, .none] s.heap
      block none := by
    refine ⟨rfl, fun ⟨any, _⟩ => (nomatch any), fun name given => ?_, fun v => ⟨nofun, nofun⟩⟩
    have listed := (Exits.lists_iff rfl).mp given
    change name ∈ Exits.CatchFilter.listed s.heap a at listed
    rw [listed_number proper, List.mem_singleton] at listed
    rw [listed]
    cases proper <;> exact nofun
  have claims : (Exits.CatchFilter.ofArgs
      #[.block block, .logic true, a, .none, .none, .none, .none]).claims t.heap ⟨b, payload⟩ =
        s.heap.equal a b := by
    have plain : (⟨b, payload⟩ : Thrown).isNamed .quit = false := by
      cases proper' <;> rfl
    rw [equal_of_heap s.heap t.heap proper proper', Exits.CatchFilter.claims, plain]
    simp [Exits.CatchFilter.ofArgs, Args.refinement?, Args.refined, Args.value,
      listed_number proper]
  apply (call.apply ev).trans
  rw [thrown]
  dsimp only
  rw [claims]
  rfl

end Constructs

/-- The equality of the numbers of a state, and who goes by it. -/
structure NumericEquality (ev : Evaluator) (s : State) : Prop where
  transitive (a b c : Value) : ProperNumber a → ProperNumber b → ProperNumber c →
    s.heap.equal a b = true → s.heap.equal b c = true →
      s.heap.equal a c = true ∨ SharedDecimal a b c
  shared (a b c : Value) : SharedDecimal a b c →
    s.heap.equal a b = true ∧ s.heap.equal b c = true ∧ s.heap.equal a c = false
  operator (a b : Value) (flag : Bool) : Answers ev s .equal a b flag ↔ s.heap.equal a b = flag
  switchOn (a b : Value) (cases body : BlockRef) : ProperNumber b →
    s.heap.tail cases = [b, .block body] → 2 < ev.fuel →
      Native.switchOn.run ev #[a, .block cases, .none, .none, .none, .none] s =
        if s.heap.equal a b then ev.all body s else .ok .none s
  catchThrown (a b payload : Value) (block : BlockRef) (t : State) : ProperNumber a →
    ProperNumber b → ev.all block s = .error (.thrown ⟨b, payload⟩) t →
      Native.catchThrown.run ev #[.block block, .logic true, a, .none, .none, .none, .none] s =
        if s.heap.equal a b then .ok payload t else .error (.thrown ⟨b, payload⟩) t

theorem numbers_equal_alike (ev : Evaluator) (s : State) : NumericEquality ev s where
  transitive _ _ _ := equal_or_sharedDecimal
  shared _ _ _ := SharedDecimal.equal
  operator _ _ _ := answers_equal_iff
  switchOn _ _ _ _ := switchOn_number
  catchThrown _ _ _ _ _ := catchThrown_number

/-- Two integers that differ by one and are equal to the same decimal. -/
theorem equal_not_transitive :
    let a : Value := .integer 9007199254740993
    let b : Value := .decimal 9007199254740992.0
    let c : Value := .integer 9007199254740992
    let h : Heap := {}
    h.equal a b = true ∧ h.equal b c = true ∧ h.equal a c = false := by
  decide +kernel

end BlockScript
