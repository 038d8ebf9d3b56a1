import BlockScript.Heap.Mold
import BlockScript.Proofs.Reachability
import Mathlib.Data.List.Forall2

/-!
# Rendering without marks

Written out in full, a value has a text only if it does not go on forever. The renderer writes that
text for every value in which no container is met again inside itself, however much is shared. It
asks for the container and not for the position, so a series in which another position of the same
series lies is cut short too, although it could be written out.
-/

namespace BlockScript

def visibleField (field : Field) : Bool := !field.hidden

def Value.isLeaf : Value → Bool
  | .block _ => false
  | .paren _ => false
  | .object _ => false
  | _ => true

namespace Heap

def leafText (h : Heap) : Style → Value → String
  | .mold => h.moldLeaf
  | .form => h.formLeaf

/-- The structural rendering: every block, paren and object is written out where it is met. -/
inductive Written (h : Heap) : Style → Value → String → Prop where
  | leaf {style : Style} {v : Value} (leaf : v.isLeaf) : Written h style v (h.leafText style v)
  | moldBlock {r : BlockRef} {texts : List String}
      (items : List.Forall₂ (Written h .mold) (h.tail r) texts) :
      Written h .mold (.block r) ("[" ++ " ".intercalate texts ++ "]")
  | formBlock {r : BlockRef} {texts : List String}
      (items : List.Forall₂ (Written h .form) (h.tail r) texts) :
      Written h .form (.block r) (" ".intercalate texts)
  | paren {style : Style} {r : BlockRef} {texts : List String}
      (items : List.Forall₂ (Written h .mold) (h.tail r) texts) :
      Written h style (.paren r) ("(" ++ " ".intercalate texts ++ ")")
  | object {style : Style} {id : FrameId} {texts : List String}
      (values : List.Forall₂ (Written h .mold) ((h.frame id).visible.map (·.2)) texts) :
      Written h style (.object id)
        ("make object! [" ++ " ".intercalate
          (List.zipWith (fun name text => name ++ ": " ++ text) (h.frame id).words texts) ++ "]")

def Unnested (h : Heap) (v : Value) : Prop :=
  ∀ x y, h.Reaches visibleField v x → h.Inside visibleField x y → x.container? ≠ y.container?

variable {h : Heap} {v w : Value} {c : Container} {path : List Container}

/-! ## What a text was written from -/

theorem written_leaf {style : Style} (leaf : v.isLeaf) (t : String) :
    h.Written style v t ↔ t = h.leafText style v := by
  constructor
  · intro written
    cases written with
    | leaf _ => rfl
    | _ => cases leaf
  · rintro rfl
    exact .leaf leaf

theorem written_moldBlock {r : BlockRef} {t : String} :
    h.Written .mold (.block r) t ↔
      ∃ texts, List.Forall₂ (h.Written .mold) (h.tail r) texts ∧
        t = "[" ++ " ".intercalate texts ++ "]" := by
  constructor
  · intro written
    cases written with
    | leaf leaf => cases leaf
    | moldBlock items => exact ⟨_, items, rfl⟩
  · rintro ⟨texts, items, rfl⟩
    exact .moldBlock items

theorem written_formBlock {r : BlockRef} {t : String} :
    h.Written .form (.block r) t ↔
      ∃ texts, List.Forall₂ (h.Written .form) (h.tail r) texts ∧ t = " ".intercalate texts := by
  constructor
  · intro written
    cases written with
    | leaf leaf => cases leaf
    | formBlock items => exact ⟨_, items, rfl⟩
  · rintro ⟨texts, items, rfl⟩
    exact .formBlock items

theorem written_paren {style : Style} {r : BlockRef} {t : String} :
    h.Written style (.paren r) t ↔
      ∃ texts, List.Forall₂ (h.Written .mold) (h.tail r) texts ∧
        t = "(" ++ " ".intercalate texts ++ ")" := by
  constructor
  · intro written
    cases written with
    | leaf leaf => cases leaf
    | paren items => exact ⟨_, items, rfl⟩
  · rintro ⟨texts, items, rfl⟩
    exact .paren items

theorem written_object {style : Style} {id : FrameId} {t : String} :
    h.Written style (.object id) t ↔
      ∃ texts, List.Forall₂ (h.Written .mold) ((h.frame id).visible.map (·.2)) texts ∧
        t = "make object! [" ++ " ".intercalate
          (List.zipWith (fun name text => name ++ ": " ++ text) (h.frame id).words texts) ++
            "]" := by
  constructor
  · intro written
    cases written with
    | leaf leaf => cases leaf
    | object values => exact ⟨_, values, rfl⟩
  · rintro ⟨texts, values, rfl⟩
    exact .object values

/-! ## Nothing inside itself -/

theorem held_visible (h : Heap) (id : FrameId) :
    h.held visibleField (.object id) = (h.frame id).visible.map (·.2) := by
  rw [held, Frame.visible]
  induction (h.frame id).fields.toList with
  | nil => rfl
  | cons field fields ih => cases hidden : field.hidden <;> simp [visibleField, hidden, ih]

theorem Unnested.held (unnested : h.Unnested v) (item : w ∈ h.held visibleField v) :
    h.Unnested w := fun x y reach => unnested x y (.below item reach)

/-- What is open around a value is not reached from what it holds. -/
theorem Unnested.path_held (unnested : h.Unnested v)
    (closed : ∀ c ∈ path, ¬ h.ReachesContainer visibleField v c) (found : v.container? = some c)
    (item : w ∈ h.held visibleField v) :
    ∀ d ∈ c :: path, ¬ h.ReachesContainer visibleField w d := by
  rintro d hd ⟨x, reach, at_d⟩
  rcases List.mem_cons.mp hd with rfl | outer
  · exact unnested v x .start (.head' item reach) (found.trans at_d.symm)
  · exact closed d outer ⟨x, .below item reach, at_d⟩

theorem forall₂_iff_eq_map {α β : Type} {R : α → β → Prop} {f : α → β} {xs : List α} {ys : List β}
    (each : ∀ x ∈ xs, ∀ y, R x y ↔ y = f x) : List.Forall₂ R xs ys ↔ ys = xs.map f := by
  induction xs generalizing ys with
  | nil => simp
  | cons x xs ih =>
    have rest (ys : List β) : List.Forall₂ R xs ys ↔ ys = xs.map f :=
      ih fun z hz => each z (List.mem_cons_of_mem _ hz)
    cases ys with
    | nil => simp
    | cons y ys => simp [each x List.mem_cons_self, rest]

/-- The renderer writes a value in full when none of the containers around it is reached. -/
theorem written_iff_render (fuel : Nat) (style : Style) (path : List Container) (v : Value)
    (unnested : h.Unnested v) (closed : ∀ c ∈ path, ¬ h.ReachesContainer visibleField v c)
    (enough : unmet h.containers path < fuel) (t : String) :
    h.Written style v t ↔ t = h.render fuel style path v := by
  induction fuel generalizing style path v t with
  | zero => exact absurd enough (Nat.not_lt_zero _)
  | succ fuel ih =>
    have below (style : Style) {c : Container} (found : v.container? = some c)
        (texts : List String) :
        List.Forall₂ (h.Written style) (h.held visibleField v) texts ↔
          texts = (h.held visibleField v).map (h.render fuel style (c :: path)) := by
      refine forall₂_iff_eq_map fun w item text => ?_
      have fresh : c ∉ path := fun old => closed c old ⟨v, .start, found⟩
      have fewer := unmet_held_lt item found fresh
      exact ih style (c :: path) w (unnested.held item) (unnested.path_held closed found item)
        (by omega) text
    have fresh {c : Container} (found : v.container? = some c) : c ∉ path :=
      fun old => closed c old ⟨v, .start, found⟩
    cases v with
    | block r =>
      have items (style : Style) (texts : List String) :
          List.Forall₂ (h.Written style) (h.tail r) texts ↔
            texts = (h.tail r).map (h.render fuel style (.block r.id :: path)) :=
        below style rfl texts
      cases style with
      | mold => simp only [written_moldBlock, items, exists_eq_left, render, if_neg (fresh rfl)]
      | form => simp only [written_formBlock, items, exists_eq_left, render, if_neg (fresh rfl)]
    | paren r =>
      have items (texts : List String) :
          List.Forall₂ (h.Written .mold) (h.tail r) texts ↔
            texts = (h.tail r).map (h.render fuel .mold (.block r.id :: path)) :=
        below .mold rfl texts
      simp only [written_paren, items, exists_eq_left, render, if_neg (fresh rfl)]
    | object id =>
      have values := below (c := .object id) .mold rfl
      rw [held_visible] at values
      simp only [written_object, values, exists_eq_left, render, if_neg (fresh rfl), Frame.words,
        List.map_map, List.zipWith_map, List.zipWith_self, Function.comp_def]
    | _ => cases style <;> exact written_leaf rfl t

/-- A value in which no container is met again inside itself is rendered as it is written in full,
and there is one way to write it. -/
theorem rendering_of_unnested (h : Heap) (v : Value) (unnested : h.Unnested v) :
    (∀ t, h.Written .mold v t ↔ t = h.mold v) ∧ ∀ t, h.Written .form v t ↔ t = h.form v := by
  have enough : unmet h.containers [] < h.renderFuel :=
    Nat.lt_succ_of_le ((unmet_le _ _).trans h.card_containers_le)
  have render (style : Style) (t : String) :
      h.Written style v t ↔ t = h.render h.renderFuel style [] v := by
    refine written_iff_render _ style [] v unnested (fun c open_ => ?_) enough t
    exact absurd open_ List.not_mem_nil
  exact ⟨render .mold, render .form⟩

/-- A block that holds a series twice, at two positions, is written in full. -/
theorem rendering_of_shared :
    let s : Series (Array Value) := { data := #[.word .word "a", .word .word "b"] }
    let t : Series (Array Value) := { data := #[.block ⟨0, 0⟩, .paren ⟨0, 1⟩] }
    let h : Heap := { blocks := #[s, t] }
    let v := Value.block ⟨1, 0⟩
    h.Unnested v ∧ (∀ text, h.Written .mold v text ↔ text = h.mold v) ∧
      (∀ text, h.Written .form v text ↔ text = h.form v) ∧
      h.mold v = "[[a b] (b)]" := by
  intro s t h v
  let values := [v, .block ⟨0, 0⟩, .paren ⟨0, 1⟩, .word .word "a", .word .word "b"]
  let rank : Value → Nat := fun x =>
    match x.container? with
    | some (.block id) => id + 1
    | some (.text _) | some (.object _) | none => 0
  have falls : ∀ x ∈ values, ∀ y ∈ h.held visibleField x, y ∈ values ∧ rank y < rank x := by
    simp [values, h, t, s, v, held, tail, items, rank, Value.container?]
  have unnested : h.Unnested v := by
    intro x y reach inside same
    have member : x ∈ values :=
      reach.mem_of_closed List.mem_cons_self fun x hx y hy => (falls x hx y hy).1
    have lower := inside.rank_lt falls member
    simp only [rank, same, Nat.lt_irrefl] at lower
  obtain ⟨mold, form⟩ := rendering_of_unnested h v unnested
  exact ⟨unnested, mold, form, by decide⟩

/-- The series lies at its second position in itself. Following it never comes back to the same
reference, and its text is `[[b c] b c]`, but the renderer takes it for a cycle. -/
theorem rendering_cut_short :
    let s : Series (Array Value) :=
      { data := #[.block ⟨0, 1⟩, .word .word "b", .word .word "c"] }
    let h : Heap := { blocks := #[s] }
    let v := Value.block ⟨0, 0⟩
    (∀ x, h.Reaches visibleField v x → ¬ h.Inside visibleField x x) ∧
      h.Written .mold v "[[b c] b c]" ∧ h.mold v = "[[...] b c]" := by
  intro s h v
  let values := [v, .block ⟨0, 1⟩, .word .word "b", .word .word "c"]
  let rank (x : Value) : Nat := (h.held visibleField x).length
  have falls : ∀ x ∈ values, ∀ y ∈ h.held visibleField x, y ∈ values ∧ rank y < rank x := by
    simp [values, h, s, v, held, tail, items, rank]
  refine ⟨fun x reach inside => ?_, ?_, by decide⟩
  · have member : x ∈ values :=
      reach.mem_of_closed List.mem_cons_self fun x hx y hy => (falls x hx y hy).1
    exact Nat.lt_irrefl _ (inside.rank_lt falls member)
  · have word (name : String) : h.Written .mold (.word .word name) name := .leaf rfl
    have rest : List.Forall₂ (h.Written .mold) [.word .word "b", .word .word "c"] ["b", "c"] :=
      .cons (word "b") (.cons (word "c") .nil)
    have inner : h.Written .mold (.block ⟨0, 1⟩) "[b c]" :=
      written_moldBlock.mpr ⟨["b", "c"], rest, by decide⟩
    exact written_moldBlock.mpr ⟨["[b c]", "b", "c"], .cons inner rest, by decide⟩

end Heap

end BlockScript
