import BlockScript.Proofs.Rendering

/-!
# Rendering ends

The renderer keeps one set of open containers for all that it writes. It opens a container where it
meets it, writes what is inside, and closes it again. Where it meets one that is open it writes an
ellipsis. Each container that is opened on the way down is one less to open, so rendering ends on
every heap, whatever refers to what. The set is left as it was found, so the text of a value does
not depend on what was written before it, and it is the text that rendering under a path gives.
-/

namespace BlockScript

def Value.opens? : Value → Option Container
  | .block r => some (.block r.id)
  | .paren r => some (.block r.id)
  | .object id => some (.object id)
  | _ => Option.none

/-- The style of what is inside a value: only the items of a formed block are formed. -/
def Value.innerStyle (style : Style) : Value → Style
  | .block _ => style
  | _ => .mold

def Value.ellipsis (style : Style) : Value → String
  | .block _ =>
    match style with
    | .mold => "[...]"
    | .form => "..."
  | .paren _ => "(...)"
  | .object _ => "make object! [...]"
  | _ => ""

namespace Heap

def wrapped (h : Heap) (style : Style) (v : Value) (texts : List String) : String :=
  let items := " ".intercalate texts
  match v with
  | .block _ =>
    match style with
    | .mold => "[" ++ items ++ "]"
    | .form => items
  | .paren _ => "(" ++ items ++ ")"
  | .object id =>
    let field := fun (name text : String) => name ++ ": " ++ text
    "make object! [" ++ " ".intercalate (List.zipWith field (h.frame id).words texts) ++ "]"
  | _ => ""

/-- The renderer writes some values one after another, which changes the set of open containers from
the first to the last. It has no fuel, so what it writes it writes in finitely many steps. -/
inductive Renders (h : Heap) :
    Style → Finset Container → List Value → List String → Finset Container → Prop where
  | nil {style : Style} {opened : Finset Container} : Renders h style opened [] [] opened
  | leaf {style : Style} {opened opened' : Finset Container} {v : Value} {vs : List Value}
      {texts : List String} (leaf : v.isLeaf) (rest : Renders h style opened vs texts opened') :
      Renders h style opened (v :: vs) (h.leafText style v :: texts) opened'
  | again {style : Style} {opened opened' : Finset Container} {v : Value} {c : Container}
      {vs : List Value} {texts : List String} (opens : v.opens? = some c) (open_ : c ∈ opened)
      (rest : Renders h style opened vs texts opened') :
      Renders h style opened (v :: vs) (v.ellipsis style :: texts) opened'
  | enter {style : Style} {opened inner opened' : Finset Container} {v : Value} {c : Container}
      {vs : List Value} {texts inside : List String} (opens : v.opens? = some c)
      (closed : c ∉ opened)
      (body : Renders h (v.innerStyle style) (insert c opened) (h.held visibleField v) inside inner)
      (rest : Renders h style (inner.erase c) vs texts opened') :
      Renders h style opened (v :: vs) (h.wrapped style v inside :: texts) opened'

variable {h : Heap} {v w : Value} {vs : List Value} {c : Container} {path : List Container}
  {style : Style} {opened opened' opened'' : Finset Container} {texts texts' : List String}
  {fuel : Nat}

/-! ## One level of a rendering -/

theorem not_isLeaf_of_opens (opens : v.opens? = some c) : v.isLeaf = false := by
  cases v <;> first | rfl | cases opens

theorem exists_opens_of_not_leaf (inside : v.isLeaf = false) : ∃ c, v.opens? = some c := by
  cases v with
  | block r => exact ⟨_, rfl⟩
  | paren r => exact ⟨_, rfl⟩
  | object id => exact ⟨_, rfl⟩
  | _ => cases inside

theorem container_of_opens (opens : v.opens? = some c) : v.container? = some c := by
  cases v <;> first | exact opens | cases opens

theorem render_leaf (leaf : v.isLeaf) : h.render (fuel + 1) style path v = h.leafText style v := by
  cases v <;> cases style <;> first | rfl | cases leaf

theorem render_container (opens : v.opens? = some c) :
    h.render (fuel + 1) style path v =
      if c ∈ path then v.ellipsis style
      else h.wrapped style v
        ((h.held visibleField v).map (h.render fuel (v.innerStyle style) (c :: path))) := by
  cases v with
  | block r =>
    cases opens
    cases style with
    | mold =>
      simp only [render]
      split <;> rfl
    | form =>
      simp only [render]
      split <;> rfl
  | paren r =>
    cases opens
    simp only [render]
    split <;> rfl
  | object id =>
    cases opens
    simp only [render, wrapped, held_visible, Frame.words, List.map_map, List.zipWith_map,
      List.zipWith_self, Function.comp_def]
    rfl
  | _ => cases opens

/-! ## Runs of the renderer -/

namespace Renders

/-- What was open before is open after, and nothing else. -/
theorem restores (run : h.Renders style opened vs texts opened') : opened' = opened := by
  induction run with
  | nil => rfl
  | leaf _ _ ih => exact ih
  | again _ _ _ ih => exact ih
  | enter _ closed _ _ inner outer => rw [outer, inner, Finset.erase_insert closed]

/-- There is one way to write some values. -/
theorem unique (run : h.Renders style opened vs texts opened')
    (run' : h.Renders style opened vs texts' opened'') : texts' = texts := by
  induction run generalizing texts' opened'' with
  | nil =>
    cases run'
    rfl
  | leaf leaf _ ih =>
    cases run' with
    | leaf _ rest' => rw [ih rest']
    | again opens' => simp [not_isLeaf_of_opens opens'] at leaf
    | enter opens' => simp [not_isLeaf_of_opens opens'] at leaf
  | again opens open_ _ ih =>
    cases run' with
    | leaf leaf' => simp [not_isLeaf_of_opens opens] at leaf'
    | again _ _ rest' => rw [ih rest']
    | enter opens' closed' =>
      cases opens.symm.trans opens'
      exact absurd open_ closed'
  | enter opens closed body _ inner outer =>
    cases run' with
    | leaf leaf' => simp [not_isLeaf_of_opens opens] at leaf'
    | again opens' open_' =>
      cases opens.symm.trans opens'
      exact absurd open_' closed
    | enter opens' _ body' rest' =>
      cases opens.symm.trans opens'
      rw [body'.restores, ← body.restores] at rest'
      rw [inner body', outer rest']

theorem cons {text : String} (first : h.Renders style opened [v] [text] opened')
    (rest : h.Renders style opened' vs texts opened'') :
    h.Renders style opened (v :: vs) (text :: texts) opened'' := by
  cases first with
  | leaf leaf done =>
    cases done
    exact .leaf leaf rest
  | again opens open_ done =>
    cases done
    exact .again opens open_ rest
  | enter opens closed body done =>
    cases done
    exact .enter opens closed body rest

/-- Every value is written as if it stood alone. -/
theorem each (run : h.Renders style opened vs texts opened') :
    List.Forall₂ (fun v text => h.Renders style opened [v] [text] opened) vs texts := by
  induction run with
  | nil => exact .nil
  | leaf leaf _ ih => exact .cons (.leaf leaf .nil) ih
  | again opens open_ _ ih => exact .cons (.again opens open_ .nil) ih
  | enter opens closed body _ _ ih =>
    have back := body.restores
    subst back
    rw [Finset.erase_insert closed] at ih
    refine .cons (.enter opens closed body ?_) ih
    rw [Finset.erase_insert closed]
    exact .nil

theorem of_each
    (each : List.Forall₂ (fun v text => h.Renders style opened [v] [text] opened) vs texts) :
    h.Renders style opened vs texts opened := by
  induction each with
  | nil => exact .nil
  | cons first _ ih => exact first.cons ih

end Renders

/-- With fuel for every container that is not yet open, rendering under a path is what the renderer
does when the containers of the path are open. -/
theorem renders_render (fuel : Nat) (style : Style) (path : List Container) (vs : List Value)
    (enough : unmet h.containers path < fuel) :
    h.Renders style path.toFinset vs (vs.map (h.render fuel style path)) path.toFinset := by
  induction fuel generalizing style path vs with
  | zero => exact absurd enough (Nat.not_lt_zero _)
  | succ fuel below =>
    induction vs with
    | nil => exact .nil
    | cons v vs ih =>
      rw [List.map_cons]
      cases leaf : v.isLeaf with
      | true =>
        rw [render_leaf leaf]
        exact .leaf leaf ih
      | false =>
        obtain ⟨c, opens⟩ := exists_opens_of_not_leaf leaf
        rw [render_container opens]
        by_cases open_ : c ∈ path
        · rw [if_pos open_]
          exact .again opens (List.mem_toFinset.mpr open_) ih
        · rw [if_neg open_]
          have closed : c ∉ path.toFinset := fun old => open_ (List.mem_toFinset.mp old)
          have body : h.Renders (v.innerStyle style) (insert c path.toFinset)
              (h.held visibleField v)
              ((h.held visibleField v).map (h.render fuel (v.innerStyle style) (c :: path)))
              (insert c path.toFinset) := by
            -- a container that holds something is one less to open, and an empty one needs no fuel
            cases inside : h.held visibleField v with
            | nil => exact .nil
            | cons w ws =>
              have item : w ∈ h.held visibleField v := inside ▸ List.mem_cons_self
              have fewer := unmet_held_lt item (container_of_opens opens) open_
              rw [← List.toFinset_cons]
              exact below _ (c :: path) (w :: ws) (by omega)
          refine .enter opens closed body ?_
          rw [Finset.erase_insert closed]
          exact ih

theorem unmet_lt_renderFuel (h : Heap) (path : List Container) :
    unmet h.containers path < h.renderFuel :=
  Nat.lt_succ_of_le ((unmet_le _ _).trans h.card_containers_le)

theorem render_eq_of_le (more : h.renderFuel ≤ fuel) (style : Style) (path : List Container)
    (v : Value) : h.render fuel style path v = h.render h.renderFuel style path v := by
  have enough := h.unmet_lt_renderFuel path
  have usual := renders_render h.renderFuel style path [v] enough
  have further := renders_render fuel style path [v] (enough.trans_le more)
  exact List.singleton_inj.mp (usual.unique further)

/-! ## The way down -/

structure Rendering where
  style : Style
  opened : Finset Container
  value : Value

/-- To write one value the renderer opens a container and, when the values before it are written,
writes one of those inside. -/
inductive Opens (h : Heap) : Rendering → Container → Rendering → Prop where
  | intro {style : Style} {opened inner : Finset Container} {v w : Value} {c : Container}
      {before behind : List Value} {texts : List String} (opens : v.opens? = some c)
      (closed : c ∉ opened) (inside : h.held visibleField v = before ++ w :: behind)
      (siblings : h.Renders (v.innerStyle style) (insert c opened) before texts inner) :
      Opens h ⟨style, opened, v⟩ c ⟨v.innerStyle style, inner, w⟩

inductive Descends (h : Heap) : Rendering → List Container → Rendering → Prop where
  | stay (a : Rendering) : Descends h a [] a
  | down {a b d : Rendering} {c : Container} {path : List Container} (first : h.Opens a c b)
      (rest : Descends h b path d) : Descends h a (c :: path) d

theorem Opens.opened_eq {a b : Rendering} (opens : h.Opens a c b) :
    c ∉ a.opened ∧ b.opened = insert c a.opened ∧ c ∈ h.containers := by
  cases opens with
  | @intro _ _ _ v w _ _ _ _ opens closed inside siblings =>
    refine ⟨closed, siblings.restores, ?_⟩
    have item : w ∈ h.held visibleField v := inside ▸ List.mem_append_right _ List.mem_cons_self
    obtain ⟨c', present, found⟩ := mem_containers_of_held item
    obtain rfl := Option.some.inj ((container_of_opens opens).symm.trans found)
    exact present

/-- The containers opened on a way down are distinct, were not open before it and are open at its
end. -/
theorem Descends.opened_eq {a b : Rendering} (descends : h.Descends a path b) :
    path.Nodup ∧ (∀ c ∈ path, c ∉ a.opened) ∧ b.opened = path.toFinset ∪ a.opened ∧
      path.toFinset ⊆ h.containers := by
  induction descends with
  | stay a => simp
  | @down a b d c path first rest ih =>
    obtain ⟨closed, opened, present⟩ := first.opened_eq
    obtain ⟨distinct, fresh, final, below⟩ := ih
    rw [opened] at fresh final
    have once : c ∉ path := fun again => fresh c again (Finset.mem_insert_self c _)
    refine ⟨List.nodup_cons.mpr ⟨once, distinct⟩, ?_, ?_, ?_⟩
    · intro c' member
      rcases List.mem_cons.mp member with rfl | member
      · exact closed
      · exact fun old => fresh c' member (Finset.mem_insert_of_mem old)
    · rw [final, List.toFinset_cons, Finset.insert_union, Finset.union_insert]
    · rw [List.toFinset_cons]
      exact Finset.insert_subset present below

theorem Descends.length_le {a b : Rendering} (descends : h.Descends a path b) :
    path.length ≤ h.containerCount := by
  obtain ⟨distinct, -, -, present⟩ := descends.opened_eq
  calc path.length
      = path.toFinset.card := (List.toFinset_card_of_nodup distinct).symm
    _ ≤ h.containers.card := Finset.card_le_card present
    _ ≤ h.containerCount := h.card_containers_le

/-! ## Every heap -/

structure RenderingEnds (h : Heap) : Prop where
  mold (v : Value) : h.Renders .mold ∅ [v] [h.mold v] ∅
  form (v : Value) : h.Renders .form ∅ [v] [h.form v] ∅
  /-- Some values have one text each, and the open set is the same before and after. -/
  ends (style : Style) (opened : Finset Container) (vs : List Value) : ∃ texts,
    ∀ texts' opened', h.Renders style opened vs texts' opened' ↔ texts' = texts ∧ opened' = opened
  /-- More fuel than a rendering is given makes no difference. -/
  fuel (fuel : Nat) (style : Style) (path : List Container) (v : Value) :
    h.renderFuel ≤ fuel → h.render fuel style path v = h.render h.renderFuel style path v
  /-- On a way down each container is opened once, so there is no endless one. -/
  once (a b : Rendering) (path : List Container) : h.Descends a path b →
    path.Nodup ∧ (∀ c ∈ path, c ∉ a.opened) ∧ b.opened = path.toFinset ∪ a.opened ∧
      path.length ≤ h.containerCount
  /-- What was written before a value makes no difference to it. -/
  siblings (style : Style) (opened opened' : Finset Container) (vs : List Value)
      (texts : List String) :
    h.Renders style opened vs texts opened' ↔
      opened' = opened ∧
        List.Forall₂ (fun v text => h.Renders style opened [v] [text] opened) vs texts

theorem rendering_ends (h : Heap) : h.RenderingEnds where
  mold v := renders_render h.renderFuel .mold [] [v] (h.unmet_lt_renderFuel [])
  form v := renders_render h.renderFuel .form [] [v] (h.unmet_lt_renderFuel [])
  ends style opened vs := by
    have run := renders_render h.renderFuel style opened.toList vs (h.unmet_lt_renderFuel _)
    rw [Finset.toList_toFinset] at run
    refine ⟨_, fun texts' opened' => ⟨fun run' => ⟨run.unique run', run'.restores⟩, ?_⟩⟩
    rintro ⟨rfl, rfl⟩
    exact run
  fuel fuel style path v more := render_eq_of_le more style path v
  once a b path descends := by
    obtain ⟨distinct, fresh, opened, -⟩ := descends.opened_eq
    exact ⟨distinct, fresh, opened, descends.length_le⟩
  siblings style opened opened' vs texts := by
    constructor
    · intro run
      exact ⟨run.restores, run.each⟩
    · rintro ⟨rfl, each⟩
      exact .of_each each

end Heap

end BlockScript
