import BlockScript.Proofs.Bisimulation
import BlockScript.Proofs.Reading

/-!
# Loaded data

A value stands for a datum when unfolding the containers it refers to gives the datum. Loading makes
such a value, leaves everything else in the heap alone, and numbers every container after those
inside it. So nothing that was loaded holds itself, rendering it never runs into a container twice,
and two values that stand for the same datum are strictly equal.
-/

namespace BlockScript

/-- A value stands for a datum; the containers it refers to are numbered below the bound, and those
inside them lower still. -/
inductive Denotes (h : Heap) : Nat → Value → Datum → Prop where
  | integer {bound : Nat} (n : Int64) : Denotes h bound (.integer n) (.integer n)
  | decimal {bound : Nat} (x : Float) : Denotes h bound (.decimal x) (.decimal x)
  | text {bound : Nat} {id : TextId} (present : id < h.texts.size) :
      Denotes h bound (.text id) (.text (h.text id))
  | word {bound : Nat} (kind : WordKind) (name : String) :
      Denotes h bound (.word kind name) (.word kind name)
  | path {bound : Nat} (kind : PathKind) (segments : List Segment) :
      Denotes h bound (.path kind segments) (.path kind segments)
  | block {bound : Nat} {r : BlockRef} {items : List Datum} (below : r.id < bound)
      (lengths : (h.tail r).length = items.length)
      (each : ∀ v d, (v, d) ∈ (h.tail r).zip items → Denotes h r.id v d) :
      Denotes h bound (.block r) (.block items)
  | paren {bound : Nat} {r : BlockRef} {items : List Datum} (below : r.id < bound)
      (lengths : (h.tail r).length = items.length)
      (each : ∀ v d, (v, d) ∈ (h.tail r).zip items → Denotes h r.id v d) :
      Denotes h bound (.paren r) (.paren items)

structure Heap.Extends (h h' : Heap) : Prop where
  blockCount : h.blocks.size ≤ h'.blocks.size
  textCount : h.texts.size ≤ h'.texts.size
  items : ∀ id, id < h.blocks.size → h'.items id = h.items id
  text : ∀ id, id < h.texts.size → h'.text id = h.text id

variable {h h' h'' : Heap} {bound bound' : Nat} {v : Value} {d : Datum}

namespace Heap.Extends

theorem refl (h : Heap) : h.Extends h := ⟨le_rfl, le_rfl, fun _ _ => rfl, fun _ _ => rfl⟩

theorem trans (first : h.Extends h') (second : h'.Extends h'') : h.Extends h'' where
  blockCount := first.blockCount.trans second.blockCount
  textCount := first.textCount.trans second.textCount
  items id present :=
    (second.items id (present.trans_le first.blockCount)).trans (first.items id present)
  text id present :=
    (second.text id (present.trans_le first.textCount)).trans (first.text id present)

theorem newBlock (h : Heap) (items : Array Value) : h.Extends (h.newBlock items).2 where
  blockCount := by simp [Heap.newBlock]
  textCount := le_rfl
  items id present := by simp [Heap.newBlock, Heap.items, Array.getElem?_push, Nat.ne_of_lt present]
  text _ _ := rfl

theorem newText (h : Heap) (content : String) : h.Extends (h.newText content).2 where
  blockCount := le_rfl
  textCount := by simp [Heap.newText]
  items _ _ := rfl
  text id present := by simp [Heap.newText, Heap.text, Array.getElem?_push, Nat.ne_of_lt present]

end Heap.Extends

namespace Denotes

theorem weaken (denotes : Denotes h bound v d) (le : bound ≤ bound') : Denotes h bound' v d := by
  cases denotes with
  | integer n => exact .integer n
  | decimal x => exact .decimal x
  | text present => exact .text present
  | word kind name => exact .word kind name
  | path kind segments => exact .path kind segments
  | block below lengths each => exact .block (below.trans_le le) lengths each
  | paren below lengths each => exact .paren (below.trans_le le) lengths each

theorem tail_extend (ext : h.Extends h') {r : BlockRef} (present : r.id < h.blocks.size) :
    h'.tail r = h.tail r := by
  rw [Heap.tail, ext.items _ present, Heap.tail]

/-- Making new containers does not change what a value stands for. -/
theorem extend (denotes : Denotes h bound v d) (ext : h.Extends h')
    (present : bound ≤ h.blocks.size) : Denotes h' bound v d := by
  induction denotes with
  | integer n => exact .integer n
  | decimal x => exact .decimal x
  | text inside =>
    rw [← ext.text _ inside]
    exact .text (inside.trans_le ext.textCount)
  | word kind name => exact .word kind name
  | path kind segments => exact .path kind segments
  | block below lengths _ ih =>
    have inside := below.trans_le present
    have same := tail_extend ext inside
    exact .block below (same ▸ lengths) fun v d item => ih v d (same ▸ item) inside.le
  | paren below lengths _ ih =>
    have inside := below.trans_le present
    have same := tail_extend ext inside
    exact .paren below (same ▸ lengths) fun v d item => ih v d (same ▸ item) inside.le

/-- A new container is numbered after all that its items refer to. -/
theorem newBlock {values : Array Value} {items : List Datum}
    (each : List.Forall₂ (Denotes h h.blocks.size) values.toList items) :
    Denotes (h.newBlock values).2 (h.newBlock values).2.blocks.size
        (.block (h.newBlock values).1) (.block items) ∧
      Denotes (h.newBlock values).2 (h.newBlock values).2.blocks.size
        (.paren (h.newBlock values).1) (.paren items) := by
  have below : (h.newBlock values).1.id < (h.newBlock values).2.blocks.size := by
    simp [Heap.newBlock]
  have tail : (h.newBlock values).2.tail (h.newBlock values).1 = values.toList := by
    simp [Heap.newBlock, Heap.tail, Heap.items]
  obtain ⟨lengths, related⟩ := List.forall₂_iff_zip.mp each
  have held : ∀ v d, (v, d) ∈ values.toList.zip items →
      Denotes (h.newBlock values).2 (h.newBlock values).1.id v d :=
    fun v d item => (related item).extend (.newBlock h values) le_rfl
  constructor
  · exact .block below (tail ▸ lengths) (tail ▸ held)
  · exact .paren below (tail ▸ lengths) (tail ▸ held)

end Denotes

/-! ## Loading -/

def LoadedAfter (h : Heap) (items : List Datum) (placed : Array Value)
    (loaded : Array Value × Heap) : Prop :=
  h.Extends loaded.2 ∧ ∃ values, loaded.1.toList = placed.toList ++ values ∧
    List.Forall₂ (Denotes loaded.2 loaded.2.blocks.size) values items

mutual

theorem load_denotes (h : Heap) : (d : Datum) → h.Extends (h.load d).2 ∧
    Denotes (h.load d).2 (h.load d).2.blocks.size (h.load d).1 d
  | .integer n => ⟨.refl h, .integer n⟩
  | .decimal x => ⟨.refl h, .decimal x⟩
  | .word kind name => ⟨.refl h, .word kind name⟩
  | .path kind segments => ⟨.refl h, .path kind segments⟩
  | .text content => by
    refine ⟨.newText h content, ?_⟩
    have held : (h.newText content).2.text h.texts.size = content := by
      simp [Heap.newText, Heap.text]
    have denotes : Denotes (h.newText content).2 (h.newText content).2.blocks.size
        (.text h.texts.size) (.text ((h.newText content).2.text h.texts.size)) :=
      .text (by simp [Heap.newText])
    rw [held] at denotes
    exact denotes
  | .block items => by
    obtain ⟨ext, values, placed, each⟩ := loadItems_denotes h items #[]
    rw [List.nil_append] at placed
    exact ⟨ext.trans (.newBlock _ _), (Denotes.newBlock (placed ▸ each)).1⟩
  | .paren items => by
    obtain ⟨ext, values, placed, each⟩ := loadItems_denotes h items #[]
    rw [List.nil_append] at placed
    exact ⟨ext.trans (.newBlock _ _), (Denotes.newBlock (placed ▸ each)).2⟩

theorem loadItems_denotes (h : Heap) :
    (items : List Datum) → (placed : Array Value) →
      LoadedAfter h items placed (h.loadItems items placed)
  | [], placed => ⟨.refl h, [], by rw [List.append_nil]; rfl, .nil⟩
  | item :: items, placed => by
    obtain ⟨ext, denotes⟩ := load_denotes h item
    obtain ⟨ext', values, after, each⟩ :=
      loadItems_denotes (h.load item).2 items (placed.push (h.load item).1)
    refine ⟨ext.trans ext', (h.load item).1 :: values, ?_, .cons ?_ each⟩
    · rw [Array.toList_push, List.append_assoc] at after
      exact after
    · exact (denotes.extend ext' le_rfl).weaken ext'.blockCount

end

theorem loadBlock_denotes (h : Heap) (data : List Datum) :
    h.Extends (h.loadBlock data).2 ∧
      Denotes (h.loadBlock data).2 (h.loadBlock data).2.blocks.size
        (.block (h.loadBlock data).1) (.block data) :=
  load_denotes h (.block data)

/-! ## Rendering -/

theorem Datum.moldItems_eq (items : List Datum) :
    moldItems items = [' '].intercalate (items.map mold) := by
  induction items with
  | nil => rfl
  | cons item items ih =>
    cases items with
    | nil => simp [moldItems]
    | cons next items =>
      rw [moldItems, ih, List.map_cons, List.map_cons, List.map_cons, List.intercalate_cons_cons,
        List.append_assoc]
      · rfl
      · exact fun same => by cases same

theorem render_items {render : Value → String} {values : List Value} {items : List Datum}
    (each : List.Forall₂ (fun v d => render v = String.ofList d.mold) values items) :
    (" ".intercalate (values.map render)).toList = Datum.moldItems items := by
  have texts : (values.map render).map String.toList = items.map Datum.mold := by
    induction each with
    | nil => rfl
    | cons same _ ih =>
      simp only [List.map_cons, same, String.toList_ofList]
      rw [ih]
  rw [String.toList_intercalate, texts, Datum.moldItems_eq]
  rfl

/-- A container that rendering is not inside of yet is written with its items in full. -/
theorem render_container {fuel : Nat} {path : List Container} {r : BlockRef} {items : List Datum}
    (fresh : Container.block r.id ∉ path)
    (each : List.Forall₂ (fun v d =>
      h.render fuel .mold (.block r.id :: path) v = String.ofList d.mold) (h.tail r) items) :
    h.render (fuel + 1) .mold path (.block r) = String.ofList (Datum.block items).mold ∧
      h.render (fuel + 1) .mold path (.paren r) = String.ofList (Datum.paren items).mold := by
  have text := render_items each
  constructor
  · rw [← String.toList_inj]
    simp [Heap.render, fresh, text, Datum.mold]
  · rw [← String.toList_inj]
    simp [Heap.render, fresh, text, Datum.mold]

def Outside (bound : Nat) (path : List Container) : Prop :=
  ∀ id, Container.block id ∈ path → bound ≤ id

theorem Outside.not_mem {path : List Container} {id : Nat} (outside : Outside bound path)
    (below : id < bound) : Container.block id ∉ path :=
  fun member => absurd (outside id member) (Nat.not_le_of_lt below)

/-- Inside a block, that block is open and so is what was open around it. -/
theorem Outside.cons {path : List Container} {id : Nat} (outside : Outside bound path)
    (below : id < bound) : Outside id (Container.block id :: path) := by
  intro id' member
  rcases List.mem_cons.mp member with same | member
  · cases same
    exact le_rfl
  · exact below.le.trans (outside id' member)

/-- Rendering a value that stands for a datum gives the text of the datum. -/
theorem Denotes.render (denotes : Denotes h bound v d) {fuel : Nat} {path : List Container}
    (enough : bound < fuel) (outside : Outside bound path) :
    h.render fuel .mold path v = String.ofList d.mold := by
  induction denotes generalizing fuel path with
  | block below lengths _ ih =>
    obtain ⟨fuel, rfl⟩ := Nat.exists_eq_succ_of_ne_zero (Nat.ne_zero_of_lt enough)
    have inside := below.trans_le (Nat.le_of_lt_succ enough)
    have each := List.forall₂_iff_zip.mpr
      ⟨lengths, fun item => ih _ _ item inside (outside.cons below)⟩
    exact (render_container (outside.not_mem below) each).1
  | paren below lengths _ ih =>
    obtain ⟨fuel, rfl⟩ := Nat.exists_eq_succ_of_ne_zero (Nat.ne_zero_of_lt enough)
    have inside := below.trans_le (Nat.le_of_lt_succ enough)
    have each := List.forall₂_iff_zip.mpr
      ⟨lengths, fun item => ih _ _ item inside (outside.cons below)⟩
    exact (render_container (outside.not_mem below) each).2
  | _ =>
    obtain ⟨fuel, rfl⟩ := Nat.exists_eq_succ_of_ne_zero (Nat.ne_zero_of_lt enough)
    exact String.ofList_toList.symm

theorem Denotes.mold (denotes : Denotes h bound v d) (present : bound ≤ h.blocks.size) :
    h.mold v = String.ofList d.mold := by
  refine denotes.render ?_ fun _ member => by cases member
  rw [Heap.renderFuel, Heap.containerCount]
  omega

/-! ## Equality -/

/-- Two values that stand for the same datum, whose decimals all equal themselves. -/
def SameDatum (h : Heap) (v w : Value) : Prop :=
  ∃ d bound bound', Denotes h bound v d ∧ Denotes h bound' w d ∧ ∀ x ∈ d.decimals, (x == x) = true

theorem sameDatum_items {vs ws : List Value} {items : List Datum}
    (hv : List.Forall₂ (Denotes h bound) vs items) (hw : List.Forall₂ (Denotes h bound') ws items)
    (reflexive : ∀ x ∈ Datum.decimalsOf items, (x == x) = true) :
    List.Forall₂ (SameDatum h) vs ws := by
  induction hv generalizing ws with
  | nil =>
    cases hw
    exact .nil
  | @cons v d vs items denotes _ ih =>
    cases hw with
    | cons denotes' others =>
      refine .cons ⟨d, bound, bound', denotes, denotes', fun x member => ?_⟩ (ih others ?_)
      · exact reflexive x (Datum.mem_decimalsOf List.mem_cons_self member)
      · exact fun x member => reflexive x (List.mem_append_right _ member)

theorem sameDatum_segment (segment : Segment) : SameDatum h segment.value segment.value := by
  cases segment with
  | name text =>
    exact ⟨.word .word text, 0, 0, .word .word text, .word .word text,
      fun _ member => by cases member⟩
  | index n => exact ⟨.integer n, 0, 0, .integer n, .integer n, fun _ member => by cases member⟩

theorem matches_of_sameDatum {v w : Value} (same : SameDatum h v w) :
    Matches h true (SameDatum h) v w := by
  obtain ⟨d, bound, bound', hv, hw, reflexive⟩ := same
  cases hv with
  | integer n =>
    cases hw
    exact .leaves (.integer n)
  | decimal x =>
    cases hw
    exact .leaves (.decimal (reflexive x (List.mem_singleton_self x)))
  | word kind name =>
    cases hw
    exact .leaves (.word (fun _ => rfl) name)
  | path kind segments =>
    cases hw
    exact .paths (fun _ => rfl) (List.forall₂_same.mpr fun segment _ => sameDatum_segment segment)
  | @text _ id _ =>
    generalize held : h.text id = content at hw
    cases hw
    exact .leaves (.exactText rfl held)
  | block _ lengths each =>
    cases hw with
    | block _ lengths' each' =>
      exact .blocks (sameDatum_items (List.forall₂_iff_zip.mpr ⟨lengths, each _ _⟩)
        (List.forall₂_iff_zip.mpr ⟨lengths', each' _ _⟩) reflexive)
  | paren _ lengths each =>
    cases hw with
    | paren _ lengths' each' =>
      exact .parens (sameDatum_items (List.forall₂_iff_zip.mpr ⟨lengths, each _ _⟩)
        (List.forall₂_iff_zip.mpr ⟨lengths', each' _ _⟩) reflexive)

/-- In one heap, values that stand for the same datum are strictly equal. -/
theorem strictEqual_of_denotes {w : Value} (hv : Denotes h bound v d) (hw : Denotes h bound' w d)
    (reflexive : ∀ x ∈ d.decimals, (x == x) = true) : h.strictEqual v w = true :=
  (h.equalIn_iff_bisimilar true v w).mpr
    ⟨SameDatum h, fun _ _ => matches_of_sameDatum, d, bound, bound', hv, hw, reflexive⟩

end BlockScript
