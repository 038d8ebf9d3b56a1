import BlockScript.Proofs.Effects
import BlockScript.Proofs.Refusal
import BlockScript.Proofs.Sites

/-!
# Positions

Evaluating an expression goes from one position of its block to another, through arguments, operands
and assigned values. A condition on positions that one item more keeps, and that every call keeps,
holds of the position that the expression ends at. What a condition has to satisfy for this is
listed once; the functions that evaluate an expression are gone through once.
-/

namespace BlockScript

variable {α β : Type} {s t : State} {h h' : Heap} {v : Value}

/-! ## Heaps in which no series is shorter -/

def Heap.Lengthens (h h' : Heap) : Prop := ∀ id, (h.items id).size ≤ (h'.items id).size

namespace Heap.Lengthens

theorem of_blocks_eq (same : h'.blocks = h.blocks) : h.Lengthens h' := by
  intro id
  rw [items, items, same]

theorem refl (h : Heap) : h.Lengthens h := of_blocks_eq rfl

theorem trans {h'' : Heap} (first : h.Lengthens h') (second : h'.Lengthens h'') :
    h.Lengthens h'' := fun id => (first id).trans (second id)

theorem of_editBlock (id : Nat) {change : Array Value → Array Value}
    (same : ∀ items, (change items).size = items.size) : h.Lengthens (h.editBlock id change) := by
  intro id'
  unfold Heap.editBlock items
  dsimp only
  rw [Array.getElem?_modify]
  by_cases here : id = id'
  · rw [if_pos here]
    cases h.blocks[id']? with
    | none => exact le_rfl
    | some series => exact (same series.data).ge
  · rw [if_neg here]

end Heap.Lengthens

/-! ## What an expression does itself

Apart from its calls, an expression reads, makes texts and writes to fields and items. -/

def Heap.SameBlocks (h h' : Heap) : Prop := h'.blocks = h.blocks

namespace Heap.SameBlocks

theorem refl (h : Heap) : h.SameBlocks h := rfl

theorem trans {h'' : Heap} (first : h.SameBlocks h') (second : h'.SameBlocks h'') :
    h.SameBlocks h'' := Eq.trans second first

theorem lookupSet (name : String) : Relates Heap.SameBlocks (lookupSet name) := by
  refine .lookup_then fun found => ?_
  obtain _ | v := found
  · exact .throw refl _
  · cases v with
    | unset => exact .throw refl _
    | _ => exact .pure refl _

theorem pathHead (segments : List Segment) : Relates Heap.SameBlocks (Path.head segments) := by
  obtain _ | ⟨name | _, _⟩ := segments
  · exact .throw refl _
  · exact lookupSet name
  · exact .throw refl _

theorem select (segments : List Segment) (container : Value) (segment : Segment) :
    Relates Heap.SameBlocks (Path.select segments container segment) := by
  unfold Path.select
  split
  · refine .getHeap_then fun h => ?_
    split
    · exact .pure refl _
    · exact .throw refl _
  · exact .getHeap_then fun _ => .pure refl _
  · exact .getHeap_then fun _ => .pure refl _
  · exact .getHeap_then fun _ => .pure refl _
  · exact .pure refl _
  · exact fun _ => rfl
  · exact .throw refl _

theorem pathGet (segments : List Segment) : Relates Heap.SameBlocks (Path.get segments) :=
  .bind trans (pathHead segments) fun v => .foldlM refl trans (select segments) _ v

theorem pathTarget (segments : List Segment) : Relates Heap.SameBlocks (Path.target segments) := by
  unfold Path.target
  split
  · exact .throw refl _
  · exact .ite (.throw refl _) (.bind trans (pathHead segments) fun v =>
      .bind trans (.foldlM refl trans (select segments) _ v) fun _ => .pure refl _)

end Heap.SameBlocks

namespace Heap.Lengthens

theorem of_sameBlocks {m : EvalM α} (same : Relates Heap.SameBlocks m) :
    Relates Heap.Lengthens m := same.mono of_blocks_eq

theorem fetch (name : String) : Relates Heap.Lengthens (fetch name) :=
  .lookup_then fun _ => .pure refl _

theorem operatorAt (block : BlockRef) (position : Nat) :
    Relates Heap.Lengthens (operatorAt block position) :=
  .of_reads refl fun s => endState_ok (operatorAt_apply block position s)

theorem assignWord (name : String) (value : Value) :
    Relates Heap.Lengthens (assignWord name value) := by
  intro s
  rw [endState, assignWord_apply]
  cases s.env.slot s.heap name with
  | error denied => exact refl s.heap
  | ok slot => cases slot <;> exact of_blocks_eq rfl

theorem assignField (id : FrameId) (index : Nat) (value : Value) :
    Relates Heap.Lengthens (assignField id index value) := by
  intro s
  rw [endState, assignField_apply]
  cases (s.heap.frame id).denied? index <;> exact of_blocks_eq rfl

theorem pokeItem (r : BlockRef) (place : Int64) (value : Value) :
    Relates Heap.Lengthens (pokeItem r place value) := by
  refine .ite (.throw refl _)
    (.getHeap_then fun _ => .ite (.throw refl _) (.ite ?_ (.throw refl _)))
  intro s
  rw [endState, editBlock_apply]
  by_cases guarded : s.heap.isBlockProtected r.id
  · rw [if_pos guarded]
    exact refl s.heap
  · rw [if_neg guarded]
    exact of_editBlock r.id fun items => Array.size_setIfInBounds

theorem pathSet (segments : List Segment) (value : Value) :
    Relates Heap.Lengthens (Path.set segments value) := by
  refine .bind trans (of_sameBlocks (.pathTarget segments)) fun step => ?_
  dsimp only
  split
  · refine .getHeap_then fun h => ?_
    split
    · exact assignField _ _ _
    · exact .throw refl _
  · exact pokeItem _ _ _
  · exact .throw refl _

end Heap.Lengthens

/-! ## Conditions on positions -/

/-- From any heap with the precondition, a computation ends in a heap that is related to it, and if
it has a result, that and the heap have the postcondition. -/
def Lands (R : Heap → Heap → Prop) (pre : Heap → Prop) (m : EvalM α) (post : α → Heap → Prop) :
    Prop :=
  ∀ s, pre s.heap → R s.heap (endState m s).heap ∧ ∀ a t, m s = .ok a t → post a t.heap

/-- A relation between heaps, and a condition on the positions in a block, that are kept wherever no
series gets shorter and nothing but present items is passed. -/
structure PositionsKept (block : BlockRef) (R : Heap → Heap → Prop) (I : Heap → Nat → Prop) :
    Prop where
  trans {a b c : Heap} : R a b → R b c → R a c
  lengthens {h h' : Heap} : h.Lengthens h' → R h h'
  stays {h h' : Heap} {position : Nat} : R h h' → I h position → I h' position
  passes {h : Heap} {position : Nat} {v : Value} :
    h.item? block position = some v → I h position → I h (position + 1)

def After (I : Heap → Nat → Prop) (step : Option (Value × Nat)) (h : Heap) : Prop :=
  ∀ value position, step = some (value, position) → I h position

structure Evaluator.KeepsPositions (block : BlockRef) (R : Heap → Heap → Prop)
    (I : Heap → Nat → Prop) (ev : Evaluator) : Prop where
  relates : ev.Relates R
  next (position : Nat) : Lands R (I · position) (ev.next block position) (After I)

section Rules

variable {R : Heap → Heap → Prop} {pre : Heap → Prop} {post : α → Heap → Prop} {m : EvalM α}

namespace Lands

theorem pure (refl : ∀ h, R h h) {a : α} (holds : ∀ h, pre h → post a h) :
    Lands R pre (Pure.pure a) post := by
  refine fun s begins => ⟨refl s.heap, fun b t done => ?_⟩
  cases done
  exact holds s.heap begins

theorem throw (refl : ∀ h, R h h) (exit : Exit) : Lands R pre (throw exit : EvalM α) post :=
  fun s _ => ⟨refl s.heap, fun _ _ done => nomatch done⟩

theorem bind {post' : β → Heap → Prop} {f : α → EvalM β}
    (trans : ∀ {a b c}, R a b → R b c → R a c) (first : Lands R pre m post)
    (rest : ∀ a, Lands R (post a) (f a) post') : Lands R pre (m >>= f) post' := by
  intro s begins
  obtain ⟨before, holds⟩ := first s begins
  cases run : m s with
  | error exit u =>
    rw [endState_error run] at before
    rw [endState_bind_error run]
    exact ⟨before, fun b t done => nomatch (bind_of_error run f).symm.trans done⟩
  | ok a u =>
    rw [endState_ok run] at before
    obtain ⟨after, holds'⟩ := rest a u (holds a u run)
    rw [endState_bind_ok run]
    exact ⟨trans before after, fun b t done => holds' b t ((bind_of_ok run f).symm.trans done)⟩

theorem getHeap_then {f : Heap → EvalM α} (rest : ∀ h, pre h → Lands R (· = h) (f h) post) :
    Lands R pre (getHeap >>= f) post := fun s begins => rest s.heap begins s rfl

theorem of_pre {pre' : Heap → Prop} (lands : Lands R pre m post) (begins : ∀ h, pre' h → pre h) :
    Lands R pre' m post := fun s here => lands s (begins s.heap here)

theorem ite {c : Prop} [Decidable c] {m' : EvalM α} (yes : Lands R pre m post)
    (no : Lands R pre m' post) : Lands R pre (if c then m else m') post := by
  split
  · exact yes
  · exact no

end Lands

end Rules

/-- There is an item before every item but the first. -/
theorem Heap.item?_before {block : BlockRef} {position : Nat}
    (found : h.item? block (position + 1) = some v) : ∃ u, h.item? block position = some u := by
  have below := (Array.getElem?_eq_some_iff.mp found).1
  exact ⟨_, Array.getElem?_eq_getElem (Nat.lt_of_succ_lt below)⟩

/-! ## The functions that evaluate an expression -/

namespace PositionsKept

variable {block : BlockRef} {R : Heap → Heap → Prop} {I : Heap → Nat → Prop} {ev : Evaluator}
  (kept : PositionsKept block R I)

include kept

theorem refl (h : Heap) : R h h := kept.lengthens (.refl h)

theorem relates {m : EvalM α} (lengthens : Relates Heap.Lengthens m) : Relates R m :=
  fun s => kept.lengthens (lengthens s)

/-- What relates the heaps keeps the condition of a position for what follows. -/
theorem frame {position : Nat} {m : EvalM α} {f : α → EvalM β} {post : β → Heap → Prop}
    (first : Relates R m) (rest : ∀ a, Lands R (I · position) (f a) post) :
    Lands R (I · position) (m >>= f) post := by
  have begun : Lands R (I · position) m fun _ h => I h position := by
    refine fun s here => ⟨first s, fun a t done => ?_⟩
    have related := first s
    rw [endState_ok done] at related
    exact kept.stays related here
  exact .bind kept.trans begun rest

theorem all (hev : ev.Relates R) (body : BlockRef) : Relates R (ev.all body) := by
  have fold (fuel index : Nat) (acc : Value) :
      Relates R (ev.foldFrom body (fun _ value => .yield value) fuel index acc) := by
    induction fuel generalizing index acc with
    | zero => exact .throw kept.refl _
    | succ fuel ih =>
      refine .bind kept.trans (hev.next body index) fun step => ?_
      obtain _ | ⟨value, next⟩ := step
      · exact .pure kept.refl acc
      · exact ih next value
  exact fold ev.fuel body.index .unset

variable (hev : ev.KeepsPositions block R I)

include hev

theorem gatherArg (function : String) (param : Param) (position : Nat) :
    Lands R (I · position) (gatherArg ev function param block position) fun r h => I h r.2 := by
  unfold BlockScript.gatherArg
  dsimp only
  split
  · refine .getHeap_then fun h here => ?_
    split
    · next item found => exact .pure kept.refl fun h' same => same ▸ kept.passes found here
    · exact .throw kept.refl _
  · refine .getHeap_then fun h here => ?_
    have fetched (name : String) {v : Value} (found : h.item? block position = some v) :
        Lands R (· = h) (do return (← fetch name, position + 1)) fun r h => I h r.2 := by
      refine .of_pre (kept.frame (kept.relates (.fetch name)) fun _ =>
        .pure kept.refl fun h holds => holds) fun h' same => ?_
      exact same ▸ kept.passes found here
    split
    · next name found => exact fetched name found
    · next name found => exact fetched name found
    · next item _ _ found => exact .pure kept.refl fun h' same => same ▸ kept.passes found here
    · exact .throw kept.refl _
  · refine .bind kept.trans (hev.next position) fun step => ?_
    obtain _ | ⟨value, next⟩ := step
    · exact .throw kept.refl _
    · exact .pure kept.refl fun h holds => holds value next rfl

theorem gatherParams (function : String) (params : List (Nat × Param)) (gathered : Gathered) :
    Lands R (I · gathered.position) (gatherParams ev function block gathered params)
      fun g h => I h g.position := by
  induction params generalizing gathered with
  | nil => exact .pure kept.refl fun h holds => holds
  | cons param params ih =>
    unfold BlockScript.gatherParams
    rw [List.foldlM_cons]
    refine .bind kept.trans (.bind kept.trans (kept.gatherArg hev function param.2 _)
      fun _ => .pure kept.refl fun h holds => holds) fun gathered => ih gathered

theorem gatherRefinements (name : String) (f : Function) (used : List Nat)
    (segments : List Segment) (gathered : Gathered) :
    Lands R (I · gathered.position) (gatherRefinements ev name f block used segments gathered)
      fun g h => I h g.position := by
  induction segments generalizing used gathered with
  | nil => exact .pure kept.refl fun h holds => holds
  | cons segment segments ih =>
    simp only [BlockScript.gatherRefinements]
    split
    · exact .throw kept.refl _
    · next slot _ =>
      let named : Gathered :=
        { gathered with args := gathered.args.setIfInBounds slot (.logic true) }
      exact .ite (.throw kept.refl _) (.bind kept.trans (kept.gatherParams hev name _ named)
        fun gathered => ih _ gathered)

theorem call (name : String) (f : Function) (refinements : List Segment) (position : Nat) :
    Lands R (I · position) (call ev name f refinements block position) fun r h => I h r.2 :=
  .bind kept.trans (kept.gatherParams hev name f.fixedParams ⟨_, position⟩) fun gathered =>
    .bind kept.trans (kept.gatherRefinements hev name f [] refinements gathered) fun gathered =>
      kept.frame (hev.relates.invoke name f gathered.args) fun _ =>
        .pure kept.refl fun _ holds => holds

theorem selectPath (segments : List Segment) (position : Nat) (value : Value) (here : Segment)
    (rest : List Segment) :
    Lands R (I · position) (selectPath ev segments block position value here rest)
      fun r h => I h r.2 := by
  induction rest generalizing value here with
  | nil =>
    cases value with
    | function f => exact kept.call hev _ f [] position
    | _ => exact .pure kept.refl fun _ holds => holds
  | cons segment rest ih =>
    have step : Lands R (I · position) (Path.select segments value segment >>= fun v =>
        BlockScript.selectPath ev segments block position v segment rest) fun r h => I h r.2 :=
      kept.frame (kept.relates (.of_sameBlocks (.select segments value segment)))
        fun v => ih v segment
    cases value with
    | function f => exact kept.call hev _ f (segment :: rest) position
    | _ => exact step

theorem pathTerm (segments : List Segment) (position : Nat) :
    Lands R (I · position) (pathTerm ev segments block position) fun r h => I h r.2 := by
  refine kept.frame (kept.relates (.of_sameBlocks (.pathHead segments))) fun value => ?_
  obtain _ | ⟨here, rest⟩ := segments
  · exact .pure kept.refl fun _ holds => holds
  · exact kept.selectPath hev _ position value here rest

theorem assigned (target : String) (position : Nat) :
    Lands R (I · position) (assigned ev target block position) fun r h => I h r.2 := by
  refine .bind kept.trans (hev.next position) fun step => ?_
  obtain _ | ⟨value, next⟩ := step
  · exact .throw kept.refl _
  · exact .ite (.throw kept.refl _) (.pure kept.refl fun h holds => holds value next rfl)

theorem writes {target : String} {write : Value → EvalM Unit}
    (lengthens : ∀ v, Relates Heap.Lengthens (write v)) (position : Nat) :
    Lands R (I · position) (do
      let (value, position) ← BlockScript.assigned ev target block position
      write value
      return (value, position)) fun r h => I h r.2 :=
  .bind kept.trans (kept.assigned hev target position) fun step =>
    kept.frame (kept.relates (lengthens step.1)) fun _ => .pure kept.refl fun _ holds => holds

theorem term (position : Nat) (item : Value) :
    Lands R (I · position) (term ev block position item) fun r h => I h r.2 := by
  have stays {m : EvalM Value} (relates : Relates R m) :
      Lands R (I · position) (do return (← m, position)) fun r h => I h r.2 :=
    kept.frame relates fun _ => .pure kept.refl fun _ holds => holds
  unfold BlockScript.term
  split
  · refine kept.frame (kept.relates (.of_sameBlocks (.lookupSet _))) fun v => ?_
    split
    · exact kept.call hev _ _ [] position
    · exact .pure kept.refl fun _ holds => holds
  · exact kept.writes hev (fun v => .assignWord _ v) position
  · exact stays (kept.relates (.fetch _))
  · exact .pure kept.refl fun _ holds => holds
  · exact kept.pathTerm hev _ position
  · exact kept.writes hev (fun v => .pathSet _ v) position
  · exact stays (kept.relates (.of_sameBlocks (.pathGet _)))
  · exact .pure kept.refl fun _ holds => holds
  · exact stays (kept.all hev.relates _)
  · exact .pure kept.refl fun _ holds => holds

theorem operators (n : Nat) (left : Value) (position : Nat) :
    Lands R (I · position) (operators ev block n left position) fun r h => I h r.2 := by
  induction n generalizing left position with
  | zero => exact .throw kept.refl _
  | succ n ih =>
    simp only [BlockScript.operators]
    refine kept.frame (kept.relates (.operatorAt block position))
      fun found => ?_
    obtain _ | ⟨name, f⟩ := found
    · exact .pure kept.refl fun _ holds => holds
    refine .getHeap_then fun h here => ?_
    split
    · exact .throw kept.refl _
    · next operand found =>
      obtain ⟨word, before⟩ := Heap.item?_before found
      have beyond : I h (position + 2) := kept.passes found (kept.passes before here)
      refine .of_pre (.bind kept.trans (kept.term hev (position + 2) operand)
        fun right => kept.frame (hev.relates.invoke name f _) fun value => ih value right.2)
        fun h' same => ?_
      exact same ▸ beyond

/-- Where an expression begins, only the position behind its first item has to have the
condition. -/
theorem expression (position : Nat) :
    Lands R (fun h => ∀ v, h.item? block position = some v → I h (position + 1))
      (expression ev block position) (After I) := by
  refine .getHeap_then fun h here => ?_
  split
  · exact .pure kept.refl fun _ _ _ _ none => nomatch none
  · next item found =>
    refine .of_pre (.bind kept.trans (kept.term hev (position + 1) item) fun first =>
      .bind kept.trans (kept.operators hev ev.fuel first.1 first.2) fun step =>
        .pure kept.refl fun h holds value next same => ?_) fun h' same => ?_
    · cases same
      exact holds
    · exact same ▸ here item found

end PositionsKept

end BlockScript
