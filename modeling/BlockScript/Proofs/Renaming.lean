import BlockScript.Native.Run
import BlockScript.Proofs.Copying
import BlockScript.Proofs.Marking
import BlockScript.Proofs.OperatorResults

/-!
# Other names for calls

Error values carry the names of the calls that were running when they were raised. Giving all calls
other names changes the backtraces in a heap and nothing else. What the heap is asked for and what
is done to it commutes with that: the names are not compared, molded or formed.
-/

namespace BlockScript

def CallStack.shown (name : String) : String := if name.isEmpty then "<anonymous>" else name

/-- A way to give all calls other names. What is shown of a call without a name is renamed like any
other name. -/
structure Renaming where
  name : String → String
  shown (own : String) : CallStack.shown (name own) = name (CallStack.shown own)

theorem map_append_list {α β : Type} (g : α → β) (xs : Array α) (ys : List α) :
    (xs ++ ys).map g = xs.map g ++ ys.map g := by
  apply Array.toList_inj.mp
  simp only [Array.toList_map, Array.toList_appendList, List.map_append]

variable (ρ : Renaming)

def EvalError.rename (e : EvalError) : EvalError :=
  { e with backtrace := e.backtrace.map (·.map ρ.name) }

def Value.rename : Value → Value
  | .error e => .error (e.rename ρ)
  | v => v

def Field.rename (field : Field) : Field := { field with value := field.value.rename ρ }

def Frame.rename (f : Frame) : Frame := { f with fields := f.fields.map (Field.rename ρ) }

def renameSeries (s : Series (Array Value)) : Series (Array Value) :=
  { s with data := s.data.map (Value.rename ρ) }

def Heap.rename (h : Heap) : Heap :=
  { h with
    blocks := h.blocks.map (renameSeries ρ)
    frames := h.frames.map (Frame.rename ρ) }

/-! ## Values -/

namespace Value

variable (v : Value)

@[simp] theorem rename_block (r : BlockRef) : (block r).rename ρ = block r := rfl

@[simp] theorem rename_paren (r : BlockRef) : (paren r).rename ρ = paren r := rfl

@[simp] theorem rename_object (id : FrameId) : (object id).rename ρ = object id := rfl

@[simp] theorem kind_rename : (v.rename ρ).kind = v.kind := by cases v <;> rfl

@[simp] theorem isTruthy_rename : (v.rename ρ).isTruthy = v.isTruthy := by cases v <;> rfl

@[simp] theorem isUnset_rename : (v.rename ρ).isUnset = v.isUnset := by cases v <;> rfl

@[simp] theorem isNone_rename : (v.rename ρ).isNone = v.isNone := by cases v <;> rfl

@[simp] theorem isWordNamed_rename (name : String) :
    (v.rename ρ).isWordNamed name = v.isWordNamed name := by
  cases v <;> rfl

@[simp] theorem container?_rename : (v.rename ρ).container? = v.container? := by cases v <;> rfl

end Value

/-! ## Frames -/

namespace Frame

variable (f : Frame)

@[simp] theorem getElem?_rename (i : Nat) :
    (f.rename ρ).fields[i]? = f.fields[i]?.map (Field.rename ρ) :=
  Array.getElem?_map ..

@[simp] theorem find?_rename (name : String) : (f.rename ρ).find? name = f.find? name := by
  rw [find?, rename, Array.findIdx?_map]
  rfl

@[simp] theorem value?_rename (i : Nat) :
    (f.rename ρ).value? i = (f.value? i).map (Value.rename ρ) := by
  rw [value?, value?, getElem?_rename, Option.map_map, Option.map_map]
  rfl

@[simp] theorem get?_rename (name : String) :
    (f.rename ρ).get? name = (f.get? name).map (Value.rename ρ) := by
  rw [get?, get?, find?_rename]
  cases f.find? name with
  | none => rfl
  | some i => exact f.value?_rename ρ i

@[simp] theorem visible_rename :
    (f.rename ρ).visible = f.visible.map (Prod.map id (Value.rename ρ)) := by
  simp only [visible, rename, Array.toList_map, List.filterMap_map, List.map_filterMap]
  refine List.filterMap_congr fun field _ => ?_
  cases hidden : field.hidden <;> simp [Field.rename, hidden]

@[simp] theorem words_rename : (f.rename ρ).words = f.words := by
  simp [words, Function.comp_def]

@[simp] theorem denied?_rename (i : Nat) : (f.rename ρ).denied? i = f.denied? i := by
  rw [denied?, denied?, getElem?_rename]
  cases f.fields[i]? <;> rfl

theorem modify_rename (i : Nat) (change change' : Field → Field)
    (commutes : ∀ field, change' (field.rename ρ) = (change field).rename ρ) :
    (f.rename ρ).modify i change' = (f.modify i change).rename ρ :=
  congrArg (fun fields => { f with fields })
    (map_modify_of_commutes _ _ i change change' commutes)

theorem put_rename (i : Nat) (v : Value) :
    (f.rename ρ).put i (v.rename ρ) = (f.put i v).rename ρ :=
  f.modify_rename ρ i _ _ fun _ => rfl

theorem push_rename (name : String) (v : Value) :
    (f.rename ρ).push name (v.rename ρ) = (f.push name v).rename ρ := by
  simp [push, rename, Field.rename]

theorem ofFields_rename (fields : List (String × Value)) :
    ofFields (fields.map (Prod.map id (Value.rename ρ))) = (ofFields fields).rename ρ := by
  simp [ofFields, rename, Field.rename, Function.comp_def]

end Frame

/-! ## Heaps -/

namespace Heap

variable (h : Heap)

@[simp] theorem items_rename (id : Nat) :
    (h.rename ρ).items id = (h.items id).map (Value.rename ρ) := by
  simp only [items, rename, Array.getElem?_map]
  cases h.blocks[id]? <;> simp [renameSeries]

@[simp] theorem isBlockProtected_rename (id : Nat) :
    (h.rename ρ).isBlockProtected id = h.isBlockProtected id := by
  simp only [isBlockProtected, rename, Array.getElem?_map, Option.map_map]
  rfl

@[simp] theorem tail_rename (r : BlockRef) :
    (h.rename ρ).tail r = (h.tail r).map (Value.rename ρ) := by
  simp [tail]

@[simp] theorem length_rename (r : BlockRef) : (h.rename ρ).length r = h.length r := by
  simp [length]

@[simp] theorem item?_rename (r : BlockRef) (position : Nat) :
    (h.rename ρ).item? r position = (h.item? r position).map (Value.rename ρ) := by
  simp [item?]

@[simp] theorem text_rename (id : TextId) : (h.rename ρ).text id = h.text id := rfl

@[simp] theorem frame_rename (id : FrameId) : (h.rename ρ).frame id = (h.frame id).rename ρ := by
  simp only [frame, rename, Array.getD_eq_getD_getElem?, Array.getElem?_map]
  cases h.frames[id]? with
  | none => simp [Frame.rename]
  | some f => rfl

theorem newBlock_rename (items : Array Value) :
    (h.rename ρ).newBlock (items.map (Value.rename ρ)) =
      Prod.map id (rename ρ) (h.newBlock items) := by
  simp [newBlock, rename, renameSeries]

theorem editBlock_rename (id : Nat) (change change' : Array Value → Array Value)
    (commutes : ∀ items, change' (items.map (Value.rename ρ)) =
      (change items).map (Value.rename ρ)) :
    (h.rename ρ).editBlock id change' = (h.editBlock id change).rename ρ := by
  refine congrArg (fun blocks => { h.rename ρ with blocks })
    (map_modify_of_commutes _ h.blocks id (fun s => { s with data := change s.data }) _ fun s => ?_)
  simp only [renameSeries, commutes]

theorem protectBlock_rename (id : Nat) (on : Bool) :
    (h.rename ρ).protectBlock id on = (h.protectBlock id on).rename ρ := by
  let mark (s : Series (Array Value)) : Series (Array Value) := { s with isProtected := on }
  exact congrArg (fun blocks => { h.rename ρ with blocks })
    (map_modify_of_commutes (renameSeries ρ) h.blocks id mark mark fun _ => rfl)

theorem modifyFrame_rename (id : FrameId) (change change' : Frame → Frame)
    (commutes : ∀ f, change' (f.rename ρ) = (change f).rename ρ) :
    (h.rename ρ).modifyFrame id change' = (h.modifyFrame id change).rename ρ :=
  congrArg (fun frames => { h.rename ρ with frames })
    (map_modify_of_commutes _ _ id change change' commutes)

theorem newFrame_rename (fields : List (String × Value)) :
    (h.rename ρ).newFrame (.ofFields (fields.map (Prod.map id (Value.rename ρ)))) =
      Prod.map id (rename ρ) (h.newFrame (.ofFields fields)) := by
  simp [newFrame, rename, Frame.ofFields_rename]

@[simp] theorem containerCount_rename : (h.rename ρ).containerCount = h.containerCount := by
  simp [containerCount, rename]

@[simp] theorem itemCount_rename : (h.rename ρ).itemCount = h.itemCount := by
  rw [itemCount, itemCount, ← Array.foldl_toList, ← Array.foldl_toList, rename, Array.toList_map,
    List.foldl_map]
  simp only [renameSeries, Array.size_map]

/-! ### Comparing, molding and forming -/

variable (a b v : Value)

@[simp] theorem leavesEqual_rename (strict : Bool) :
    (h.rename ρ).leavesEqual strict (a.rename ρ) (b.rename ρ) = h.leavesEqual strict a b := by
  cases a <;> cases b <;> rfl

theorem blockPair?_rename : blockPair? (a.rename ρ) (b.rename ρ) = blockPair? a b := by
  cases a <;> cases b <;> rfl

theorem same_rename (strict : Bool) (fuel : Nat) (path : List (BlockRef × BlockRef)) :
    (h.rename ρ).same strict fuel path (a.rename ρ) (b.rename ρ) =
      h.same strict fuel path a b := by
  induction fuel generalizing path a b with
  | zero => rfl
  | succ fuel ih =>
    simp only [same, blockPair?_rename, leavesEqual_rename, length_rename, tail_rename,
      List.zip_map, List.all_map, Function.comp_def, Prod.map, ih]

@[simp] theorem equalIn_rename (strict : Bool) :
    (h.rename ρ).equalIn strict (a.rename ρ) (b.rename ρ) = h.equalIn strict a b := by
  simp only [equalIn, blockPair?_rename, leavesEqual_rename, pairFuel, itemCount_rename,
    same_rename]

@[simp] theorem equal_rename : (h.rename ρ).equal (a.rename ρ) (b.rename ρ) = h.equal a b :=
  h.equalIn_rename ρ a b false

theorem render_rename (fuel : Nat) (style : Style) (path : List Container) :
    (h.rename ρ).render fuel style path (v.rename ρ) = h.render fuel style path v := by
  induction fuel generalizing style path v with
  | zero => rfl
  | succ fuel ih =>
    cases v with
    | block r =>
      simp only [Value.rename_block, render, tail_rename, List.map_map, Function.comp_def, ih]
    | paren r =>
      simp only [Value.rename_paren, render, tail_rename, List.map_map, Function.comp_def, ih]
    | object id =>
      simp only [Value.rename_object, render, frame_rename, Frame.visible_rename, List.map_map,
        Function.comp_def, Prod.map, id_eq, ih]
    | _ => rfl

@[simp] theorem mold_rename : (h.rename ρ).mold (v.rename ρ) = h.mold v := by
  rw [mold, mold, renderFuel, renderFuel, containerCount_rename, render_rename]

@[simp] theorem form_rename : (h.rename ρ).form (v.rename ρ) = h.form v := by
  rw [form, form, renderFuel, renderFuel, containerCount_rename, render_rename]

/-! ### Data and copies -/

mutual

theorem load_rename (h : Heap) : (d : Datum) →
    (h.rename ρ).load d = Prod.map (Value.rename ρ) (rename ρ) (h.load d)
  | .integer _ => rfl
  | .decimal _ => rfl
  | .text _ => rfl
  | .word _ _ => rfl
  | .path _ _ => rfl
  | .block items => by
    have loaded := loadItems_rename h items #[]
    rw [Array.map_empty] at loaded
    simp only [load, loaded, Prod.map, newBlock_rename]
    rfl
  | .paren items => by
    have loaded := loadItems_rename h items #[]
    rw [Array.map_empty] at loaded
    simp only [load, loaded, Prod.map, newBlock_rename]
    rfl

theorem loadItems_rename (h : Heap) : (items : List Datum) → (placed : Array Value) →
    (h.rename ρ).loadItems items (placed.map (Value.rename ρ)) =
      Prod.map (Array.map (Value.rename ρ)) (rename ρ) (h.loadItems items placed)
  | [], _ => rfl
  | item :: items, placed => by
    simp only [loadItems, load_rename h item, Prod.map, ← Array.map_push]
    exact loadItems_rename _ items _

end

theorem loadBlock_rename (data : List Datum) :
    (h.rename ρ).loadBlock data = Prod.map id (rename ρ) (h.loadBlock data) := by
  have loaded := h.loadItems_rename ρ data #[]
  rw [Array.map_empty] at loaded
  simp only [loadBlock, loaded, Prod.map, newBlock_rename]

theorem shallowCopy_rename :
    (h.rename ρ).shallowCopy (v.rename ρ) =
      Prod.map (Value.rename ρ) (rename ρ) (h.shallowCopy v) := by
  have block (r : BlockRef) := h.newBlock_rename ρ (h.tail r).toArray
  cases v with
  | block r =>
    simp only [Value.rename_block, shallowCopy, tail_rename, ← List.map_toArray, block]
    rfl
  | paren r =>
    simp only [Value.rename_paren, shallowCopy, tail_rename, ← List.map_toArray, block]
    rfl
  | object id =>
    simp only [Value.rename_object, shallowCopy, frame_rename, Frame.visible_rename,
      newFrame_rename]
    rfl
  | _ => rfl

def Copying.rename (c : Copying) : Copying := { c with heap := c.heap.rename ρ }

theorem fill_rename (c : Copying) (copy : BlockRef) (items : Array Value) :
    (c.rename ρ).fill copy (items.map (Value.rename ρ)) = (c.fill copy items).rename ρ :=
  congrArg (fun heap => { c with heap })
    (c.heap.editBlock_rename ρ copy.id (fun _ => items) _ fun _ => rfl)

theorem copyDeep_rename (fuel : Nat) (c : Copying) (v : Value) :
    copyDeep fuel (c.rename ρ) (v.rename ρ) =
      Prod.map (Value.rename ρ) (Copying.rename ρ) (copyDeep fuel c v) := by
  induction fuel generalizing c v with
  | zero => rfl
  | succ fuel ih =>
    have items (items : List Value) (values : Array Value) (c : Copying) :
        copyItems fuel (values.map (Value.rename ρ), c.rename ρ) (items.map (Value.rename ρ)) =
          Prod.map (Array.map (Value.rename ρ)) (Copying.rename ρ)
            (copyItems fuel (values, c) items) := by
      induction items generalizing values c with
      | nil => rfl
      | cons item items rest =>
        rw [List.map_cons, copyItems_cons, copyItems_cons, ih]
        simp only [Prod.map, ← Array.map_push]
        exact rest _ _
    have series (r : BlockRef) :
        copySeries fuel (c.rename ρ) r = Prod.map id (Copying.rename ρ) (copySeries fuel c r) := by
      cases known : c.copies.lookup r.id with
      | some copy =>
        have known' : (c.rename ρ).copies.lookup r.id = some copy := known
        rw [copySeries_known known, copySeries_known known']
        rfl
      | none =>
        have known' : (c.rename ρ).copies.lookup r.id = none := known
        have made := c.heap.newBlock_rename ρ #[]
        rw [Array.map_empty] at made
        have allotted : (c.rename ρ).allot r.id =
            Prod.map id (Copying.rename ρ) (c.allot r.id) := by
          simp only [Copying.allot, Copying.rename, made]
          rfl
        have copied := items (c.heap.tail r) #[] (c.allot r.id).2
        rw [Array.map_empty] at copied
        rw [copySeries_fresh known, copySeries_fresh known', allotted]
        have tail : (c.rename ρ).heap.tail r = (c.heap.tail r).map (Value.rename ρ) :=
          c.heap.tail_rename ρ r
        simp only [Prod.map, tail, copied, fill_rename, id]
    cases found : v.ref? with
    | some r =>
      have found' : (v.rename ρ).ref? = some r := by cases v <;> exact found
      rw [copyDeep_series found, copyDeep_series found', series]
      cases v <;> cases found <;> rfl
    | none =>
      have found' : (v.rename ρ).ref? = none := by cases v <;> exact found
      rw [copyDeep_leaf found, copyDeep_leaf found']
      simp only [Copying.rename, shallowCopy_rename, Prod.map]

theorem deepCopy_rename :
    (h.rename ρ).deepCopy (v.rename ρ) = Prod.map (Value.rename ρ) (rename ρ) (h.deepCopy v) := by
  have size : (h.rename ρ).blocks.size = h.blocks.size := Array.size_map
  have copied := copyDeep_rename ρ (h.blocks.size + 1) { heap := h } v
  simp only [deepCopy, size]
  simp only [Copying.rename] at copied
  rw [copied]
  rfl

end Heap

/-! ## Walks -/

theorem Heap.held_rename (h : Heap) (v : Value) :
    (h.rename ρ).held everyField (v.rename ρ) = (h.held everyField v).map (Value.rename ρ) := by
  cases v with
  | block r => exact h.tail_rename ρ r
  | paren r => exact h.tail_rename ρ r
  | object id =>
    rw [Value.rename_object, held_object, held_object, frame_rename, Frame.rename]
    simp [Field.rename, Function.comp_def]
  | _ => rfl

namespace ProtectWalk

def rename (w : ProtectWalk) : ProtectWalk := { w with heap := w.heap.rename ρ }

variable (w : ProtectWalk)

theorem protect_rename (c : Container) : (w.rename ρ).protect c = (w.protect c).rename ρ := by
  cases c with
  | block id => exact congrArg (fun heap => { w with heap }) (w.heap.protectBlock_rename ρ id _)
  | text id => rfl
  | object id =>
    refine congrArg (fun heap => { w with heap }) (w.heap.modifyFrame_rename ρ id _ _ fun f => ?_)
    simp [Frame.rename, markField, Field.rename, rename, Function.comp_def]

theorem walk_rename (fuel : Nat) (w : ProtectWalk) (v : Value) :
    walk fuel (w.rename ρ) (v.rename ρ) = (walk fuel w v).rename ρ := by
  induction fuel generalizing w v with
  | zero => rfl
  | succ fuel ih =>
    have fold (values : List Value) (w : ProtectWalk) :
        (values.map (Value.rename ρ)).foldl (walk fuel) (w.rename ρ) =
          (values.foldl (walk fuel) w).rename ρ := by
      induction values generalizing w with
      | nil => rfl
      | cons value values rest =>
        rw [List.map_cons, List.foldl_cons, List.foldl_cons, ih, rest]
    cases found : v.container? with
    | none => rw [walk_none found, walk_none ((v.container?_rename ρ).trans found)]
    | some c =>
      have held := (w.protect c).heap.held_rename ρ v
      have entered := fold ((w.protect c).heap.held everyField v) ((w.protect c).enter c)
      rw [← held] at entered
      rw [walk_some found, walk_some ((v.container?_rename ρ).trans found), protect_rename,
        apply_ite (rename ρ), apply_ite (rename ρ), ← entered]
      rfl

theorem protectValue_rename (v : Value) :
    (w.rename ρ).protectValue (v.rename ρ) = (w.protectValue v).rename ρ := by
  have count : (w.rename ρ).heap.containerCount = w.heap.containerCount :=
    w.heap.containerCount_rename ρ
  rw [protectValue, protectValue, count, walk_rename]

theorem protectField_rename (id : FrameId) (i : Nat) :
    (w.rename ρ).protectField id i = (w.protectField id i).rename ρ := by
  let mark (w : ProtectWalk) : ProtectWalk :=
    { w with heap := w.heap.modifyFrame id (·.modify i (markField w.flags)) }
  have marked : mark (w.rename ρ) = (mark w).rename ρ :=
    congrArg (fun heap => { w with heap })
      (w.heap.modifyFrame_rename ρ id (·.modify i (markField w.flags)) _ fun f =>
        f.modify_rename ρ i (markField w.flags) _ fun _ => rfl)
  have value : ((w.rename ρ).heap.frame id).value? i =
      ((w.heap.frame id).value? i).map (Value.rename ρ) := by
    rw [rename, Heap.frame_rename, Frame.value?_rename]
  rw [protectField, protectField, value]
  cases (w.heap.frame id).value? i with
  | none => exact marked
  | some v =>
    change (if w.flags.deep then (mark (w.rename ρ)).protectValue (v.rename ρ)
      else mark (w.rename ρ)) = (if w.flags.deep then (mark w).protectValue v else mark w).rename ρ
    rw [marked, protectValue_rename, apply_ite (rename ρ)]

end ProtectWalk

/-! ## Words and paths -/

namespace Environment

variable (env : Environment) (h : Heap) (name : String)

@[simp] theorem resolve_rename : env.resolve (h.rename ρ) name = env.resolve h name := by
  simp only [resolve, Heap.frame_rename, Frame.find?_rename]

@[simp] theorem lookup_rename :
    env.lookup (h.rename ρ) name = (env.lookup h name).map (Value.rename ρ) := by
  simp only [lookup, Heap.frame_rename, Frame.get?_rename, Option.map_or, List.map_findSome?,
    Function.comp_def]

@[simp] theorem slot_rename : env.slot (h.rename ρ) name = env.slot h name := by
  simp only [slot, resolve_rename, Heap.frame_rename, Frame.denied?_rename]
  rfl

theorem write_rename (v : Value) (slot : Slot) :
    env.write (h.rename ρ) name (v.rename ρ) slot = (env.write h name v slot).rename ρ := by
  cases slot with
  | field id i => exact h.modifyFrame_rename ρ id (·.put i v) _ fun f => f.put_rename ρ i v
  | newInRoot => exact h.modifyFrame_rename ρ _ (·.push name v) _ fun f => f.push_rename ρ name v

end Environment

namespace Heap

variable (h : Heap)

@[simp] theorem pick_rename (r : BlockRef) (place : Int64) :
    (h.rename ρ).pick r place = (h.pick r place).rename ρ := by
  simp only [pick, item?_rename]
  split
  · cases h.item? r (r.index + (place.toInt.toNat - 1)) <;> rfl
  · rfl

theorem selectAfter_rename (r : BlockRef) (key : Value) :
    (h.rename ρ).selectAfter r (key.rename ρ) = (h.selectAfter r key).rename ρ := by
  simp only [selectAfter, tail_rename, List.dropWhile_map, Function.comp_def, equal_rename,
    ← List.map_drop]
  generalize List.drop 1 _ = items
  cases items <;> rfl

/-! ## What natives read -/

@[simp] theorem nextBody?_rename (cases : BlockRef) (i : Nat) :
    Conditionals.nextBody? (h.rename ρ) cases i = Conditionals.nextBody? h cases i := by
  simp only [Conditionals.nextBody?, items_rename, Array.toList_map, ← List.map_drop,
    List.zipIdx_map, List.findSome?_map]
  congr 1
  funext ⟨item, position⟩
  cases item <;> rfl

@[simp] theorem spliced_rename (only : Bool) (v : Value) :
    SeriesAccess.spliced (h.rename ρ) only (v.rename ρ) =
      (SeriesAccess.spliced h only v).map (Value.rename ρ) := by
  cases v with
  | block r => cases only <;> simp [SeriesAccess.spliced]
  | _ => rfl

@[simp] theorem allowed_rename (env : Environment) (v : Value) :
    Raising.allowed env (h.rename ρ) (v.rename ρ) = Raising.allowed env h v := by
  cases v with
  | word kind name =>
    cases kind with
    | word =>
      simp only [Raising.allowed, Value.rename, Environment.lookup_rename]
      cases env.lookup h name with
      | none => rfl
      | some v => cases v <;> rfl
    | _ => rfl
  | _ => rfl

theorem params_rename (found : List Param) (items : List Value) :
    Evaluation.params (h.rename ρ) found (items.map (Value.rename ρ)) =
      Evaluation.params h found items := by
  induction items generalizing found with
  | nil => rfl
  | cons item items ih =>
    have param : Evaluation.param? (item.rename ρ) = Evaluation.param? item := by cases item <;> rfl
    have note : Evaluation.isNote (item.rename ρ) = Evaluation.isNote item := by cases item <;> rfl
    simp only [List.map_cons, Evaluation.params, param, note, mold_rename, ih]

theorem fieldNames_rename (items : List Value) :
    Evaluation.fieldNames (items.map (Value.rename ρ)) = Evaluation.fieldNames items := by
  simp only [Evaluation.fieldNames, List.filterMap_map]
  congr 2
  funext item
  cases item <;> rfl

@[simp] theorem listed_rename (names : Value) :
    Exits.CatchFilter.listed (h.rename ρ) (names.rename ρ) =
      (Exits.CatchFilter.listed h names).map (Value.rename ρ) := by
  cases names with
  | block r => exact h.tail_rename ρ r
  | _ => rfl

theorem compute_rename (op : Operators.Arithmetic) (a b : Value) :
    Operators.compute op (a.rename ρ) (b.rename ρ) = Operators.compute op a b := by
  cases a <;> cases b <;> rfl

theorem order?_rename (a b : Value) :
    Operators.order? (h.rename ρ) (a.rename ρ) (b.rename ρ) = Operators.order? h a b := by
  cases a <;> cases b <;> rfl

theorem operator_rename (a b : Value) (op : Operator) :
    Operators.apply (h.rename ρ) (a.rename ρ) (b.rename ρ) op = Operators.apply h a b op := by
  simp only [Operators.apply, Operators.holds, compute_rename, order?_rename, equal_rename,
    strictEqual, equalIn_rename, Value.kind_rename]

end Heap

/-- The result of an operator holds no names. -/
theorem Operators.IsResult.rename {v : Value} (result : IsResult v) : v.rename ρ = v := by
  cases result <;> rfl

end BlockScript
