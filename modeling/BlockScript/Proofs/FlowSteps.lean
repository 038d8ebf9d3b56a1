import BlockScript.Proofs.DeclaredNames
import BlockScript.Proofs.OperatorResults
import BlockScript.Proofs.ValueFlow

/-!
# Steps that keep to a flow

What is taken from a heap may be at hand, and what is made of values that may be at hand may be so
too. Hence the natives that evaluate nothing keep to every flow. What is assigned through a path is
a field of an object that is at hand.
-/

namespace BlockScript

variable {α : Type} {F : ValueFlow} {E : Environment} {n : Nat} {v : Value} {h : Heap}

namespace ValueFlow

theorem pick (heap : F.heap E h) (r : BlockRef) (place : Int64) :
    F.value E h.frames.size (h.pick r place) := by
  rw [Heap.pick]
  split
  · cases found : h.item? r (r.index + (place.toInt.toNat - 1)) with
    | none => exact F.inert trivial
    | some v => exact F.stored heap (.of_item? found)
  · exact F.inert trivial

theorem selectAfter (heap : F.heap E h) (r : BlockRef) (key : Value) :
    F.value E h.frames.size (h.selectAfter r key) := by
  rw [Heap.selectAfter, List.headD_eq_head?_getD]
  cases found : (((h.tail r).dropWhile fun item => !h.equal item key).drop 1).head? with
  | none => exact F.inert trivial
  | some v =>
    have inside := List.mem_of_mem_drop (List.mem_of_mem_head? found)
    exact F.stored heap (.of_tail ((List.dropWhile_sublist _).mem inside))

theorem function_of_nodup {id : Nat} {params : List Param} {body : BlockRef}
    (nodup : (params.map (·.name)).Nodup) : F.value E n (.function (.user id params body)) :=
  F.function_iff.mpr (F.distinct nodup)

def handler (F : ValueFlow) (E : Environment) (n : Nat) : Handler → Prop
  | .block _ => True
  | .function f => F.value E n (.function f)

theorem handler.mono {k : Nat} {handler : Handler} (given : F.handler E n handler) (le : n ≤ k) :
    F.handler E k handler := by
  cases handler with
  | block r => trivial
  | function f => exact F.mono given le

end ValueFlow

namespace ValueFlow.Keeps

variable {R : Nat → α → Prop} {args : Args}

/-! ## What is read -/

theorem expectBlock (function argument : String) (v : Value) :
    F.Keeps E n Plain (expectBlock function argument v) := by
  cases v with
  | block r => exact plain r
  | _ => exact raiseType _ _ _

theorem expectInteger (function argument : String) (v : Value) :
    F.Keeps E n Plain (expectInteger function argument v) := by
  cases v with
  | integer i => exact plain i
  | _ => exact raiseType _ _ _

theorem moldValue (v : Value) : F.Keeps E n Plain (moldValue v) := getHeap_plain fun _ => plain _

theorem formValue (v : Value) : F.Keeps E n Plain (formValue v) := getHeap_plain fun _ => plain _

theorem lookup (name : String) : F.Keeps E n (Each (F.value E)) (lookup name) := by
  refine get_then fun s env heap _ => pure fun k le v found => ?_
  exact F.mono (F.stored heap (.of_lookup found)) le

theorem lookupSet (name : String) : F.Keeps E n (F.value E) (lookupSet name) := by
  refine (lookup name).bind fun found k _ given => ?_
  match found with
  | none => exact raise _
  | some v =>
    cases v with
    | unset => exact raise _
    | _ => exact value (given _ rfl)

theorem fetch (name : String) : F.Keeps E n (F.value E) (fetch name) :=
  (lookup name).bind fun _ _ _ given => value (getD given (F.inert trivial))

/-! ## What is made and changed -/

theorem newBlock {items : Array Value} (given : ∀ v ∈ items, F.value E n v) :
    F.Keeps E n (F.value E) (newBlock items) := by
  refine plain_then (alloc_plain fun h heap le => F.block heap fun v member => ?_)
    fun _ => inert trivial
  exact F.mono (given v member) le

theorem newText (content : String) : F.Keeps E n (F.value E) (newText content) :=
  alloc fun _ heap _ => ⟨F.aside heap rfl rfl, F.inert trivial⟩

theorem newFunction (params : List Param) (body : BlockRef)
    (nodup : (params.map (·.name)).Nodup) :
    F.Keeps E n (F.value E)
      (do return .function (← BlockScript.alloc (·.newFunction params body))) := by
  have made : F.Keeps E n (fun k f => F.value E k (.function f))
      (BlockScript.alloc (·.newFunction params body)) :=
    alloc fun h heap _ => ⟨F.aside heap rfl rfl, function_of_nodup nodup⟩
  exact made.bind fun f k _ given => value given

theorem editBlock {id : Nat} {change : Array Value → Array Value}
    (items : ∀ own k, n ≤ k → (∀ v ∈ own, F.value E k v) → ∀ v ∈ change own, F.value E k v) :
    F.Keeps E n Plain (editBlock id change) := by
  rintro s rfl heap le
  rw [editBlock_apply]
  split
  · exact .error rfl (F.refl _ _) trivial
  · refine .ok rfl (F.edit heap fun v inside => ?_) trivial
    exact items _ _ le (fun v inside => F.stored heap (.item id inside)) v inside

theorem editText (id : TextId) (change : String → String) :
    F.Keeps E n Plain (editText id change) := by
  rintro s rfl heap le
  rw [editText_apply]
  split
  · exact .error rfl (F.refl _ _) trivial
  · exact .ok rfl (F.aside heap rfl rfl) trivial

theorem print (line : String) : F.Keeps E n Plain (print line) := by
  rintro s rfl heap le
  exact .ok rfl (F.refl _ _) trivial

theorem assignWord (name : String) (given : F.value E n v) :
    F.Keeps E n Plain (assignWord name v) := by
  rintro s rfl heap le
  rw [assignWord_apply]
  cases free : s.env.slot s.heap name with
  | error denied => exact .error rfl (F.refl _ _) trivial
  | ok slot => exact .ok rfl (F.write heap free (F.mono given le)) trivial

theorem assignField {id : FrameId} (index : Nat) (object : F.value E n (.object id))
    (given : F.value E n v) : F.Keeps E n Plain (assignField id index v) := by
  rintro s rfl heap le
  rw [assignField_apply]
  split
  · exact .error rfl (F.refl _ _) trivial
  · exact .ok rfl (F.put index heap (F.mono object le) (F.mono given le)) trivial

theorem pokeItem (r : BlockRef) (place : Int64) (given : F.value E n v) :
    F.Keeps E n Plain (pokeItem r place v) := by
  refine ite (raise _) (getHeap_plain fun h => ite (raise _) (ite (editBlock ?_) (raise _)))
  intro own k le before w inside
  rcases Array.mem_or_eq_of_mem_setIfInBounds inside with old | rfl
  · exact before w old
  · exact F.mono given le

/-! ## Paths -/

theorem pathRefuse (segments : List Segment) (segment : String) :
    F.Keeps E n R (Path.refuse segments segment) := raise _

theorem pathHead (segments : List Segment) :
    F.Keeps E n (F.value E) (Path.head segments) := by
  match segments with
  | [] => exact pathRefuse _ _
  | .name name :: _ => exact lookupSet name
  | .index i :: _ => exact pathRefuse _ _

theorem select (segments : List Segment) (v : Value) (segment : Segment) :
    F.Keeps E n (F.value E) (Path.select segments v segment) := by
  unfold Path.select
  split
  · refine getHeap_then fun h heap _ => ?_
    split
    · next found => exact value (F.stored heap (.of_get? found))
    · exact pathRefuse _ _
  · exact getHeap_then fun h heap _ => value (pick heap _ _)
  · exact getHeap_then fun h heap _ => value (pick heap _ _)
  · exact getHeap_then fun h heap _ => value (selectAfter heap _ _)
  · exact inert trivial
  · exact newText _
  · exact pathRefuse _ _

theorem selectAll (segments steps : List Segment) (given : F.value E n v) :
    F.Keeps E n (F.value E) (steps.foldlM (Path.select segments) v) := by
  induction steps generalizing v n with
  | nil => exact value given
  | cons step steps ih =>
    rw [List.foldlM_cons]
    exact (select segments v step).bind fun w k _ given => ih given

theorem pathGet (segments : List Segment) : F.Keeps E n (F.value E) (Path.get segments) :=
  (pathHead segments).bind fun _ _ _ given => selectAll segments _ given

theorem target (segments : List Segment) :
    F.Keeps E n (First (F.value E)) (Path.target segments) := by
  unfold Path.target
  split
  · exact pathRefuse _ _
  · refine ite (pathRefuse _ _) ((pathHead segments).bind fun v k _ given => ?_)
    exact (selectAll segments _ given).bind fun w k _ given => pure fun _ le => F.mono given le

theorem pathSet (segments : List Segment) (given : F.value E n v) :
    F.Keeps E n Plain (Path.set segments v) := by
  refine (target segments).bind fun (container, last) k le object => ?_
  dsimp only
  split
  · refine getHeap_then fun h _ more => ?_
    split
    · exact assignField _ (F.mono object more) (F.mono given (le.trans more))
    · exact pathRefuse _ _
  · exact pokeItem _ _ (F.mono given le)
  · exact pathRefuse _ _

theorem field? (segments : List Segment) : F.Keeps E n Plain (Path.field? segments) := by
  refine (target segments).bind fun found k _ _ => ?_
  split
  · exact getHeap_plain fun _ => plain _
  · exact plain _

/-! ## Series and words -/

theorem spliced {only : Bool} (given : F.value E n v) (heap : F.heap E h)
    (le : n ≤ h.frames.size) {w : Value} (member : w ∈ SeriesAccess.spliced h only v) :
    F.value E h.frames.size w := by
  unfold SeriesAccess.spliced at member
  split at member
  · split at member
    · cases List.mem_singleton.mp member
      exact F.inert trivial
    · exact F.stored heap (.of_tail member)
  · cases List.mem_singleton.mp member
    exact F.mono given le

theorem mem_append_list {own : Array Value} {items : List Value} {w : Value} :
    w ∈ own ++ items ↔ w ∈ own ∨ w ∈ items := by
  rw [← Array.mem_toList_iff, Array.toList_appendList, List.mem_append, Array.mem_toList_iff]

theorem mem_of_mem_take {own : Array Value} {i : Nat} {w : Value} (inside : w ∈ own.take i) :
    w ∈ own := by
  have list : (own.take i).toList = own.toList.take i := by simp
  rw [← Array.mem_toList_iff, list] at inside
  exact Array.mem_toList_iff.mp (List.mem_of_mem_take inside)

theorem mem_of_mem_drop {own : Array Value} {i : Nat} {w : Value} (inside : w ∈ own.drop i) :
    w ∈ own := by
  have list : (own.drop i).toList = own.toList.drop i := by simp
  rw [← Array.mem_toList_iff, list] at inside
  exact Array.mem_toList_iff.mp (List.mem_of_mem_drop inside)

theorem append (given : F.args E n args) :
    F.Keeps E n (F.value E) (SeriesAccess.append args) := by
  unfold SeriesAccess.append
  split
  · refine getHeap_then fun h heap le => plain_then (editBlock ?_) fun _ => inert trivial
    intro own k more before w inside
    rcases mem_append_list.mp inside with old | new
    · exact before w old
    · exact F.mono (spliced (given.value 1) heap le new) more
  · exact plain_then (formValue _) fun _ => plain_then (editText _ _) fun _ => inert trivial
  · exact raiseType _ _ _

theorem insert (given : F.args E n args) :
    F.Keeps E n (F.value E) (SeriesAccess.insert args) := by
  unfold SeriesAccess.insert
  split
  · refine getHeap_then fun h heap le => plain_then (editBlock ?_) fun _ => inert trivial
    intro own k more before w inside
    rcases Array.mem_append.mp inside with inside | after
    · rcases mem_append_list.mp inside with old | new
      · exact before w (mem_of_mem_take old)
      · exact F.mono (spliced (given.value 1) heap le new) more
    · exact before w (mem_of_mem_drop after)
  · exact plain_then (formValue _) fun _ => plain_then (editText _ _) fun _ => inert trivial
  · exact raiseType _ _ _

theorem poke (given : F.args E n args) :
    F.Keeps E n (F.value E) (SeriesAccess.poke args) := by
  unfold SeriesAccess.poke
  split
  · exact plain_then (expectInteger _ _ _) fun place =>
      plain_then (pokeItem _ place (given.value 2)) fun _ => value (given.value 2)
  · exact raiseType _ _ _

theorem clear : F.Keeps E n (F.value E) (SeriesAccess.clear args) := by
  unfold SeriesAccess.clear
  split
  · exact plain_then (editBlock fun own k _ before w inside => before w (mem_of_mem_take inside))
      fun _ => inert trivial
  · exact plain_then (editText _ _) fun _ => inert trivial
  · exact inert trivial
  · exact raiseType _ _ _

theorem pickFrom (function : String) (place : Int64) (v : Value) :
    F.Keeps E n (F.value E) (SeriesAccess.pickFrom function place v) := by
  unfold SeriesAccess.pickFrom
  split
  · exact getHeap_then fun h heap _ => value (ValueFlow.pick heap _ _)
  · exact getHeap_then fun h heap _ => value (ValueFlow.pick heap _ _)
  · refine getHeap_plain fun h => ?_
    dsimp only
    split
    · exact newText _
    · exact inert trivial
  · exact raiseType _ _ _

theorem pick : F.Keeps E n (F.value E) (SeriesAccess.pick args) :=
  plain_then (expectInteger _ _ _) fun _ => pickFrom _ _ _

theorem lengthOf : F.Keeps E n (F.value E) (SeriesAccess.lengthOf args) := by
  refine getHeap_plain fun h => ?_
  cases args.value 0 with
  | block r => exact inert trivial
  | paren r => exact inert trivial
  | text id => exact inert trivial
  | object id => exact inert trivial
  | _ => exact raiseType _ _ _

theorem copy (given : F.args E n args) :
    F.Keeps E n (F.value E) (SeriesAccess.copy args) := by
  refine alloc fun h heap le => ?_
  have original := F.mono (given.value 0) le
  split
  · have makes := makes_deepCopy heap original
    exact ⟨makes.leads, makes.value⟩
  · have makes := makes_shallowCopy heap original
    exact ⟨makes.leads, makes.value⟩

theorem wordsOf : F.Keeps E n (F.value E) (SeriesAccess.wordsOf args) := by
  unfold SeriesAccess.wordsOf
  split
  · refine getHeap_plain fun h => newBlock fun w inside => ?_
    obtain ⟨name, -, rfl⟩ := List.mem_map.mp (List.mem_toArray.mp inside)
    exact F.inert trivial
  · exact raiseType _ _ _

theorem set (given : F.args E n args) : F.Keeps E n (F.value E) (Words.set args) := by
  unfold Words.set
  split
  · exact plain_then (assignWord _ (given.value 1)) fun _ => value (given.value 1)
  · exact raiseType _ _ _

theorem get : F.Keeps E n (F.value E) (Words.get args) := by
  unfold Words.get
  split
  · refine (lookup _).bind fun found k _ given => ?_
    match found with
    | none => exact raise _
    | some v => exact value (given v rfl)
  · exact raiseType _ _ _

theorem hasValue : F.Keeps E n (F.value E) (Words.hasValue args) := by
  unfold Words.hasValue
  split
  · exact (fetch _).bind fun _ _ _ _ => inert trivial
  · exact inert trivial

theorem operator (op : Operator) : F.Keeps E n (F.value E) (Operators.run op args) := by
  refine getHeap_plain fun h => ?_
  split
  · next done => cases Operators.apply_isResult done <;> exact inert trivial
  · exact raise _

theorem func : F.Keeps E n (F.value E) (Evaluation.func args) := by
  refine plain_then (expectBlock _ _ _) fun spec => plain_then (expectBlock _ _ _) fun body =>
    getHeap_plain fun h => ?_
  split
  · next read => exact newFunction _ body (Evaluation.params_nodup read List.nodup_nil)
  · exact raise _

theorem does : F.Keeps E n (F.value E) (Evaluation.does args) :=
  plain_then (expectBlock _ _ _) fun body => newFunction [] body List.nodup_nil

/-! ## Exits -/

theorem throwReserved (own : ReservedExit) {payload : Option Value}
    (given : Each (F.value E) n payload) : F.Keeps E n R (Exits.throwReserved own payload) :=
  throwExit (F.inert trivial) (getD given (F.inert trivial))

theorem throwValue (given : F.args E n args) :
    F.Keeps E n (F.value E) (Exits.throwValue args) := by
  have payload := given.value 0
  have name := given.refinement? 1
  unfold Exits.throwValue
  split
  · exact raise _
  · exact raise _
  · exact throwExit (getD name (F.inert trivial)) payload

theorem check (filter : Exits.CatchFilter) : F.Keeps E n Plain filter.check := by
  refine ite (raise _) ?_
  unfold Exits.checkNames
  split
  · refine getHeap_plain fun h => ?_
    split
    · exact plain_then (moldValue _) fun _ => raise _
    · exact plain _
  · exact plain _

theorem ofRefinement (construct : String) {found : Option Value}
    (given : Each (F.value E) n found) :
    F.Keeps E n (Each (F.handler E)) (Handler.ofRefinement construct found) := by
  match found with
  | none => exact pure fun _ _ => .none
  | some v =>
    have handler : F.Keeps E n (F.handler E) (Handler.ofValue construct v) := by
      cases v with
      | block r => exact pure fun _ _ => trivial
      | function f => exact pure fun _ => F.mono (given _ rfl)
      | _ => exact raiseType _ _ _
    exact handler.bind fun handler k _ given => pure fun m le => .some (given.mono le)

theorem truth (function : String) (v : Value) :
    F.Keeps E n Plain (Conditionals.truth function v) := ite (raiseType _ _ _) (plain _)

/-! ## Walks -/

theorem walking {flags : ProtectFlags} {visited : List Container}
    {step : ProtectWalk → ProtectWalk}
    (leads : ∀ h : Heap, F.heap E h → F.leads E h (step { flags, heap := h, visited }).heap) :
    F.Keeps E n Plain (Protecting.walking { flags, heap := {}, visited } step) := by
  rintro s rfl heap le
  exact .ok rfl (leads s.heap heap) trivial

theorem protectValue {flags : ProtectFlags} (permitted : flags.hide = true → F.hides)
    (visited : List Container) (v : Value) :
    F.Keeps E n Plain (Protecting.protectValue flags visited v) :=
  walking fun _ heap => F.walk heap permitted visited v

theorem protectBinding {flags : ProtectFlags} (permitted : flags.hide = true → F.hides)
    (visited : List Container) (v : Value) :
    F.Keeps E n Plain (Protecting.protectBinding flags visited v) := by
  have binding : F.Keeps E n Plain (Protecting.binding? v) := by
    unfold Protecting.binding?
    split
    · exact get_then fun _ _ _ _ => plain _
    · exact field? _
    · exact plain _
  refine plain_then binding fun found => ?_
  match found with
  | none => exact plain _
  | some (id, index) => exact walking fun _ heap => F.walkField heap permitted visited id index

end ValueFlow.Keeps

end BlockScript
