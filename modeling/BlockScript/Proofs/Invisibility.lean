import BlockScript.Interpreter
import BlockScript.Proofs.Constructs
import BlockScript.Proofs.Lockstep

/-!
# Hidden fields cannot be seen

Two runs from states that differ only in the values of hidden fields go the same way. What a
routine looks at is the same in both states, and each primitive step changes both alike, so the runs
end with the same result, in states that again differ only in those values.
-/

namespace BlockScript

variable {α β : Type} {secret : FrameId → Nat → Prop}

/-! ## Computations -/

structure State.SameBut (secret : FrameId → Nat → Prop) (s t : State) : Prop where
  heap : s.heap.SameBut secret t.heap
  env : t.env = s.env
  calls : t.calls = s.calls
  recovery : t.recovery = s.recovery
  output : t.output = s.output
  exitAsReturn : t.exitAsReturn = s.exitAsReturn

inductive SameEnd (secret : FrameId → Nat → Prop) :
    EStateM.Result Exit State α → EStateM.Result Exit State α → Prop where
  | ok (a : α) {s t : State} (same : s.SameBut secret t) : SameEnd secret (.ok a s) (.ok a t)
  | error (exit : Exit) {s t : State} (same : s.SameBut secret t) :
      SameEnd secret (.error exit s) (.error exit t)

def Blind (secret : FrameId → Nat → Prop) (m : EvalM α) : Prop :=
  ∀ s t, s.SameBut secret t → SameEnd secret (m s) (m t)

structure Evaluator.Blind (secret : FrameId → Nat → Prop) (ev : Evaluator) : Prop where
  next (block : BlockRef) (index : Nat) : BlockScript.Blind secret (ev.next block index)
  invoke (name : String) (f : Function) (args : Args) :
    BlockScript.Blind secret (ev.invoke name f args)

theorem State.SameBut.alike {s t : State} (same : s.SameBut secret t) : s.Alike t :=
  ⟨same.heap.mono fun _ _ _ => trivial, same.env⟩

theorem State.SameBut.withHeap {s t : State} (same : s.SameBut secret t) {h h' : Heap}
    (heap : h.SameBut secret h') :
    State.SameBut secret { s with heap := h } { t with heap := h' } :=
  ⟨heap, same.env, same.calls, same.recovery, same.output, same.exitAsReturn⟩

theorem State.SameBut.disarm {s t : State} (same : s.SameBut secret t) (token : Nat) :
    (s.disarm token).SameBut secret (t.disarm token) := by
  refine ⟨same.heap, same.env, same.calls, ?_, same.output, same.exitAsReturn⟩
  simp only [State.disarm, same.recovery]

theorem State.SameBut.land {s t : State} (same : s.SameBut secret t) (token : Nat) :
    (s.land token).SameBut secret (t.land token) := by
  unfold State.land
  rw [same.recovery]
  split
  · exact ⟨same.heap, same.env, same.calls, rfl, same.output, same.exitAsReturn⟩
  · exact ⟨same.heap, by rw [same.env], by rw [same.calls], rfl, same.output, same.exitAsReturn⟩

namespace Blind

variable {m : EvalM α}

theorem throw (exit : Exit) : Blind secret (throw exit : EvalM α) :=
  fun _ _ same => .error exit same

theorem alloc {make : Heap → α × Heap} (makes : Heap.MakesSame secret make) :
    Blind secret (alloc make) := by
  intro s t same
  obtain ⟨made, heap⟩ := makes s.heap t.heap same.heap
  change SameEnd secret (.ok (make s.heap).1 _) (.ok (make t.heap).1 _)
  rw [made]
  exact .ok _ (same.withHeap heap)

theorem editBlock (id : Nat) (change : Array Value → Array Value) :
    Blind secret (editBlock id change) := by
  intro s t same
  rw [editBlock_apply, editBlock_apply, same.heap.isBlockProtected]
  split
  · exact .error _ same
  · exact .ok () (same.withHeap (same.heap.editBlock id change))

theorem editText (id : TextId) (change : String → String) : Blind secret (editText id change) := by
  intro s t same
  rw [editText_apply, editText_apply, same.heap.isTextProtected]
  split
  · exact .error _ same
  · exact .ok () (same.withHeap (same.heap.editText id change))

theorem assignNamed (id : FrameId) (name : String) (value : Value) (missing : Cause) :
    Blind secret (assignNamed id name value missing) := by
  intro s t same
  have frame := same.heap.frame id
  rw [assignNamed_apply, assignNamed_apply, frame.find?]
  split
  · next index found =>
    rw [assignField_apply, assignField_apply, frame.denied?]
    split
    · exact .error _ same
    · exact .ok () (same.withHeap (same.heap.modifyFrame id (·.put index value)))
  · exact .error _ same

theorem assignWord (name : String) (value : Value) : Blind secret (assignWord name value) := by
  intro s t same
  have slots : t.env.slot t.heap name = s.env.slot s.heap name := by rw [same.env, same.heap.slot]
  rw [assignWord_apply, assignWord_apply, slots]
  split
  · exact .error _ same
  · next slot _ =>
    refine .ok () (same.withHeap ?_)
    rw [same.env]
    cases slot with
    | field id index => exact same.heap.modifyFrame id (·.put index value)
    | newInRoot => exact same.heap.modifyFrame _ (·.push name value)

theorem exitFunction (args : Args) : Blind secret (Exits.exitFunction args) := by
  intro s t same
  let own (s : State) : ReservedExit := if s.exitAsReturn then .return else .exit
  change SameEnd secret (.error (.thrown (.reserved (own s) _)) s)
    (.error (.thrown (.reserved (own t) _)) t)
  rw [show own t = own s by simp only [own, same.exitAsReturn]]
  exact .error _ same

theorem walking {flags : ProtectFlags} {visited : List Container} {step : ProtectWalk → ProtectWalk}
    (steps : ∀ {w w' : ProtectWalk}, w.SameBut secret w' → (step w).SameBut secret (step w')) :
    Blind secret (Protecting.walking { flags, heap := {}, visited } step) := by
  intro s t same
  let walk (s : State) : ProtectWalk := { flags, heap := s.heap, visited }
  have walked : (step (walk s)).SameBut secret (step (walk t)) := steps ⟨rfl, same.heap, rfl⟩
  change SameEnd secret (.ok (step (walk s)).visited _) (.ok (step (walk t)).visited _)
  rw [walked.visited]
  exact .ok _ (same.withHeap walked.heap)

theorem primitive {walks : ProtectFlags → Prop} (step : Primitive walks m) : Blind secret m := by
  cases step with
  | pure a => exact fun _ _ same => .ok a same
  | throw exit => exact .throw exit
  | print line =>
    refine fun s t same => .ok () ?_
    have printed : (t.output ++ line).push '\n' = (s.output ++ line).push '\n' := by
      rw [same.output]
    exact ⟨same.heap, same.env, same.calls, same.recovery, printed, same.exitAsReturn⟩
  | newBlock items => exact .alloc (.newBlock items)
  | newText content => exact .alloc (.newText content)
  | newFrame fields => exact .alloc (.newFrame _)
  | newFunction params body => exact .alloc (.newFunction params body)
  | loadBlock data => exact .alloc (.loadBlock data)
  | shallowCopy v => exact .alloc (.shallowCopy v)
  | deepCopy v => exact .alloc (.deepCopy v)
  | editBlock id change => exact .editBlock id change
  | editText id change => exact .editText id change
  | assignNamed id name value missing => exact .assignNamed id name value missing
  | assignWord name value => exact .assignWord name value
  | exitFunction args => exact .exitFunction args
  | walkValue allowed visited v => exact .walking fun same => same.protectValue (.inl rfl)
  | walkField allowed visited id index => exact .walking fun same => same.protectField id index

theorem bind {f : α → EvalM β} (h : Blind secret m) (hf : ∀ a, Blind secret (f a)) :
    Blind secret (m >>= f) := by
  intro s t same
  have first := h s t same
  change SameEnd secret (EStateM.bind m f s) (EStateM.bind m f t)
  unfold EStateM.bind
  generalize m s = r, m t = r' at first ⊢
  cases first with
  | ok a after => exact hf a _ _ after
  | error exit after => exact .error exit after

theorem withScope (h : Blind secret m) (frame : FrameId) : Blind secret (withScope frame m) := by
  intro s t same
  have inner : State.SameBut secret { s with env := s.env.push frame }
      { t with env := t.env.push frame } :=
    ⟨same.heap, by rw [same.env], same.calls, same.recovery, same.output, same.exitAsReturn⟩
  have body := h _ _ inner
  unfold BlockScript.withScope
  generalize m { s with env := s.env.push frame } = r, m { t with env := t.env.push frame } = r'
    at body ⊢
  have left {s t : State} (same : s.SameBut secret t) :
      State.SameBut secret { s with env := s.env.pop } { t with env := t.env.pop } :=
    ⟨same.heap, by rw [same.env], same.calls, same.recovery, same.output, same.exitAsReturn⟩
  cases body with
  | ok a after => exact .ok a (left after)
  | error exit after => exact .error exit (left after)

theorem withCall (h : Blind secret m) (name : String) : Blind secret (withCall name m) := by
  intro s t same
  have left {s t : State} (same : s.SameBut secret t) :
      State.SameBut secret { s with calls := s.calls.pop } { t with calls := t.calls.pop } :=
    ⟨same.heap, same.env, by rw [same.calls], same.recovery, same.output, same.exitAsReturn⟩
  unfold BlockScript.withCall
  rw [same.calls]
  split
  · exact .error _ same
  · next calls _ =>
    have body := h { s with calls } { t with calls }
      ⟨same.heap, same.env, rfl, same.recovery, same.output, same.exitAsReturn⟩
    generalize m { s with calls } = r, m { t with calls } = r' at body ⊢
    cases body with
    | ok a after => exact .ok a (left after)
    | @error exit s t after =>
      have attached : attachCalls t.calls exit = attachCalls s.calls exit := by rw [after.calls]
      dsimp only
      rw [attached]
      exact .error _ (left after)

theorem claiming (h : Blind secret m) {claim : Heap → Thrown → Option β} {result : α → β}
    (alike : ∀ s t : State, s.Alike t → claim s.heap = claim t.heap) :
    Blind secret (claiming claim result m) := by
  intro s t same
  have body := h s t same
  unfold BlockScript.claiming
  generalize m s = r, m t = r' at body ⊢
  cases body with
  | ok a after => exact .ok _ after
  | error exit after =>
    cases exit with
    | thrown exit =>
      dsimp only
      rw [alike _ _ after.alike]
      split
      · exact .ok _ after
      · exact .error _ after
    | raised e => exact .error _ after
    | outOfFuel => exact .error _ after

theorem guarded (h : Blind secret m) : Blind secret (guarded m) := by
  intro s t same
  have armed : s.armed.SameBut secret t.armed := by
    refine ⟨same.heap, same.env, same.calls, ?_, same.output, same.exitAsReturn⟩
    simp only [State.armed, same.recovery, same.env, same.calls]
  have token : t.recovery.nextToken = s.recovery.nextToken := by rw [same.recovery]
  have body := h _ _ armed
  rw [guarded_apply, guarded_apply, token]
  generalize m s.armed = r, m t.armed = r' at body ⊢
  cases body with
  | ok a after => exact .ok _ (after.disarm _)
  | error exit after =>
    cases exit with
    | raised e => exact .ok _ (after.land _)
    | thrown exit => exact .error _ (after.disarm _)
    | outOfFuel => exact .error _ (after.disarm _)

end Blind

/-- No routine sees what secret fields hold, if the evaluator does not. -/
theorem Routine.blind {permit : Permit} {k : Evaluator → EvalM α} (h : Routine permit k)
    {ev : Evaluator} (hev : ev.Blind secret) : Blind secret (k ev) := by
  induction h with
  | primitive step => exact .primitive step
  | bind _ _ first rest => exact .bind first rest
  | @look _ f alike _ rest =>
    intro s t same
    have agree : f t ev = f s ev := congrFun (alike s t same.alike).symm ev
    change SameEnd secret (f s ev s) (f t ev t)
    rw [agree]
    exact rest s s t same
  | fuel _ bounded => exact bounded ev.fuel
  | next block index => exact hev.next block index
  | invoke name f args => exact hev.invoke name f args
  | withScope frame _ body => exact body.withScope frame
  | withCall _ name _ body => exact body.withCall name
  | guarded _ _ body => exact body.guarded
  | claiming alike _ _ body => exact body.claiming alike

theorem evaluator_blind (secret : FrameId → Nat → Prop) (fuel : Nat) :
    (evaluator fuel).Blind secret := by
  induction fuel with
  | zero => exact ⟨fun _ _ => .throw _, fun _ _ _ => .throw _⟩
  | succ fuel ih =>
    have next (block : BlockRef) (index : Nat) :
        Routine ClaimsNothing fun ev => expression ev block index := .expression block index
    exact ⟨fun block index => (next block index).blind ih,
      fun name f args => (Routine.call name f args).blind ih⟩

/-! ## Whole programs -/

namespace Interpreter

theorem complete_blind {ev : Evaluator} (hev : ev.Blind secret) (block : BlockRef) :
    Blind secret (complete ev block) := by
  have all : Routine ClaimsNothing fun ev => ev.all block := .all block
  intro s t same
  have body := all.blind hev s t same
  unfold complete
  generalize ev.all block s = r, ev.all block t = r' at body ⊢
  cases body with
  | ok a after => exact .ok _ after
  | error exit after =>
    cases exit with
    | thrown exit =>
      dsimp only
      split
      · exact .ok _ after
      · rw [uncaught, uncaught, after.heap.mold]
        exact .error _ after
    | raised e => exact .error _ after
    | outOfFuel => exact .error _ after

theorem run_blind {s t : State} (same : s.SameBut secret t) (source : String) :
    (run source t).1 = (run source s).1 ∧ (run source s).2.SameBut secret (run source t).2 := by
  unfold run loadSource
  cases Datum.read source with
  | error e => exact ⟨rfl, same⟩
  | ok data =>
    obtain ⟨block, loaded⟩ := Heap.MakesSame.loadBlock data s.heap t.heap same.heap
    have blind : standard.Blind secret := evaluator_blind secret fuel
    have ended := complete_blind blind (s.heap.loadBlock data).1
      { s with heap := (s.heap.loadBlock data).2 } { t with heap := (t.heap.loadBlock data).2 }
      (same.withHeap loaded)
    dsimp only at block ⊢
    rw [block]
    generalize complete standard (s.heap.loadBlock data).1 { s with heap := _ } = r,
      complete standard (s.heap.loadBlock data).1 { t with heap := _ } = r' at ended ⊢
    cases ended with
    | ok completion after => exact ⟨rfl, after⟩
    | error exit after => cases exit <;> exact ⟨rfl, after⟩

end Interpreter

/-- Whatever is evaluated from the two states, both evaluations end in the same way, in states that
again differ at most in the values of the same hidden fields. What is printed is part of the
state. -/
structure RunAlike (fuel : Nat) (secret : FrameId → Nat → Prop) (s t : State) : Prop where
  next (block : BlockRef) (index : Nat) :
    SameEnd secret ((evaluator fuel).next block index s) ((evaluator fuel).next block index t)
  all (block : BlockRef) :
    SameEnd secret ((evaluator fuel).all block s) ((evaluator fuel).all block t)
  reduce (block : BlockRef) :
    SameEnd secret ((evaluator fuel).reduce block s) ((evaluator fuel).reduce block t)
  invoke (name : String) (f : Function) (args : Args) :
    SameEnd secret ((evaluator fuel).invoke name f args s) ((evaluator fuel).invoke name f args t)
  complete (block : BlockRef) :
    SameEnd secret (Interpreter.complete (evaluator fuel) block s)
      (Interpreter.complete (evaluator fuel) block t)
  run (source : String) :
    (Interpreter.run source t).1 = (Interpreter.run source s).1 ∧
      (Interpreter.run source s).2.SameBut secret (Interpreter.run source t).2

/-- Hidden fields cannot be seen: two states that differ only in what hidden fields hold, and there
not in containers, cannot be told apart. -/
theorem hidden_fields_invisible (fuel : Nat) {secret : FrameId → Nat → Prop} {s t : State}
    (same : s.SameBut secret t) : RunAlike fuel secret s t := by
  have blind := evaluator_blind secret fuel
  have all (block : BlockRef) : Routine ClaimsNothing fun ev => ev.all block := .all block
  have reduce (block : BlockRef) : Routine ClaimsNothing fun ev => ev.reduce block := .reduce block
  exact
    { next := fun block index => blind.next block index s t same
      all := fun block => (all block).blind blind s t same
      reduce := fun block => (reduce block).blind blind s t same
      invoke := fun name f args => blind.invoke name f args s t same
      complete := fun block => Interpreter.complete_blind blind block s t same
      run := fun source => Interpreter.run_blind same source }

def hiddenInRoot (n : Int64) : State where
  heap := { frames := #[{ fields := #[{ name := "x", value := .integer n, hidden := true }] }] }
  env := { root := 0 }

theorem hidden_integer_invisible :
    (hiddenInRoot 1).SameBut anyField (hiddenInRoot 2) ∧
      RunAlike 5 anyField (hiddenInRoot 1) (hiddenInRoot 2) := by
  have frame : ((hiddenInRoot 1).heap.frame 0).SameBut (fun _ => True)
      ((hiddenInRoot 2).heap.frame 0) := by
    refine ⟨rfl, rfl, fun i a b here there => ?_⟩
    cases i with
    | zero =>
      cases here
      cases there
      exact ⟨rfl, rfl, rfl, .inr ⟨trivial, rfl, rfl, rfl⟩⟩
    | succ i => cases here
  have same : (hiddenInRoot 1).SameBut anyField (hiddenInRoot 2) := by
    refine ⟨⟨rfl, rfl, rfl, rfl, fun id => ?_⟩, rfl, rfl, rfl, rfl, rfl⟩
    cases id with
    | zero => exact frame
    | succ id => exact .refl _
  exact ⟨same, hidden_fields_invisible 5 same⟩

end BlockScript
