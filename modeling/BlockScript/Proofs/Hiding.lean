import BlockScript.Proofs.Guarding
import BlockScript.Proofs.Timeline

/-!
# Hiding lasts

Fields are only ever added, behind those that are there, and none changes its name. A field that
is hidden stays hidden, because no walk clears the mark, and keeps its value, because an assignment
goes to a visible field. This holds between any two moments of a run, whatever the program does
between them.
-/

namespace BlockScript

/-! ## Fields and frames -/

/-- The field has the same name, and if it was hidden it still is, with the same value. -/
structure Field.KeepsHidden (a b : Field) : Prop where
  name : b.name = a.name
  hidden : a.hidden = true → b.hidden = true ∧ b.value = a.value

def Frame.KeepsHidden (f g : Frame) : Prop := Kept Field.KeepsHidden f.fields g.fields

namespace Field.KeepsHidden

variable {a b c : Field}

theorem refl (a : Field) : a.KeepsHidden a := ⟨rfl, fun hidden => ⟨hidden, rfl⟩⟩

theorem trans (first : a.KeepsHidden b) (second : b.KeepsHidden c) : a.KeepsHidden c := by
  refine ⟨second.name.trans first.name, fun hidden => ?_⟩
  obtain ⟨still, value⟩ := first.hidden hidden
  obtain ⟨always, value'⟩ := second.hidden still
  exact ⟨always, value'.trans value⟩

/-- Marks hide fields but never show them. -/
theorem markField (flags : ProtectFlags) (a : Field) :
    a.KeepsHidden (ProtectWalk.markField flags a) := by
  refine ⟨rfl, fun hidden => ⟨?_, rfl⟩⟩
  rw [ProtectWalk.markField, hidden, Bool.true_or]

end Field.KeepsHidden

namespace Frame.KeepsHidden

variable {f g k : Frame}

theorem refl (f : Frame) : f.KeepsHidden f := Kept.refl .refl f.fields

theorem trans (first : f.KeepsHidden g) (second : g.KeepsHidden k) : f.KeepsHidden k :=
  Kept.trans .trans first second

/-- A name leads to a visible field only, so no hidden one is assigned. -/
theorem put {name : String} {i : Nat} (found : f.find? name = some i) (value : Value) :
    f.KeepsHidden (f.put i value) := by
  refine Kept.modify .refl fun a here => ⟨rfl, fun hidden => ?_⟩
  obtain ⟨b, there, visible⟩ := visible_of_find? found
  rw [here] at there
  cases there
  rw [hidden] at visible
  cases visible

theorem push (f : Frame) (name : String) (value : Value) : f.KeepsHidden (f.push name value) :=
  Kept.push .refl f.fields _

theorem mark (flags : ProtectFlags) (f : Frame) :
    f.KeepsHidden (ProtectWalk.markFrame flags f) :=
  Kept.map (.markField flags) f.fields

end Frame.KeepsHidden

/-! ## Steps -/

def Heap.KeepsHidden (h h' : Heap) : Prop := Kept Frame.KeepsHidden h.frames h'.frames

namespace Heap.KeepsHidden

variable {h h' h'' : Heap}

theorem refl (h : Heap) : h.KeepsHidden h := Kept.refl .refl h.frames

theorem trans (first : h.KeepsHidden h') (second : h'.KeepsHidden h'') : h.KeepsHidden h'' :=
  Kept.trans .trans first second

theorem of_grows (grows : h.Grows h') : h.KeepsHidden h' :=
  fun id f found => ⟨f, grows.frames id f found, .refl f⟩

theorem of_frames (same : h'.frames = h.frames) : h.KeepsHidden h' := by
  rw [KeepsHidden, same]
  exact refl h

theorem modifyFrame {id : FrameId} {change : Frame → Frame}
    (keeps : (h.frame id).KeepsHidden (change (h.frame id))) :
    h.KeepsHidden (h.modifyFrame id change) :=
  Kept.modify .refl fun _ found => frame_of_getElem? found ▸ keeps

theorem protectValue (w : ProtectWalk) (v : Value) :
    w.heap.KeepsHidden (w.protectValue v).heap := by
  refine ProtectWalk.walk_along (R := fun w w' => w.heap.KeepsHidden w'.heap) (fun w => .refl _)
    .trans (fun w c => ?_) (fun w c => .refl _) _ w v
  cases c with
  | block id => exact .of_frames rfl
  | text id => exact .of_frames rfl
  | object id => exact .modifyFrame (.mark w.flags _)

theorem protectField (w : ProtectWalk) (id : FrameId) (i : Nat) :
    w.heap.KeepsHidden (w.protectField id i).heap := by
  let marked := w.heap.modifyFrame id (·.modify i (ProtectWalk.markField w.flags))
  have kept : w.heap.KeepsHidden marked := by
    refine modifyFrame ?_
    exact Kept.modify .refl fun a _ => .markField w.flags a
  rw [ProtectWalk.protectField]
  split
  · split
    · exact kept.trans (protectValue { w with heap := marked } _)
    · exact kept
  · exact kept

end Heap.KeepsHidden

theorem Heap.Step.keepsHidden {walks : ProtectFlags → Prop} {h h' : Heap} (step : h.Step walks h') :
    h.KeepsHidden h' := by
  cases step with
  | newBlock items => exact .of_frames rfl
  | newText content => exact .of_frames rfl
  | newFrame fields => exact .of_grows (.newFrame h _)
  | newFunction params body => exact .of_frames rfl
  | loadBlock data => exact .of_grows (.loadBlock h data)
  | shallowCopy v => exact .of_grows (h.shallowCopy_grows v)
  | deepCopy v => exact .of_grows (h.deepCopy_grows v)
  | editBlock id change _ => exact .of_frames rfl
  | editText id change _ => exact .of_frames rfl
  | put id name index value visible _ => exact .modifyFrame (.put visible value)
  | protectValue flags _ visited v => exact .protectValue { flags, heap := h, visited } v
  | protectField flags _ visited id index =>
    exact .protectField { flags, heap := h, visited } id index

/-- A word is assigned where it is bound, which is visible, or a field is added to the root. -/
theorem Environment.write_keepsHidden {env : Environment} {h : Heap} {name : String} {slot : Slot}
    (free : env.slot h name = .ok slot) (value : Value) :
    h.KeepsHidden (env.write h name value slot) := by
  rw [Environment.slot] at free
  split at free
  · next id index resolved =>
    split at free
    · cases free
    · cases free
      exact .modifyFrame (.put (find?_of_resolve resolved) value)
  · split at free
    · cases free
    · cases free
      exact .modifyFrame (.push _ name value)

theorem State.Step.keepsHidden {walks : ProtectFlags → Prop} {s t : State} (step : s.Step walks t) :
    s.heap.KeepsHidden t.heap := by
  cases step with
  | read => exact .refl _
  | heap step => exact step.keepsHidden
  | assign name value slot free => exact Environment.write_keepsHidden free value
  | print line => exact .refl _

/-! ## Runs -/

/-- Reading and running a program passes a course of heaps. -/
theorem Interpreter.exists_course (source : String) (s : State) :
    ∃ moments, s.heap.Course moments (run source s).2.heap := by
  cases loaded : loadSource source s with
  | error e =>
    refine ⟨[], .singleton _, ?_⟩
    rw [run, loaded]
    rfl
  | ok program =>
    obtain ⟨block, t⟩ := program
    have all : Routine ClaimsNothing fun ev => ev.all block := .all block
    obtain ⟨moments, steps, last⟩ := all.exists_course fuel t
    rw [state_run loaded]
    exact ⟨t.heap :: moments, .cons_cons ⟨s, t, loadSource_step loaded, rfl, rfl⟩ steps,
      by rwa [List.getLastD_cons]⟩

/-- Every evaluation passes a course of heaps, and in every course hiding lasts: what an earlier
moment hides, every later one hides, and no field is lost, renamed or moved in between. It lasts
in the same way between the moments of a run, of which one is always inside of the other or over
before the other begins. -/
structure HidingLasts (fuel : Nat) (s : State) : Prop where
  next (block : BlockRef) (index : Nat) :
    ∃ moments, s.heap.Course moments (endState ((evaluator fuel).next block index) s).heap
  all (block : BlockRef) :
    ∃ moments, s.heap.Course moments (endState ((evaluator fuel).all block) s).heap
  reduce (block : BlockRef) :
    ∃ moments, s.heap.Course moments (endState ((evaluator fuel).reduce block) s).heap
  invoke (name : String) (f : Function) (args : Args) :
    ∃ moments, s.heap.Course moments (endState ((evaluator fuel).invoke name f args) s).heap
  run (source : String) : ∃ moments, s.heap.Course moments (Interpreter.run source s).2.heap
  lasts (moments : List Heap) (h : Heap) :
    s.heap.Course moments h → (s.heap :: moments).Pairwise Heap.KeepsHidden
  reached (source : String) (a : Moment) : Interpreter.Reaches source s a →
    s.heap.KeepsHidden a.state.heap ∧ a.state.heap.KeepsHidden a.after.heap ∧
      a.after.heap.KeepsHidden (Interpreter.run source s).2.heap
  ordered (source : String) (a b : Moment) : Interpreter.Reaches source s a →
    Interpreter.Reaches source s b → a.Comparable b
  inside (a b : Moment) : a.Spans b →
    a.state.heap.KeepsHidden b.state.heap ∧ b.after.heap.KeepsHidden a.after.heap
  later (a b : Moment) : a.Precedes b → a.after.heap.KeepsHidden b.state.heap

theorem hiding_lasts (fuel : Nat) (s : State) : HidingLasts fuel s := by
  have next (block : BlockRef) (index : Nat) :
      Routine ClaimsNothing fun ev => ev.next block index := .next block index
  have all (block : BlockRef) : Routine ClaimsNothing fun ev => ev.all block := .all block
  have reduce (block : BlockRef) : Routine ClaimsNothing fun ev => ev.reduce block := .reduce block
  have invoke (name : String) (f : Function) (args : Args) :
      Routine ClaimsNothing fun ev => ev.invoke name f args := .invoke name f args
  have steps (s t : State) (step : s.Step (fun _ => True) t) : s.heap.KeepsHidden t.heap :=
    step.keepsHidden
  exact
    { next := fun block index => (next block index).exists_course fuel s
      all := fun block => (all block).exists_course fuel s
      reduce := fun block => (reduce block).exists_course fuel s
      invoke := fun name f args => (invoke name f args).exists_course fuel s
      run := fun source => Interpreter.exists_course source s
      lasts := fun _ _ course => course.pairwise .trans steps
      reached := fun source a reaches => by
        obtain ⟨begins, ends⟩ := reaches.relates .refl .trans steps
        exact ⟨begins, a.relates_after .refl .trans steps, ends⟩
      ordered := fun source a b first second => first.comparable second
      inside := fun a b spans => spans.relates .refl .trans steps
      later := fun a b precedes => precedes.relates .refl .trans steps }

def hiddenWord : State where
  heap := { frames := #[{ fields := #[{ name := "a", value := .integer 1, hidden := true }] }] }
  env := { root := 0 }

/-- To assign the word adds another field behind the hidden one. -/
theorem hiding_lasts_hidden :
    ∃ a, Interpreter.Reaches "a: 2" hiddenWord a ∧
      hiddenWord.heap.KeepsHidden (Interpreter.run "a: 2" hiddenWord).2.heap ∧
      ∃ f, (Interpreter.run "a: 2" hiddenWord).2.heap.frames[0]? = some f ∧
        ∃ field, f.fields[0]? = some field ∧ field.hidden = true ∧ field.value = .integer 1 := by
  obtain ⟨block, t, loaded⟩ :
      ∃ block t, Interpreter.loadSource "a: 2" hiddenWord = .ok (block, t) := by
    have read : Datum.read "a: 2" = .ok [.word .setWord "a", .integer 2] := by
      with_unfolding_all rfl
    exact ⟨_, _, by rw [Interpreter.loadSource, read]⟩
  have reached := Interpreter.reaches_first loaded
  obtain ⟨begins, inside, ends⟩ := (hiding_lasts 0 hiddenWord).reached _ _ reached
  have kept := (begins.trans inside).trans ends
  obtain ⟨f, here, frame⟩ := kept 0 _ rfl
  obtain ⟨field, there, same⟩ := frame 0 _ rfl
  obtain ⟨hidden, value⟩ := same.hidden rfl
  exact ⟨_, reached, kept, f, here, field, there, hidden, value⟩

end BlockScript
