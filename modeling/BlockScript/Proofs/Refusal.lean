import BlockScript.Proofs.Balance

/-!
# Refused writes

A write that is refused changes nothing. The natives that write look before they write, and then
write in one step. A path is followed first; that makes a text when it asks an error for its
message, but what can be written to is never reached through a text.
-/

namespace BlockScript

variable {α β : Type} {m : EvalM α} {f : α → EvalM β} {s t : State} {exit : Exit}

/-! ## Computations that fail without a change -/

def Reads (m : EvalM α) : Prop := ∀ s, endState m s = s

def FailsUnchanged (m : EvalM α) : Prop := ∀ s exit t, m s = .error exit t → t = s

namespace Reads

theorem pure (a : α) : Reads (pure a : EvalM α) := fun _ => rfl

theorem throw (exit : Exit) : Reads (throw exit : EvalM α) := fun _ => rfl

theorem getHeap : Reads getHeap := fun _ => rfl

theorem formValue (v : Value) : Reads (formValue v) := fun _ => rfl

theorem expectInteger (function argument : String) (v : Value) :
    Reads (expectInteger function argument v) := by
  cases v <;> exact fun _ => rfl

end Reads

namespace FailsUnchanged

theorem primitive (step : Primitive (fun _ => False) m) : FailsUnchanged m := by
  intro s exit t failed
  rcases step.outcome s with ⟨a, u, run, -⟩ | ⟨exit', run⟩
  · rw [run] at failed
    cases failed
  · rw [run] at failed
    cases failed
    rfl

theorem raise (cause : Cause) : FailsUnchanged (raise cause : EvalM α) := by
  intro s exit t failed
  cases failed
  rfl

/-- What was only read before a write is as it was when the write is refused. -/
theorem after_reading (reads : Reads m) (rest : ∀ a, FailsUnchanged (f a)) :
    FailsUnchanged (m >>= f) := by
  intro s exit t failed
  have unchanged := reads s
  rcases bind_eq_error failed with here | ⟨a, u, run, later⟩
  · rwa [endState_error here] at unchanged
  · rw [endState_ok run] at unchanged
    exact unchanged ▸ rest a u exit t later

theorem then_return (write : FailsUnchanged m) (result : α → β) :
    FailsUnchanged (m >>= fun a => Pure.pure (result a)) := by
  intro s exit t failed
  rcases bind_eq_error failed with here | ⟨a, u, run, later⟩
  · exact write s exit t here
  · cases later

theorem ite {c : Prop} [Decidable c] {m' : EvalM α} (yes : FailsUnchanged m)
    (no : FailsUnchanged m') : FailsUnchanged (if c then m else m') := by
  split
  · exact yes
  · exact no

theorem withCall (h : FailsUnchanged m) (name : String) : FailsUnchanged (withCall name m) := by
  intro s exit t failed
  unfold BlockScript.withCall at failed
  cases pushed : s.calls.push name with
  | error cause =>
    rw [pushed] at failed
    cases failed
    rfl
  | ok calls =>
    simp only [pushed] at failed
    cases run : m { s with calls } with
    | ok a u =>
      rw [run] at failed
      cases failed
    | error exit' u =>
      rw [run] at failed
      cases failed
      rw [h _ exit' u run]
      exact congrArg (fun calls => { s with calls }) (CallStack.pop_of_push pushed)

end FailsUnchanged

/-! ## Natives that write -/

def Native.IsWriter : Native → Prop
  | .append | .insert | .poke | .clear | .set => True
  | _ => False

theorem pokeItem_failsUnchanged (r : BlockRef) (place : Int64) (value : Value) :
    FailsUnchanged (pokeItem r place value) :=
  .ite (.raise _) (.after_reading .getHeap fun _ =>
    .ite (.raise _) (.ite (.primitive (.editBlock r.id _)) (.raise _)))

theorem writer_failsUnchanged (ev : Evaluator) {n : Native} (writer : n.IsWriter) (args : Args) :
    FailsUnchanged (n.run ev args) := by
  cases n with
  | append =>
    simp only [Native.run]
    unfold SeriesAccess.append
    split
    · exact .after_reading .getHeap fun _ => .then_return (.primitive (.editBlock _ _)) _
    · exact .after_reading (.formValue _) fun _ => .then_return (.primitive (.editText _ _)) _
    · exact .raise _
  | insert =>
    simp only [Native.run]
    unfold SeriesAccess.insert
    split
    · exact .after_reading .getHeap fun _ => .then_return (.primitive (.editBlock _ _)) _
    · exact .after_reading (.formValue _) fun _ => .then_return (.primitive (.editText _ _)) _
    · exact .raise _
  | poke =>
    simp only [Native.run]
    unfold SeriesAccess.poke
    split
    · exact .after_reading (.expectInteger _ _ _) fun _ =>
        .then_return (pokeItem_failsUnchanged _ _ _) _
    · exact .raise _
  | clear =>
    simp only [Native.run]
    unfold SeriesAccess.clear
    split
    · exact .then_return (.primitive (.editBlock _ _)) _
    · exact .then_return (.primitive (.editText _ _)) _
    · exact .primitive (.pure _)
    · exact .raise _
  | set =>
    simp only [Native.run]
    unfold Words.set
    split
    · exact .then_return (.primitive (.assignWord _ _)) _
    · exact .raise _
  | _ => exact writer.elim

/-! ## Paths that are written to -/

def Exit.RefusesWrite : Exit → Prop
  | .raised e => e.cause = .guarded ∨ (∃ name, e.cause = .lockedWord name) ∨ e.cause = .pastEnd
  | _ => False

/-- What following a path does: it selects without a change, makes a text, or fails for another
reason than that a write is refused. -/
structure Selects (m : EvalM Value) : Prop where
  ok (s t : State) (v : Value) : m s = .ok v t → t = s ∨ ∃ id, v = .text id
  error (s t : State) (exit : Exit) : m s = .error exit t → ¬ exit.RefusesWrite

namespace Selects

theorem pure (v : Value) : Selects (Pure.pure v) := by
  refine ⟨fun s t w done => ?_, fun s t exit failed => ?_⟩
  · cases done
    exact .inl rfl
  · cases failed

theorem newText (content : String) : Selects (newText content) := by
  refine ⟨fun s t w done => ?_, fun s t exit failed => ?_⟩
  · cases done
    exact .inr ⟨_, rfl⟩
  · cases failed

theorem raise {cause : Cause} (other : ¬ (Exit.raised { cause }).RefusesWrite) :
    Selects (raise cause) := by
  refine ⟨fun s t w done => ?_, fun s t exit failed => ?_⟩
  · cases done
  · cases failed
    exact other

theorem refuse (segments : List Segment) (segment : String) :
    Selects (Path.refuse segments segment) := raise (by simp [Exit.RefusesWrite])

theorem getHeap {f : Heap → EvalM Value} (rest : ∀ h, Selects (f h)) : Selects (getHeap >>= f) :=
  ⟨fun s => (rest s.heap).ok s, fun s => (rest s.heap).error s⟩

theorem lookup {name : String} {f : Option Value → EvalM Value}
    (rest : ∀ found, Selects (f found)) : Selects (lookup name >>= f) :=
  ⟨fun s => (rest (s.env.lookup s.heap name)).ok s,
    fun s => (rest (s.env.lookup s.heap name)).error s⟩

theorem lookupSet (name : String) : Selects (lookupSet name) := by
  refine lookup fun found => ?_
  cases found with
  | none => exact raise (by simp [Exit.RefusesWrite])
  | some v =>
    cases v with
    | unset => exact raise (by simp [Exit.RefusesWrite])
    | _ => exact pure _

theorem head (segments : List Segment) : Selects (Path.head segments) := by
  match segments with
  | [] => exact refuse _ _
  | .name name :: _ => exact lookupSet name
  | .index _ :: _ => exact refuse _ _

theorem select (segments : List Segment) (container : Value) (segment : Segment) :
    Selects (Path.select segments container segment) := by
  unfold Path.select
  split
  · refine getHeap fun h => ?_
    split
    · exact pure _
    · exact refuse _ _
  · exact getHeap fun _ => pure _
  · exact getHeap fun _ => pure _
  · exact getHeap fun _ => pure _
  · exact pure _
  · exact newText _
  · exact refuse _ _

/-- Nothing is selected in a text. -/
theorem nil_of_text {segments rest : List Segment} {id : TextId} {v : Value}
    (done : rest.foldlM (Path.select segments) (.text id) s = .ok v t) : v = .text id := by
  cases rest with
  | nil => cases done; rfl
  | cons segment rest =>
    obtain ⟨w, u, step, -⟩ := bind_eq_ok done
    cases step

theorem then_follow {m : EvalM Value} {segments rest : List Segment} (first : Selects m)
    (follow : ∀ v, Selects (rest.foldlM (Path.select segments) v)) :
    Selects (m >>= fun v => rest.foldlM (Path.select segments) v) := by
  refine ⟨fun s t w done => ?_, fun s t exit failed => ?_⟩
  · obtain ⟨v, u, here, later⟩ := bind_eq_ok done
    rcases first.ok s u v here with rfl | ⟨id, rfl⟩
    · exact (follow v).ok u t w later
    · exact .inr ⟨id, nil_of_text later⟩
  · rcases bind_eq_error failed with here | ⟨v, u, -, later⟩
    · exact first.error s t exit here
    · exact (follow v).error u t exit later

theorem follow (segments rest : List Segment) (v : Value) :
    Selects (rest.foldlM (Path.select segments) v) := by
  induction rest generalizing v with
  | nil => exact pure v
  | cons segment rest ih => exact then_follow (select segments v segment) ih

end Selects

def writeInto (segments : List Segment) (value container : Value) (last : Segment) : EvalM Unit :=
  match container, last with
  | .object id, .name name => do
    match ((← getHeap).frame id).find? name with
    | some index => assignField id index value
    | none => Path.refuse segments last.mold
  | .block r, .index place => pokeItem r place value
  | _, _ => Path.refuse segments last.mold

theorem writeInto_failsUnchanged (segments : List Segment) (value container : Value)
    (last : Segment) : FailsUnchanged (writeInto segments value container last) := by
  unfold writeInto
  split
  · exact .primitive (.assignNamed _ _ _ _)
  · exact pokeItem_failsUnchanged _ _ _
  · exact .raise _

/-- A path is refused for its form, or it is followed to a container that is then written to. -/
theorem pathSet_cases (segments : List Segment) (value : Value) :
    (∃ segment, Path.set segments value = Path.refuse segments segment) ∨
      ∃ (select : EvalM Value) (last : Segment), Selects select ∧
        Path.set segments value = select >>= fun container =>
          writeInto segments value container last := by
  cases found : segments.getLast? with
  | none =>
    refine .inl ⟨"none", ?_⟩
    unfold Path.set Path.target
    rw [found]
    rfl
  | some last =>
    by_cases empty : segments.dropLast.isEmpty
    · refine .inl ⟨last.mold, ?_⟩
      unfold Path.set Path.target
      simp only [found, empty, if_true]
      rfl
    · have follow (v : Value) := Selects.follow segments (segments.dropLast.drop 1) v
      refine .inr ⟨_, last, .then_follow (.head segments) follow, ?_⟩
      unfold Path.set Path.target
      simp only [found, empty, Bool.false_eq_true, if_false, bind_assoc, pure_bind]
      rfl

theorem pathSet_refused {segments : List Segment} {value : Value}
    (failed : Path.set segments value s = .error exit t) (refuses : exit.RefusesWrite) : t = s := by
  rcases pathSet_cases segments value with ⟨segment, refuse⟩ | ⟨select, last, selects, write⟩
  · rw [refuse] at failed
    cases failed
    rfl
  · rw [write] at failed
    rcases bind_eq_error failed with here | ⟨container, u, here, later⟩
    · exact absurd refuses (selects.error s t exit here)
    · rcases selects.ok s u container here with rfl | ⟨id, rfl⟩
      · exact writeInto_failsUnchanged segments value container last _ exit t later
      · cases later
        simp [Exit.RefusesWrite] at refuses

/-! ## Calls and assignments -/

variable {ev : Evaluator} {block : BlockRef} {position next : Nat} {value : Value} {u : State}

theorem invoke_refused {name : String} {n : Native} {args : Args} (writer : n.IsWriter)
    (failed : invoke ev name (.native n) args s = .error exit t) : t = s :=
  (writer_failsUnchanged ev writer args).withCall name s exit t failed

/-- The assignment to a word fails in the state in which its value was evaluated. -/
theorem setWord_refused {name : String}
    (evaluated : assigned ev name block position s = .ok (value, next) u)
    (failed : term ev block position (.word .setWord name) s = .error exit t) : t = u := by
  rcases bind_eq_error failed with here | ⟨step, u', here, later⟩
  · rw [evaluated] at here
    cases here
  · rw [evaluated] at here
    cases here
    exact FailsUnchanged.then_return (.primitive (.assignWord name value)) _ u exit t later

/-- A refused assignment to a path ends in the state in which its value was evaluated. -/
theorem setPath_refused {segments : List Segment}
    (evaluated : assigned ev (PathKind.setPath.mold segments) block position s =
      .ok (value, next) u)
    (failed : term ev block position (.path .setPath segments) s = .error exit t)
    (refuses : exit.RefusesWrite) : t = u := by
  rcases bind_eq_error failed with here | ⟨step, u', here, later⟩
  · rw [evaluated] at here
    cases here
  · rw [evaluated] at here
    cases here
    rcases bind_eq_error later with write | ⟨_, _, _, done⟩
    · exact pathSet_refused write refuses
    · cases done

end BlockScript
