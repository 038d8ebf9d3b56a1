import BlockScript.Proofs.MissingValues
import BlockScript.Proofs.Positions

/-!
# Progress

An expression ends behind the position that it begins at, and only where the block ends is there no
expression. While no call makes the series of the block shorter, it ends within the series. Whatever
evaluates a block expression by expression therefore goes from one position to a greater one until
the block ends, unless it is interrupted or decides to stop.
-/

namespace BlockScript

variable {α β : Type} {s t u : State} {block : BlockRef} {position fuel : Nat}

/-! ## Behind the beginning -/

theorem PositionsKept.atLeast (block : BlockRef) (least : Nat) :
    PositionsKept block (fun _ _ => True) fun _ position => least ≤ position where
  trans _ _ := trivial
  lengthens _ := trivial
  stays _ le := le
  passes _ le := le.trans (Nat.le_succ _)

theorem evaluator_atLeast (block : BlockRef) (least fuel : Nat) :
    (evaluator fuel).KeepsPositions block (fun _ _ => True) fun _ position => least ≤ position := by
  have relates (fuel : Nat) : (evaluator fuel).Relates fun _ _ => True :=
    ⟨fun _ _ _ => trivial, fun _ _ _ _ => trivial⟩
  refine ⟨relates fuel, ?_⟩
  induction fuel with
  | zero => exact fun _ => .throw (fun _ => trivial) _
  | succ fuel ih =>
    intro position
    exact ((PositionsKept.atLeast block least).expression ⟨relates fuel, ih⟩ position).of_pre
      fun _ le _ _ => le.trans (Nat.le_succ _)

/-- The position after an expression is behind the one that it begins at. -/
theorem lt_of_next {value : Value} {next : Nat}
    (done : (evaluator fuel).next block position s = .ok (some (value, next)) t) :
    position < next := by
  cases fuel with
  | zero => cases done
  | succ fuel =>
    have lands := (PositionsKept.atLeast block (position + 1)).expression
      (evaluator_atLeast block (position + 1) fuel) position
    exact (lands s fun _ _ => le_rfl).2 _ t done value next rfl

/-! ## Within the series -/

def unlessShorter (id : Nat) (alarm call : EvalM Value) : EvalM Value := fun s =>
  if ((endState call s).heap.items id).size < (s.heap.items id).size then alarm s else call s

def evaluatorWatching (id : Nat) (alarm : EvalM Value) (fuel : Nat) : Evaluator where
  next block position :=
    match fuel with
    | 0 => throw .outOfFuel
    | fuel + 1 => expression (evaluatorWatching id alarm fuel) block position
  invoke name f args :=
    match fuel with
    | 0 => throw .outOfFuel
    | fuel + 1 => unlessShorter id alarm (invoke (evaluatorWatching id alarm fuel) name f args)
  fuel

/-- No call that is executed removes items from a series: whatever such calls did, the run would be
the same. -/
def NeverShortens (id : Nat) (k : Evaluator → EvalM α) (fuel : Nat) (s : State) : Prop :=
  ∀ alarm, k (evaluatorWatching id alarm fuel) s = k (evaluator fuel) s

def Heap.KeepsLength (id : Nat) (h h' : Heap) : Prop := (h.items id).size ≤ (h'.items id).size

/-- A position in a series, or at its end; in all other series any position. -/
def Heap.Within (id : Nat) (block : BlockRef) (h : Heap) (position : Nat) : Prop :=
  block.id = id → position ≤ (h.items id).size

theorem Heap.within_of_item? {h : Heap} {id : Nat} {v : Value}
    (found : h.item? block position = some v) : h.Within id block (position + 1) := by
  rintro rfl
  exact (Array.getElem?_eq_some_iff.mp found).1

theorem Heap.KeepsLength.refl {id : Nat} (h : Heap) : h.KeepsLength id h := Nat.le_refl _

theorem relates_unlessShorter (id : Nat) (exit : Exit) (call : EvalM Value) :
    Relates (Heap.KeepsLength id) (unlessShorter id (throw exit) call) := by
  intro s
  by_cases shorter : ((endState call s).heap.items id).size < (s.heap.items id).size
  · rw [endState, unlessShorter, if_pos shorter]
    exact .refl s.heap
  · rw [endState, unlessShorter, if_neg shorter, ← endState]
    exact Nat.le_of_not_lt shorter

theorem PositionsKept.within (id : Nat) (block : BlockRef) :
    PositionsKept block (Heap.KeepsLength id) (Heap.Within id block) where
  trans := Nat.le_trans
  lengthens longer := longer id
  stays longer within here := (within here).trans longer
  passes found _ := Heap.within_of_item? found

theorem evaluatorWatching_invoke (id fuel : Nat) (name : String) (f : Function) (args : Args) :
    Relates (Heap.KeepsLength id)
      ((evaluatorWatching id (throw .outOfFuel) fuel).invoke name f args) := by
  cases fuel with
  | zero => exact .throw .refl _
  | succ fuel => exact relates_unlessShorter id _ _

/-- Whatever the position that an expression begins at, it ends within the series. -/
theorem evaluatorWatching_next (id fuel : Nat) (block : BlockRef) (position : Nat) :
    Lands (Heap.KeepsLength id) (fun _ => True)
      ((evaluatorWatching id (throw .outOfFuel) fuel).next block position)
      (After (Heap.Within id block)) := by
  induction fuel generalizing block position with
  | zero => exact .throw .refl _
  | succ fuel ih =>
    have keeps : (evaluatorWatching id (throw .outOfFuel) fuel).KeepsPositions block
        (Heap.KeepsLength id) (Heap.Within id block) :=
      ⟨⟨fun block position s => (ih block position s trivial).1, evaluatorWatching_invoke id fuel⟩,
        fun position => (ih block position).of_pre fun _ _ => trivial⟩
    exact ((PositionsKept.within id block).expression keeps position).of_pre
      fun _ _ _ => Heap.within_of_item?

theorem NeverShortens.le_size {value : Value} {next : Nat}
    (never : NeverShortens block.id (fun ev => ev.next block position) fuel s)
    (done : (evaluator fuel).next block position s = .ok (some (value, next)) t) :
    next ≤ (t.heap.items block.id).size := by
  have watched := (never (throw .outOfFuel)).trans done
  exact (evaluatorWatching_next block.id fuel block position s trivial).2 _ t watched value next
    rfl rfl

/-- A call that leaves a series with fewer items is noticed. -/
theorem not_neverShortens_invoke {id : Nat} {name : String} {f : Function} {args : Args}
    (shorter : ((endState ((evaluator fuel).invoke name f args) s).heap.items id).size <
      (s.heap.items id).size) :
    ¬ NeverShortens id (fun ev => ev.invoke name f args) fuel s := by
  intro never
  have kept := evaluatorWatching_invoke id fuel name f args s
  rw [endState, show (evaluatorWatching id (throw .outOfFuel) fuel).invoke name f args s = _ from
    never (throw .outOfFuel), ← endState] at kept
  exact absurd shorter (Nat.not_lt.mpr kept)

/-! ## The tail -/

/-- Only where the block ended on entry is there no expression. -/
theorem size_le_of_next (ended : (evaluator fuel).next block position s = .ok none t) :
    (s.heap.items block.id).size ≤ position ∧ t = s := by
  cases fuel with
  | zero => cases ended
  | succ fuel =>
    cases found : s.heap.item? block position with
    | none =>
      have here := (next_tail fuel found).symm.trans ended
      cases here
      exact ⟨Heap.item?_eq_none_iff.mp found, rfl⟩
    | some item =>
      obtain ⟨_, _, _, rest⟩ := bind_eq_ok ((expression_item found).symm.trans ended)
      obtain ⟨_, _, _, none⟩ := bind_eq_ok rest
      cases none

/-! ## Visits -/

/-- The positions at which expressions are evaluated one after the other, with their values. Behind
each, the state may change in some way before the next one is evaluated. -/
inductive Evaluator.Visits (ev : Evaluator) (block : BlockRef)
    (between : Value → State → State → Prop) :
    State → Nat → List (Nat × Value) → State → Nat → Prop
  | none (s : State) (position : Nat) : Visits ev block between s position [] s position
  | more {s t u w : State} {position next last : Nat} {value : Value}
      {visits : List (Nat × Value)}
      (evaluated : ev.next block position s = .ok (some (value, next)) t)
      (meanwhile : between value t u) (rest : Visits ev block between u next visits w last) :
      Visits ev block between s position ((position, value) :: visits) w last

namespace Evaluator.Visits

variable {between : Value → State → State → Prop} {visits : List (Nat × Value)} {last : Nat}

/-- Positions that are visited lie behind one another, and the last position behind all of them. -/
theorem increasing (visited : (evaluator fuel).Visits block between s position visits u last) :
    (visits.map (·.1) ++ [last]).Pairwise (· < ·) ∧
      ∀ p ∈ visits.map (·.1) ++ [last], position ≤ p := by
  induction visited with
  | none s position => simp
  | more evaluated _ _ ih =>
    obtain ⟨increasing, behind⟩ := ih
    have forward := lt_of_next evaluated
    refine ⟨List.pairwise_cons.mpr ⟨fun p later => forward.trans_le (behind p later), increasing⟩,
      fun p visited => ?_⟩
    rcases List.mem_cons.mp visited with rfl | later
    · exact le_rfl
    · exact forward.le.trans (behind p later)

end Evaluator.Visits

/-! ## Folds -/

inductive Evaluator.Interrupts (ev : Evaluator) (block : BlockRef) (u : State) (last : Nat) :
    EStateM.Result Exit State α → Prop
  | failed {exit : Exit} {t : State} (failed : ev.next block last u = .error exit t) :
      Interrupts ev block u last (.error exit t)
  | outOfFuel : Interrupts ev block u last (.error .outOfFuel u)

inductive Evaluator.FoldEnds (ev : Evaluator) (block : BlockRef) (f : β → Value → ForInStep β)
    (u : State) (last : Nat) (acc : β) : EStateM.Result Exit State β → Prop
  | tail (atEnd : (u.heap.items block.id).size ≤ last) : FoldEnds ev block f u last acc (.ok acc u)
  | done {value : Value} {next : Nat} {t : State} {result : β}
      (evaluated : ev.next block last u = .ok (some (value, next)) t)
      (enough : f acc value = .done result) : FoldEnds ev block f u last acc (.ok result t)
  | interrupted {r : EStateM.Result Exit State β} (interrupts : ev.Interrupts block u last r) :
      FoldEnds ev block f u last acc r

theorem Evaluator.Interrupts.bind {ev : Evaluator} {m : EvalM α} {last : Nat}
    (h : ev.Interrupts block u last (m s)) (f : α → EvalM β) :
    ev.Interrupts block u last ((m >>= f) s) := by
  generalize run : m s = r at h
  cases h with
  | failed failed =>
    rw [bind_of_error run f]
    exact .failed failed
  | outOfFuel =>
    rw [bind_of_error run f]
    exact .outOfFuel

namespace Evaluator.FoldEnds

variable {ev : Evaluator} {f : β → Value → ForInStep β} {last : Nat} {acc : β}
  {r : EStateM.Result Exit State β}

theorem tail_or_done (ends : ev.FoldEnds block f u last acc r) :
    ((u.heap.items block.id).size ≤ last ∧ r = .ok acc u) ∨
      (∃ v next t result, ev.next block last u = .ok (some (v, next)) t ∧
        f acc v = .done result ∧ r = .ok result t) ∨
      ev.Interrupts block u last r := by
  cases ends with
  | tail atEnd => exact .inl ⟨atEnd, rfl⟩
  | done evaluated enough => exact .inr (.inl ⟨_, _, _, _, evaluated, enough, rfl⟩)
  | interrupted interrupts => exact .inr (.inr interrupts)

/-- A fold that is never done goes on to the tail, unless it is interrupted. -/
theorem of_yields (ends : ev.FoldEnds block f u last acc r)
    (yields : ∀ value, ∃ next, f acc value = .yield next) :
    ((u.heap.items block.id).size ≤ last ∧ r = .ok acc u) ∨ ev.Interrupts block u last r := by
  rcases ends.tail_or_done with tail | ⟨v, next, t, result, evaluated, enough, same⟩ | interrupts
  · exact .inl tail
  · obtain ⟨more, yields⟩ := yields v
    cases yields.symm.trans enough
  · exact .inr interrupts

end Evaluator.FoldEnds

def Unchanged (_ : Value) (t u : State) : Prop := u = t

/-- What a fold makes of values that it is not done with before the last of them. -/
def foldedOver (f : β → Value → ForInStep β) : β → List Value → Option β
  | acc, [] => some acc
  | acc, value :: values =>
    match f acc value with
    | .yield acc => foldedOver f acc values
    | .done _ => none

theorem foldFrom_visits (f : β → Value → ForInStep β) (n : Nat) (position : Nat) (acc : β)
    (s : State) :
    ∃ visits u last acc',
      (evaluator fuel).Visits block Unchanged s position visits u last ∧
      foldedOver f acc (visits.map (·.2)) = some acc' ∧
      (evaluator fuel).FoldEnds block f u last acc'
        ((evaluator fuel).foldFrom block f n position acc s) := by
  induction n generalizing position acc s with
  | zero => exact ⟨[], s, position, acc, .none s position, rfl, .interrupted .outOfFuel⟩
  | succ n ih =>
    cases run : (evaluator fuel).next block position s with
    | error exit t =>
      refine ⟨[], s, position, acc, .none s position, rfl, ?_⟩
      rw [show (evaluator fuel).foldFrom block f (n + 1) position acc s = .error exit t from
        bind_of_error run _]
      exact .interrupted (.failed run)
    | ok step t =>
      obtain _ | ⟨value, next⟩ := step
      · obtain ⟨atEnd, rfl⟩ := size_le_of_next run
        refine ⟨[], t, position, acc, .none t position, rfl, ?_⟩
        rw [show (evaluator fuel).foldFrom block f (n + 1) position acc t = .ok acc t from
          bind_of_ok run _]
        exact .tail atEnd
      cases folded : f acc value with
      | done result =>
        have here : (evaluator fuel).foldFrom block f (n + 1) position acc s = .ok result t :=
          (bind_of_ok run _).trans (by simp only [folded, pure, EStateM.pure])
        rw [here]
        exact ⟨[], s, position, acc, .none s position, rfl, .done run folded⟩
      | yield acc' =>
        have here : (evaluator fuel).foldFrom block f (n + 1) position acc s =
            (evaluator fuel).foldFrom block f n next acc' t :=
          (bind_of_ok run _).trans (by simp only [folded])
        rw [here]
        obtain ⟨visits, u, last, acc'', visited, values, ends⟩ := ih next acc' t
        refine ⟨(position, value) :: visits, u, last, acc'', .more run rfl visited, ?_, ends⟩
        rw [List.map_cons, foldedOver, folded]
        exact values

theorem fold_visits (block : BlockRef) (f : β → Value → ForInStep β) (start : β) (s : State) :
    ∃ visits u last acc,
      (evaluator fuel).Visits block Unchanged s block.index visits u last ∧
      foldedOver f start (visits.map (·.2)) = some acc ∧
      (evaluator fuel).FoldEnds block f u last acc ((evaluator fuel).fold block f start s) :=
  foldFrom_visits f (evaluator fuel).fuel block.index start s

theorem foldedOver_last (acc : Value) (values : List Value) :
    foldedOver (fun _ value => .yield value) acc values = some (values.getLastD acc) := by
  induction values generalizing acc with
  | nil => rfl
  | cons value values ih => exact (ih value).trans (by rw [List.getLastD_cons])

theorem foldedOver_push (acc : Array Value) (values : List Value) :
    foldedOver (fun values value => .yield (values.push value)) acc values =
      some (acc ++ values.toArray) := by
  induction values generalizing acc with
  | nil => simp [foldedOver]
  | cons value values ih => exact (ih (acc.push value)).trans (by simp)

theorem allOf_eq_fold {ev : Evaluator} {args : Args} (taken : args.value 0 = .block block) :
    Conditionals.allOf ev args =
      ev.fold block (fun _ value => if value.isTruthy then .yield value else .done .none)
        (.logic true) := by
  rw [Conditionals.allOf, taken]
  rfl

/-- The fold of all is not done before a value that is false. -/
theorem foldedOver_allOf {acc acc' : Value} {values : List Value}
    (folded : foldedOver (fun _ value => if value.isTruthy then .yield value else .done .none)
      acc values = some acc') :
    (∀ v ∈ values, v.isTruthy = true) ∧ acc' = values.getLastD acc := by
  induction values generalizing acc with
  | nil =>
    cases folded
    exact ⟨by simp, rfl⟩
  | cons value values ih =>
    rw [foldedOver] at folded
    by_cases holds : value.isTruthy = true
    · rw [if_pos holds] at folded
      obtain ⟨rest, last⟩ := ih folded
      exact ⟨List.forall_mem_cons.mpr ⟨holds, rest⟩, by rw [last, List.getLastD_cons]⟩
    · rw [if_neg holds] at folded
      cases folded

theorem anyOf_eq_fold {ev : Evaluator} {args : Args} (taken : args.value 0 = .block block) :
    Conditionals.anyOf ev args =
      ev.fold block
        (fun _ value => if value.isTruthy && !value.isUnset then .done value else .yield .none)
        .none := by
  rw [Conditionals.anyOf, taken]
  rfl

/-- The fold of any is not done before a value that is true and set. -/
theorem foldedOver_anyOf {acc : Value} {values : List Value}
    (folded : foldedOver
      (fun _ value => if value.isTruthy && !value.isUnset then .done value else .yield .none)
      .none values = some acc) :
    (∀ v ∈ values, (v.isTruthy && !v.isUnset) = false) ∧ acc = .none := by
  induction values with
  | nil =>
    cases folded
    exact ⟨by simp, rfl⟩
  | cons value values ih =>
    rw [foldedOver] at folded
    by_cases holds : (value.isTruthy && !value.isUnset) = true
    · rw [if_pos holds] at folded
      cases folded
    · rw [if_neg holds] at folded
      obtain ⟨rest, last⟩ := ih folded
      exact ⟨List.forall_mem_cons.mpr ⟨Bool.eq_false_iff.mpr holds, rest⟩, last⟩

/-! ## Cases -/

def BodyRan (ev : Evaluator) (only : Bool) (value : Value) (t u : State) : Prop :=
  u = t ∨ ∃ result, ev.branch only value t = .ok result u

inductive CaseEnds (ev : Evaluator) (block : BlockRef) (every only : Bool) (u : State)
    (last : Nat) : EStateM.Result Exit State Value → Prop
  | tail (atEnd : (u.heap.items block.id).size ≤ last) (result : Value) :
      CaseEnds ev block every only u last (.ok result u)
  /-- A true condition decides, unless all are asked for. -/
  | decided {condition body result : Value} {next next' : Nat} {t t' w : State}
      (first : every = false) (evaluated : ev.next block last u = .ok (some (condition, next)) t)
      (holds : condition.isTruthy = true)
      (evaluated' : ev.next block next t = .ok (some (body, next')) t')
      (ran : ev.branch only body t' = .ok result w) :
      CaseEnds ev block every only u last (.ok result w)
  | interrupted {r : EStateM.Result Exit State Value} (interrupts : ev.Interrupts block u last r) :
      CaseEnds ev block every only u last r
  | unsetCondition {condition : Value} {next : Nat} {t : State}
      (evaluated : ev.next block last u = .ok (some (condition, next)) t)
      (unset : condition.isUnset = true) :
      CaseEnds ev block every only u last (.error (.raised { cause := .noReturn }) t)
  | noBody {condition : Value} {next : Nat} {t : State}
      (evaluated : ev.next block last u = .ok (some (condition, next)) t)
      (atEnd : (t.heap.items block.id).size ≤ next) :
      CaseEnds ev block every only u last (.error (.raised { cause := .pastEnd }) t)
  | bodyInterrupted {condition : Value} {next : Nat} {t : State}
      {r : EStateM.Result Exit State Value}
      (evaluated : ev.next block last u = .ok (some (condition, next)) t)
      (interrupts : ev.Interrupts block t next r) : CaseEnds ev block every only u last r
  | bodyFailed {condition body : Value} {next next' : Nat} {t t' w : State} {exit : Exit}
      (evaluated : ev.next block last u = .ok (some (condition, next)) t)
      (evaluated' : ev.next block next t = .ok (some (body, next')) t')
      (failed : ev.branch only body t' = .error exit w) :
      CaseEnds ev block every only u last (.error exit w)

section Pairs

variable {ev : Evaluator} {condition body : Value} {next next' : Nat} {t' : State}
  (every only : Bool) (n : Nat) (result : Value)
  (evaluated : ev.next block position s = .ok (some (condition, next)) t)
  (set : condition.isUnset = false)

include evaluated set

theorem casePairs_condition :
    Conditionals.casePairs ev block every only (n + 1) position result s =
      (ev.next block next >>= fun step =>
        match step with
        | none => raise .pastEnd
        | some (body, next) =>
          if condition.isTruthy then do
            let result ← ev.branch only body
            if every then Conditionals.casePairs ev block every only n next result
            else return result
          else Conditionals.casePairs ev block every only n next result) t := by
  refine (bind_of_ok evaluated _).trans ?_
  exact congrFun (if_neg (by rw [set]; exact Bool.false_ne_true)) t

theorem casePairs_body (evaluated' : ev.next block next t = .ok (some (body, next')) t') :
    Conditionals.casePairs ev block every only (n + 1) position result s =
      (if condition.isTruthy then do
          let result ← ev.branch only body
          if every then Conditionals.casePairs ev block every only n next' result
          else return result
        else Conditionals.casePairs ev block every only n next' result) t' :=
  (casePairs_condition every only n result evaluated set).trans (bind_of_ok evaluated' _)

end Pairs

theorem casePairs_visits (every only : Bool) (n position : Nat) (result : Value) (s : State) :
    ∃ visits u last,
      (evaluator fuel).Visits block (BodyRan (evaluator fuel) only) s position visits u last ∧
      CaseEnds (evaluator fuel) block every only u last
        (Conditionals.casePairs (evaluator fuel) block every only n position result s) := by
  induction n generalizing position result s with
  | zero => exact ⟨[], s, position, .none s position, .interrupted .outOfFuel⟩
  | succ n ih =>
    have stop {r : EStateM.Result Exit State Value}
        (same : Conditionals.casePairs (evaluator fuel) block every only (n + 1) position result s
          = r) (ends : CaseEnds (evaluator fuel) block every only s position r) :
        ∃ visits u last,
          (evaluator fuel).Visits block (BodyRan (evaluator fuel) only) s position visits u last ∧
          CaseEnds (evaluator fuel) block every only u last
            (Conditionals.casePairs (evaluator fuel) block every only (n + 1) position result s) :=
      ⟨[], s, position, .none s position, same ▸ ends⟩
    cases run : (evaluator fuel).next block position s with
    | error exit t => exact stop (bind_of_error run _) (.interrupted (.failed run))
    | ok step t =>
      obtain _ | ⟨condition, next⟩ := step
      · obtain ⟨atEnd, rfl⟩ := size_le_of_next run
        exact stop (bind_of_ok run _) (.tail atEnd result)
      by_cases unset : condition.isUnset = true
      · exact stop ((bind_of_ok run _).trans (congrFun (if_pos unset) t))
          (.unsetCondition run unset)
      have set : condition.isUnset = false := Bool.eq_false_iff.mpr unset
      have first := casePairs_condition every only n result run set
      cases run' : (evaluator fuel).next block next t with
      | error exit w =>
        exact stop (first.trans (bind_of_error run' _)) (.bodyInterrupted run (.failed run'))
      | ok step t' =>
        obtain _ | ⟨body, next'⟩ := step
        · obtain ⟨atEnd, rfl⟩ := size_le_of_next run'
          exact stop (first.trans (bind_of_ok run' _)) (.noBody run atEnd)
        have second := casePairs_body every only n result run set run'
        by_cases holds : condition.isTruthy = true
        · rw [if_pos holds] at second
          cases ran : (evaluator fuel).branch only body t' with
          | error exit w =>
            exact stop (second.trans (bind_of_error ran _)) (.bodyFailed run run' ran)
          | ok result' w =>
            have third := second.trans (bind_of_ok ran _)
            cases every with
            | false => exact stop third (.decided rfl run holds run' ran)
            | true =>
              obtain ⟨visits, u, last, visited, ends⟩ := ih next' result' w
              exact ⟨_, u, last, .more run (.inl rfl) (.more run' (.inr ⟨result', ran⟩) visited),
                third ▸ ends⟩
        · rw [if_neg holds] at second
          obtain ⟨visits, u, last, visited, ends⟩ := ih next' result t'
          exact ⟨_, u, last, .more run (.inl rfl) (.more run' (.inl rfl) visited), second ▸ ends⟩

/-! ## Progress as a whole -/

/-- What holds of everything that is evaluated from a state, expression by expression. -/
structure Progress (fuel : Nat) (s : State) : Prop where
  /-- There is no expression at a position exactly if the series ended there on entry. -/
  ends_iff (block : BlockRef) (position : Nat) :
    (∃ t, (evaluator (fuel + 1)).next block position s = .ok none t) ↔
      (s.heap.items block.id).size ≤ position
  /-- An argument that is not there is an error, and so are an operand and a value to be assigned
  that are not there. -/
  argument (function : String) (param : Param) (block : BlockRef) (position : Nat) :
    (s.heap.items block.id).size ≤ position →
      gatherArg (evaluator (fuel + 1)) function param block position s =
        .error (.raised { cause := .noArg function param.name }) s
  operand (name : String) (f : Function) (left : Value) (block : BlockRef) (position : Nat) :
    s.operatorAt? block position = some (name, f) →
    (s.heap.items block.id).size ≤ position + 1 →
      operators (evaluator fuel) block (fuel + 1) left position s =
        .error (.raised { cause := .noArg name "value2" }) s
  setWord (name : String) (block : BlockRef) (position : Nat) :
    (s.heap.items block.id).size ≤ position →
      term (evaluator (fuel + 1)) block position (.word .setWord name) s =
        .error (.raised { cause := .needValue name }) s
  setPath (segments : List Segment) (block : BlockRef) (position : Nat) :
    (s.heap.items block.id).size ≤ position →
      term (evaluator (fuel + 1)) block position (.path .setPath segments) s =
        .error (.raised { cause := .needValue (PathKind.setPath.mold segments) }) s
  /-- So the expression itself fails, wherever in it the value was needed. -/
  cutShort (block : BlockRef) (position : Nat) (cause : Cause) (t : State) :
    CutShort block fuel (.expression position) s cause t →
      (evaluator (fuel + 1)).next block position s = .error (.raised { cause }) t ∧
        ((∃ function argument, cause = .noArg function argument) ∨
          ∃ target, cause = .needValue target)
  advances (block : BlockRef) (position next : Nat) (value : Value) (t : State) :
    (evaluator fuel).next block position s = .ok (some (value, next)) t → position < next
  within (block : BlockRef) (position next : Nat) (value : Value) (t : State) :
    NeverShortens block.id (fun ev => ev.next block position) fuel s →
    (evaluator fuel).next block position s = .ok (some (value, next)) t →
      next ≤ (t.heap.items block.id).size
  /-- Positions that are visited one after the other increase, whatever happens between. -/
  visits (block : BlockRef) (between : Value → State → State → Prop) (position last : Nat)
      (visits : List (Nat × Value)) (u : State) :
    (evaluator fuel).Visits block between s position visits u last →
      (visits.map (·.1) ++ [last]).Pairwise (· < ·)
  all (block : BlockRef) : ∃ visits u last,
    (evaluator fuel).Visits block Unchanged s block.index visits u last ∧
      ((u.heap.items block.id).size ≤ last ∧
          (evaluator fuel).all block s = .ok ((visits.map (·.2)).getLastD .unset) u ∨
        (evaluator fuel).Interrupts block u last ((evaluator fuel).all block s))
  reduce (block : BlockRef) : ∃ visits u last,
    (evaluator fuel).Visits block Unchanged s block.index visits u last ∧
      ((u.heap.items block.id).size ≤ last ∧
          (evaluator fuel).reduce block s = newBlock (visits.map (·.2)).toArray u ∨
        (evaluator fuel).Interrupts block u last ((evaluator fuel).reduce block s))
  /-- The values that were visited are true; the next one may be false. -/
  allOf (args : Args) (block : BlockRef) : args.value 0 = .block block → ∃ visits u last,
    (evaluator fuel).Visits block Unchanged s block.index visits u last ∧
      (∀ v ∈ visits.map (·.2), v.isTruthy = true) ∧
      ((u.heap.items block.id).size ≤ last ∧
          Conditionals.allOf (evaluator fuel) args s =
            .ok ((visits.map (·.2)).getLastD (.logic true)) u ∨
        (∃ v next t, (evaluator fuel).next block last u = .ok (some (v, next)) t ∧
          v.isTruthy = false ∧ Conditionals.allOf (evaluator fuel) args s = .ok .none t) ∨
        (evaluator fuel).Interrupts block u last (Conditionals.allOf (evaluator fuel) args s))
  /-- The values that were visited are false or unset; the next one may be true and set. -/
  anyOf (args : Args) (block : BlockRef) : args.value 0 = .block block → ∃ visits u last,
    (evaluator fuel).Visits block Unchanged s block.index visits u last ∧
      (∀ v ∈ visits.map (·.2), (v.isTruthy && !v.isUnset) = false) ∧
      ((u.heap.items block.id).size ≤ last ∧
          Conditionals.anyOf (evaluator fuel) args s = .ok .none u ∨
        (∃ v next t, (evaluator fuel).next block last u = .ok (some (v, next)) t ∧
          (v.isTruthy && !v.isUnset) = true ∧
          Conditionals.anyOf (evaluator fuel) args s = .ok v t) ∨
        (evaluator fuel).Interrupts block u last (Conditionals.anyOf (evaluator fuel) args s))
  caseOf (args : Args) (block : BlockRef) : args.value 0 = .block block → ∃ visits u last,
    (evaluator fuel).Visits block (BodyRan (evaluator fuel) (args.refined 2)) s block.index visits
        u last ∧
      CaseEnds (evaluator fuel) block (args.refined 1) (args.refined 2) u last
        (Conditionals.caseOf (evaluator fuel) args s)

theorem evaluation_progresses (fuel : Nat) (s : State) : Progress fuel s := by
  refine
    { ends_iff := fun block position =>
        ⟨fun ⟨t, ended⟩ => (size_le_of_next ended).1, fun atEnd => ⟨s, next_of_size_le atEnd⟩⟩
      argument := fun function param block position => gatherArg_of_size_le function param
      operand := fun name f left block position => operators_of_size_le left
      setWord := fun name block position atEnd => bind_of_error (assigned_of_size_le name atEnd) _
      setPath := fun segments block position atEnd => bind_of_error (assigned_of_size_le _ atEnd) _
      cutShort := fun block position cause t cut => ⟨cut.next, cut.missing⟩
      advances := fun block position next value t => lt_of_next
      within := fun block position next value t => NeverShortens.le_size
      visits := fun block between position last visits u visited => visited.increasing.1
      all := fun block => ?all
      reduce := fun block => ?reduce
      allOf := fun args block taken => ?allOf
      anyOf := fun args block taken => ?anyOf
      caseOf := fun args block taken => ?caseOf }
  case all =>
    obtain ⟨visits, u, last, acc, visited, folded, ends⟩ :=
      fold_visits block (fun _ value => .yield value) .unset s
    rw [foldedOver_last, Option.some_inj] at folded
    subst folded
    exact ⟨visits, u, last, visited, ends.of_yields fun value => ⟨value, rfl⟩⟩
  case reduce =>
    obtain ⟨visits, u, last, acc, visited, folded, ends⟩ :=
      fold_visits block (fun (values : Array Value) value => .yield (values.push value)) #[] s
    rw [foldedOver_push, Option.some_inj, Array.empty_append] at folded
    subst folded
    refine ⟨visits, u, last, visited, ?_⟩
    rcases ends.of_yields fun value => ⟨_, rfl⟩ with ⟨atEnd, collected⟩ | interrupts
    · exact .inl ⟨atEnd, bind_of_ok collected newBlock⟩
    · exact .inr (interrupts.bind newBlock)
  case allOf =>
    rw [allOf_eq_fold taken]
    obtain ⟨visits, u, last, acc, visited, folded, ends⟩ := fold_visits block _ _ s
    obtain ⟨truthy, rfl⟩ := foldedOver_allOf folded
    refine ⟨visits, u, last, visited, truthy, ?_⟩
    rcases ends.tail_or_done with tail | ⟨v, next, t, result, evaluated, enough, same⟩ | interrupts
    · exact .inl tail
    · by_cases holds : v.isTruthy = true
      · rw [if_pos holds] at enough
        cases enough
      · rw [if_neg holds] at enough
        cases enough
        exact .inr (.inl ⟨v, next, t, evaluated, Bool.eq_false_iff.mpr holds, same⟩)
    · exact .inr (.inr interrupts)
  case anyOf =>
    rw [anyOf_eq_fold taken]
    obtain ⟨visits, u, last, acc, visited, folded, ends⟩ := fold_visits block _ _ s
    obtain ⟨falsy, rfl⟩ := foldedOver_anyOf folded
    refine ⟨visits, u, last, visited, falsy, ?_⟩
    rcases ends.tail_or_done with tail | ⟨v, next, t, result, evaluated, enough, same⟩ | interrupts
    · exact .inl tail
    · by_cases holds : (v.isTruthy && !v.isUnset) = true
      · rw [if_pos holds] at enough
        cases enough
        exact .inr (.inl ⟨v, next, t, evaluated, holds, same⟩)
      · rw [if_neg holds] at enough
        cases enough
    · exact .inr (.inr interrupts)
  case caseOf =>
    rw [Conditionals.caseOf, taken]
    exact casePairs_visits (args.refined 1) (args.refined 2) (evaluator fuel).fuel block.index
      .none s

def truncated : State where
  heap :=
    { blocks := #[{ data := #[.word .word "none?", .integer 1, .word .setWord "a"] },
        { data := #[.word .setWord "b", .integer 1, .word .word "+"] }]
      frames := #[.ofFields [("none?", .function (.native .isNone)),
        ("+", .function (.native (.operator .add)))]] }
  env := { root := 0 }

theorem evaluation_progresses_truncated :
    NeverShortens 0 (fun ev => ev.next ⟨0, 0⟩ 0) 3 truncated ∧
      (evaluator 3).next ⟨0, 0⟩ 0 truncated = .ok (some (.logic false, 2)) truncated ∧
      2 ≤ (truncated.heap.items 0).size ∧
      (evaluator 4).next ⟨0, 0⟩ 2 truncated =
        .error (.raised { cause := .needValue "a" }) truncated ∧
      (evaluator 4).next ⟨1, 0⟩ 0 truncated =
        .error (.raised { cause := .noArg "+" "value2" }) truncated := by
  have progresses : Progress 3 truncated := evaluation_progresses 3 truncated
  have value : (evaluator 3).next ⟨0, 0⟩ 0 truncated =
      .ok (some (.logic false, 2)) truncated := by with_unfolding_all rfl
  have never : NeverShortens 0 (fun ev => ev.next ⟨0, 0⟩ 0) 3 truncated := by
    intro alarm
    refine Eq.trans ?_ value.symm
    with_unfolding_all rfl
  have assigned : CutShort ⟨0, 0⟩ 3 (.expression 2) truncated (.needValue "a") truncated := by
    have here : truncated.heap.item? ⟨0, 0⟩ 2 = some (.word .setWord "a") := rfl
    exact .first here (.setWord (.noValue (by decide)))
  have added : CutShort ⟨1, 0⟩ 3 (.expression 0) truncated (.noArg "+" "value2") truncated := by
    have here : truncated.heap.item? ⟨1, 0⟩ 0 = some (.word .setWord "b") := rfl
    have one : truncated.heap.item? ⟨1, 0⟩ 1 = some (.integer 1) := rfl
    have operator : truncated.operatorAt? ⟨1, 0⟩ 2 =
        some ("+", .native (.operator .add)) := by with_unfolding_all rfl
    have operand : CutShort ⟨1, 0⟩ 2 (.expression 1) truncated (.noArg "+" "value2") truncated :=
      .behind one rfl (.noOperand operator (by decide))
    exact .first here (.setWord (.value operand))
  exact ⟨never, value, progresses.within ⟨0, 0⟩ 0 2 _ _ never value,
    (progresses.cutShort _ _ _ _ assigned).1, (progresses.cutShort _ _ _ _ added).1⟩

end BlockScript
