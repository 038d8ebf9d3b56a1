import BlockScript.Proofs.Sites
import Mathlib.Data.List.TakeWhile

/-!
# Gathering arguments

A call takes its arguments from the items after it, in the order of the call, and puts each in the
place of its parameter, in the order of the declaration. Here all items are integers, so that each
argument takes one. The fixed parameters come first, then those of each refinement that is named.
The first parameter without an integer, or the first segment that is not a refinement not yet named,
is the error of the call; the function is then not run.
-/

namespace BlockScript

variable {s : State} {block : BlockRef} {position fuel : Nat} {f : Function} {args : Args}
  {lead ns more : List Int64} {name function : String} {slot : Nat}

/-! ## Places -/

def numbered (first : Nat) (params : List Param) : List (Nat × Param) :=
  (params.zipIdx first).map fun (p, slot) => (slot, p)

theorem numbered_cons (first : Nat) (p : Param) (ps : List Param) :
    numbered first (p :: ps) = (first, p) :: numbered (first + 1) ps := by
  rw [numbered, List.zipIdx_cons, List.map_cons, numbered]

namespace Function

def paramsFrom (f : Function) (position : Nat) : List Param :=
  (f.params.drop position).takeWhile (·.kind != .refinement)

theorem fixedArity_eq (f : Function) : f.fixedArity = (f.paramsFrom 0).length := rfl

theorem refinementParams_eq (f : Function) (slot : Nat) :
    f.refinementParams slot = numbered (slot + 1) (f.paramsFrom (slot + 1)) := rfl

theorem end_le_arity {first : Nat} (le : first ≤ f.arity) :
    first + (f.paramsFrom first).length ≤ f.arity := by
  have shorter : (f.paramsFrom first).length ≤ (f.params.drop first).length :=
    (List.takeWhile_prefix _).length_le
  rw [List.length_drop] at shorter
  have : f.arity = f.params.length := rfl
  omega

def Declares (f : Function) (name : String) (slot : Nat) : Prop :=
  f.params[slot]? = some ⟨name, .refinement⟩

theorem Declares.lt_arity (declared : f.Declares name slot) : slot < f.arity :=
  (List.getElem?_eq_some_iff.mp declared).1

theorem Declares.unique {name' : String} (declared : f.Declares name slot)
    (declared' : f.Declares name' slot) : name = name' := by
  have same := Option.some_inj.mp (declared.symm.trans declared')
  exact congrArg Param.name same

/-- Parameters up to the next refinement do not reach beyond it. -/
theorem Declares.end_le (declared : f.Declares name slot) {first : Nat} (le : first ≤ slot) :
    first + (f.paramsFrom first).length ≤ slot := by
  by_contra beyond
  have inside : slot - first < (f.paramsFrom first).length := by omega
  have here : (f.params.drop first)[slot - first]? = some (f.paramsFrom first)[slot - first] :=
    List.prefix_iff_getElem?.mp (List.takeWhile_prefix _) _ inside
  rw [List.getElem?_drop, Nat.add_sub_cancel' le, declared, Option.some_inj] at here
  have kept := List.mem_takeWhile_imp (List.getElem_mem inside)
  rw [← here] at kept
  exact Bool.false_ne_true kept

/-- With no name twice, a refinement is found where it is declared. -/
theorem refinement?_eq_some_iff (distinct : (f.params.map (·.name)).Nodup) :
    f.refinement? name = some slot ↔ f.Declares name slot := by
  unfold refinement? Declares
  rw [List.findIdx?_eq_some_iff_getElem, List.getElem?_eq_some_iff]
  constructor
  · rintro ⟨lt, here, -⟩
    simp only [Bool.and_eq_true, beq_iff_eq] at here
    refine ⟨lt, ?_⟩
    rw [← here.1, ← here.2]
  · rintro ⟨lt, here⟩
    refine ⟨lt, by rw [here]; simp, fun j before => ?_⟩
    have names : (f.params.map (·.name))[j]? ≠ (f.params.map (·.name))[slot]? := by
      intro same
      have lt' : j < (f.params.map (·.name)).length := by rw [List.length_map]; omega
      exact before.ne ((List.getElem?_inj lt' distinct).mp same)
    rw [List.getElem?_map, List.getElem?_map, List.getElem?_eq_getElem (before.trans lt),
      List.getElem?_eq_getElem lt, here] at names
    simp only [Option.map_some, ne_eq, Option.some_inj] at names
    simp [names]

end Function

/-! ## Filled places -/

def Args.fill (args : Args) (first : Nat) : List Int64 → Args
  | [] => args
  | n :: ns => fill (args.setIfInBounds first (.integer n)) (first + 1) ns

namespace Args

@[simp] theorem size_fill (args : Args) (first : Nat) (ns : List Int64) :
    (args.fill first ns).size = args.size := by
  induction ns generalizing args first with
  | nil => rfl
  | cons n ns ih => rw [fill, ih, Array.size_setIfInBounds]

theorem getElem?_fill_outside {first i : Nat} (outside : i < first ∨ first + ns.length ≤ i) :
    (args.fill first ns)[i]? = args[i]? := by
  induction ns generalizing args first with
  | nil => rfl
  | cons n ns ih =>
    rw [List.length_cons] at outside
    rw [fill, ih (by omega), Array.getElem?_setIfInBounds_ne (by omega)]

theorem getElem?_fill {first i : Nat} {n : Int64} (fits : first + ns.length ≤ args.size)
    (here : ns[i]? = some n) : (args.fill first ns)[first + i]? = some (.integer n) := by
  induction ns generalizing args first i with
  | nil => cases here
  | cons m ns ih =>
    rw [List.length_cons] at fits
    rw [fill]
    cases i with
    | zero =>
      rw [List.getElem?_cons_zero, Option.some_inj] at here
      rw [getElem?_fill_outside (by omega), Nat.add_zero,
        Array.getElem?_setIfInBounds_self_of_lt (by omega), here]
    | succ i =>
      rw [List.getElem?_cons_succ] at here
      have fits' : first + 1 + ns.length ≤ (args.setIfInBounds first (.integer m)).size := by
        rw [Array.size_setIfInBounds]
        omega
      rw [Nat.add_left_comm, Nat.add_comm i]
      exact ih fits' here

end Args

/-! ## Uses of refinements -/

structure Use where
  name : String
  slot : Nat
  values : List Int64

namespace Use

def segment (use : Use) : Segment := .name use.name

def Covers (use : Use) (i : Nat) : Prop := use.slot ≤ i ∧ i ≤ use.slot + use.values.length

end Use

/-- The integers of a call, in its order: those for the fixed parameters lead. -/
def integersOf (lead : List Int64) (uses : List Use) : List Int64 :=
  lead ++ uses.flatMap (·.values)

def Args.withUse (args : Args) (use : Use) : Args :=
  Args.fill (args.setIfInBounds use.slot (.logic true)) (use.slot + 1) use.values

theorem Args.size_withUse (args : Args) (use : Use) : (args.withUse use).size = args.size := by
  rw [withUse, size_fill, Array.size_setIfInBounds]

theorem Args.getElem?_withUse {use : Use} {i : Nat} (outside : ¬ use.Covers i) :
    (args.withUse use)[i]? = args[i]? := by
  unfold Use.Covers at outside
  rw [withUse, getElem?_fill_outside (by omega), Array.getElem?_setIfInBounds_ne (by omega)]

namespace Function

structure Fits (f : Function) (use : Use) : Prop where
  declared : f.Declares use.name use.slot
  complete : use.values.length = (f.paramsFrom (use.slot + 1)).length

/-- Refinements and their parameters are in no place of another refinement. -/
theorem Fits.disjoint {use other : Use} (fits : f.Fits use) (fits' : f.Fits other)
    (apart : other.slot ≠ use.slot) {i : Nat} (covers : other.Covers i) : ¬ use.Covers i := by
  rintro ⟨first, last⟩
  obtain ⟨first', last'⟩ := covers
  have complete := fits.complete
  have complete' := fits'.complete
  rcases apart.lt_or_gt with before | after
  · have : other.slot + 1 + (f.paramsFrom (other.slot + 1)).length ≤ use.slot :=
      fits.declared.end_le before
    omega
  · have : use.slot + 1 + (f.paramsFrom (use.slot + 1)).length ≤ other.slot :=
      fits'.declared.end_le after
    omega

/-- Nothing is missing and no refinement is named twice. -/
structure Serves (f : Function) (lead : List Int64) (uses : List Use) : Prop where
  lead : lead.length = f.fixedArity
  fits : ∀ use ∈ uses, f.Fits use
  distinct : (uses.map (·.name)).Nodup

theorem Serves.of_append {done behind : List Use} (serves : f.Serves lead (done ++ behind)) :
    f.Serves lead done := by
  have distinct := serves.distinct
  rw [List.map_append, List.nodup_append] at distinct
  exact ⟨serves.lead, fun use used => serves.fits use (List.mem_append_left _ used), distinct.1⟩

/-- The last use is of another refinement than all before it. -/
theorem Serves.apart {done : List Use} {use other : Use} (serves : f.Serves lead (done ++ [use]))
    (used : other ∈ done) : other.slot ≠ use.slot := by
  intro same
  have declared : f.Declares other.name other.slot := (serves.fits other (by simp [used])).declared
  rw [same] at declared
  have name : other.name = use.name := declared.unique (serves.fits use (by simp)).declared
  have distinct := serves.distinct
  rw [List.map_append, List.nodup_append] at distinct
  exact distinct.2.2 other.name (List.mem_map_of_mem used) use.name (by simp) name

/-- Every argument is in its place: the integers for the fixed parameters, true for each refinement
used, the integers of each use behind it, and none everywhere else. -/
structure Filled (f : Function) (lead : List Int64) (uses : List Use) (args : Args) : Prop where
  size : args.size = f.arity
  lead {i : Nat} {n : Int64} : lead[i]? = some n → args[i]? = some (.integer n)
  used {use : Use} : use ∈ uses → args[use.slot]? = some (.logic true)
  own {use : Use} {i : Nat} {n : Int64} :
    use ∈ uses → use.values[i]? = some n → args[use.slot + 1 + i]? = some (.integer n)
  unused {i : Nat} : i < f.arity → f.fixedArity ≤ i → (∀ use ∈ uses, ¬ use.Covers i) →
    args[i]? = some .none

/-- The places decide the arguments, whatever the order of the uses. -/
theorem Filled.unique {uses uses' : List Use} {args' : Args} (filled : f.Filled lead uses args)
    (filled' : f.Filled lead uses' args') (enough : lead.length = f.fixedArity)
    (same : uses.Perm uses') : args = args' := by
  refine Array.ext_getElem? fun i => ?_
  by_cases early : i < lead.length
  · have here : lead[i]? = some lead[i] := List.getElem?_eq_getElem early
    rw [filled.lead here, filled'.lead here]
  by_cases covered : ∃ use ∈ uses, use.Covers i
  · obtain ⟨use, used, first, last⟩ := covered
    have used' : use ∈ uses' := same.mem_iff.mp used
    rcases first.eq_or_lt with rfl | behind
    · rw [filled.used used, filled'.used used']
    · obtain ⟨k, rfl⟩ : ∃ k, i = use.slot + 1 + k := ⟨i - (use.slot + 1), by omega⟩
      have here : use.values[k]? = some use.values[k] := List.getElem?_eq_getElem (by omega)
      rw [filled.own used here, filled'.own used' here]
  have free (use : Use) (used : use ∈ uses) : ¬ use.Covers i :=
    fun covers => covered ⟨use, used, covers⟩
  by_cases inside : i < f.arity
  · rw [filled.unused inside (by omega) free,
      filled'.unused inside (by omega) fun use used => free use (same.mem_iff.mpr used)]
  · rw [Array.getElem?_eq_none (by rw [filled.size]; omega),
      Array.getElem?_eq_none (by rw [filled'.size]; omega)]

theorem Filled.start (enough : lead.length = f.fixedArity) :
    f.Filled lead [] (Args.fill (Array.replicate f.arity .none) 0 lead) := by
  have fits : 0 + lead.length ≤ (Array.replicate f.arity Value.none).size := by
    rw [Array.size_replicate, enough, fixedArity_eq]
    exact f.end_le_arity (Nat.zero_le _)
  refine
    { size := by rw [Args.size_fill, Array.size_replicate]
      lead := fun {i n} here => ?_
      used := fun used => nomatch used
      own := fun used => nomatch used
      unused := fun {i} inside late _ => ?_ }
  · rw [← Nat.zero_add i, Args.getElem?_fill fits here]
  · rw [Args.getElem?_fill_outside (by omega), Array.getElem?_replicate, if_pos inside]

theorem Filled.withUse {done : List Use} {use : Use} (filled : f.Filled lead done args)
    (serves : f.Serves lead (done ++ [use])) :
    f.Filled lead (done ++ [use]) (args.withUse use) := by
  have fits : f.Fits use := serves.fits use (by simp)
  have kept {other : Use} (used : other ∈ done) {i : Nat} (covers : other.Covers i) :
      (args.withUse use)[i]? = args[i]? :=
    Args.getElem?_withUse
      (fits.disjoint (serves.fits other (by simp [used])) (serves.apart used) covers)
  have early : lead.length ≤ use.slot := by
    rw [serves.lead, fixedArity_eq]
    simpa using fits.declared.end_le (Nat.zero_le _)
  have inside : use.slot + 1 + use.values.length ≤ args.size := by
    rw [filled.size, fits.complete]
    exact f.end_le_arity fits.declared.lt_arity
  refine
    { size := by rw [Args.size_withUse, filled.size]
      lead := fun {i n} here => ?_
      used := fun {other} used => ?_
      own := fun {other i n} used here => ?_
      unused := fun {i} within late free => ?_ }
  · have before := (List.getElem?_eq_some_iff.mp here).1
    rw [Args.getElem?_withUse fun covers => by have := covers.1; omega, filled.lead here]
  · rcases List.mem_append.mp used with used | last
    · rw [kept used ⟨le_rfl, Nat.le_add_right _ _⟩, filled.used used]
    · obtain rfl := List.mem_singleton.mp last
      rw [Args.withUse, Args.getElem?_fill_outside (by omega),
        Array.getElem?_setIfInBounds_self_of_lt (by omega)]
  · have before := (List.getElem?_eq_some_iff.mp here).1
    rcases List.mem_append.mp used with used | last
    · rw [kept used ⟨by omega, by omega⟩, filled.own used here]
    · obtain rfl := List.mem_singleton.mp last
      exact Args.getElem?_fill (by rw [Array.size_setIfInBounds]; omega) here
  · rw [Args.getElem?_withUse (free use (by simp))]
    exact filled.unused within late fun other used => free other (by simp [used])

end Function

/-! ## Problems -/

namespace Function

/-- The first problem of a call with some segments and some integers, going through the fixed
parameters and then the segments in order, and the error for it. -/
inductive Problem (f : Function) (function : String) : List Segment → List Int64 → Cause → Prop
  /-- A fixed parameter finds no integer left. -/
  | fixed {segments : List Segment} {ns : List Int64} {p : Param}
      (short : (f.paramsFrom 0)[ns.length]? = some p) :
      Problem f function segments ns (.noArg function p.name)
  /-- A segment names no refinement. -/
  | unknown {lead more : List Int64} {uses : List Use} {segment : Segment}
      {segments : List Segment} (serves : f.Serves lead uses)
      (unknown : ∀ name slot, segment = .name name → ¬ f.Declares name slot) :
      Problem f function (uses.map Use.segment ++ segment :: segments)
        (integersOf lead uses ++ more) (.invalidPath function segment.mold)
  /-- A segment names a refinement that was named before. -/
  | repeated {lead more : List Int64} {uses : List Use} {segment : Segment}
      {segments : List Segment} (serves : f.Serves lead uses)
      (again : segment ∈ uses.map Use.segment) :
      Problem f function (uses.map Use.segment ++ segment :: segments)
        (integersOf lead uses ++ more) .badRefines
  /-- A parameter of a refinement finds no integer left. -/
  | own {lead ns : List Int64} {uses : List Use} {name : String} {slot : Nat}
      {segments : List Segment} {p : Param} (serves : f.Serves lead uses)
      (declared : f.Declares name slot) (fresh : name ∉ uses.map (·.name))
      (short : (f.paramsFrom (slot + 1))[ns.length]? = some p) :
      Problem f function (uses.map Use.segment ++ .name name :: segments)
        (integersOf lead uses ++ ns) (.noArg function p.name)

theorem Problem.append {segments : List Segment} {cause : Cause}
    (problem : f.Problem function segments ns cause) (behind : List Segment) :
    f.Problem function (segments ++ behind) ns cause := by
  cases problem with
  | fixed short => exact .fixed short
  | unknown serves unknown =>
    rw [List.append_assoc]
    exact .unknown serves unknown
  | repeated serves again =>
    rw [List.append_assoc]
    exact .repeated serves again
  | own serves declared fresh short =>
    rw [List.append_assoc]
    exact .own serves declared fresh short

theorem Serves.snoc {uses : List Use} {use : Use} (serves : f.Serves lead uses) (fits : f.Fits use)
    (fresh : use.name ∉ uses.map (·.name)) : f.Serves lead (uses ++ [use]) := by
  refine ⟨serves.lead, fun other used => ?_, ?_⟩
  · rcases List.mem_append.mp used with used | last
    · exact serves.fits other used
    · exact List.mem_singleton.mp last ▸ fits
  · rw [List.map_append, List.nodup_append]
    refine ⟨serves.distinct, by simp, fun name used name' last same => fresh ?_⟩
    rw [List.map_singleton, List.mem_singleton] at last
    rwa [← last, ← same]

/-- A call is served, or it has a first problem. -/
theorem serves_or_problem (f : Function) (function : String) (segments : List Segment)
    (ns : List Int64) :
    (∃ lead uses more, f.Serves lead uses ∧ segments = uses.map Use.segment ∧
      ns = integersOf lead uses ++ more) ∨ ∃ cause, f.Problem function segments ns cause := by
  induction segments using List.reverseRecOn with
  | nil =>
    by_cases short : ns.length < (f.paramsFrom 0).length
    · exact .inr ⟨_, .fixed (List.getElem?_eq_getElem short)⟩
    · refine .inl ⟨ns.take f.fixedArity, [], ns.drop f.fixedArity, ⟨?_, by simp, by simp⟩, rfl, ?_⟩
      · rw [List.length_take, fixedArity_eq]
        omega
      · rw [integersOf, List.flatMap_nil, List.append_nil, List.take_append_drop]
  | append_singleton segments segment ih =>
    rcases ih with ⟨lead, uses, more, serves, rfl, rfl⟩ | ⟨cause, problem⟩
    · by_cases known : ∃ name slot, segment = .name name ∧ f.Declares name slot
      · obtain ⟨name, slot, rfl, declared⟩ := known
        by_cases fresh : name ∈ uses.map (·.name)
        · obtain ⟨use, used, rfl⟩ := List.mem_map.mp fresh
          exact .inr ⟨_, .repeated serves (List.mem_map_of_mem used)⟩
        by_cases short : more.length < (f.paramsFrom (slot + 1)).length
        · exact .inr ⟨_, .own serves declared fresh (List.getElem?_eq_getElem short)⟩
        · let own := (f.paramsFrom (slot + 1)).length
          have fits : f.Fits ⟨name, slot, more.take own⟩ := by
            refine ⟨declared, ?_⟩
            rw [List.length_take, Nat.min_eq_left (not_lt.mp short)]
          refine .inl ⟨lead, _, more.drop own, serves.snoc fits fresh, by simp [Use.segment], ?_⟩
          simp [integersOf]
      · refine .inr ⟨_, .unknown serves fun name slot same declared => ?_⟩
        exact known ⟨name, slot, same, declared⟩
    · exact .inr ⟨cause, problem.append [segment]⟩

end Function

/-! ## Arguments from integers -/

def evaluatorInvoking (invoke : String → Function → Args → EvalM Value) (fuel : Nat) : Evaluator :=
  { evaluator fuel with invoke }

theorem integers_behind
    (ends : s.heap.EndsWith block position ((ns ++ more).map Value.integer)) :
    s.heap.EndsWith block (position + ns.length) (more.map Value.integer) := by
  rw [List.map_append] at ends
  simpa using ends.drop

section Integers

variable (invoke : String → Function → Args → EvalM Value) (fuel : Nat) (function)

theorem gatherArg_integer (param : Param) {n : Int64}
    (ends : s.heap.EndsWith block position ((n :: ns).map Value.integer)) :
    gatherArg (evaluatorInvoking invoke (fuel + 2)) function param block position s =
      .ok (.integer n, position + 1) s := by
  have here : s.heap.item? block position = some (.integer n) := ends.item?
  have next : (evaluator (fuel + 2)).next block position s =
      .ok (some (.integer n, position + 1)) s := by
    refine next_literal fuel (Value.isLiteral_integer n) here ?_
    cases ns with
    | nil => exact State.operatorAt?_tail ends.tail.item?
    | cons m ns => exact State.operatorAt?_literal (Value.isLiteral_integer m) ends.tail.item?
  unfold gatherArg
  cases param.kind with
  | literal => exact (bind_of_ok (m := getHeap) (a := s.heap) rfl _).trans (by rw [here]; rfl)
  | get => exact (bind_of_ok (m := getHeap) (a := s.heap) rfl _).trans (by rw [here]; rfl)
  | _ => exact bind_of_ok next _

theorem gatherParams_cons (ev : Evaluator) (first : Nat) (p : Param) (ps : List Param) {v : Value}
    {next : Nat} (here : gatherArg ev function p block position s = .ok (v, next) s) :
    gatherParams ev function block ⟨args, position⟩ (numbered first (p :: ps)) s =
      gatherParams ev function block ⟨args.setIfInBounds first v, next⟩
        (numbered (first + 1) ps) s := by
  rw [numbered_cons]
  exact gatherParams_step _ here

theorem gatherParams_enough {ps : List Param} {first : Nat} (enough : ns.length = ps.length)
    (ends : s.heap.EndsWith block position ((ns ++ more).map Value.integer)) :
    gatherParams (evaluatorInvoking invoke (fuel + 2)) function block ⟨args, position⟩
      (numbered first ps) s = .ok ⟨args.fill first ns, position + ns.length⟩ s := by
  induction ns generalizing ps first args position with
  | nil =>
    obtain rfl := List.length_eq_zero_iff.mp enough.symm
    rfl
  | cons n ns ih =>
    obtain _ | ⟨p, ps⟩ := ps
    · cases enough
    rw [gatherParams_cons function _ first p ps (gatherArg_integer function invoke fuel p ends),
      ih (Nat.succ.inj enough) ends.tail, List.length_cons, Nat.add_right_comm, Nat.add_assoc]
    rfl

/-- The first parameter that finds no integer is missed. -/
theorem gatherParams_short {ps : List Param} {first : Nat} {p : Param}
    (short : ps[ns.length]? = some p)
    (ends : s.heap.EndsWith block position (ns.map Value.integer)) :
    gatherParams (evaluatorInvoking invoke (fuel + 2)) function block ⟨args, position⟩
      (numbered first ps) s = .error (.raised { cause := .noArg function p.name }) s := by
  induction ns generalizing ps first args position with
  | nil =>
    obtain _ | ⟨q, ps⟩ := ps
    · cases short
    rw [List.length_nil, List.getElem?_cons_zero, Option.some_inj] at short
    subst short
    have missed : gatherArg (evaluatorInvoking invoke (fuel + 2)) function q block position s =
        .error (.raised { cause := .noArg function q.name }) s :=
      gatherArg_tail q ends.item? (next_tail (fuel + 1) ends.item?)
    rw [numbered_cons, gatherParams, List.foldlM_cons]
    exact bind_of_error (bind_of_error missed _) _
  | cons n ns ih =>
    obtain _ | ⟨q, ps⟩ := ps
    · cases short
    rw [List.length_cons, List.getElem?_cons_succ] at short
    rw [gatherParams_cons function _ first q ps (gatherArg_integer function invoke fuel q ends)]
    exact ih short ends.tail

/-! ## Refinements -/

theorem gatherRefinements_use {use : Use} {named : List Nat} {segments : List Segment}
    (found : f.refinement? use.name = some use.slot) (fresh : use.slot ∉ named)
    (complete : use.values.length = (f.paramsFrom (use.slot + 1)).length)
    (ends : s.heap.EndsWith block position ((use.values ++ more).map Value.integer)) :
    gatherRefinements (evaluatorInvoking invoke (fuel + 2)) function f block named
        (use.segment :: segments) ⟨args, position⟩ s =
      gatherRefinements (evaluatorInvoking invoke (fuel + 2)) function f block (use.slot :: named)
        segments ⟨args.withUse use, position + use.values.length⟩ s := by
  have slot : use.segment.name?.bind f.refinement? = some use.slot := found
  rw [gatherRefinements, slot]
  dsimp only
  rw [if_neg (by simpa using fresh), Function.refinementParams_eq]
  exact bind_of_ok (gatherParams_enough function invoke fuel complete ends) _

theorem gatherRefinements_unknown {segment : Segment} {named : List Nat} {segments : List Segment}
    (unknown : segment.name?.bind f.refinement? = none) (ev : Evaluator) (gathered : Gathered) :
    gatherRefinements ev function f block named (segment :: segments) gathered s =
      .error (.raised { cause := .invalidPath function segment.mold }) s := by
  rw [gatherRefinements, unknown]
  rfl

theorem gatherRefinements_repeated {segment : Segment} {named : List Nat}
    {segments : List Segment} (found : segment.name?.bind f.refinement? = some slot)
    (again : slot ∈ named) (ev : Evaluator) (gathered : Gathered) :
    gatherRefinements ev function f block named (segment :: segments) gathered s =
      .error (.raised { cause := .badRefines }) s := by
  rw [gatherRefinements, found]
  dsimp only
  rw [if_pos (by simpa using again)]
  rfl

theorem gatherRefinements_short {segment : Segment} {named : List Nat} {segments : List Segment}
    {p : Param} (found : segment.name?.bind f.refinement? = some slot) (fresh : slot ∉ named)
    (short : (f.paramsFrom (slot + 1))[ns.length]? = some p)
    (ends : s.heap.EndsWith block position (ns.map Value.integer)) :
    gatherRefinements (evaluatorInvoking invoke (fuel + 2)) function f block named
        (segment :: segments) ⟨args, position⟩ s =
      .error (.raised { cause := .noArg function p.name }) s := by
  rw [gatherRefinements, found]
  dsimp only
  rw [if_neg (by simpa using fresh), Function.refinementParams_eq]
  exact bind_of_error (gatherParams_short function invoke fuel short ends) _

/-- Uses that are served leave the arguments filled, and the segments after them to be gathered. -/
theorem gatherRefinements_serves (distinct : (f.params.map (·.name)).Nodup) {done uses : List Use}
    (serves : f.Serves lead (done ++ uses)) (filled : f.Filled lead done args)
    (ends : s.heap.EndsWith block position
      ((uses.flatMap (·.values) ++ more).map Value.integer)) :
    ∃ args', f.Filled lead (done ++ uses) args' ∧ ∀ segments,
      gatherRefinements (evaluatorInvoking invoke (fuel + 2)) function f block
          (done.map (·.slot)).reverse (uses.map Use.segment ++ segments) ⟨args, position⟩ s =
        gatherRefinements (evaluatorInvoking invoke (fuel + 2)) function f block
          ((done ++ uses).map (·.slot)).reverse segments
          ⟨args', position + (uses.flatMap (·.values)).length⟩ s := by
  induction uses generalizing done args position with
  | nil =>
    rw [List.append_nil]
    exact ⟨args, filled, fun segments => rfl⟩
  | cons use uses ih =>
    rw [List.append_cons] at serves ⊢
    have soFar : f.Serves lead (done ++ [use]) := serves.of_append
    have fits : f.Fits use := soFar.fits use (by simp)
    have fresh : use.slot ∉ (done.map (·.slot)).reverse := by
      simp only [List.mem_reverse, List.mem_map, not_exists, not_and]
      exact fun other used => soFar.apart used
    rw [List.flatMap_cons, List.append_assoc] at ends
    obtain ⟨args', filled', rest⟩ :=
      ih serves (filled.withUse soFar) (integers_behind ends)
    refine ⟨args', filled', fun segments => ?_⟩
    have found := (Function.refinement?_eq_some_iff distinct).mpr fits.declared
    rw [List.map_append, List.reverse_append] at rest
    rw [List.map_cons, List.cons_append,
      gatherRefinements_use function invoke fuel found fresh fits.complete ends,
      List.flatMap_cons, List.length_append, ← Nat.add_assoc]
    simpa using rest segments

/-! ## Calls -/

/-- A call with uses that are served goes on with the segments after them. -/
theorem call_serves (distinct : (f.params.map (·.name)).Nodup) {uses : List Use}
    (serves : f.Serves lead uses)
    (ends : s.heap.EndsWith block position ((integersOf lead uses ++ more).map Value.integer)) :
    ∃ args, f.Filled lead uses args ∧ ∀ segments,
      call (evaluatorInvoking invoke (fuel + 2)) function f (uses.map Use.segment ++ segments) block
          position s =
        (gatherRefinements (evaluatorInvoking invoke (fuel + 2)) function f block
            (uses.map (·.slot)).reverse segments
            ⟨args, position + (integersOf lead uses).length⟩ >>= fun gathered => do
          return (← invoke function f gathered.args, gathered.position)) s := by
  rw [integersOf, List.append_assoc] at ends
  have fixed : gatherParams (evaluatorInvoking invoke (fuel + 2)) function block
      ⟨Array.replicate f.arity .none, position⟩ f.fixedParams s =
        .ok ⟨Args.fill (Array.replicate f.arity .none) 0 lead, position + lead.length⟩ s :=
    gatherParams_enough function invoke fuel (serves.lead.trans f.fixedArity_eq) ends
  obtain ⟨args, filled, rest⟩ : ∃ args, f.Filled lead ([] ++ uses) args ∧ _ :=
    gatherRefinements_serves function invoke fuel distinct serves (.start serves.lead)
      (integers_behind ends)
  refine ⟨args, filled, fun segments => ?_⟩
  rw [call, integersOf, List.length_append, ← Nat.add_assoc]
  refine (bind_of_ok fixed _).trans ?_
  simp only [Bind.bind, EStateM.bind]
  rw [show gatherRefinements _ function f block [] _ _ s = _ from rest segments]
  rfl

/-- The error of a call is its first problem, and nothing else happens. -/
theorem call_problem (distinct : (f.params.map (·.name)).Nodup) {segments : List Segment}
    {cause : Cause} (problem : f.Problem function segments ns cause)
    (ends : s.heap.EndsWith block position (ns.map Value.integer)) :
    call (evaluatorInvoking invoke (fuel + 2)) function f segments block position s =
      .error (.raised { cause }) s := by
  have resolved (segment : Segment) (slot : Nat) :
      segment.name?.bind f.refinement? = some slot ↔
        ∃ name, segment = .name name ∧ f.Declares name slot := by
    cases segment with
    | name name =>
      refine (Function.refinement?_eq_some_iff distinct).trans ?_
      simp
    | index n => simp [Segment.name?]
  cases problem with
  | fixed short => exact bind_of_error (gatherParams_short function invoke fuel short ends) _
  | @unknown lead more uses segment segments serves unknown =>
    obtain ⟨args, -, run⟩ := call_serves function invoke fuel distinct serves ends
    refine (run _).trans (bind_of_error (gatherRefinements_unknown function ?_ _ _) _)
    refine Option.eq_none_iff_forall_ne_some.mpr fun slot found => ?_
    obtain ⟨name, same, declared⟩ := (resolved segment slot).mp found
    exact unknown name slot same declared
  | @repeated lead more uses segment segments serves again =>
    obtain ⟨args, -, run⟩ := call_serves function invoke fuel distinct serves ends
    obtain ⟨use, used, rfl⟩ := List.mem_map.mp again
    have found := (resolved use.segment use.slot).mpr
      ⟨use.name, rfl, (serves.fits use used).declared⟩
    refine (run _).trans (bind_of_error (gatherRefinements_repeated function found ?_ _ _) _)
    simpa using ⟨use, used, rfl⟩
  | @own lead ns uses name slot segments p serves declared fresh short =>
    obtain ⟨args, -, run⟩ := call_serves function invoke fuel distinct serves ends
    have found := (resolved (.name name) slot).mpr ⟨name, rfl, declared⟩
    have unnamed : slot ∉ (uses.map (·.slot)).reverse := by
      simp only [List.mem_reverse, List.mem_map, not_exists, not_and]
      rintro use used rfl
      have same := declared.unique (serves.fits use used).declared
      exact fresh (List.mem_map.mpr ⟨use, used, same.symm⟩)
    exact (run _).trans (bind_of_error
      (gatherRefinements_short function invoke fuel found unnamed short (integers_behind ends)) _)

end Integers

/-! ## Places as a whole -/

/-- What becomes of the integers behind a function, whatever running the function does. They may be
followed by integers that nothing takes. -/
structure FillsPlaces (f : Function) (function : String) (fuel : Nat) : Prop where
  /-- A word that is bound to the function calls it, and so does a path that begins with the word;
  the other segments are those of the call. -/
  calls (ev : Evaluator) (segments : List Segment) (block : BlockRef) (position : Nat) (s : State) :
    s.env.lookup s.heap function = some (.function f) →
      term ev block position (.word .word function) s = call ev function f [] block position s ∧
        term ev block position (.path .path (.name function :: segments)) s =
          call ev function f segments block position s
  passes (lead more : List Int64) (uses : List Use) (block : BlockRef) (position : Nat)
      (s : State) : f.Serves lead uses →
    s.heap.EndsWith block position ((integersOf lead uses ++ more).map Value.integer) →
      ∃ args, f.Filled lead uses args ∧ ∀ invoke,
        call (evaluatorInvoking invoke (fuel + 2)) function f (uses.map Use.segment) block position
            s =
          (do return (← invoke function f args, position + (integersOf lead uses).length)) s
  /-- The order of the refinements does not matter. -/
  permutes (lead : List Int64) (uses uses' : List Use) : f.Serves lead uses → uses.Perm uses' →
    f.Serves lead uses' ∧ ∀ args args' : Args,
      f.Filled lead uses args → f.Filled lead uses' args' → args = args'
  /-- The function is not run and the state is left as it was. -/
  refuses (segments : List Segment) (ns : List Int64) (cause : Cause) (block : BlockRef)
      (position : Nat) (s : State) : f.Problem function segments ns cause →
    s.heap.EndsWith block position (ns.map Value.integer) → ∀ invoke,
      call (evaluatorInvoking invoke (fuel + 2)) function f segments block position s =
        .error (.raised { cause }) s
  complete (segments : List Segment) (ns : List Int64) :
    (∃ lead uses more, f.Serves lead uses ∧ segments = uses.map Use.segment ∧
      ns = integersOf lead uses ++ more) ∨ ∃ cause, f.Problem function segments ns cause

theorem fills_places (f : Function) (distinct : (f.params.map (·.name)).Nodup) (function : String)
    (fuel : Nat) : FillsPlaces f function fuel := by
  refine
    { calls := fun ev segments block position s bound =>
        ⟨term_function bound, term_function_path segments bound⟩
      passes := fun lead more uses block position s serves ends => ?passes
      permutes := fun lead uses uses' serves same => ?permutes
      refuses := fun segments ns cause block position s problem ends invoke =>
        call_problem function invoke fuel distinct problem ends
      complete := f.serves_or_problem function }
  case passes =>
    have ran (invoke : String → Function → Args → EvalM Value) :=
      call_serves function invoke fuel distinct serves ends
    obtain ⟨args, filled, -⟩ := ran (fun _ _ _ => pure .none)
    refine ⟨args, filled, fun invoke => ?_⟩
    obtain ⟨args', filled', run⟩ := ran invoke
    rw [filled.unique filled' serves.lead (.refl uses)]
    have whole := run []
    rw [List.append_nil] at whole
    exact whole
  case permutes =>
    have serves' : f.Serves lead uses' :=
      ⟨serves.lead, fun use used => serves.fits use (same.mem_iff.mpr used),
        (same.map (·.name)).nodup_iff.mp serves.distinct⟩
    exact ⟨serves', fun args args' filled filled' => filled.unique filled' serves.lead same⟩

def twoRefinements : Function :=
  .user 0 [⟨"a", .normal⟩, ⟨"r", .refinement⟩, ⟨"b", .normal⟩, ⟨"c", .literal⟩,
    ⟨"t", .refinement⟩, ⟨"d", .get⟩] ⟨1, 0⟩

def fourIntegers : State where
  heap := { blocks := #[{ data := #[.integer 1, .integer 2, .integer 3, .integer 4] }] }
  env := { root := 0 }

/-- The refinements are named in another order than they are declared. -/
theorem fills_places_twoRefinements :
    (twoRefinements.params.map (·.name)).Nodup ∧
      ∃ args, twoRefinements.Filled [1] [⟨"t", 4, [2]⟩, ⟨"r", 1, [3, 4]⟩] args ∧ ∀ invoke,
        call (evaluatorInvoking invoke 2) "f" twoRefinements [.name "t", .name "r"] ⟨0, 0⟩ 0
            fourIntegers =
          (do return (← invoke "f" twoRefinements args, 4)) fourIntegers := by
  have distinct : (twoRefinements.params.map (·.name)).Nodup := by decide
  have serves : twoRefinements.Serves [1] [⟨"t", 4, [2]⟩, ⟨"r", 1, [3, 4]⟩] := by
    refine ⟨rfl, fun use used => ?_, by decide⟩
    simp only [List.mem_cons, List.not_mem_nil, or_false] at used
    rcases used with rfl | rfl
    · exact ⟨rfl, rfl⟩
    · exact ⟨rfl, rfl⟩
  exact ⟨distinct,
    (fills_places twoRefinements distinct "f" 0).passes [1] [] _ ⟨0, 0⟩ 0 fourIntegers serves rfl⟩

end BlockScript
