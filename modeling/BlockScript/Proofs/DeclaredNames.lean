import BlockScript.Native.Evaluation
import Mathlib.Data.List.Induction
import Mathlib.Data.List.Nodup

/-!
# Names that are declared

The spec of a function declares its parameters, and the set-words in the body of an object declare
its fields. Both declare each name once.
-/

namespace BlockScript.Evaluation

variable {items : List Value} {item : Value} {names : List String} {name : String}

/-! ## Parameters -/

/-- No two parameters of a function's spec have one name. -/
theorem params_nodup {h : Heap} {found ps : List Param} (read : params h found items = .ok ps)
    (nodup : (found.map (·.name)).Nodup) : (ps.map (·.name)).Nodup := by
  induction items generalizing found with
  | nil =>
    rw [params] at read
    cases read
    rw [List.map_reverse, List.nodup_reverse]
    exact nodup
  | cons item items ih =>
    rw [params] at read
    split at read
    · next p _ =>
      split at read
      · cases read
      · next new =>
        refine ih read (List.nodup_cons.mpr ⟨fun member => new ?_, nodup⟩)
        obtain ⟨other, inside, same⟩ := List.mem_map.mp member
        exact List.any_eq_true.mpr ⟨other, inside, beq_iff_eq.mpr same⟩
    · split at read
      · exact ih read nodup
      · cases read

/-! ## Set-words -/

/-- The names are those of the set-words among the items, each once, in the order in which they
occur first. -/
structure NamesSetWords (items : List Value) (names : List String) : Prop where
  complete (name : String) : name ∈ names ↔ .word .setWord name ∈ items
  distinct : names.Nodup
  ordered : names.Pairwise fun name later => ∃ before behind,
    items = before ++ .word .setWord name :: behind ∧ .word .setWord later ∉ before

namespace NamesSetWords

/-- What comes behind does not change which names are first. -/
theorem ordered_append (named : NamesSetWords items names) (more : List Value) :
    names.Pairwise fun name later => ∃ before behind,
      items ++ more = before ++ .word .setWord name :: behind ∧
        .word .setWord later ∉ before := by
  refine named.ordered.imp fun ⟨before, behind, split, first⟩ => ⟨before, behind ++ more, ?_, first⟩
  rw [split, List.append_assoc, List.cons_append]

theorem concat_known (named : NamesSetWords items names)
    (known : ∀ name, item = .word .setWord name → name ∈ names) :
    NamesSetWords (items ++ [item]) names where
  complete name := by
    rw [List.mem_append, List.mem_singleton, ← named.complete]
    exact ⟨.inl, Or.rec id fun same => known name same.symm⟩
  distinct := named.distinct
  ordered := named.ordered_append [item]

theorem concat_new (named : NamesSetWords items names) (fresh : name ∉ names) :
    NamesSetWords (items ++ [.word .setWord name]) (names ++ [name]) where
  complete other := by simp [named.complete, eq_comm]
  distinct := by
    refine List.nodup_append.mpr ⟨named.distinct, List.nodup_singleton name, ?_⟩
    rintro other inside _ last rfl
    exact fresh (List.mem_singleton.mp last ▸ inside)
  ordered := by
    refine List.pairwise_append.mpr ⟨named.ordered_append _, List.pairwise_singleton _ _, ?_⟩
    intro other inside _ last
    obtain rfl := List.mem_singleton.mp last
    obtain ⟨before, behind, rfl⟩ := List.append_of_mem ((named.complete other).mp inside)
    refine ⟨before, behind ++ [_], by rw [List.append_assoc, List.cons_append], fun early => ?_⟩
    exact fresh ((named.complete _).mpr (List.mem_append_left _ early))

end NamesSetWords

theorem fieldNames_concat (items : List Value) (item : Value) :
    (∃ name, item = .word .setWord name ∧ name ∉ fieldNames items ∧
        fieldNames (items ++ [item]) = fieldNames items ++ [name]) ∨
      (∀ name, item = .word .setWord name → name ∈ fieldNames items) ∧
        fieldNames (items ++ [item]) = fieldNames items := by
  simp only [fieldNames, List.filterMap_append, List.eraseDups_append, List.mem_eraseDups]
  generalize items.filterMap _ = names
  by_cases fresh : ∃ name, item = .word .setWord name ∧ name ∉ names
  · obtain ⟨name, rfl, fresh⟩ := fresh
    refine .inl ⟨name, rfl, fresh, ?_⟩
    simp [List.removeAll, fresh, List.eraseDups_cons]
  · have known (name : String) (same : item = .word .setWord name) : name ∈ names :=
      Classical.byContradiction fun absent => fresh ⟨name, same, absent⟩
    refine .inr ⟨known, ?_⟩
    rw [List.filterMap_cons]
    split
    · simp [List.removeAll]
    · next name found =>
      split at found
      · cases found
        simp [List.removeAll, known _ rfl]
      · cases found

theorem fieldNames_namesSetWords (items : List Value) :
    NamesSetWords items (fieldNames items) := by
  induction items using List.reverseRecOn with
  | nil => exact ⟨fun name => by simp [fieldNames], List.nodup_nil, .nil⟩
  | append_singleton items item ih =>
    rcases fieldNames_concat items item with ⟨name, rfl, fresh, same⟩ | ⟨known, same⟩
    · exact same ▸ ih.concat_new fresh
    · exact same ▸ ih.concat_known known

example : fieldNames [.word .setWord "b", .word .word "c", .word .setWord "a",
    .word .setWord "b"] = ["b", "a"] := by decide

end BlockScript.Evaluation
