import BlockScript.Frame.Columns
import BlockScript.Proofs.Growth
import BlockScript.Proofs.Marking
import Mathlib.Data.List.Induction
import Mathlib.Data.List.Nodup

/-!
# The two arrays of a frame

The arrays start with a value for each key and with names that are all different. A name is added
only if no visible key has it, and a mark never shows a hidden key again. So there is always one
value for each key, no read or write is out of bounds, and visible keys have different names.
-/

namespace BlockScript

variable {c c' : Columns} {f : Frame} {fields : List (String × Value)} {name : String}
  {value : Value} {index : Nat}

def ProtectFlags.markKey (flags : ProtectFlags) (key : Key) : Key :=
  { key with
    locked := if flags.word then flags.set else key.locked
    hidden := key.hidden || (flags.hide && flags.set) }

namespace Columns

/-! ## Made by the operations -/

inductive Made : Columns → Prop where
  | ofFields {fields : List (String × Value)} (distinct : (fields.map (·.1)).Nodup) :
      Made (.ofFields fields)
  | put {c c' : Columns} {index : Nat} {value : Value} (made : Made c)
      (done : c.put index value = .ok c') : Made c'
  | push {c : Columns} {name : String} (made : Made c) (absent : c.find? name = none)
      (value : Value) : Made (c.push name value)
  | modify {c : Columns} (made : Made c) (index : Nat) (flags : ProtectFlags) :
      Made (c.modify index flags.markKey)
  | modifyAll {c : Columns} (made : Made c) (flags : ProtectFlags) :
      Made (c.modifyAll flags.markKey flags.set)

def Paired (c : Columns) : Prop := c.values.size = c.keys.size

def Apart (c : Columns) : Prop :=
  ∀ (i j : Nat) (a b : Key), c.keys[i]? = some a → c.keys[j]? = some b →
    a.hidden = false → b.hidden = false → a.name = b.name → i = j

theorem ofFields_eq (fields : List (String × Value)) :
    Columns.ofFields fields =
      { keys := (fields.map fun entry => { name := entry.1 : Key }).toArray
        values := (fields.map (·.2)).toArray } := by
  induction fields using List.reverseRecOn with
  | nil => rfl
  | append_singleton fields entry ih =>
    rw [Columns.ofFields] at ih ⊢
    rw [List.foldl_append, ih]
    simp [push]

theorem put_eq_ok (done : c.put index value = .ok c') :
    c'.keys = c.keys ∧ c'.values.size = c.values.size := by
  rw [put] at done
  split_ifs at done
  cases done
  exact ⟨rfl, Array.size_setIfInBounds⟩

theorem find?_eq_none_iff : c.find? name = none ↔
    ∀ (i : Nat) (key : Key), c.keys[i]? = some key → key.name = name → key.hidden = true := by
  simp only [find?, Array.findIdx?_eq_none_iff, Array.mem_iff_getElem?]
  constructor
  · intro none i key here named
    simpa [named] using none key ⟨i, here⟩
  · rintro all key ⟨i, here⟩
    by_cases named : key.name = name
    · simp [named, all i key here named]
    · simp [named]

namespace Made

theorem paired (made : c.Made) : c.Paired := by
  induction made with
  | ofFields _ => simp [Paired, ofFields_eq]
  | put _ done ih =>
    obtain ⟨keys, values⟩ := put_eq_ok done
    rw [Paired, values, keys]
    exact ih
  | push _ _ _ ih => simpa [Paired, Columns.push] using ih
  | modify _ _ _ ih => simpa [Paired, Columns.modify] using ih
  | modifyAll _ _ ih => simpa [Paired, Columns.modifyAll] using ih

/-- Keys stay apart if the visible ones were visible under the same names. -/
theorem apart_of_keys (apart : c.Apart)
    (faded : ∀ (i : Nat) (b : Key), c'.keys[i]? = some b → ∃ a, c.keys[i]? = some a ∧
      b.name = a.name ∧ (b.hidden = false → a.hidden = false)) : c'.Apart := by
  intro i j b b' here there shown shown' same
  obtain ⟨a, here, named, fade⟩ := faded i b here
  obtain ⟨a', there, named', fade'⟩ := faded j b' there
  apply apart i j a a' here there (fade shown) (fade' shown')
  rw [← named, ← named', same]

theorem hidden_of_markKey {flags : ProtectFlags} {key : Key}
    (shown : (flags.markKey key).hidden = false) : key.hidden = false :=
  (Bool.or_eq_false_iff.mp shown).1

theorem apart (made : c.Made) : c.Apart := by
  induction made with
  | @ofFields fields distinct =>
    intro i j a b here there _ _ same
    simp only [ofFields_eq, List.getElem?_toArray, List.getElem?_map, Option.map_eq_some_iff]
      at here there
    obtain ⟨entry, here, rfl⟩ := here
    obtain ⟨entry', there, rfl⟩ := there
    have below : i < (fields.map (·.1)).length := by
      rw [List.length_map]
      exact (List.getElem?_eq_some_iff.mp here).1
    apply (List.getElem?_inj below distinct).mp
    rw [List.getElem?_map, List.getElem?_map, here, there]
    exact congrArg some same
  | put _ done ih =>
    intro i j a b here there
    rw [(put_eq_ok done).1] at here there
    exact ih i j a b here there
  | @push c name _ absent value ih =>
    have old := find?_eq_none_iff.mp absent
    intro i j a b here there shown shown' same
    simp only [Columns.push, Array.getElem?_push] at here there
    split_ifs at here there with first second second
    · omega
    · cases here
      rw [old j b there same.symm] at shown'
      cases shown'
    · cases there
      rw [old i a here same] at shown
      cases shown
    · exact ih i j a b here there shown shown' same
  | @modify c _ index flags ih =>
    apply apart_of_keys ih
    intro i b here
    simp only [Columns.modify, Array.getElem?_modify] at here
    split_ifs at here
    · obtain ⟨a, found, rfl⟩ := Option.map_eq_some_iff.mp here
      exact ⟨a, found, rfl, hidden_of_markKey⟩
    · exact ⟨b, here, rfl, id⟩
  | @modifyAll c _ flags ih =>
    apply apart_of_keys ih
    intro i b here
    simp only [Columns.modifyAll, Array.getElem?_map] at here
    obtain ⟨a, found, rfl⟩ := Option.map_eq_some_iff.mp here
    exact ⟨a, found, rfl, hidden_of_markKey⟩

end Made

/-! ## Names of visible keys -/

namespace Apart

variable (apart : c.Apart)

include apart

theorem nodup_words : c.words.Nodup := by
  rw [words, List.Nodup, List.pairwise_filterMap, List.pairwise_iff_getElem]
  intro i j first second before name named other named' same
  split_ifs at named named' with hidden hidden'
  cases named
  cases named'
  have once := apart i j _ _ (Array.getElem?_eq_getElem first) (Array.getElem?_eq_getElem second)
    (Bool.eq_false_iff.mpr hidden) (Bool.eq_false_iff.mpr hidden') same
  omega

/-- A name is found where the only visible key with it is. -/
theorem find?_eq_some_iff : c.find? name = some index ↔
    ∃ key, c.keys[index]? = some key ∧ key.name = name ∧ key.hidden = false := by
  have sound (i : Nat) (found : c.find? name = some i) :
      ∃ key, c.keys[i]? = some key ∧ key.name = name ∧ key.hidden = false := by
    obtain ⟨below, named, -⟩ := Array.findIdx?_eq_some_iff_getElem.mp found
    exact ⟨_, Array.getElem?_eq_getElem below, by simpa using named⟩
  constructor
  · exact sound index
  · rintro ⟨key, here, named, shown⟩
    cases found : c.find? name with
    | none =>
      have hidden := find?_eq_none_iff.mp found index key here named
      rw [shown] at hidden
      cases hidden
    | some i =>
      obtain ⟨key', there, named', shown'⟩ := sound i found
      rw [apart i index key' key there here shown' shown (named'.trans named.symm)]

end Apart

end Columns

/-! ## Frames -/

/-- The operations on two arrays do what those on a frame do, and are never out of bounds. -/
structure Columns.Implements (c : Columns) (f : Frame) : Prop where
  frame : c.frame = f
  size : c.size = f.size
  find? (name : String) : c.find? name = f.find? name
  value? (index : Nat) : c.value? index = f.value? index
  get? (name : String) : c.get? name = .ok (f.get? name)
  words : c.words = f.words
  visible : c.visible = f.visible
  assign (index : Nat) (value : Value) :
    c.assign index value = .ok ((f.assign index value).map Frame.columns)
  define (name : String) (value : Value) :
    c.define name value = .ok ((f.define name value).map fun (index, g) => (index, g.columns))

namespace Frame

theorem getElem?_keys (f : Frame) (index : Nat) :
    f.columns.keys[index]? = f.fields[index]?.map Field.key := Array.getElem?_map

theorem getElem?_values (f : Frame) (index : Nat) :
    f.columns.values[index]? = f.value? index := Array.getElem?_map

theorem columns_frame (f : Frame) : f.columns.frame = f := by
  have fields : f.columns.frame.fields = f.fields := by
    apply Array.ext_getElem?
    intro i
    simp only [Columns.frame, columns, Array.getElem?_zipWith, Array.getElem?_map]
    cases f.fields[i]? <;> rfl
  cases f with
  | mk _ _ => exact congrArg₂ Frame.mk fields rfl

theorem columns_ofFields (fields : List (String × Value)) :
    (Frame.ofFields fields).columns = .ofFields fields := by
  simp [Columns.ofFields_eq, columns, Frame.ofFields, Field.key, Function.comp_def]

theorem columns_push (f : Frame) (name : String) (value : Value) :
    (f.push name value).columns = f.columns.push name value := by
  simp [columns, push, Columns.push, Field.key]

theorem columns_put (below : index < f.size) :
    f.columns.put index value = .ok (f.put index value).columns := by
  have inside : index < f.columns.values.size := Nat.lt_of_lt_of_eq below Array.size_map.symm
  have keys : (f.put index value).columns.keys = f.columns.keys := by
    show (f.fields.modify index ({ · with value })).map Field.key = f.fields.map Field.key
    exact map_modify_of_same fun _ _ => rfl
  have values : (f.put index value).columns.values =
      f.columns.values.setIfInBounds index value := by
    apply Array.ext_getElem?
    intro i
    rw [getElem?_values, value?, put, modify, Array.getElem?_modify, Array.getElem?_setIfInBounds]
    by_cases here : index = i
    · subst here
      simp [inside, Array.getElem?_eq_getElem (show index < f.fields.size from below)]
    · rw [if_neg here, if_neg here, getElem?_values, value?]
  rw [Columns.put, if_pos inside, ← values, ← keys]
  rfl

theorem columns_modify (f : Frame) (index : Nat) (flags : ProtectFlags) :
    (f.modify index (ProtectWalk.markField flags)).columns =
      f.columns.modify index flags.markKey := by
  have keys : f.columns.keys.modify index flags.markKey =
      (f.modify index (ProtectWalk.markField flags)).columns.keys :=
    map_modify_of_commutes _ _ index _ _ fun _ => rfl
  have values : (f.modify index (ProtectWalk.markField flags)).columns.values =
      f.columns.values := map_modify_of_same fun _ _ => rfl
  rw [Columns.modify, keys, ← values]
  rfl

theorem columns_markFrame (f : Frame) (flags : ProtectFlags) :
    (ProtectWalk.markFrame flags f).columns = f.columns.modifyAll flags.markKey flags.set := by
  simp only [columns, ProtectWalk.markFrame, Columns.modifyAll, Array.map_map]
  rfl

theorem find?_columns (f : Frame) (name : String) : f.columns.find? name = f.find? name := by
  simp only [Columns.find?, columns, Array.findIdx?_map]
  rfl

theorem assign_columns (f : Frame) (index : Nat) (value : Value) :
    f.columns.assign index value = .ok ((f.assign index value).map Frame.columns) := by
  rw [Columns.assign, assign, denied?, getElem?_keys]
  cases here : f.fields[index]? with
  | none => rfl
  | some field =>
    simp only [Option.map_some]
    cases locked : field.locked
    · have below : index < f.size := (Array.getElem?_eq_some_iff.mp here).1
      simp [Field.key, locked, columns_put below, Except.map]
    · simp [Field.key, locked, Except.map]

/-- The two arrays of a frame do for it. -/
theorem implements_columns (f : Frame) : f.columns.Implements f where
  frame := f.columns_frame
  size := Array.size_map
  find? name := f.find?_columns name
  value? index := f.getElem?_values index
  get? name := by
    rw [Columns.get?, find?_columns, Frame.get?]
    cases found : f.find? name with
    | none => rfl
    | some index =>
      have below : index < f.fields.size := (Array.findIdx?_eq_some_iff_getElem.mp found).1
      simp [getElem?_values, value?, Array.getElem?_eq_getElem below]
  words := by
    simp only [Columns.words, columns, Frame.words, visible, Array.toList_map, List.filterMap_map,
      List.map_filterMap]
    apply List.filterMap_congr
    intro field _
    cases shown : field.hidden <;> simp [Field.key, shown]
  visible := by
    simp only [Columns.visible, columns, visible, Array.toList_map, List.zip_map',
      List.filterMap_map]
    rfl
  assign index value := f.assign_columns index value
  define name value := by
    rw [Columns.define, define, find?_columns]
    cases f.find? name with
    | some index =>
      simp only [assign_columns]
      cases f.assign index value <;> rfl
    | none =>
      cases guarded : f.isProtected
      · have size : f.columns.size = f.size := Array.size_map
        have unguarded : f.columns.isProtected = false := guarded
        simp [unguarded, size, columns_push, Except.map]
      · have guarded : f.columns.isProtected = true := guarded
        simp [guarded, Except.map]

end Frame

end BlockScript
