import BlockScript.Proofs.Growth
import BlockScript.SymbolTable.Indexed
import BlockScript.Value
import Mathlib.Data.Finset.Card

/-!
# Numbers of symbols

Whatever is asked of a symbol table, a text has a number if it is reserved or was interned before,
different texts have different numbers, and a number stands for its text for ever. The index and the
texts are inverse to each other, so the index finds what a search of the texts would find. New texts
are numbered one after another, and they are refused only when all numbers are used up.
-/

namespace BlockScript

inductive SymbolCall where
  | intern (text : String)
  | get (text : String)
  | lookup (number : Nat)
deriving DecidableEq, Repr

def ReservedExit.number : ReservedExit → Nat
  | .break => 1
  | .continue => 2
  | .return => 3
  | .exit => 4
  | .quit => 5

theorem ReservedExit.getElem?_number (own : ReservedExit) :
    reservedSymbols[own.number]? = some own.name := by
  cases own <;> rfl

namespace SymbolCall

def interned? : SymbolCall → Option String
  | intern text => some text
  | _ => none

def run (t : IndexedSymbols) : SymbolCall → Except IndexedSymbols.Full IndexedSymbols
  | intern text => (t.intern text).map (·.2)
  | get _ => .ok t
  | lookup _ => .ok t

def interned (calls : List SymbolCall) : List String := calls.filterMap interned?

def known (calls : List SymbolCall) : Finset String :=
  reservedSymbols.toList.toFinset ∪ (interned calls).toFinset

end SymbolCall

open SymbolCall

namespace IndexedSymbols

def after (t : IndexedSymbols) (calls : List SymbolCall) : Except Full IndexedSymbols :=
  calls.foldlM SymbolCall.run t

variable {t t' : IndexedSymbols} {text text' : String} {n : Nat} {calls further : List SymbolCall}
  {call : SymbolCall}

/-! ## Index and texts -/

/-- The index gives exactly the numbers under which the texts are kept. -/
def Inverse (t : IndexedSymbols) : Prop :=
  ∀ text n, t.find? text = some n ↔ t.texts[n]? = some text

theorem Inverse.mem_iff (inverse : t.Inverse) : (t.find? text).isSome ↔ text ∈ t.texts := by
  rw [Option.isSome_iff_exists, Array.mem_iff_getElem?]
  exact exists_congr fun n => inverse text n

theorem Inverse.nodup (inverse : t.Inverse) : t.texts.toList.Nodup := by
  refine List.nodup_iff_getElem?_ne_getElem?.mpr fun i j before inside same => ?_
  rw [Array.length_toList] at inside
  rw [Array.getElem?_toList, Array.getElem?_toList, Array.getElem?_eq_getElem inside] at same
  have first := (inverse _ i).mpr same
  have second := (inverse _ j).mpr (Array.getElem?_eq_getElem inside)
  rw [first, Option.some_inj] at second
  exact Nat.ne_of_lt before second

theorem lookup_of_getElem? (found : t.texts[n]? = some text) : t.lookup n = text := by
  rw [lookup, Array.getD_eq_getD_getElem?, found, Option.getD_some]

theorem find?_add (t : IndexedSymbols) (text text' : String) :
    (t.add text).find? text' = if text' = text then some t.size else t.find? text' := by
  rw [find?, add, List.lookup_cons]
  by_cases same : text' = text
  · rw [if_pos same, beq_iff_eq.mpr same]
    rfl
  · rw [if_neg same, beq_eq_false_iff_ne.mpr same]
    rfl

theorem Inverse.add (inverse : t.Inverse) (new : t.find? text = none) : (t.add text).Inverse := by
  intro text' n
  have size_none : t.texts[t.texts.size]? = none := Array.getElem?_eq_none le_rfl
  rw [find?_add, IndexedSymbols.add, Array.getElem?_push, size]
  by_cases same : text' = text
  · subst same
    by_cases last : n = t.texts.size
    · simp [last]
    · have absent : t.texts[n]? ≠ some text' := fun found => by
        rw [(inverse text' n).mpr found] at new
        cases new
      simp [last, Ne.symm last, absent]
  · rw [if_neg same, inverse text' n]
    by_cases last : n = t.texts.size
    · simp [last, Ne.symm same]
    · rw [if_neg last]

/-- Distinct texts that are all new are added one by one. -/
theorem Inverse.foldl_add {texts : List String} (inverse : t.Inverse)
    (new : ∀ text ∈ texts, t.find? text = none) (distinct : texts.Nodup) :
    (texts.foldl IndexedSymbols.add t).Inverse := by
  induction texts generalizing t with
  | nil => exact inverse
  | cons text texts ih =>
    obtain ⟨once, distinct⟩ := List.nodup_cons.mp distinct
    obtain ⟨first, rest⟩ := List.forall_mem_cons.mp new
    refine ih (inverse.add first) (fun text' member => ?_) distinct
    have other : text' ≠ text := fun same => once (same ▸ member)
    rw [find?_add, if_neg other]
    exact rest text' member

theorem texts_initial : initial.texts = reservedSymbols := by decide

theorem inverse_initial : initial.Inverse := by
  rw [initial, ← Array.foldl_toList]
  exact Inverse.foldl_add (fun _ _ => by simp [find?]) (fun _ _ => rfl) (by decide)

/-! ## Calls -/

def Keeps (t t' : IndexedSymbols) : Prop := Kept Eq t.texts t'.texts

theorem Keeps.getElem? (keeps : t.Keeps t') (found : t.texts[n]? = some text) :
    t'.texts[n]? = some text := by
  obtain ⟨_, here, rfl⟩ := keeps n text found
  exact here

theorem intern_known (found : t.find? text = some n) : t.intern text = .ok (n, t) := by
  rw [intern, found]

theorem intern_new (new : t.find? text = none) (room : t.size < capacity) :
    t.intern text = .ok (t.size, t.add text) := by
  rw [intern, new]
  exact if_pos room

theorem intern_cases (done : t.intern text = .ok (n, t')) :
    t.find? text = some n ∧ t' = t ∨
      t.find? text = none ∧ t.size < capacity ∧ n = t.size ∧ t' = t.add text := by
  cases found : t.find? text with
  | some number =>
    rw [intern_known found] at done
    cases done
    exact .inl ⟨rfl, rfl⟩
  | none =>
    rw [intern, found] at done
    dsimp only at done
    split at done
    · next room =>
      cases done
      exact .inr ⟨rfl, room, rfl, rfl⟩
    · cases done

theorem Inverse.intern (inverse : t.Inverse) (given : t.intern text = .ok (n, t')) :
    t'.Inverse := by
  rcases intern_cases given with ⟨-, rfl⟩ | ⟨new, -, -, rfl⟩
  · exact inverse
  · exact inverse.add new

theorem intern_keeps (given : t.intern text = .ok (n, t')) : t.Keeps t' := by
  rcases intern_cases given with ⟨-, rfl⟩ | ⟨-, -, -, rfl⟩
  · exact Kept.refl Eq.refl _
  · exact Kept.push Eq.refl _ _

theorem run_intern (done : (SymbolCall.intern text).run t = .ok t') :
    ∃ n, t.intern text = .ok (n, t') := by
  rw [SymbolCall.run] at done
  cases result : t.intern text with
  | error full =>
    rw [result] at done
    cases done
  | ok given =>
    rw [result] at done
    cases done
    exact ⟨given.1, rfl⟩

theorem run_keeps (done : call.run t = .ok t') : t.Keeps t' := by
  cases call with
  | intern text =>
    obtain ⟨n, given⟩ := run_intern done
    exact intern_keeps given
  | get text =>
    cases done
    exact Kept.refl Eq.refl _
  | lookup number =>
    cases done
    exact Kept.refl Eq.refl _

theorem Inverse.run (inverse : t.Inverse) (done : call.run t = .ok t') : t'.Inverse := by
  cases call with
  | intern text =>
    obtain ⟨n, given⟩ := run_intern done
    exact inverse.intern given
  | get text => exact Except.ok.inj done ▸ inverse
  | lookup number => exact Except.ok.inj done ▸ inverse

theorem after_append (t : IndexedSymbols) (calls further : List SymbolCall) :
    t.after (calls ++ further) = t.after calls >>= fun t => t.after further :=
  List.foldlM_append

theorem after_singleton (t : IndexedSymbols) (call : SymbolCall) :
    t.after [call] = call.run t :=
  bind_pure (call.run t)

/-- What every call keeps, and what has come about before it, is there after all of them. -/
theorem after_induction {P : IndexedSymbols → Prop}
    (step : ∀ {call : SymbolCall} {t t'}, P t → call.run t = .ok t' → P t') (start : P t)
    (done : t.after calls = .ok t') : P t' := by
  induction calls generalizing t with
  | nil =>
    cases done
    exact start
  | cons call calls ih =>
    rw [after, List.foldlM_cons] at done
    cases first : call.run t with
    | error full =>
      rw [first] at done
      cases done
    | ok u =>
      rw [first] at done
      exact ih (step start first) done

theorem after_keeps (done : t.after calls = .ok t') : t.Keeps t' :=
  after_induction (P := t.Keeps) (fun keeps step => Kept.trans Eq.trans keeps (run_keeps step))
    (Kept.refl Eq.refl _) done

theorem Inverse.after (inverse : t.Inverse) (done : t.after calls = .ok t') : t'.Inverse :=
  after_induction Inverse.run inverse done

/-! ## What holds after some calls -/

structure Stands (calls : List SymbolCall) (t : IndexedSymbols) : Prop where
  inverse : t.Inverse
  mem_iff (text : String) : text ∈ t.texts ↔ text ∈ known calls
  size_le : t.size ≤ capacity
  /-- The texts are those of a table without an index. -/
  same : t.texts = (SymbolTable.initial.internAll (interned calls)).texts

theorem Stands.size_eq (stands : Stands calls t) : t.size = (known calls).card := by
  have same : t.texts.toList.toFinset = known calls := by
    ext text
    rw [List.mem_toFinset, Array.mem_toList_iff, stands.mem_iff]
  rw [← same, List.toFinset_card_of_nodup stands.inverse.nodup]
  rfl

/-- A search of the texts finds what the index gives. -/
theorem Inverse.find?_eq (inverse : t.Inverse) (s : SymbolTable) (same : t.texts = s.texts)
    (text : String) : s.find? text = t.find? text := by
  rw [SymbolTable.find?, ← same]
  cases found : t.texts.idxOf? text with
  | none =>
    have absent := Option.isSome_eq_false_iff.mpr (Option.isNone_iff_eq_none.mpr found)
    rw [← Bool.not_eq_true, Array.isSome_idxOf?, ← inverse.mem_iff,
      Option.not_isSome_iff_eq_none] at absent
    exact absent.symm
  | some n =>
    rw [Array.idxOf?_eq_map_finIdxOf?_val, Option.map_eq_some_iff] at found
    obtain ⟨place, found, rfl⟩ := found
    have here := (Array.finIdxOf?_eq_some_iff.mp found).1
    exact ((inverse text place).mpr (here ▸ Array.getElem?_eq_getElem place.isLt)).symm

theorem stands_initial : Stands [] initial where
  inverse := inverse_initial
  mem_iff text := by
    rw [texts_initial, known, Finset.mem_union, List.mem_toFinset, Array.mem_toList_iff]
    exact (or_iff_left (Finset.notMem_empty text)).symm
  size_le := by decide
  same := texts_initial

theorem mem_known_append :
    text ∈ known (calls ++ [call]) ↔ text ∈ known calls ∨ call.interned? = some text := by
  simp only [known, interned, List.filterMap_append, List.toFinset_append, Finset.mem_union,
    List.mem_toFinset, or_assoc]
  cases found : call.interned? with
  | none => simp [found]
  | some own => simp [found, eq_comm]

theorem internAll_append_singleton (s : SymbolTable) (before : List String) (text : String) :
    s.internAll (before ++ [text]) = ((s.internAll before).intern text).2 := by
  rw [SymbolTable.internAll, List.foldl_append]
  rfl

theorem Stands.run (stands : Stands calls t) (done : call.run t = .ok t') :
    Stands (calls ++ [call]) t' := by
  have unchanged (none : call.interned? = none) (kept : t' = t) : Stands (calls ++ [call]) t' := by
    subst kept
    refine ⟨stands.inverse, fun text => ?_, stands.size_le, ?_⟩
    · rw [mem_known_append, stands.mem_iff, none]
      simp
    · rw [stands.same, interned, interned, List.filterMap_append, List.filterMap_cons, none,
        List.filterMap_nil, List.append_nil]
  cases call with
  | get text => exact unchanged rfl (Except.ok.inj done).symm
  | lookup number => exact unchanged rfl (Except.ok.inj done).symm
  | intern text =>
    obtain ⟨n, given⟩ := run_intern done
    have search := stands.inverse.find?_eq _ stands.same text
    have grown : interned (calls ++ [.intern text]) = interned calls ++ [text] := by
      rw [interned, interned, List.filterMap_append]
      rfl
    rcases intern_cases given with ⟨found, rfl⟩ | ⟨new, room, -, rfl⟩
    · refine ⟨stands.inverse, fun text' => ?_, stands.size_le, ?_⟩
      · have known : text ∈ t'.texts := stands.inverse.mem_iff.mp (found ▸ rfl)
        rw [mem_known_append, ← stands.mem_iff]
        refine ⟨.inl, ?_⟩
        rintro (old | same)
        · exact old
        · exact Option.some.inj same ▸ known
      · rw [grown, internAll_append_singleton, SymbolTable.intern, search, found]
        exact stands.same
    · refine ⟨stands.inverse.add new, fun text' => ?_, ?_, ?_⟩
      · rw [mem_known_append, ← stands.mem_iff]
        simp [add, interned?, eq_comm]
      · rw [size, add, Array.size_push]
        exact room
      · rw [grown, internAll_append_singleton, SymbolTable.intern, search, new, add, stands.same]

/-- The table stands so after all calls that are not refused. -/
theorem stands_after (done : initial.after calls = .ok t) : Stands calls t := by
  induction calls using List.reverseRecOn generalizing t with
  | nil =>
    cases done
    exact stands_initial
  | append_singleton calls call ih =>
    rw [after_append] at done
    cases before : initial.after calls with
    | error full =>
      rw [before] at done
      cases done
    | ok u =>
      rw [before] at done
      exact (ih before).run ((after_singleton u call).symm.trans done)

/-! ## When a call is refused -/

theorem known_subset_append : known calls ⊆ known (calls ++ further) := by
  rw [known, known, interned, interned, List.filterMap_append, List.toFinset_append,
    ← Finset.union_assoc]
  exact Finset.subset_union_left

/-- Calls are refused exactly if there are more texts than numbers. -/
theorem after_isOk_iff :
    (∃ t, initial.after calls = .ok t) ↔ (known calls).card ≤ capacity := by
  refine ⟨fun ⟨t, done⟩ => (stands_after done).size_eq ▸ (stands_after done).size_le,
    fun room => ?_⟩
  induction calls using List.reverseRecOn with
  | nil => exact ⟨initial, rfl⟩
  | append_singleton calls call ih =>
    obtain ⟨t, before⟩ := ih ((Finset.card_le_card known_subset_append).trans room)
    have stands := stands_after before
    rw [after_append, before]
    change ∃ t', t.after [call] = .ok t'
    rw [after_singleton]
    cases call with
    | get text => exact ⟨t, rfl⟩
    | lookup number => exact ⟨t, rfl⟩
    | intern text =>
      rw [SymbolCall.run]
      cases found : t.find? text with
      | some n => exact ⟨t, by rw [intern_known found]; rfl⟩
      | none =>
        have new : text ∉ known calls := by
          rw [← stands.mem_iff, ← stands.inverse.mem_iff, found]
          exact Bool.false_ne_true
        have more : known calls ⊂ known (calls ++ [.intern text]) :=
          Finset.ssubset_iff_of_subset known_subset_append |>.mpr
            ⟨text, mem_known_append.mpr (.inr rfl), new⟩
        have below : t.size < capacity :=
          stands.size_eq ▸ (Finset.card_lt_card more).trans_le room
        exact ⟨t.add text, by rw [intern_new found below]; rfl⟩

/-! ## Numbers that last -/

/-- What interning gives is the number under which the text is now kept. -/
theorem Inverse.of_intern (inverse : t.Inverse) (given : t.intern text = .ok (n, t')) :
    t'.texts[n]? = some text := by
  rcases intern_cases given with ⟨found, rfl⟩ | ⟨-, -, rfl, rfl⟩
  · exact (inverse text n).mp found
  · exact Array.getElem?_push_size

theorem intern_eq_self_iff : t.intern text = .ok (n, t) ↔ t.find? text = some n := by
  refine ⟨fun given => ?_, intern_known⟩
  rcases intern_cases given with ⟨found, -⟩ | ⟨-, -, -, grown⟩
  · exact found
  · have sizes := congrArg size grown
    rw [size, size, add, Array.size_push] at sizes
    omega

/-- Only the texts that are interned have an effect. -/
theorem after_filter (t : IndexedSymbols) (calls : List SymbolCall) :
    t.after (calls.filter (·.interned?.isSome)) = t.after calls := by
  induction calls generalizing t with
  | nil => rfl
  | cons call calls ih =>
    cases call with
    | intern text => exact bind_congr fun u => ih u
    | get text => exact ih t
    | lookup number => exact ih t

structure Numbers (calls : List SymbolCall) (t : IndexedSymbols) : Prop where
  /-- The index and the texts are inverse to each other. -/
  inverse (text : String) (n : Nat) : t.find? text = some n ↔ t.texts[n]? = some text
  /-- The index finds what a search finds in a table that has no index. -/
  search (text : String) :
    (SymbolTable.initial.internAll (interned calls)).find? text = t.find? text
  /-- A text has a number if it is reserved or was interned. -/
  known (text : String) : (t.find? text).isSome ↔ text ∈ reservedSymbols ∨ .intern text ∈ calls
  /-- Asking for numbers and texts changes nothing. -/
  asking : initial.after (calls.filter (·.interned?.isSome)) = .ok t
  /-- Numbers are given one after another, to each new text one. -/
  size : t.size = 15 + ((interned calls).toFinset \ reservedSymbols.toList.toFinset).card
  /-- A text that has a number gets it again, and no other text leaves the table as it is. -/
  again (text : String) (n : Nat) : t.find? text = some n ↔ t.intern text = .ok (n, t)
  /-- A new text gets the next number. -/
  next (text : String) : t.find? text = none → t.size < capacity →
    ∃ t', t.intern text = .ok (t.size, t') ∧ t'.size = t.size + 1
  /-- A new text is refused when every number is taken. -/
  full (text : String) : t.find? text = none → capacity ≤ t.size →
    t.intern text = .error ⟨capacity⟩
  /-- A number stands for its text and the text keeps its number, whatever calls follow. -/
  lasts (text : String) (n : Nat) (t' t'' : IndexedSymbols) (further : List SymbolCall) :
    t.intern text = .ok (n, t') → t'.after further = .ok t'' →
      t''.lookup n = text ∧ t''.find? text = some n
  /-- Two texts get one number only if they are the same, whatever calls are in between. -/
  distinct (text text' : String) (n n' : Nat) (t₁ t₂ t₃ : IndexedSymbols)
      (further : List SymbolCall) :
    t.intern text = .ok (n, t₁) → t₁.after further = .ok t₂ → t₂.intern text' = .ok (n', t₃) →
      (n = n' ↔ text = text')
  /-- A reserved text has its own number. -/
  reserved (text : String) (n : Nat) :
    reservedSymbols[n]? = some text → t.find? text = some n ∧ t.lookup n = text
  /-- An exit is known by the number of its word. -/
  exits (own : ReservedExit) (text : String) (n : Nat) (kind : WordKind) (payload : Value) :
    t.find? text = some n → kind = .word ∨ kind = .litWord →
      ((Thrown.mk (.word kind text) payload).isNamed own = true ↔ n = own.number)

structure NumbersLast : Prop where
  /-- No call is refused as long as there are numbers for all texts. -/
  accepted (calls : List SymbolCall) :
    (∃ t, initial.after calls = .ok t) ↔ (known calls).card ≤ capacity
  numbers (calls : List SymbolCall) (t : IndexedSymbols) :
    initial.after calls = .ok t → Numbers calls t

theorem known_card (calls : List SymbolCall) : (known calls).card =
    15 + ((interned calls).toFinset \ reservedSymbols.toList.toFinset).card := by
  rw [SymbolCall.known, ← Finset.union_sdiff_self_eq_union,
    Finset.card_union_of_disjoint Finset.disjoint_sdiff]
  rfl

theorem mem_known : text ∈ known calls ↔ text ∈ reservedSymbols ∨ .intern text ∈ calls := by
  rw [SymbolCall.known, Finset.mem_union, List.mem_toFinset, List.mem_toFinset,
    Array.mem_toList_iff, interned, List.mem_filterMap]
  refine or_congr_right ⟨?_, fun member => ⟨_, member, rfl⟩⟩
  rintro ⟨call, member, names⟩
  cases call with
  | intern own => exact Option.some.inj names ▸ member
  | get own => cases names
  | lookup number => cases names

theorem numbers_of_after (done : initial.after calls = .ok t) : Numbers calls t := by
  have stands := stands_after done
  have inverse := stands.inverse
  have reserved {own : String} {i : Nat} (here : reservedSymbols[i]? = some own) :
      t.texts[i]? = some own :=
    (after_keeps done).getElem? (texts_initial ▸ here)
  refine
    { inverse
      search := inverse.find?_eq _ stands.same
      known := fun text => ?_
      asking := (after_filter _ _).trans done
      size := stands.size_eq.trans (known_card calls)
      again := fun text n => intern_eq_self_iff.symm
      next := fun text new room => ⟨_, intern_new new room, Array.size_push _⟩
      full := fun text new full => ?_
      lasts := fun text n t' t'' further given done' => ?_
      distinct := fun text text' n n' t₁ t₂ t₃ further given done' given' => ?_
      reserved := fun text n here =>
        ⟨(inverse text n).mpr (reserved here), lookup_of_getElem? (reserved here)⟩
      exits := fun own text n kind payload found spelled => ?_ }
  · rw [inverse.mem_iff, stands.mem_iff, mem_known]
  · rw [intern, new, ← le_antisymm stands.size_le full]
    exact if_neg (lt_irrefl _)
  · have kept := (after_keeps done').getElem? (inverse.of_intern given)
    exact ⟨lookup_of_getElem? kept, (((inverse.intern given).after done') text n).mpr kept⟩
  · have inverse₂ := (inverse.intern given).after done'
    have kept := (after_keeps done').getElem? (inverse.of_intern given)
    have last := inverse₂.of_intern given'
    have first := (intern_keeps given').getElem? kept
    constructor
    · rintro rfl
      exact Option.some.inj (first.symm.trans last)
    · rintro rfl
      have inverse₃ := inverse₂.intern given'
      exact Option.some.inj (((inverse₃ text n).mpr first).symm.trans ((inverse₃ text n').mpr last))
  · have named : (Thrown.mk (.word kind text) payload).isNamed own = true ↔ text = own.name := by
      rcases spelled with rfl | rfl <;> exact beq_iff_eq
    have own_number := reserved own.getElem?_number
    rw [named]
    constructor
    · rintro rfl
      exact Option.some.inj (found.symm.trans ((inverse _ _).mpr own_number))
    · rintro rfl
      exact Option.some.inj (((inverse _ _).mp found).symm.trans own_number)

theorem numbers_last : NumbersLast where
  accepted _ := after_isOk_iff
  numbers _ _ := numbers_of_after

end IndexedSymbols

end BlockScript
