import BlockScript.Proofs.Loading
import BlockScript.SymbolTable

/-!
# Load, mold, load

A source text that was loaded as a block, and the text that this block is molded to, hold the same
data. So loading the molded text gives one item that is strictly equal to the block and is molded to
the same text again, and all its names are in the symbol table already.
-/

namespace BlockScript

/-! ## Names that are known -/

namespace SymbolTable

variable {t : SymbolTable} {text text' : String} {texts : List String}

theorem mem_intern_self (t : SymbolTable) (text : String) : text ∈ (t.intern text).2.texts := by
  unfold intern
  split
  · next index found =>
    have known : (t.texts.idxOf? text).isSome = true := by
      rw [show t.texts.idxOf? text = some index from found]
      rfl
    exact Array.isSome_idxOf?.mp known
  · exact Array.mem_push_self

theorem mem_intern (h : text ∈ t.texts) (text' : String) : text ∈ (t.intern text').2.texts := by
  unfold intern
  split
  · exact h
  · exact Array.mem_push_of_mem _ h

theorem intern_of_mem (h : text ∈ t.texts) : (t.intern text).2 = t := by
  obtain ⟨index, found⟩ := Option.isSome_iff_exists.mp (Array.isSome_idxOf?.mpr h)
  rw [intern, find?, found]

theorem mem_internAll_of_mem (h : text ∈ t.texts) (texts : List String) :
    text ∈ (t.internAll texts).texts := by
  induction texts generalizing t with
  | nil => exact h
  | cons text' texts ih => exact ih (mem_intern h text')

theorem mem_internAll (h : text ∈ texts) (t : SymbolTable) : text ∈ (t.internAll texts).texts := by
  induction texts generalizing t with
  | nil => cases h
  | cons text' texts ih =>
    rcases List.mem_cons.mp h with rfl | h
    · exact mem_internAll_of_mem (mem_intern_self t text) texts
    · exact ih h (t.intern text').2

theorem internAll_of_forall_mem (h : ∀ text ∈ texts, text ∈ t.texts) : t.internAll texts = t := by
  induction texts with
  | nil => rfl
  | cons text texts ih =>
    obtain ⟨first, rest⟩ := List.forall_mem_cons.mp h
    show (t.intern text).2.internAll texts = t
    rw [intern_of_mem first]
    exact ih rest

end SymbolTable

theorem Datum.symbolsOf_block (items : List Datum) :
    symbolsOf [.block items] = symbolsOf items := by
  rw [symbolsOf, symbolsOf, List.append_nil, symbols]

/-! ## The round trip -/

/-- Data are loaded as a block, in a heap and with a table of names. The text that the block is
molded to is read, and what is read adds no name to the table; when it is loaded as well, the block
of it has one item, which is strictly equal to the first block and molded to the same text. -/
def Reloads (h : Heap) (t : SymbolTable) (data : List Datum) : Prop :=
  let (block, h₁) := h.loadBlock data
  let text := h₁.mold (.block block)
  let known := t.internAll (Datum.symbolsOf data)
  ∃ again, Datum.read text = .ok again ∧ known.internAll (Datum.symbolsOf again) = known ∧
    let (block', h₂) := h₁.loadBlock again
    ∃ copy, h₂.tail block' = [copy] ∧ h₂.strictEqual copy (.block block) = true ∧
      h₂.mold copy = text

/-- Whatever is read reloads, if its decimals are read back from their text. -/
theorem load_mold_load {source : String} {data : List Datum} (h : Heap) (t : SymbolTable)
    (read : Datum.read source = .ok data)
    (decimals : Datum.DecimalsReadBack (Datum.decimalsOf data)) : Reloads h t data := by
  unfold Reloads
  obtain ⟨ext, denotes⟩ := loadBlock_denotes h data
  generalize h.loadBlock data = loaded at ext denotes ⊢
  obtain ⟨block, h₁⟩ := loaded
  dsimp only at ext denotes ⊢
  have text : h₁.mold (.block block) = String.ofList (Datum.block data).mold := denotes.mold le_rfl
  refine ⟨[.block data], ?_, ?_, ?_⟩
  · rw [text]
    exact Datum.read_mold_block (Datum.source_of_read read) decimals
  · rw [Datum.symbolsOf_block]
    exact SymbolTable.internAll_of_forall_mem fun _ member => SymbolTable.mem_internAll member t
  · obtain ⟨ext', denotes'⟩ := loadBlock_denotes h₁ [.block data]
    generalize h₁.loadBlock [.block data] = reloaded at ext' denotes' ⊢
    obtain ⟨block', h₂⟩ := reloaded
    dsimp only at ext' denotes' ⊢
    cases denotes' with
    | block below lengths each =>
      obtain ⟨copy, tail⟩ := List.length_eq_one_iff.mp lengths
      have copied : Denotes h₂ block'.id copy (.block data) :=
        each copy (.block data) (by rw [tail]; exact List.mem_singleton_self _)
      have kept := denotes.extend ext' le_rfl
      refine ⟨copy, tail, strictEqual_of_denotes copied kept fun x member => ?_, ?_⟩
      · exact Decimal.beq_self_of_isFinite (Decimal.isFinite_of_read? (decimals x member))
      · rw [copied.mold below.le, text]

/-- Numbers of both kinds, an escaped line end and a path, inside of containers. -/
theorem read_mixed : Datum.read "[+7 -2.5 \x7bb^/\"c\x7d :e/02 (//)]" =
    .ok [.block [.integer 7, .decimal (-2.5), .text "b\n\"c",
      .path .getPath [.name "e", .index 2], .paren [.word .word "//"]]] := by
  with_unfolding_all rfl

theorem load_mold_load_mixed :
    ∃ data, Datum.read "[+7 -2.5 \x7bb^/\"c\x7d :e/02 (//)]" = .ok data ∧
      Datum.DecimalsReadBack (Datum.decimalsOf data) ∧ Reloads {} .initial data := by
  have decimals : Datum.DecimalsReadBack [-2.5] := by
    unfold Datum.DecimalsReadBack
    decide +kernel
  exact ⟨_, read_mixed, decimals, load_mold_load {} .initial read_mixed decimals⟩

end BlockScript
