import BlockScript.Heap.Mold
import BlockScript.Proofs.Numbers
import Mathlib.Data.List.Basic

/-!
# Runs are read back

A run that is read as a datum need not be the text that the datum is molded to: numbers lose leading
zeros, in a path too. Yet the molded text is a run again, and it is read as the same datum. A word
is molded to the run it was read from.
-/

namespace BlockScript

namespace Datum

/-! ## Molded data -/

mutual

def mold : Datum → List Char
  | .integer n => (Digits.intText n.toInt).toList
  | .decimal x => (Decimal.text x).toList
  | .text content => (Text.quote content).toList
  | .word kind name => (kind.mold name).toList
  | .path kind segments => (kind.mold segments).toList
  | .block items => '[' :: moldItems items ++ [']']
  | .paren items => '(' :: moldItems items ++ [')']

def moldItems : List Datum → List Char
  | [] => []
  | [item] => item.mold
  | item :: items => item.mold ++ ' ' :: moldItems items

end

def Flavour.mark : Flavour → List Char → List Char
  | .plain, body => body
  | .set, body => body ++ [':']
  | .get, body => ':' :: body
  | .lit, body => '\'' :: body

theorem toList_wordKind_mold (f : Flavour) (body : List Char) :
    (f.wordKind.mold (String.ofList body)).toList = f.mark body := by
  cases f <;> simp [Flavour.wordKind, WordKind.mold, Flavour.mark]

def moldSegments (segments : List Segment) : List Char :=
  ['/'].intercalate (segments.map fun segment => segment.mold.toList)

theorem toList_pathKind_mold (f : Flavour) (segments : List Segment) :
    (f.pathKind.mold segments).toList = f.mark (moldSegments segments) := by
  have body : ("/".intercalate (segments.map Segment.mold)).toList = moldSegments segments := by
    rw [String.toList_intercalate, List.map_map]
    rfl
  cases f <;> simp [Flavour.pathKind, PathKind.mold, Flavour.mark, body]

/-! ## Flavours -/

/-- Taking the marks off a run and putting them on again gives the run. -/
theorem mark_splitFlavour (run : List Char) :
    (splitFlavour run).1.mark (splitFlavour run).2 = run := by
  unfold splitFlavour
  split
  · rfl
  · rfl
  · split
    · next last => exact List.dropLast_append_getLast? _ last
    · rfl

theorem splitFlavour_mark {body : List Char} (f : Flavour) (nonempty : body ≠ [])
    (colon : ':' ∉ body) (quote : '\'' ∉ body) : splitFlavour (f.mark body) = (f, body) := by
  obtain ⟨c, cs, rfl⟩ := List.exists_cons_of_ne_nil nonempty
  have hc : c ≠ ':' := fun same => colon (same ▸ List.mem_cons_self)
  have hq : c ≠ '\'' := fun same => quote (same ▸ List.mem_cons_self)
  cases f with
  | get => rfl
  | lit => rfl
  | set =>
    unfold splitFlavour Flavour.mark
    split
    · next same => cases same; exact absurd rfl hq
    · next same => cases same; exact absurd rfl hc
    · rw [List.getLast?_concat, if_pos rfl, List.dropLast_concat]
  | plain =>
    unfold splitFlavour Flavour.mark
    split
    · next same => cases same; exact absurd rfl hq
    · next same => cases same; exact absurd rfl hc
    · have last : (c :: cs).getLast? ≠ some ':' := fun same => colon (List.mem_of_getLast? same)
      rw [if_neg last]

/-! ## What a run can be -/

/-- What a run can have been read as: a number, a word that is molded to the run, or a path. -/
inductive ReadAs (run : List Char) : Datum → Prop where
  | integer (n : Int64) : ReadAs run (.integer n)
  | decimal (x : Float) : ReadAs run (.decimal x)
  | word (kind : WordKind) (name : String) (same : (Datum.word kind name).mold = run) :
      ReadAs run (.word kind name)
  | path (f : Flavour) {body : List Char} {segments : List Segment} (marked : run = f.mark body)
      (slash : '/' ∈ body) (found : readSegments? body = some segments) :
      ReadAs run (.path f.pathKind segments)

theorem readAs_of_readNumber? {run : List Char} {d : Datum} (read : readNumber? run = some d) :
    ReadAs run d := by
  unfold readNumber? at read
  split at read
  · obtain rfl := Option.some.inj read
    exact .integer _
  · split at read
    · obtain ⟨x, -, rfl⟩ := Option.map_eq_some_iff.mp read
      exact .decimal x
    · cases read

theorem readWord_eq_ok {kind : WordKind} {body : List Char} {d : Datum}
    (read : readWord kind body = .ok d) : d = .word kind (String.ofList body) := by
  unfold readWord at read
  split at read
  · exact (Except.ok.inj read).symm
  · cases read

theorem readAs_of_ofRun {run : List Char} {d : Datum} (read : ofRun run = .ok d) :
    ReadAs run d := by
  unfold ofRun at read
  split at read
  · split at read
    · next number =>
      cases read
      exact readAs_of_readNumber? number
    · cases read
  · have marks := mark_splitFlavour run
    generalize splitFlavour run = marked at read marks
    obtain ⟨f, body⟩ := marked
    dsimp only at read marks
    split at read
    · next slash =>
      obtain ⟨rfl, head⟩ := slash
      obtain rfl : body = run := marks
      split at read
      · cases read
        exact .word _ _ (by simp [mold, WordKind.mold])
      · obtain rfl := readWord_eq_ok read
        obtain ⟨tail, rfl⟩ := List.head?_eq_some_iff.mp head
        exact .word _ _ (by simp [mold, WordKind.mold])
    · split at read
      · next slash =>
        simp only [Bool.and_eq_true, List.contains_iff_mem] at slash
        split at read
        · next segments found =>
          cases read
          exact .path f marks.symm slash.1.1 found
        · cases read
      · obtain rfl := readWord_eq_ok read
        exact .word _ _ (by rw [mold, toList_wordKind_mold, marks])

/-! ## Paths -/

theorem isName_spec {body : List Char} (name : isName body = true) :
    body ≠ [] ∧ ':' ∉ body ∧ '\'' ∉ body ∧ '/' ∉ body := by
  simp only [isName, Bool.and_eq_true, Bool.not_eq_true', List.isEmpty_eq_false_iff,
    List.any_eq_false, Bool.or_eq_true, beq_iff_eq, not_or] at name
  obtain ⟨⟨nonempty, marks⟩, -⟩ := name
  exact ⟨nonempty, fun h => (marks _ h).1.1 rfl, fun h => (marks _ h).1.2 rfl,
    fun h => (marks _ h).2 rfl⟩

structure SegmentText (head : Bool) (segment : Segment) : Prop where
  read : readSegment? head segment.mold.toList = some segment
  nonempty : segment.mold.toList ≠ []
  colon : ':' ∉ segment.mold.toList
  quote : '\'' ∉ segment.mold.toList
  slash : '/' ∉ segment.mold.toList
  continues : ∀ c ∈ segment.mold.toList, Reader.isDelimiter c = false
  /-- The head of a path is not read as a number, with or without more behind it. -/
  notNumeric : head = true → looksNumeric segment.mold.toList = false

theorem segmentText_of_read {head : Bool} {body : List Char} {segment : Segment}
    (continues : ∀ c ∈ body, Reader.isDelimiter c = false)
    (read : readSegment? head body = some segment) : SegmentText head segment := by
  have read' := read
  unfold readSegment? at read'
  split at read'
  · split at read'
    · cases read'
    next notHead =>
    obtain ⟨n, -, rfl⟩ := Option.map_eq_some_iff.mp read'
    have chars (c : Char) (other : isNumeric c = false) : c ∉ (Digits.intText n.toInt).toList := by
      intro member
      rw [isNumeric_of_mem_intText member] at other
      cases other
    refine ⟨?_, ?_, chars _ (by decide), chars _ (by decide), chars _ (by decide),
      fun c member => (ne_of_isNumeric (isNumeric_of_mem_intText member)).1, ?_⟩
    · rw [readSegment?, Segment.mold, if_pos (looksNumeric_intText n.toInt), if_neg notHead,
        readInteger?_intText]
      rfl
    · intro empty
      have numeric := looksNumeric_intText n.toInt
      rw [show (Digits.intText n.toInt).toList = [] from empty] at numeric
      cases numeric
    · exact fun h => absurd h notHead
  · next notNumeric =>
    split at read'
    · next name =>
      obtain rfl := Option.some.inj read'
      obtain ⟨nonempty, colon, quote, slash⟩ := isName_spec name
      have same : (Segment.name (String.ofList body)).mold.toList = body := by simp [Segment.mold]
      exact ⟨by rw [same]; exact read, by rwa [same], by rwa [same], by rwa [same], by rwa [same],
        by rwa [same], fun _ => by rw [same]; simpa using notNumeric⟩
    · cases read'

theorem exists_of_mapM {α β : Type} {f : α → Option β} {as : List α} {bs : List β}
    (h : as.mapM f = some bs) : bs.length = as.length ∧ ∀ b ∈ bs, ∃ a ∈ as, f a = some b := by
  induction as generalizing bs with
  | nil =>
    cases h
    exact ⟨rfl, fun b member => by cases member⟩
  | cons a as ih =>
    rw [List.mapM_cons] at h
    obtain ⟨b, hb, h⟩ := Option.bind_eq_some_iff.mp h
    obtain ⟨bs, hbs, h⟩ := Option.bind_eq_some_iff.mp h
    cases h
    obtain ⟨length, found⟩ := ih hbs
    refine ⟨by rw [List.length_cons, length, List.length_cons], fun b' member => ?_⟩
    rcases List.mem_cons.mp member with rfl | member
    · exact ⟨a, List.mem_cons_self, hb⟩
    · obtain ⟨a', ha', same⟩ := found b' member
      exact ⟨a', List.mem_cons_of_mem _ ha', same⟩

theorem mapM_map_eq_some {α β : Type} {f : α → Option β} {g : β → α} {bs : List β}
    (h : ∀ b ∈ bs, f (g b) = some b) : (bs.map g).mapM f = some bs := by
  induction bs with
  | nil => rfl
  | cons b bs ih =>
    rw [List.map_cons, List.mapM_cons, h b List.mem_cons_self,
      ih fun b hb => h b (List.mem_cons_of_mem _ hb)]
    rfl

theorem mem_intercalate {sep : Char} {ls : List (List Char)} {c : Char}
    (h : c ∈ [sep].intercalate ls) : c = sep ∨ ∃ l ∈ ls, c ∈ l := by
  induction ls with
  | nil => cases h
  | cons l ls ih =>
    cases ls with
    | nil => exact .inr ⟨l, List.mem_cons_self, by simpa using h⟩
    | cons l' ls =>
      rw [List.intercalate_cons_cons, List.mem_append, List.mem_append] at h
      rcases h with (h | h) | h
      · exact .inr ⟨l, List.mem_cons_self, h⟩
      · exact .inl (List.mem_singleton.mp h)
      · rcases ih h with same | ⟨l'', member, h⟩
        · exact .inl same
        · exact .inr ⟨l'', List.mem_cons_of_mem _ member, h⟩

theorem mem_intercalate_of_mem {sep : List Char} {ls : List (List Char)} {l : List Char} {c : Char}
    (member : l ∈ ls) (h : c ∈ l) : c ∈ sep.intercalate ls := by
  induction ls with
  | nil => cases member
  | cons l' ls ih =>
    rcases List.mem_cons.mp member with rfl | member
    · cases ls with
      | nil => simpa using h
      | cons l'' ls => simp [h]
    · rw [List.intercalate_cons_of_ne_nil (List.ne_nil_of_mem member)]
      exact List.mem_append_right _ (ih member)

/-- The segments of a path: a head and at least one more, each molded to a text that is read as it
again. -/
theorem segments_of_read {body : List Char} {segments : List Segment} (slash : '/' ∈ body)
    (continues : ∀ c ∈ body, Reader.isDelimiter c = false)
    (read : readSegments? body = some segments) :
    ∃ first second rest, segments = first :: second :: rest ∧ SegmentText true first ∧
      ∀ segment ∈ second :: rest, SegmentText false segment := by
  unfold readSegments? at read
  split at read
  · cases read
  next head tail pieces =>
  have joined : ['/'].intercalate (body.splitOn '/') = body := List.intercalate_splitOn '/'
  rw [pieces] at joined
  have piece (l : List Char) (member : l ∈ head :: tail) :
      ∀ c ∈ l, Reader.isDelimiter c = false :=
    fun c h => continues c (joined ▸ mem_intercalate_of_mem member h)
  obtain ⟨first, readFirst, read⟩ := Option.bind_eq_some_iff.mp read
  obtain ⟨others, readOthers, rfl⟩ := Option.map_eq_some_iff.mp read
  obtain ⟨length, found⟩ := exists_of_mapM readOthers
  cases others with
  | nil =>
    -- a single piece is the whole body, and no head holds a slash
    obtain rfl := List.eq_nil_of_length_eq_zero length.symm
    rw [List.intercalate_singleton] at joined
    rw [← joined] at slash
    unfold readSegment? at readFirst
    split at readFirst
    · cases readFirst
    · split at readFirst
      · next name => exact absurd slash (isName_spec name).2.2.2
      · cases readFirst
  | cons second rest =>
    refine ⟨first, second, rest, rfl,
      segmentText_of_read (piece head List.mem_cons_self) readFirst, fun segment member => ?_⟩
    obtain ⟨l, hl, read⟩ := found segment member
    exact segmentText_of_read (piece l (List.mem_cons_of_mem _ hl)) read

/-- A text in front of a slash that does not look like a number still does not with the slash. -/
theorem looksNumeric_append_slash {cs rest : List Char} (nonempty : cs ≠ [])
    (h : looksNumeric cs = false) : looksNumeric (cs ++ '/' :: rest) = false := by
  match cs, nonempty, h with
  | [a], _, h =>
    simp only [looksNumeric, Bool.or_eq_false_iff] at h
    simp [looksNumeric, h, show Digits.isDigit '/' = false by decide]
  | [a, b], _, h =>
    simp only [looksNumeric, Bool.or_eq_false_iff] at h
    simp [looksNumeric, h, show Digits.isDigit '/' = false by decide]
  | a :: b :: c :: cs, _, h => exact h

theorem moldSegments_cons (first second : Segment) (rest : List Segment) :
    moldSegments (first :: second :: rest) =
      first.mold.toList ++ '/' :: moldSegments (second :: rest) := by
  simp [moldSegments]

/-- A mark in front hides that a body looks like a number. -/
theorem looksNumeric_of_mark {c : Char} (mark : c = ':' ∨ c = '\'') (cs : List Char) :
    looksNumeric (c :: cs) = false := by
  have digit : Digits.isDigit c = false := by rcases mark with rfl | rfl <;> decide
  have sign : c ≠ '+' ∧ c ≠ '-' ∧ c ≠ '.' := by rcases mark with rfl | rfl <;> decide
  cases cs <;> simp [looksNumeric, digit, sign]

section Segments

variable {first second : Segment} {rest : List Segment} (head : SegmentText true first)
  (others : ∀ segment ∈ second :: rest, SegmentText false segment)

include head others

theorem exists_segmentText {segment : Segment} (member : segment ∈ first :: second :: rest) :
    ∃ head, SegmentText head segment := by
  rcases List.mem_cons.mp member with rfl | member
  · exact ⟨true, head⟩
  · exact ⟨false, others segment member⟩

theorem not_mem_moldSegments {c : Char} (hc : c ≠ '/')
    (free : ∀ head segment, SegmentText head segment → c ∉ segment.mold.toList) :
    c ∉ moldSegments (first :: second :: rest) := by
  intro member
  rcases mem_intercalate member with same | ⟨l, hl, member⟩
  · exact hc same
  · obtain ⟨segment, hs, rfl⟩ := List.mem_map.mp hl
    obtain ⟨_, text⟩ := exists_segmentText head others hs
    exact free _ segment text member

theorem readSegments?_moldSegments :
    readSegments? (moldSegments (first :: second :: rest)) = some (first :: second :: rest) := by
  have noSlash : ∀ l ∈ (first :: second :: rest).map fun segment => segment.mold.toList,
      '/' ∉ l := by
    intro l hl
    obtain ⟨segment, hs, rfl⟩ := List.mem_map.mp hl
    obtain ⟨_, text⟩ := exists_segmentText head others hs
    exact text.slash
  have readOthers := mapM_map_eq_some fun segment hs => (others segment hs).read
  rw [readSegments?, moldSegments, List.splitOn_intercalate _ noSlash (List.cons_ne_nil _ _),
    List.map_cons]
  simp only [head.read, readOthers, Option.bind_some, Option.map_some]

omit others in
theorem head?_moldSegments : ∃ c, (moldSegments (first :: second :: rest)).head? = some c ∧
    c ≠ '/' := by
  obtain ⟨c, cs, chars⟩ := List.exists_cons_of_ne_nil head.nonempty
  refine ⟨c, ?_, fun same => head.slash ?_⟩
  · rw [moldSegments_cons, chars]
    rfl
  · rw [chars, same]
    exact List.mem_cons_self

omit others in
theorem looksNumeric_mark (f : Flavour) :
    looksNumeric (f.mark (moldSegments (first :: second :: rest))) = false := by
  have plain (behind : List Char) :
      looksNumeric (first.mold.toList ++ '/' :: behind) = false :=
    looksNumeric_append_slash head.nonempty (head.notNumeric rfl)
  cases f with
  | plain =>
    rw [Flavour.mark, moldSegments_cons]
    exact plain _
  | set =>
    rw [Flavour.mark, moldSegments_cons, List.append_assoc]
    exact plain _
  | get => exact looksNumeric_of_mark (.inl rfl) _
  | lit => exact looksNumeric_of_mark (.inr rfl) _

theorem ofRun_moldSegments (f : Flavour) :
    ofRun (f.mark (moldSegments (first :: second :: rest))) =
      .ok (.path f.pathKind (first :: second :: rest)) := by
  have colon := not_mem_moldSegments head others (c := ':') (by decide) fun _ _ text => text.colon
  have quote := not_mem_moldSegments head others (c := '\'') (by decide) fun _ _ text => text.quote
  obtain ⟨c, leading, notSlash⟩ : ∃ c, (moldSegments (first :: second :: rest)).head? = some c ∧
      c ≠ '/' := head?_moldSegments head
  have read := readSegments?_moldSegments head others
  have numeric : looksNumeric (f.mark (moldSegments (first :: second :: rest))) = false :=
    looksNumeric_mark head f
  have slash : '/' ∈ moldSegments (first :: second :: rest) := by
    rw [moldSegments_cons]
    exact List.mem_append_right _ List.mem_cons_self
  generalize moldSegments (first :: second :: rest) = body at *
  have nonempty : body ≠ [] := List.ne_nil_of_mem slash
  have notWord : body ≠ ['/'] ∧ body ≠ ['/', '/'] := by
    constructor <;> rintro rfl <;> cases leading <;> exact notSlash rfl
  unfold ofRun
  rw [if_neg (by rw [numeric]; exact Bool.false_ne_true), splitFlavour_mark f nonempty colon quote]
  dsimp only
  rw [if_neg, if_pos, read]
  · simp [slash, notWord]
  · rintro ⟨-, same⟩
    rw [leading] at same
    exact notSlash (Option.some.inj same)

end Segments

/-! ## Every run -/

theorem mem_mark {c : Char} {body : List Char} (f : Flavour) (h : c ∈ body) : c ∈ f.mark body := by
  cases f <;> simp [Flavour.mark, h]

theorem continues_mark {f : Flavour} {body : List Char}
    (h : ∀ c ∈ body, Reader.isDelimiter c = false) :
    ∀ c ∈ f.mark body, Reader.isDelimiter c = false := by
  intro c member
  cases f with
  | plain => exact h c member
  | set =>
    rcases List.mem_append.mp member with member | member
    · exact h c member
    · rw [List.mem_singleton.mp member]; decide
  | get =>
    rcases List.mem_cons.mp member with rfl | member
    · decide
    · exact h c member
  | lit =>
    rcases List.mem_cons.mp member with rfl | member
    · decide
    · exact h c member

/-- The datum that a run is read as is molded to a run that is read as it again. -/
theorem ofRun_mold {run : List Char} {d : Datum} (read : ofRun run = .ok d)
    (continues : ∀ c ∈ run, Reader.isDelimiter c = false)
    (decimal : ∀ x, d = .decimal x → Decimal.read? (Decimal.text x).toList = some x) :
    ofRun d.mold = .ok d ∧ ∀ c ∈ d.mold, Reader.isDelimiter c = false := by
  cases readAs_of_ofRun read with
  | integer n =>
    exact ⟨ofRun_intText n,
      fun c member => (ne_of_isNumeric (isNumeric_of_mem_intText member)).1⟩
  | decimal x =>
    have readBack := decimal x rfl
    obtain ⟨l, literal⟩ := Decimal.literal_of_read? readBack
    exact ⟨ofRun_decimalText readBack,
      fun c member => (ne_of_isNumeric (Decimal.isNumeric_of_read? literal c member)).1⟩
  | word kind name same =>
    rw [same]
    exact ⟨read, continues⟩
  | @path f body segments marked slash found =>
    subst marked
    have inner : ∀ c ∈ body, Reader.isDelimiter c = false :=
      fun c member => continues c (mem_mark f member)
    obtain ⟨first, second, rest, rfl, head, others⟩ := segments_of_read slash inner found
    rw [mold, toList_pathKind_mold]
    refine ⟨ofRun_moldSegments head others f, continues_mark fun c member => ?_⟩
    rcases mem_intercalate member with rfl | ⟨l, hl, member⟩
    · decide
    · obtain ⟨segment, hs, rfl⟩ := List.mem_map.mp hl
      obtain ⟨_, text⟩ := exists_segmentText head others hs
      exact text.continues c member

end Datum

end BlockScript
