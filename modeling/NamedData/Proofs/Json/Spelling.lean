import Mathlib.Data.List.Infix
import NamedData.Json.Read
import NamedData.Json.Write

/-!
What it means for a reader to know the spelling of a value.

A spelling is read whatever follows it, as long as a number could not go on there (`Ends`). A spelling
that is cut short is never taken for one that ends: the reader runs out of text (`RunsOut`). Both are
kept together in `Spells`, so that the spelling of a compound value is put together from the spellings
of its parts.
-/
namespace NamedData.Json

variable {α β : Type} {reader : Reader α} {spelling text rest : Bytes} {a : α}

/-- A number that stands in front of this text ends there. -/
def Ends (text : Bytes) : Prop :=
  ∀ b ∈ text.head?, isDigit b = false ∧ b ≠ Sign.dot ∧ isExponentLetter b = false

theorem ends_nil : Ends [] := by simp [Ends]

theorem ends_cons {b : UInt8}
    (stops : isDigit b = false ∧ b ≠ Sign.dot ∧ isExponentLetter b = false) (text : Bytes) :
    Ends (b :: text) := by
  simpa [Ends] using stops

theorem Ends.start {start : Bytes} (ends : Ends text) (part : start <+: text) : Ends start := by
  obtain ⟨more, rfl⟩ := part
  cases start with
  | nil => exact ends_nil
  | cons b start => exact ends

/-- What begins two texts in a row ends in the first, or goes on in the second. -/
theorem prefix_append_cases {start first second : Bytes} (part : start <+: first ++ second) :
    start <+: first ∨ ∃ left, left <+: second ∧ start = first ++ left := by
  rcases List.prefix_or_prefix_of_prefix part (List.prefix_append first second) with inside | beyond
  · exact .inl inside
  · obtain ⟨left, rfl⟩ := beyond
    exact .inr ⟨left, (List.prefix_append_right_inj first).mp part, rfl⟩

/-- What is enclosed in brackets and cut short lacks the closing one. -/
theorem prefix_enclosed {left right : UInt8} {inner start : Bytes}
    (part : start <+: left :: inner ++ [right]) (other : start ≠ left :: inner ++ [right]) :
    start = [] ∨ ∃ first, first <+: inner ∧ start = left :: first := by
  have inside := (List.prefix_concat_iff.mp part).resolve_left other
  cases start with
  | nil => exact .inl rfl
  | cons b first =>
    obtain ⟨rfl, behind⟩ := List.cons_prefix_cons.mp inside
    exact .inr ⟨first, behind, rfl⟩

/-- A reader fails for want of text, or takes all of it. -/
def RunsOut (reader : Reader α) (text : Bytes) : Prop :=
  reader text = .error .truncated ∨ ∃ a, reader text = .ok (a, [])

/-- The first character of a value: it is no blank and closes no array. -/
def Opens (b : UInt8) : Prop := isBlank b = false ∧ b ≠ Sign.closeBracket

instance : DecidablePred Opens := fun b =>
  inferInstanceAs (Decidable (isBlank b = false ∧ b ≠ Sign.closeBracket))

/-- A reader reads a value off its spelling, and runs out of text where the spelling is cut short. -/
structure Spells (reader : Reader α) (spelling : Bytes) (a : α) : Prop where
  starts : ∃ b rest, spelling = b :: rest ∧ Opens b
  reads : ∀ rest, Ends rest → reader (spelling ++ rest) = .ok (a, rest)
  cut : ∀ start, start <+: spelling → start ≠ spelling → RunsOut reader start

theorem Spells.ne_nil (spells : Spells reader spelling a) : spelling ≠ [] := by
  obtain ⟨b, rest, rfl, -⟩ := spells.starts
  simp

/-- A reader runs out of text in every beginning of a spelling, the whole included. -/
theorem Spells.runsOut {start : Bytes} (spells : Spells reader spelling a)
    (part : start <+: spelling) : RunsOut reader start := by
  by_cases whole : start = spelling
  · subst whole
    have read := spells.reads [] ends_nil
    rw [List.append_nil] at read
    exact .inr ⟨a, read⟩
  · exact spells.cut start part whole

/-- Where a spelling stands in front of more text and the whole is cut short, the cut is in the
spelling or behind it. -/
theorem Spells.split {start : Bytes} (spells : Spells reader spelling a) (ends : Ends rest)
    (part : start <+: spelling ++ rest) :
    RunsOut reader start ∨
      ∃ left, left <+: rest ∧ reader start = .ok (a, left) := by
  rcases prefix_append_cases part with inside | ⟨left, beyond, rfl⟩
  · exact .inl (spells.runsOut inside)
  · exact .inr ⟨left, beyond, spells.reads left (ends.start beyond)⟩

/-- Changing what a reader returns leaves the spelling alone. -/
theorem Spells.map (f : α → β) (spells : Spells reader spelling a) :
    Spells (mapRead f reader) spelling (f a) where
  starts := spells.starts
  reads rest ends := by simp only [mapRead, spells.reads rest ends]
  cut start part other := by
    rcases spells.cut start part other with short | ⟨b, taken⟩
    · exact .inl (by simp only [mapRead, short])
    · exact .inr ⟨f b, by simp only [mapRead, taken]⟩

/-! ## Blanks -/

@[simp] theorem skipBlanks_nil : skipBlanks [] = [] := rfl

theorem skipBlanks_cons {b : UInt8} (solid : isBlank b = false) (text : Bytes) :
    skipBlanks (b :: text) = b :: text := by
  simp [skipBlanks, solid]

/-! ## Words -/

/-- A word that is cut short is wanting. -/
theorem word_cut {w start : Bytes} (part : start <+: w) (other : start ≠ w) :
    word w start = .error .truncated := by
  induction w generalizing start with
  | nil => exact absurd (List.prefix_nil.mp part) other
  | cons b w ih =>
    cases start with
    | nil => rfl
    | cons c start =>
      obtain ⟨rfl, inner⟩ := List.cons_prefix_cons.mp part
      simpa [word] using ih inner fun same => other (by rw [same])

theorem spells_writeBool (b : Bool) : Spells bool (writeBool b) b where
  starts := by
    cases b
    · exact ⟨102, _, rfl, by decide⟩
    · exact ⟨116, _, rfl, by decide⟩
  reads rest _ := by cases b <;> rfl
  cut start part other := by
    cases start with
    | nil => exact .inl rfl
    | cons c start =>
      cases b
      · obtain ⟨rfl, inner⟩ := List.cons_prefix_cons.mp part
        have short := word_cut (w := [97, 108, 115, 101]) inner
          fun same => other (congrArg (102 :: ·) same)
        exact .inl (by simp [bool, skipBlanks_cons, isBlank, short])
      · obtain ⟨rfl, inner⟩ := List.cons_prefix_cons.mp part
        have short := word_cut (w := [114, 117, 101]) inner
          fun same => other (congrArg (116 :: ·) same)
        exact .inl (by simp [bool, skipBlanks_cons, isBlank, short])

/-! ## Values that may be absent -/

/-- A value that is there is spelled as itself, unless its spelling could be the word `null`. -/
theorem Spells.optional (spells : Spells reader spelling a)
    (other : ∀ b ∈ spelling.head?, b ≠ 110) : Spells (optional reader) spelling (some a) := by
  obtain ⟨b, tail, rfl, opens⟩ := spells.starts
  have first : b ≠ 110 := other b rfl
  refine ⟨⟨b, tail, rfl, opens⟩, ?_, ?_⟩
  · intro rest ends
    have read := spells.reads rest ends
    rw [List.cons_append] at read ⊢
    simp only [Json.optional, skipBlanks_cons opens.1, if_neg first, read]
  · intro start part short
    have outcome := spells.cut start part short
    cases start with
    | nil =>
      rcases outcome with wanting | ⟨b, taken⟩
      · exact .inl (by simp only [Json.optional, skipBlanks_nil, wanting])
      · exact .inr ⟨some b, by simp only [Json.optional, skipBlanks_nil, taken]⟩
    | cons c start =>
      obtain ⟨rfl, -⟩ := List.cons_prefix_cons.mp part
      rcases outcome with wanting | ⟨b, taken⟩
      · exact .inl (by simp only [Json.optional, skipBlanks_cons opens.1, if_neg first, wanting])
      · exact .inr ⟨some b, by
          simp only [Json.optional, skipBlanks_cons opens.1, if_neg first, taken]⟩

/-- The word `null` spells that there is no value. -/
theorem spells_writeNull (empty : reader [] = .error .truncated) :
    Spells (optional reader) writeNull none where
  starts := ⟨110, _, rfl, by decide⟩
  reads rest _ := rfl
  cut start part other := by
    cases start with
    | nil =>
      refine .inl ?_
      simp only [optional, skipBlanks_nil, empty]
    | cons c start =>
      obtain ⟨rfl, inner⟩ := List.cons_prefix_cons.mp part
      have short := word_cut (w := [117, 108, 108]) inner
        fun same => other (congrArg (110 :: ·) same)
      exact .inl (by simp [optional, skipBlanks_cons, isBlank, short])

/-- An optional value is spelled as itself or as `null`. -/
theorem spells_writeOption {write : α → Bytes} (empty : reader [] = .error .truncated)
    (spells : ∀ a, Spells reader (write a) a) (other : ∀ a, ∀ b ∈ (write a).head?, b ≠ 110)
    (value : Option α) : Spells (optional reader) (writeOption write value) value := by
  cases value with
  | none => exact spells_writeNull empty
  | some a => exact (spells a).optional (other a)

/-! ## Items with commas between them -/

/-- What stands in front of an item of a list. -/
def lead (first : Bool) : Bytes := if first then [] else [Sign.comma]

/-- Items with their commas: all items of a list, or those after the first. -/
def separated (first : Bool) (items : List Bytes) : Bytes :=
  if first then commaSeparated items else items.flatMap (Sign.comma :: ·)

@[simp] theorem separated_nil (first : Bool) : separated first [] = [] := by
  cases first <;> rfl

theorem commaSeparated_cons (item : Bytes) (items : List Bytes) :
    commaSeparated (item :: items) = item ++ separated false items := by
  induction items generalizing item with
  | nil => simp [commaSeparated]
  | cons next items ih =>
    rw [commaSeparated, ih next]
    · simp [separated]
    · simp

theorem separated_cons (first : Bool) (item : Bytes) (items : List Bytes) :
    separated first (item :: items) = lead first ++ (item ++ separated false items) := by
  cases first with
  | true => exact commaSeparated_cons item items
  | false => simp [separated, lead]

/-- A number in front of further items, or of what closes the list, ends there. -/
theorem ends_separated (items : List Bytes) (ends : Ends rest) :
    Ends (separated false items ++ rest) := by
  cases items with
  | nil => simpa using ends
  | cons item items =>
    rw [separated_cons]
    exact ends_cons (by decide) _

/-- Every item takes up some of the text. -/
theorem length_le_separated {items : List Bytes} (solid : ∀ item ∈ items, item ≠ []) (first : Bool) :
    items.length ≤ (separated first items).length := by
  induction items generalizing first with
  | nil => simp
  | cons item items ih =>
    have some : 0 < item.length := List.length_pos_iff.mpr (solid item List.mem_cons_self)
    have others := ih (fun other member => solid other (List.mem_cons_of_mem _ member)) false
    rw [separated_cons]
    simp only [List.length_cons, List.length_append]
    omega

/-! ## Arrays -/

section arrays

variable {element : Reader α} {write : α → Bytes}

theorem moreElements_close (first : Bool) (rest : Bytes) :
    moreElements first (Sign.closeBracket :: rest) = .ok (false, Sign.closeBracket :: rest) := rfl

theorem moreElements_lead {first : Bool} {b : UInt8} {text : Bytes} (opens : Opens b) :
    moreElements first (lead first ++ b :: text) = .ok (true, b :: text) := by
  cases first with
  | true => simp [lead, moreElements, skipBlanks_cons opens.1, opens.2]
  | false =>
    have comma : skipBlanks (Sign.comma :: b :: text) = Sign.comma :: b :: text := skipBlanks_cons rfl _
    have other : Sign.comma ≠ Sign.closeBracket := by decide
    simp [lead, moreElements, comma, skipBlanks_cons opens.1, opens.2, other]

/-- An array that is cut short in front of an element is wanting. -/
theorem moreElements_cut {first : Bool} {start : Bytes} (part : start <+: lead first) :
    moreElements first start = .error .truncated := by
  cases start with
  | nil => rfl
  | cons b start =>
    cases first with
    | true => simp [lead] at part
    | false =>
      obtain ⟨rfl, inner⟩ := List.cons_prefix_cons.mp part
      rw [List.prefix_nil.mp inner]
      rfl

theorem elements_nil (bound : Bytes) :
    elements element bound false [] = .error .truncated := by
  cases bound <;> rfl

/-- The elements of an array are read up to its closing bracket. -/
theorem elements_reads (spells : ∀ a, Spells element (write a) a) (as : List α) (bound : Bytes)
    (enough : as.length < bound.length) (first : Bool) (rest : Bytes) :
    elements element bound first
        (separated first (as.map write) ++ Sign.closeBracket :: rest) =
      .ok (as, Sign.closeBracket :: rest) := by
  induction as generalizing bound first with
  | nil =>
    cases bound with
    | nil => simp at enough
    | cons c bound => simp [elements, moreElements_close]
  | cons a as ih =>
    cases bound with
    | nil => simp at enough
    | cons c bound =>
      have fewer : as.length < bound.length := by simpa using enough
      obtain ⟨b, tail, written, opens⟩ := (spells a).starts
      have read := (spells a).reads (separated false (as.map write) ++ Sign.closeBracket :: rest)
        (ends_separated _ (ends_cons (by decide) rest))
      rw [written, List.cons_append] at read
      rw [List.map_cons, separated_cons, written, List.append_assoc, List.append_assoc,
        List.cons_append]
      simp only [elements, moreElements_lead opens, read, ih bound fewer]

/-- Elements that are cut short are wanting. -/
theorem elements_cut (spells : ∀ a, Spells element (write a) a) (as : List α) (bound : Bytes)
    {first : Bool} {start : Bytes} (part : start <+: separated first (as.map write)) :
    elements element bound first start = .error .truncated := by
  induction as generalizing bound first start with
  | nil =>
    rw [List.map_nil, separated_nil, List.prefix_nil] at part
    subst part
    cases bound <;> rfl
  | cons a as ih =>
    cases bound with
    | nil => rfl
    | cons c bound =>
      rw [List.map_cons, separated_cons] at part
      rcases prefix_append_cases part with short | ⟨left, inside, rfl⟩
      · simp only [elements, moreElements_cut short]
      · cases left with
        | nil =>
          rw [List.append_nil]
          simp only [elements, moreElements_cut (List.prefix_refl _)]
        | cons b left =>
          have opens : Opens b := by
            obtain ⟨other, tail, written, opens⟩ := (spells a).starts
            rw [written, List.cons_append] at inside
            rwa [(List.cons_prefix_cons.mp inside).1]
          have ends : Ends (separated false (as.map write)) := by
            simpa using ends_separated (as.map write) ends_nil
          simp only [elements, moreElements_lead opens]
          rcases (spells a).split ends inside with (wanting | ⟨other, taken⟩) | ⟨left, more, read⟩
          · simp only [wanting]
          · simp only [taken, elements_nil]
          · simp only [read, ih bound more]

/-- An array is read back whatever follows it. -/
theorem array_reads (spells : ∀ a, Spells element (write a) a) (as : List α) (rest : Bytes) :
    array element (writeArray (as.map write) ++ rest) = .ok (as, rest) := by
  have solid : ∀ item ∈ as.map write, item ≠ [] := by
    intro item member
    obtain ⟨a, -, rfl⟩ := List.mem_map.mp member
    exact (spells a).ne_nil
  have enough := length_le_separated solid true
  rw [List.length_map] at enough
  have text : writeArray (as.map write) ++ rest =
      Sign.openBracket :: (separated true (as.map write) ++ Sign.closeBracket :: rest) := by
    simp [writeArray, separated]
  have read := elements_reads spells as
    (Sign.openBracket :: (separated true (as.map write) ++ Sign.closeBracket :: rest))
    (by simp; omega) true rest
  rw [text]
  simp [array, skipBlanks_cons (b := Sign.openBracket) rfl, read, closeArray,
    skipBlanks_cons (b := Sign.closeBracket) rfl]

/-- An array that is cut short is wanting. -/
theorem array_cut (spells : ∀ a, Spells element (write a) a) (as : List α) {start : Bytes}
    (part : start <+: writeArray (as.map write)) (other : start ≠ writeArray (as.map write)) :
    array element start = .error .truncated := by
  rcases prefix_enclosed part other with rfl | ⟨first, inside, rfl⟩
  · rfl
  · have cut : elements element (Sign.openBracket :: first) true first = .error .truncated :=
      elements_cut spells as _ inside
    simp [array, skipBlanks_cons (b := Sign.openBracket) rfl, cut]

theorem spells_writeArray (spells : ∀ a, Spells element (write a) a) (as : List α) :
    Spells (array element) (writeArray (as.map write)) as where
  starts := ⟨Sign.openBracket, _, rfl, by decide⟩
  reads rest _ := array_reads spells as rest
  cut start part other := .inl (array_cut spells as part other)

end arrays

end NamedData.Json
