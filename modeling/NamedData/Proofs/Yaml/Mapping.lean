import NamedData.Proofs.Yaml.Plain

/-!
Block mappings of plain scalars.

A text that holds one entry to a line (`Lines`), each a plain key, a colon and perhaps a plain value
(`Entry`), is read as the mapping of these entries, in their order (`ofChars?_lines`). What is carried along
the lines is that the reader stands at the beginning of one, behind which nothing is indented.
-/
namespace NamedData.Yaml

/-- A key and its value, of which the value may be missing. -/
structure Entry where
  key : List Char
  value : List Char := []

namespace Entry

/-- What is written behind the colon of a key. -/
def tail (e : Entry) : List Char :=
  match e.value with
  | [] => []
  | value => ' ' :: value

theorem tail_of_ne_nil {e : Entry} (given : e.value ≠ []) : e.tail = ' ' :: e.value := by
  rw [tail]
  split
  · next missing => exact absurd missing given
  · rfl

/-- The line of an entry. -/
def chars (e : Entry) : List Char := e.key ++ ':' :: e.tail

/-- What an entry says. -/
def nodes (e : Entry) : Node × Node := (.scalar .plain none e.key, .scalar .plain none e.value)

end Entry

/-- A text that may be a key at the beginning of a line: a plain scalar that is not too long, and that does
not look like the beginning or the end of a document. -/
structure IsKey (text : List Char) : Prop where
  plain : IsPlain [':'] text
  short : text.length ≤ 1024
  noMarker : ∀ mark ∈ ['-', '.'], ∀ c rest, text = mark :: mark :: mark :: c :: rest → isGap c = false

/-- An entry that may stand on a line. -/
structure Entry.IsWritten (e : Entry) : Prop where
  key : IsKey e.key
  value : e.value = [] ∨ IsPlain [] e.value

/-- A text that holds some entries, each on a line of its own. -/
inductive Lines : List Entry → List Char → Prop where
  | nil : Lines [] []
  | line (e : Entry) {entries : List Entry} {rest later : List Char} (ends : LineEnd rest later)
      (more : Lines entries later) : Lines (e :: entries) (e.chars ++ rest)

variable {e : Entry} {entries : List Entry} {rest later text : List Char} {p : Place} {fuel : Nat}

/-- Entries whose lines all have a break behind them. -/
theorem lines_flatMap (entries : List Entry) : Lines entries (entries.flatMap fun e => e.chars ++ ['\n']) := by
  induction entries with
  | nil => exact .nil
  | cons e entries ih =>
    rw [List.flatMap_cons, List.append_assoc]
    exact .line e (.broken _) ih

/-! ## One line -/

theorem Entry.IsWritten.begins (written : e.IsWritten) (rest : List Char) : BeginsPlain (e.chars ++ rest) := by
  have plain : IsPlain (':' :: (e.tail ++ rest)) e.key := written.key.plain.congr rfl
  rw [Entry.chars, List.append_assoc]
  exact plain.begins

theorem Lines.begins (lines : Lines entries text) (written : ∀ e ∈ entries, e.IsWritten) :
    text = [] ∨ BeginsPlain text := by
  cases lines with
  | nil => exact .inl rfl
  | line e ends more => exact .inr ((written e List.mem_cons_self).begins _)

/-- Behind three dashes or dots that a line begins with, a key goes on or is over. -/
theorem IsKey.startsGap_eq_false (key : IsKey text) {mark : Char} (known : mark ∈ ['-', '.'])
    (stands : text ++ ':' :: rest = mark :: mark :: mark :: later) : startsGap later = false := by
  have colon : ':' ≠ mark := by
    rintro rfl
    exact absurd known (by decide)
  match text, stands with
  | [], stands => exact absurd (List.cons.inj stands).1 colon
  | [_], stands => simp [colon] at stands
  | [_, _], stands => simp [colon] at stands
  | [_, _, _], stands =>
    simp only [List.cons_append, List.nil_append, List.cons.injEq] at stands
    rw [← stands.2.2.2]
    rfl
  | a :: b :: d :: c :: more, stands =>
    simp only [List.cons_append, List.cons.injEq] at stands
    obtain ⟨rfl, rfl, rfl, rfl⟩ := stands
    have inLine : c ≠ '\n' := (key.plain.content c (by simp)).ne_newline
    simp [startsGap, key.noMarker _ known c more rfl, inLine]

/-- A line that begins with a key does not begin or end a document. -/
theorem IsKey.atMarker_eq_false (key : IsKey text) (stands : p.rest = text ++ ':' :: rest) :
    p.atMarker = false := by
  rw [Place.atMarker, Bool.and_eq_false_iff, stands]
  right
  split
  · next marked => exact key.startsGap_eq_false (by decide) marked
  · next marked => exact key.startsGap_eq_false (by decide) marked
  · rfl

/-- Behind a key stands a colon, and behind the colon a blank or the end of the line. -/
theorem Entry.startsGap_tail (e : Entry) (ends : LineEnd rest later) : startsGap (e.tail ++ rest) = true := by
  rw [tail]
  split
  · exact ends.startsGap
  · rfl

/-- A reader that stands at the line of an entry: the document is not over there, and what stands there is the
key of the entry. -/
structure Place.FindsKey (p : Place) (e : Entry) (rest : List Char) : Prop where
  begins : BeginsPlain p.rest
  column : p.column = 0
  inside : p.atMarker = false
  key : ∃ behind : Place, behind.rest = e.tail ++ rest ∧
    ∀ fuel least, implicitKey? (fuel + 2) least p = some (e.nodes.1, behind)

theorem Place.FindsKey.atEnd_eq_false (finds : p.FindsKey e rest) : p.atEnd = false := by
  rw [Place.atEnd, finds.inside]
  simp [finds.begins.ne_nil]

theorem Entry.IsWritten.findsKey (written : e.IsWritten) (ends : LineEnd rest later)
    (starts : p.StartsLine (e.chars ++ rest)) : p.FindsKey e rest := by
  have begins : BeginsPlain p.rest := starts.rest ▸ written.begins rest
  have stands : p.rest = e.key ++ ':' :: (e.tail ++ rest) := by
    rw [starts.rest, Entry.chars, List.append_assoc, List.cons_append]
  refine ⟨begins, starts.column (starts.rest ▸ begins.ne_nil), written.key.atMarker_eq_false stands, ?_⟩
  refine ⟨p.to (e.tail ++ rest) (p.column + e.key.length + 1), rfl, fun fuel least => ?_⟩
  exact implicitKey?_key written.key.plain written.key.short (e.startsGap_tail ends) stands

/-- What stands behind the colon of an entry is its value. -/
theorem Entry.IsWritten.value_read (written : e.IsWritten) (ends : LineEnd rest later)
    (begins : later = [] ∨ BeginsPlain later) (stands : p.rest = e.tail ++ rest) (dash : Bool) :
    ∃ q, blockNode? (fuel + 3) 1 false dash p = some (e.nodes.2, q) ∧ q.StartsLine later := by
  obtain ⟨key, value⟩ := e
  cases value with
  | nil => exact blockNode?_blank ends begins stands dash
  | cons c value =>
    have plain := written.value.resolve_left (List.cons_ne_nil c value)
    exact blockNode?_value plain ends begins stands dash

/-! ## All lines -/

/-- The entries of a block mapping are those of its lines. -/
theorem blockEntries?_lines (lines : Lines entries text) (written : ∀ e ∈ entries, e.IsWritten)
    (enough : entries.length + 4 ≤ fuel) (starts : p.StartsLine text) :
    ∃ q, blockEntries? fuel 0 p = some (entries.map Entry.nodes, q) ∧ q.rest = [] := by
  induction lines generalizing fuel p with
  | nil =>
    obtain ⟨fuel, rfl⟩ := Nat.exists_eq_add_of_le' (by omega : 1 ≤ fuel)
    refine ⟨p, ?_, starts.rest⟩
    rw [blockEntries?, toNext_nil starts.rest]
    simp [Place.atEnd, starts.rest]
  | @line e entries rest later ends more ih =>
    rw [List.forall_mem_cons] at written
    rw [List.length_cons] at enough
    -- Each entry takes one unit of fuel, and reading its value needs three more.
    obtain ⟨fuel, rfl⟩ := Nat.exists_eq_add_of_le' (by omega : 4 ≤ fuel)
    have finds := written.1.findsKey ends starts
    obtain ⟨behind, colon, key⟩ := finds.key
    obtain ⟨next, value, starting⟩ : ∃ next, blockNode? (fuel + 3) 1 false true behind =
        some (e.nodes.2, next) ∧ next.StartsLine later :=
      written.1.value_read ends (more.begins written.2) colon true
    obtain ⟨last, others, ended⟩ := ih written.2 (by omega : entries.length + 4 ≤ fuel + 3) starting
    refine ⟨last, ?_, ended⟩
    rw [blockEntries?, toNext_eq finds.begins]
    simp [finds.atEnd_eq_false, finds.column, finds.begins.startsWith_eq_false '?' (by decide), key, value,
      others]

/-- Where the line of an entry begins, so does a block mapping. -/
theorem blockNode?_lines (lines : Lines (e :: entries) text)
    (written : ∀ other ∈ e :: entries, other.IsWritten) (enough : entries.length + 6 ≤ fuel)
    (starts : p.StartsLine text) :
    ∃ q, blockNode? fuel 0 true false p = some (.mapping ((e :: entries).map Entry.nodes), q) ∧
      q.rest = [] := by
  obtain ⟨fuel, rfl⟩ := Nat.exists_eq_add_of_le' (by omega : 3 ≤ fuel)
  have many : (e :: entries).length + 4 ≤ fuel + 2 := by
    rw [List.length_cons]
    omega
  obtain ⟨last, read, ended⟩ := blockEntries?_lines lines written many starts
  refine ⟨last, ?_, ended⟩
  cases lines with
  | line e ends more =>
    have finds := (written e List.mem_cons_self).findsKey ends starts
    obtain ⟨behind, -, key⟩ := finds.key
    rw [blockNode?, toNext_eq finds.begins]
    simp only [finds.atEnd_eq_false, finds.column, finds.begins.startsWith_eq_false '-' (by decide), key, read]
    simp

/-! ## The whole text -/

/-- The characters of a line are read as they are. -/
def IsLegible (c : Char) : Prop := isPrintable c = true ∧ (c = '\n' ∨ c ∉ lineEnds)

theorem IsContent.isLegible {c : Char} (content : IsContent c) : IsLegible c :=
  ⟨content.printable, .inr content.inLine⟩

theorem isLegible_of_mem {c : Char} (member : c ∈ [' ', ':', '\n']) : IsLegible c := by
  simp only [List.mem_cons, List.not_mem_nil, or_false] at member
  rcases member with rfl | rfl | rfl <;> exact ⟨by decide, by decide⟩

theorem Entry.IsWritten.legible (written : e.IsWritten) : ∀ c ∈ e.chars, IsLegible c := by
  have tail : ∀ c ∈ e.tail, IsLegible c := by
    rw [Entry.tail]
    split
    · exact fun c never => nomatch never
    · next value missing =>
      rw [List.forall_mem_cons]
      refine ⟨isLegible_of_mem (by decide), fun c member => ?_⟩
      exact ((written.value.resolve_left missing).content c member).isLegible
  simp only [Entry.chars, List.forall_mem_append, List.forall_mem_cons]
  exact ⟨fun c member => (written.key.plain.content c member).isLegible, isLegible_of_mem (by decide), tail⟩

theorem Lines.legible (lines : Lines entries text) (written : ∀ e ∈ entries, e.IsWritten) :
    ∀ c ∈ text, IsLegible c := by
  induction lines with
  | nil => exact fun c never => nomatch never
  | line e ends more ih =>
    rw [List.forall_mem_cons] at written
    rw [List.forall_mem_append]
    refine ⟨written.1.legible, ?_⟩
    cases ends with
    | last => exact fun c never => nomatch never
    | broken =>
      rw [List.forall_mem_cons]
      exact ⟨isLegible_of_mem (by decide), ih written.2⟩

/-- No character of a line stands for a line break. -/
theorem IsLegible.noBreak {c : Char} (legible : IsLegible c) :
    (c == '\r' || c.toNat == 0x85 || c.toNat == 0x2028 || c.toNat == 0x2029) = false := by
  rcases legible.2 with rfl | inLine
  · decide
  · have ne : ∀ other ∈ lineEnds, c ≠ other := fun other member same => inLine (same ▸ member)
    have code : ∀ n, Char.ofNat n ∈ lineEnds → c.toNat ≠ n := by
      rintro n member rfl
      exact ne _ member (Char.ofNat_toNat c).symm
    simp [ne '\r' (by decide), code 0x85 (by decide), code 0x2028 (by decide), code 0x2029 (by decide)]

theorem unifyBreaks_eq (legible : ∀ c ∈ text, IsLegible c) : unifyBreaks text = text := by
  induction text using unifyBreaks.induct with
  | case1 => rfl
  | case2 rest ih =>
    have carriage := (legible '\r' List.mem_cons_self).2
    exact absurd carriage (by decide)
  | case3 c rest lone ih =>
    rw [List.forall_mem_cons] at legible
    rw [unifyBreaks, ih legible.2]
    · simp only [legible.1.noBreak]
      rfl
    · exact lone

theorem Lines.length_le (lines : Lines entries text) : entries.length ≤ text.length := by
  induction lines with
  | nil => exact Nat.le_refl 0
  | line e ends more ih =>
    cases ends with
    | last =>
      simp only [List.length_nil, List.length_cons, List.length_append, Entry.chars] at ih ⊢
      omega
    | broken =>
      simp only [List.length_cons, List.length_append, Entry.chars] at ih ⊢
      omega

/-- What a text of some entries says: nothing at all if there is none. -/
def Entry.document : List Entry → Node
  | [] => .blank
  | entries => .mapping (entries.map nodes)

/-- No directive stands where a plain scalar begins. -/
theorem directives?_eq (begins : BeginsPlain p.rest) :
    directives? (fuel + 1) false false p = some (false, p) := by
  rw [directives?, toNext_eq begins]
  dsimp only
  split
  · next rest column stands => exact absurd stands (begins.head_ne (by decide) rest)
  · rfl

/-- **Lines of plain scalars are a mapping.** A text that holds one entry to a line, each with a plain key
and a plain value or none, is read as the mapping of these entries, in their order. -/
theorem ofChars?_lines (lines : Lines entries text) (written : ∀ e ∈ entries, e.IsWritten) :
    Node.ofChars? text = some (Entry.document entries) := by
  have legible := lines.legible written
  have printable : text.all isPrintable = true := List.all_eq_true.mpr fun c member => (legible c member).1
  have few := lines.length_le
  rw [Node.ofChars?, printable, unifyBreaks_eq legible]
  cases entries with
  | nil =>
    cases lines
    rfl
  | cons e entries =>
    rw [List.length_cons] at few
    have starts : (Place.mk text 0 [] []).StartsLine text := ⟨rfl, fun _ => rfl⟩
    obtain ⟨last, read, ended⟩ : ∃ last,
        blockNode? (4 * text.length + 16) 0 true false ⟨text, 0, [], []⟩ =
          some (.mapping ((e :: entries).map Entry.nodes), last) ∧ last.rest = [] :=
      blockNode?_lines lines written (by omega) starts
    cases lines with
    | @line _ _ rest later ends more =>
      have finds := (written e List.mem_cons_self).findsKey ends starts
      simp only [Bool.not_true, Bool.false_eq_true, if_false, directives?_eq finds.begins, finds.inside,
        Bool.false_and, Bool.or_self, read, nothingLeft, toNext_nil ended, ended]
      simp [Entry.document]

end NamedData.Yaml
