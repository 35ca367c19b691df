import Mathlib
import NamedData.Yaml.Document

/-!
Plain scalars on one line.

What a plain scalar may hold depends on what stands behind it: a colon ends it if a blank, a line break or
nothing follows. So a text is plain in front of another one (`IsPlain`), and of that one only counts whether
it begins with a blank or is over. Such a text is read to its end and no further, as a key in front of a
colon (`implicitKey?_key`) and as a value at the end of a line (`blockNode?_value`).
-/
namespace NamedData.Yaml

/-- The characters that a plain scalar may begin with if something stands right behind them. -/
def marks : List Char := ['-', '?', ':']

/-- The characters that anything but a plain scalar begins with. -/
def indicators : List Char :=
  [',', '[', ']', '{', '}', '#', '&', '*', '!', '|', '>', '\'', '"', '%', '@', Char.ofNat 0x60]

/-- The characters that end a line. -/
def lineEnds : List Char := ['\n', '\r', Char.ofNat 0x85, Char.ofNat 0x2028, Char.ofNat 0x2029]

/-- The characters that a line may hold. -/
structure IsContent (c : Char) : Prop where
  printable : isPrintable c = true
  inLine : c ∉ lineEnds
  noMark : c ≠ byteOrderMark

/-- The texts that a plain scalar may begin with: no blank and no indicator comes first, nor a mark alone. -/
inductive BeginsPlain : List Char → Prop where
  | cons {c : Char} {rest : List Char} (content : IsContent c) (solid : isGap c = false)
      (plain : c ∉ indicators) (joined : c ∈ marks → startsGap rest = false) : BeginsPlain (c :: rest)

/-- A text that is a plain scalar of one line in front of another text. -/
structure IsPlain (next text : List Char) : Prop where
  nonempty : text ≠ []
  content : ∀ c ∈ text, IsContent c
  begins : BeginsPlain (text ++ next)
  colon : ∀ before after, text = before ++ ':' :: after → startsGap (after ++ next) = false
  comment : ∀ before c after, text = before ++ c :: '#' :: after → isGap c = false
  ends : ∀ c ∈ text.getLast?, isGap c = false

variable {next rest text whole : List Char}

theorem IsContent.ne_newline {c : Char} (content : IsContent c) : c ≠ '\n' := by
  rintro rfl
  exact content.inLine (by decide)

theorem startsGap_append_congr (same : startsGap rest = startsGap next) (text : List Char) :
    startsGap (text ++ rest) = startsGap (text ++ next) := by
  cases text with
  | nil => exact same
  | cons => rfl

/-- Of what stands behind a plain scalar only counts whether it begins with a blank or is over. -/
theorem IsPlain.congr (plain : IsPlain next text) (same : startsGap rest = startsGap next) :
    IsPlain rest text where
  nonempty := plain.nonempty
  content := plain.content
  begins := by
    have begins := plain.begins
    obtain ⟨c, later, rfl⟩ := List.exists_cons_of_ne_nil plain.nonempty
    rw [List.cons_append] at begins ⊢
    cases begins with
    | cons content solid plain joined =>
      exact .cons content solid plain fun mark => (startsGap_append_congr same later).trans (joined mark)
  colon before after split := by
    rw [startsGap_append_congr same]
    exact plain.colon before after split
  comment := plain.comment
  ends := plain.ends

/-! ## Where a plain scalar begins -/

theorem mem_indicators_of_isFlowIndicator {c : Char} (flow : isFlowIndicator c = true) :
    c ∈ indicators := by
  simp only [isFlowIndicator, Bool.or_eq_true, beq_iff_eq] at flow
  rcases flow with (((rfl | rfl) | rfl) | rfl) | rfl <;> decide

namespace BeginsPlain

/-- A plain scalar does not begin with what other nodes begin with. -/
theorem head_ne (begins : BeginsPlain whole) {indicator : Char} (other : indicator ∈ indicators)
    (later : List Char) : whole ≠ indicator :: later := by
  rintro rfl
  cases begins with
  | cons content solid plain joined => exact plain other

theorem ne_nil (begins : BeginsPlain whole) : whole ≠ [] := by
  rintro rfl
  cases begins

/-- A mark that a plain scalar begins with has no blank behind it. -/
theorem startsWith_eq_false (begins : BeginsPlain whole) (mark : Char) (known : mark ∈ marks) :
    startsWith mark whole = false := by
  cases begins with
  | @cons c later content solid plain joined =>
    rw [startsWith, Bool.and_eq_false_iff]
    by_cases same : c = mark
    · exact .inr (joined (same ▸ known))
    · exact .inl (beq_eq_false_iff_ne.mpr same)

/-- There are no blanks to pass over where a plain scalar begins. -/
theorem skipBlanks_eq (begins : BeginsPlain whole) (flow keys : Bool) (column : Nat) :
    skipBlanks flow false keys column whole = (keys, column, whole) := by
  cases begins with
  | @cons c later content solid plain joined =>
    have comment : c ≠ '#' := by
      rintro rfl
      exact plain (by decide)
    simp only [isGap, Bool.or_eq_false_iff, beq_eq_false_iff_ne] at solid
    simp [skipBlanks, content.ne_newline, comment, solid.1, solid.2, content.noMark]

theorem startsPlain_eq_true (begins : BeginsPlain whole) : startsPlain false whole = true := by
  cases begins with
  | @cons c later content solid plain joined =>
    by_cases mark : c ∈ marks
    · have noGap := joined mark
      simp only [marks, List.mem_cons, List.not_mem_nil, or_false] at mark
      rcases mark with rfl | rfl | rfl <;> simp [startsPlain, noGap]
    · have special : ∀ c ∈ "#&*!|>'\"%@\u0060".toList, c ∈ indicators := by simp [indicators]
      have free : isFlowIndicator c = false ∧ "#&*!|>'\"%@\u0060".toList.contains c = false := by
        constructor
        · exact eq_false_of_ne_true fun flow => plain (mem_indicators_of_isFlowIndicator flow)
        · exact eq_false_of_ne_true fun found => plain (special c (List.contains_iff_mem.mp found))
      have inLine : (c == '\n') = false := beq_eq_false_iff_ne.mpr content.ne_newline
      simp only [marks, List.mem_cons, List.not_mem_nil, or_false, not_or] at mark
      simp only [startsPlain, mark, if_false, Bool.or_self, decide_false, Bool.false_eq_true, solid, inLine,
        free.1, free.2, Bool.not_false]

end BeginsPlain

/-! ## How far a plain scalar goes -/

/-- Whether a plain scalar is over where a text begins: at the end of a line, or at the colon behind a key. -/
inductive Stops : List Char → Prop where
  | ended : Stops []
  | line (later : List Char) : Stops ('\n' :: later)
  | key {later : List Char} (blank : startsGap later = true) : Stops (':' :: later)

theorem Stops.plainLine_eq (stops : Stops rest) (behindGap : Bool) (column : Nat) :
    plainLine false behindGap column rest = ([], column, rest) := by
  cases stops with
  | ended => rfl
  | line later => simp [plainLine]
  | key blank => simp [plainLine, isGap, endsPlain, blank]

/-- The part of a plain scalar that is still to be read, in front of what follows the scalar. -/
structure Remains (rest : List Char) (behindGap : Bool) (text : List Char) : Prop where
  inLine : '\n' ∉ text
  colon : ∀ before after, text = before ++ ':' :: after → startsGap (after ++ rest) = false
  comment : ∀ before c after, text = before ++ c :: '#' :: after → isGap c = false
  ends : ∀ c ∈ text.getLast?, isGap c = false
  noComment : behindGap = true → text.head? ≠ some '#'

namespace Remains

variable {behindGap : Bool} {c : Char}

theorem tail (remains : Remains rest behindGap (c :: text)) : Remains rest (isGap c) text where
  inLine := fun found => remains.inLine (List.mem_cons_of_mem c found)
  colon before after split := remains.colon (c :: before) after (split ▸ rfl)
  comment before other after split := remains.comment (c :: before) other after (split ▸ rfl)
  ends last found := remains.ends last (by rw [List.getLast?_cons, found]; rfl)
  noComment gap begins := by
    obtain ⟨later, rfl⟩ := List.head?_eq_some_iff.mp begins
    exact absurd (remains.comment [] c later rfl) (by simp [gap])

/-- A blank does not end a plain scalar. -/
theorem ne_nil_of_isGap (remains : Remains rest behindGap (c :: text)) (gap : isGap c = true) :
    text ≠ [] := by
  rintro rfl
  exact absurd (remains.ends c rfl) (by simp [gap])

theorem endsPlain_eq_false (remains : Remains rest behindGap (c :: text)) :
    endsPlain false (c :: (text ++ rest)) = false := by
  rw [endsPlain]
  split
  · next isColon =>
    subst isColon
    simp [remains.colon [] text rfl]
  · rfl

/-- What remains of a plain scalar is read up to where the scalar is over. -/
theorem plainLine_append (remains : Remains rest behindGap text) (stops : Stops rest) (column : Nat) :
    plainLine false behindGap column (text ++ rest) = (text, column + text.length, rest) := by
  induction text generalizing behindGap column with
  | nil => exact stops.plainLine_eq behindGap column
  | cons c text ih =>
    have onwards := ih remains.tail (column + 1)
    have length : column + 1 + text.length = column + (c :: text).length := by
      rw [List.length_cons]
      omega
    have inLine : c ≠ '\n' := fun same => remains.inLine (same ▸ List.mem_cons_self)
    rw [List.cons_append, plainLine, if_neg inLine]
    cases gap : isGap c with
    | true =>
      rw [gap, length] at onwards
      simp [onwards, remains.ne_nil_of_isGap gap]
    | false =>
      have noHash : (behindGap && c == '#') = false := by
        rw [Bool.and_eq_false_imp]
        intro behind
        rw [beq_eq_false_iff_ne]
        rintro rfl
        exact remains.noComment behind rfl
      rw [gap, length] at onwards
      simp [remains.endsPlain_eq_false, noHash, onwards]

end Remains

theorem IsPlain.remains (plain : IsPlain rest text) : Remains rest false text where
  inLine := fun found => (plain.content _ found).ne_newline rfl
  colon := plain.colon
  comment := plain.comment
  ends := plain.ends
  noComment := fun never => nomatch never

/-! ## Reading a plain scalar -/

variable {p : Place} {later : List Char} {least fuel : Nat}

/-- The end of a line, and what stands on the lines behind it. The last line may do without its break. -/
inductive LineEnd : List Char → List Char → Prop where
  | last : LineEnd [] []
  | broken (later : List Char) : LineEnd ('\n' :: later) later

/-- Whether a reader stands at the beginning of a line, or behind the last one. -/
structure Place.StartsLine (p : Place) (later : List Char) : Prop where
  rest : p.rest = later
  column : later ≠ [] → p.column = 0

theorem LineEnd.stops (ends : LineEnd rest later) : Stops rest := by
  cases ends with
  | last => exact .ended
  | broken => exact .line later

theorem LineEnd.startsGap (ends : LineEnd rest later) : startsGap rest = true := by
  cases ends with
  | last => rfl
  | broken => rfl

/-- A line break is passed over, and nothing else if the next line is not indented. -/
theorem lineBreaks?_break (begins : later = [] ∨ BeginsPlain later) (column : Nat) :
    lineBreaks? least 0 column ('\n' :: later) = some (1, 0, later) := by
  rw [lineBreaks?, if_pos rfl]
  rcases begins with rfl | begins
  · rfl
  · cases begins with
    | cons content solid plain joined =>
      simp only [isGap, Bool.or_eq_false_iff, beq_eq_false_iff_ne] at solid
      rw [lineBreaks?, if_neg content.ne_newline, if_neg solid.1, if_neg solid.2]

/-- A plain scalar in front of a colon is a key. -/
theorem plain?_key (plain : IsPlain [':'] text) (blank : startsGap later = true)
    (stands : p.rest = text ++ ':' :: later) :
    plain? false least p =
      some (.scalar .plain none text, p.to (':' :: later) (p.column + text.length)) := by
  have plain : IsPlain (':' :: later) text := plain.congr rfl
  have line := plain.remains.plainLine_append (.key blank) p.column
  rw [plain?, stands, line]
  simp [plainLines, Place.to]

/-- A plain scalar at the end of a line is over where the next line is not indented. -/
theorem plain?_value (plain : IsPlain [] text) (ends : LineEnd rest later)
    (begins : later = [] ∨ BeginsPlain later) (stands : p.rest = text ++ rest) :
    ∃ q, plain? false (least + 1) p = some (.scalar .plain none text, q) ∧ q.StartsLine later := by
  have line := (plain.congr ends.startsGap).remains.plainLine_append ends.stops p.column
  rw [plain?, stands, line]
  cases ends with
  | last => exact ⟨_, by simp [plainLines]; rfl, rfl, by simp⟩
  | broken =>
    refine ⟨p.to later 0, ?_, rfl, fun _ => rfl⟩
    simp [plainLines, lineBreaks?_break begins, Place.to]

/-! ## Nodes without properties -/

theorem Properties.attach_none (node : Node) (p : Place) : ({} : Properties).attach node p = (node, p) := by
  cases node <;> rfl

/-- Where a plain scalar begins, no anchor and no tag stands. -/
theorem properties?_eq (begins : BeginsPlain p.rest) : properties? false 3 {} p = some ({}, p) := by
  rw [properties?]
  split
  · next later stands => exact absurd stands (begins.head_ne (by decide) later)
  · next later stands => exact absurd stands (begins.head_ne (by decide) later)
  · rfl

/-- A line is not over where a plain scalar begins. -/
theorem lineIsOver_eq_false (begins : BeginsPlain p.rest) : p.lineIsOver = false := by
  rw [Place.lineIsOver]
  split
  · next stands => exact absurd stands begins.ne_nil
  · next c later stands =>
    have comment : c ≠ '#' := by
      rintro rfl
      exact begins.head_ne (by decide) later stands
    rw [stands] at begins
    cases begins with
    | cons content solid plain joined => simp [comment, content.ne_newline]

theorem inlineContent?_eq (begins : BeginsPlain p.rest) (q : Properties) :
    inlineContent? (fuel + 1) false least q p = plain? false least p := by
  rw [inlineContent?]
  split
  · next later stands => exact absurd stands (begins.head_ne (by decide) later)
  · next later stands => exact absurd stands (begins.head_ne (by decide) later)
  · next later stands => exact absurd stands (begins.head_ne (by decide) later)
  · next later stands => exact absurd stands (begins.head_ne (by decide) later)
  · next later stands => exact absurd stands (begins.head_ne (by decide) later)
  · rw [if_pos begins.startsPlain_eq_true]

/-- Outside of flow collections, what begins like a plain scalar is one. -/
theorem inline?_eq (begins : BeginsPlain p.rest) :
    inline? (fuel + 2) false least p = plain? false least p := by
  obtain ⟨c, later, stands⟩ := List.exists_cons_of_ne_nil begins.ne_nil
  have colon := begins.startsWith_eq_false ':' (by decide)
  rw [inline?]
  simp only [Bool.false_and, Bool.false_eq_true, if_false, properties?_eq begins,
    lineIsOver_eq_false begins, colon, Bool.or_self, inlineContent?_eq begins,
    Properties.attach_none]
  simp [stands]

/-! ## Keys and values -/

theorem toNext_eq (begins : BeginsPlain p.rest) (keys : Bool) : p.toNext false keys = (keys, p) := by
  rw [Place.toNext, begins.skipBlanks_eq]
  rfl

theorem toNext_nil (ended : p.rest = []) (keys : Bool) : p.toNext false keys = (keys, p) := by
  rw [Place.toNext, ended]
  simp [skipBlanks, Place.to, ← ended]

theorem skipGap_eq (begins : BeginsPlain p.rest) : p.skipGap = p := by
  obtain ⟨c, later, stands⟩ := List.exists_cons_of_ne_nil begins.ne_nil
  have solid : ¬ isGap c = true := by
    rw [stands] at begins
    cases begins with
    | cons content solid plain joined => simp [solid]
  rw [Place.skipGap, stands, List.takeWhile_cons_of_neg solid]
  rfl

/-- A plain scalar with a colon behind it is a key if it is not too long. -/
theorem implicitKey?_key (plain : IsPlain [':'] text) (short : text.length ≤ 1024)
    (blank : startsGap later = true) (stands : p.rest = text ++ ':' :: later) :
    implicitKey? (fuel + 2) least p =
      some (.scalar .plain none text, p.to later (p.column + text.length + 1)) := by
  have begins : BeginsPlain p.rest := by
    have plain : IsPlain (':' :: later) text := plain.congr rfl
    rw [stands]
    exact plain.begins
  have inLine : '\n' ∉ text := plain.remains.inLine
  have colon : (p.to (':' :: later) (p.column + text.length)).skipGap =
      p.to (':' :: later) (p.column + text.length) := by
    simp [Place.skipGap, Place.skip, Place.to, isGap]
  rw [implicitKey?, inline?_eq begins, plain?_key plain blank stands]
  simp only [colon]
  simp [isKeySpan, Place.between, Place.to, Place.skip, stands, startsWith, blank, inLine, short]

/-- No line goes on with a colon that a blank follows. -/
theorem Place.StartsLine.noColon (starts : p.StartsLine later) (begins : later = [] ∨ BeginsPlain later) :
    startsWith ':' p.skipGap.rest = false := by
  rcases begins with rfl | begins
  · simp [Place.skipGap, Place.skip, Place.to, starts.rest, startsWith]
  · rw [← starts.rest] at begins
    rw [skipGap_eq begins, begins.startsWith_eq_false ':' (by decide)]

theorem atEnd_eq_false (begins : BeginsPlain p.rest) (indented : p.column ≠ 0) : p.atEnd = false := by
  simp [Place.atEnd, Place.atMarker, begins.ne_nil, indented]

/-- What begins like a plain scalar, stands deep enough and is no key, is a plain scalar. -/
theorem blockNode?_scalar {start : Place} {keys : Bool} (next : start.toNext false keys = (keys, p))
    (begins : BeginsPlain p.rest) (indented : p.column ≠ 0) (deep : least ≤ p.column)
    (noKey : implicitKey? fuel least p = none) (dash : Bool) :
    blockNode? (fuel + 1) least keys dash start = inline? fuel false least p := by
  have literal : p.rest.head? ≠ some '|' := fun found => by
    obtain ⟨later, stands⟩ := List.head?_eq_some_iff.mp found
    exact begins.head_ne (by decide) later stands
  have folded : p.rest.head? ≠ some '>' := fun found => by
    obtain ⟨later, stands⟩ := List.head?_eq_some_iff.mp found
    exact begins.head_ne (by decide) later stands
  have here : (p.atEnd || decide (p.column < least)) = false := by
    rw [atEnd_eq_false begins indented, Bool.false_or, decide_eq_false_iff_not]
    omega
  rw [blockNode?, next]
  simp only [here, begins.startsWith_eq_false '-' (by decide), begins.startsWith_eq_false '?' (by decide),
    noKey, properties?_eq begins, Properties.isEmpty]
  simp [literal, folded]

/-- A plain scalar behind the colon of a key, and behind one blank, is the value of the key. -/
theorem blockNode?_value (plain : IsPlain [] text) (ends : LineEnd rest later)
    (begins : later = [] ∨ BeginsPlain later) (stands : p.rest = ' ' :: (text ++ rest)) (dash : Bool) :
    ∃ q, blockNode? (fuel + 3) 1 false dash p = some (.scalar .plain none text, q) ∧
      q.StartsLine later := by
  have starts : BeginsPlain (text ++ rest) := (plain.congr ends.startsGap).begins
  have next : p.toNext false false = (false, p.to (text ++ rest) (p.column + 1)) := by
    have blanks := starts.skipBlanks_eq false false (p.column + 1)
    simp [Place.toNext, stands, skipBlanks, blanks]
  obtain ⟨q, read, starting⟩ : ∃ q, plain? false 1 (p.to (text ++ rest) (p.column + 1)) =
      some (.scalar .plain none text, q) ∧ q.StartsLine later := plain?_value plain ends begins rfl
  have inline : inline? (fuel + 2) false 1 (p.to (text ++ rest) (p.column + 1)) =
      some (.scalar .plain none text, q) := (inline?_eq starts).trans read
  have noKey : implicitKey? (fuel + 2) 1 (p.to (text ++ rest) (p.column + 1)) = none := by
    rw [implicitKey?, inline]
    simp [starting.noColon begins]
  refine ⟨q, ?_, starting⟩
  rw [blockNode?_scalar next starts (Nat.succ_ne_zero _) (Nat.le_add_left ..) noKey, inline]

/-- At the end of a line there is no value. -/
theorem blockNode?_blank (ends : LineEnd rest later) (begins : later = [] ∨ BeginsPlain later)
    (stands : p.rest = rest) (dash : Bool) :
    ∃ q, blockNode? (fuel + 1) 1 false dash p = some (.blank, q) ∧ q.StartsLine later := by
  cases ends with
  | last =>
    refine ⟨p, ?_, stands, fun never => absurd rfl never⟩
    rw [blockNode?, toNext_nil stands]
    simp [Place.atEnd, stands]
  | broken =>
    refine ⟨p.to later 0, ?_, rfl, fun _ => rfl⟩
    have blanks : skipBlanks false false true 0 later = (true, 0, later) := by
      rcases begins with rfl | begins
      · rfl
      · exact begins.skipBlanks_eq false true 0
    have next : p.toNext false false = (true, p.to later 0) := by
      simp [Place.toNext, stands, skipBlanks, blanks]
    have noDash : startsWith '-' later = false := by
      rcases begins with rfl | begins
      · rfl
      · exact begins.startsWith_eq_false '-' (by decide)
    rw [blockNode?, next]
    simp [Place.to, noDash]

end NamedData.Yaml
