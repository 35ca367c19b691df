import Mathlib
import NamedData.Name.Component
import NamedData.Text.Blank
import NamedData.Text.Digits

/-!
Escapes in the spelling of a component.

Escapes are read from octets, while a spelling is a text. The two agree because the octets of a character
beyond ASCII are none that an escape is made of: a spelling is read as it is spelled, character by character
(`unescape_eq_some_iff`), and it is refused exactly if some `%` in it begins no escape
(`unescape_eq_none_iff`). Every string of octets has a canonical spelling (`spells_toChars`), in which
nothing but `%`, letters, digits and `-._~` occurs.
-/
namespace NamedData

/-! ## The octets of a character -/

section octets

variable {c : Char}

theorem utf8_cons (c : Char) (text : List Char) :
    utf8 (c :: text) = String.utf8EncodeChar c ++ utf8 text := rfl

theorem utf8_singleton (c : Char) : utf8 [c] = String.utf8EncodeChar c := List.append_nil _

/-- An ASCII character is its own octet. -/
theorem utf8EncodeChar_ascii (ascii : c.toNat < 128) :
    String.utf8EncodeChar c = [UInt8.ofNat c.toNat] := by
  have small : c.val.toNat ≤ 127 := Nat.le_of_lt_succ ascii
  simp only [String.utf8EncodeChar, if_pos small]
  rfl

/-- The octets of any other character are beyond ASCII. -/
theorem utf8EncodeChar_beyond (beyond : 128 ≤ c.toNat) :
    ∀ b ∈ String.utf8EncodeChar c, 128 ≤ b.toNat := by
  have large : ¬ c.val.toNat ≤ 127 := Nat.not_le_of_lt beyond
  simp only [String.utf8EncodeChar, if_neg large]
  split_ifs
  all_goals
    simp only [List.forall_mem_cons, List.not_mem_nil, false_imp_iff, implies_true, and_true,
      UInt8.toNat_ofNat']
    omega

/-- No octet of a character other than `%` is the one that introduces an escape. -/
theorem percent_not_mem_octets (other : c ≠ '%') : Component.percent ∉ String.utf8EncodeChar c := by
  intro member
  rcases Nat.lt_or_ge c.toNat 128 with ascii | beyond
  · rw [utf8EncodeChar_ascii ascii, List.mem_singleton] at member
    have code := congrArg UInt8.toNat member
    simp only [Component.percent, UInt8.toNat_ofNat', UInt8.reduceToNat] at code
    exact other (Char.toNat_inj.mp (by change c.toNat = 37; omega))
  · have large := utf8EncodeChar_beyond beyond _ member
    simp [Component.percent] at large

end octets

namespace Component

/-! ## Reading escapes -/

section digits

variable {c : Char} {n : Nat}

/-- A hexadecimal digit has the value of its octet. -/
theorem hexValue?_ascii (ascii : c.toNat < 128) :
    hexValue? (UInt8.ofNat c.toNat) = (Text.digitValue? 16 c).map UInt8.ofNat := by
  have table : ∀ n < 128,
      hexValue? (UInt8.ofNat n) = (Text.digitValue? 16 (Char.ofNat n)).map UInt8.ofNat := by decide
  simpa only [Char.ofNat_toNat] using table c.toNat ascii

theorem hexValue?_beyond {b : UInt8} (beyond : 128 ≤ b.toNat) : hexValue? b = none := by
  simp only [hexValue?, Bool.and_eq_true, decide_eq_true_eq, UInt8.le_iff_toNat_le, UInt8.reduceToNat]
  rw [if_neg (by omega), if_neg (by omega), if_neg (by omega)]

theorem ascii_of_digitValue? (digit : Text.digitValue? 16 c = some n) : c.toNat < 128 := by
  by_contra beyond
  simp only [Text.digitValue?, Bool.and_eq_true, decide_eq_true_eq] at digit
  rw [if_neg (by omega), if_neg (by omega), if_neg (by omega)] at digit
  cases digit

theorem ne_percent_of_digit (digit : Text.digitValue? 16 c = some n) : c ≠ '%' := by
  rintro rfl
  cases digit

/-- A hexadecimal digit is one octet, of the same value. -/
theorem octet_of_digit (digit : Text.digitValue? 16 c = some n) :
    ∃ b, String.utf8EncodeChar c = [b] ∧ hexValue? b = some (UInt8.ofNat n) := by
  have ascii := ascii_of_digitValue? digit
  refine ⟨_, utf8EncodeChar_ascii ascii, ?_⟩
  rw [hexValue?_ascii ascii, digit]
  rfl

/-- An escape is three octets, of which the last two have the values of its digits. -/
theorem octets_of_escape {high low : Char} {h l : Nat} (first : Text.digitValue? 16 high = some h)
    (second : Text.digitValue? 16 low = some l) (text : List Char) :
    ∃ b b', utf8 ('%' :: high :: low :: text) = percent :: b :: b' :: utf8 text ∧
      hexValue? b = some (UInt8.ofNat h) ∧ hexValue? b' = some (UInt8.ofNat l) := by
  obtain ⟨b, encoded, value⟩ := octet_of_digit first
  obtain ⟨b', encoded', value'⟩ := octet_of_digit second
  refine ⟨b, b', ?_, value, value'⟩
  rw [utf8_cons, utf8_cons, utf8_cons, encoded, encoded']
  rfl

/-- A text whose first octet is a hexadecimal digit begins with that digit. -/
theorem digit_of_octet {text : List Char} {b h : UInt8} {rest : Bytes} (octets : utf8 text = b :: rest)
    (digit : hexValue? b = some h) :
    ∃ c later n, text = c :: later ∧ utf8 later = rest ∧ Text.digitValue? 16 c = some n ∧
      h = UInt8.ofNat n := by
  cases text with
  | nil => cases octets
  | cons c later =>
    rw [utf8_cons] at octets
    rcases Nat.lt_or_ge c.toNat 128 with ascii | beyond
    · rw [utf8EncodeChar_ascii ascii] at octets
      obtain ⟨rfl, rfl⟩ := List.cons.inj octets
      rw [hexValue?_ascii ascii, Option.map_eq_some_iff] at digit
      obtain ⟨n, value, rfl⟩ := digit
      exact ⟨c, later, n, rfl, rfl, value, rfl⟩
    · have large := utf8EncodeChar_beyond beyond
      obtain ⟨first, more, encoded⟩ := List.exists_cons_of_ne_nil (@String.utf8EncodeChar_ne_nil c)
      rw [encoded] at octets large
      obtain ⟨rfl, -⟩ := List.cons.inj octets
      rw [hexValue?_beyond (large first List.mem_cons_self)] at digit
      cases digit

end digits

/-- Octets without an escape stand for themselves. -/
theorem unescape_append {octets : Bytes} (plain : percent ∉ octets) (rest : Bytes) :
    unescape (octets ++ rest) = (unescape rest).map (octets ++ ·) := by
  induction octets with
  | nil => simp
  | cons b octets ih =>
    rw [List.mem_cons, not_or] at plain
    rw [List.cons_append, unescape.eq_def]
    simp only [if_neg (Ne.symm plain.1), ih plain.2, Option.map_map]
    rfl

/-- An escape is read if it is complete. -/
theorem unescape_percent_eq_some_iff {rest octets : Bytes} :
    unescape (percent :: rest) = some octets ↔
      ∃ high low tail h l later, rest = high :: low :: tail ∧ hexValue? high = some h ∧
        hexValue? low = some l ∧ unescape tail = some later ∧ octets = (16 * h + l) :: later := by
  constructor
  · intro read
    rw [unescape.eq_def] at read
    simp only [if_true] at read
    split at read
    · next high low tail =>
      split at read
      · next h l first second =>
        obtain ⟨later, tailRead, rfl⟩ := Option.map_eq_some_iff.mp read
        exact ⟨high, low, tail, h, l, later, rfl, first, second, tailRead, rfl⟩
      · cases read
    · cases read
  · rintro ⟨high, low, tail, h, l, later, rfl, first, second, tailRead, rfl⟩
    simp [unescape, first, second, tailRead]

/-- What a text spells: every character stands for its octets, but for a `%` and the two hexadecimal digits
behind it, which stand for one octet. -/
inductive Spells : List Char → Bytes → Prop where
  | nil : Spells [] []
  | plain {c : Char} {text : List Char} {octets : Bytes} (other : c ≠ '%')
      (rest : Spells text octets) : Spells (c :: text) (utf8 [c] ++ octets)
  | escape {high low : Char} {h l : Nat} {text : List Char} {octets : Bytes}
      (first : Text.digitValue? 16 high = some h) (second : Text.digitValue? 16 low = some l)
      (rest : Spells text octets) :
      Spells ('%' :: high :: low :: text) (UInt8.ofNat (16 * h + l) :: octets)

/-- What a text begins with that completes an escape: two hexadecimal digits. -/
def Completes (text : List Char) : Prop :=
  ∃ high low rest, text = high :: low :: rest ∧ (Text.digitValue? 16 high).isSome ∧
    (Text.digitValue? 16 low).isSome

/-- Whether some `%` of a text is not followed by two hexadecimal digits. -/
def IllEscaped (text : List Char) : Prop :=
  ∃ before after, text = before ++ '%' :: after ∧ ¬ Completes after

namespace Spells

variable {text : List Char} {octets : Bytes}

theorem unescape_eq (spells : Spells text octets) : unescape (utf8 text) = some octets := by
  induction spells with
  | nil => rfl
  | plain other _ ih =>
    rw [utf8_cons, unescape_append (percent_not_mem_octets other), ih, utf8_singleton]
    rfl
  | @escape high low h l text octets first second _ ih =>
    obtain ⟨b, b', encoded, value, value'⟩ := octets_of_escape first second text
    rw [encoded, unescape_percent_eq_some_iff]
    refine ⟨b, b', _, _, _, _, rfl, value, value', ih, ?_⟩
    simp [UInt8.ofNat_add, UInt8.ofNat_mul]

/-- In a text that spells something, every `%` begins an escape. -/
theorem completes (spells : Spells text octets) {before after : List Char}
    (split : text = before ++ '%' :: after) : Completes after := by
  induction spells generalizing before with
  | nil => simp at split
  | plain other _ ih =>
    cases before with
    | nil => exact absurd (List.cons.inj split).1 other
    | cons => exact ih (List.cons.inj split).2
  | @escape high low h l text octets first second _ ih =>
    -- The `%` is the one of this escape, or one behind it, for neither digit is a `%`.
    match before, split with
    | [], split =>
      obtain ⟨-, rfl⟩ := List.cons.inj split
      exact ⟨high, low, text, rfl, by simp [first], by simp [second]⟩
    | [_], split =>
      simp only [List.cons_append, List.nil_append, List.cons.injEq] at split
      exact absurd split.2.1 (ne_percent_of_digit first)
    | [_, _], split =>
      simp only [List.cons_append, List.nil_append, List.cons.injEq] at split
      exact absurd split.2.2.1 (ne_percent_of_digit second)
    | _ :: _ :: _ :: before, split =>
      simp only [List.cons_append, List.cons.injEq] at split
      exact ih split.2.2.2

/-- A spelling has two octets more than what it spells for every escape. -/
theorem length_eq (spells : Spells text octets) :
    octets.length + 2 * text.count '%' = (utf8 text).length := by
  induction spells with
  | nil => rfl
  | plain other _ ih =>
    rw [utf8_singleton, utf8_cons, List.length_append, List.length_append, List.count_cons_of_ne other]
    omega
  | @escape high low h l text octets first second _ ih =>
    obtain ⟨b, b', encoded, -⟩ := octets_of_escape first second text
    rw [encoded, List.count_cons_self, List.count_cons_of_ne (ne_percent_of_digit first),
      List.count_cons_of_ne (ne_percent_of_digit second)]
    simp only [List.length_cons]
    omega

end Spells

/-- What is read is what the text spells. -/
theorem spells_of_unescape {text : List Char} {octets : Bytes}
    (read : unescape (utf8 text) = some octets) : Spells text octets := by
  -- On the length, for an escape takes three characters at once.
  induction length : text.length using Nat.strongRecOn generalizing text octets with
  | _ n ih =>
    subst length
    cases text with
    | nil =>
      cases read
      exact .nil
    | cons c text =>
      by_cases percent : c = '%'
      · subst percent
        change unescape (Component.percent :: utf8 text) = some octets at read
        obtain ⟨high, low, tail, h, l, later, split, first, second, rest, rfl⟩ :=
          unescape_percent_eq_some_iff.mp read
        -- The two octets behind the `%` are digits, so each is a character, and what follows is a text.
        obtain ⟨c, text, n, rfl, split, value, rfl⟩ := digit_of_octet split first
        obtain ⟨c', text, n', rfl, rfl, value', rfl⟩ := digit_of_octet split second
        have shorter : text.length < ('%' :: c :: c' :: text).length := by
          simp only [List.length_cons]
          omega
        have spelled := Spells.escape value value' (ih _ shorter rest rfl)
        simpa [UInt8.ofNat_add, UInt8.ofNat_mul] using spelled
      · rw [utf8_cons, unescape_append (percent_not_mem_octets percent), Option.map_eq_some_iff] at read
        obtain ⟨later, rest, rfl⟩ := read
        rw [← utf8_singleton]
        exact .plain percent (ih text.length (by simp) rest rfl)

theorem unescape_eq_some_iff {text : List Char} {octets : Bytes} :
    unescape (utf8 text) = some octets ↔ Spells text octets :=
  ⟨spells_of_unescape, Spells.unescape_eq⟩

/-- A text spells something, or some `%` in it begins no escape. -/
theorem spells_or_illEscaped (text : List Char) : (∃ octets, Spells text octets) ∨ IllEscaped text := by
  induction length : text.length using Nat.strongRecOn generalizing text with
  | _ n ih =>
    subst length
    have longer : ∀ start {rest}, IllEscaped rest → IllEscaped (start ++ rest) := by
      rintro start _ ⟨before, after, rfl, incomplete⟩
      exact ⟨start ++ before, after, (List.append_assoc ..).symm, incomplete⟩
    cases text with
    | nil => exact .inl ⟨[], .nil⟩
    | cons c text =>
      by_cases percent : c = '%'
      · subst percent
        by_cases complete : Completes text
        · obtain ⟨high, low, rest, rfl, first, second⟩ := complete
          obtain ⟨h, first⟩ := Option.isSome_iff_exists.mp first
          obtain ⟨l, second⟩ := Option.isSome_iff_exists.mp second
          have shorter : rest.length < ('%' :: high :: low :: rest).length := by
            simp only [List.length_cons]
            omega
          rcases ih _ shorter rest rfl with ⟨octets, spells⟩ | ill
          · exact .inl ⟨_, .escape first second spells⟩
          · exact .inr (longer ['%', high, low] ill)
        · exact .inr ⟨[], text, rfl, complete⟩
      · rcases ih text.length (by simp) text rfl with ⟨octets, spells⟩ | ill
        · exact .inl ⟨_, .plain percent spells⟩
        · exact .inr (longer [c] ill)

theorem unescape_eq_none_iff {text : List Char} : unescape (utf8 text) = none ↔ IllEscaped text := by
  constructor
  · intro refused
    rcases spells_or_illEscaped text with ⟨octets, spells⟩ | ill
    · rw [spells.unescape_eq] at refused
      cases refused
    · exact ill
  · rintro ⟨before, after, split, incomplete⟩
    rw [Option.eq_none_iff_forall_ne_some]
    intro octets read
    exact incomplete ((spells_of_unescape read).completes split)

/-- A component is read from what it is spelled by. -/
theorem ofEscaped?_eq_ok_iff {text : List Char} {c : Component} :
    ofEscaped? text = .ok c ↔ Spells text c.octets := by
  obtain ⟨octets⟩ := c
  rw [← unescape_eq_some_iff, ofEscaped?]
  cases unescape (utf8 text) with
  | none => simp
  | some octets => simp

theorem ofEscaped?_eq_error_iff {text : List Char} {e : NameError} :
    ofEscaped? text = .error e ↔ IllEscaped text ∧ e = .invalidEscape (String.ofList text) := by
  rw [← unescape_eq_none_iff, ofEscaped?]
  cases unescape (utf8 text) with
  | none => simp [eq_comm]
  | some octets => simp

/-! ## The canonical spelling -/

theorem toNat_ofNat_ascii {n : Nat} (ascii : n < 128) : (Char.ofNat n).toNat = n := by
  rw [Char.toNat_ofNat, if_pos (.inl (by omega))]

/-- The digit for a value below sixteen has that value, and is unreserved. -/
theorem digit_of_value {n : Nat} (small : n < 16) :
    Text.digitValue? 16 (Char.ofNat (hexDigit (UInt8.ofNat n)).toNat) = some n ∧
      isUnreserved (hexDigit (UInt8.ofNat n)) = true := by
  have table : ∀ n < 16,
      Text.digitValue? 16 (Char.ofNat (hexDigit (UInt8.ofNat n)).toNat) = some n ∧
        isUnreserved (hexDigit (UInt8.ofNat n)) = true := by decide
  exact table n small

/-- An octet that is not unreserved is split into the values of two digits. -/
theorem halves (b : UInt8) :
    b / 16 = UInt8.ofNat (b.toNat / 16) ∧ b % 16 = UInt8.ofNat (b.toNat % 16) := by
  constructor
  · rw [← UInt8.toNat_inj, UInt8.toNat_div, UInt8.toNat_ofNat']
    have bound := b.toNat_lt
    simp only [UInt8.reduceToNat]
    omega
  · rw [← UInt8.toNat_inj, UInt8.toNat_mod, UInt8.toNat_ofNat']
    simp only [UInt8.reduceToNat]
    omega

/-- A canonical spelling is made of `%` and unreserved characters. -/
theorem mem_escapeOctet {b octet : UInt8} (member : octet ∈ escapeOctet b) :
    octet = percent ∨ isUnreserved octet = true := by
  have bound := b.toNat_lt
  rw [escapeOctet] at member
  split at member
  · next unreserved =>
    rw [List.mem_singleton.mp member]
    exact .inr unreserved
  · rw [(halves b).1, (halves b).2] at member
    simp only [List.mem_cons, List.not_mem_nil, or_false] at member
    rcases member with rfl | rfl | rfl
    · exact .inl rfl
    · exact .inr (digit_of_value (by omega)).2
    · exact .inr (digit_of_value (by omega)).2

theorem toNat_of_isUnreserved {b : UInt8} (unreserved : isUnreserved b = true) :
    45 ≤ b.toNat ∧ b.toNat < 128 ∧ b.toNat ≠ 47 ∧ b.toNat ≠ 58 := by
  simp only [isUnreserved, Bool.or_eq_true, Bool.and_eq_true, decide_eq_true_eq, beq_iff_eq,
    UInt8.le_iff_toNat_le, ← UInt8.toNat_inj, UInt8.reduceToNat] at unreserved
  omega

/-- The characters of a canonical spelling separate nothing in a URI, and none of them is a blank. -/
theorem plain_of_mem_toChars {component : Component} {c : Char} (member : c ∈ component.toChars) :
    c ≠ '/' ∧ c ≠ ':' ∧ Text.isBlank c = false := by
  obtain ⟨octet, spelled, rfl⟩ := List.mem_map.mp member
  obtain ⟨b, -, spelled⟩ := List.mem_flatMap.mp spelled
  rcases mem_escapeOctet spelled with rfl | unreserved
  · decide
  · obtain ⟨visible, ascii, slash, colon⟩ := toNat_of_isUnreserved unreserved
    have code := toNat_ofNat_ascii ascii
    refine ⟨?_, ?_, ?_⟩
    · intro same
      exact slash (code.symm.trans (congrArg Char.toNat same))
    · intro same
      exact colon (code.symm.trans (congrArg Char.toNat same))
    · simp only [Text.isBlank, code, Bool.or_eq_false_iff, Bool.and_eq_false_iff, decide_eq_false_iff_not,
        beq_eq_false_iff_ne]
      omega

/-- The canonical spelling of an octet spells it. -/
theorem spells_escapeOctet (b : UInt8) {text : List Char} {octets : Bytes} (rest : Spells text octets) :
    Spells ((escapeOctet b).map (fun b => Char.ofNat b.toNat) ++ text) (b :: octets) := by
  rw [escapeOctet]
  split
  · next unreserved =>
    obtain ⟨visible, ascii, -, -⟩ := toNat_of_isUnreserved unreserved
    have code := toNat_ofNat_ascii ascii
    have octet : utf8 [Char.ofNat b.toNat] = [b] := by
      rw [utf8_singleton, utf8EncodeChar_ascii (by omega), code, UInt8.ofNat_toNat]
    have plain : Char.ofNat b.toNat ≠ '%' := by
      intro percent
      have same : b.toNat = 37 := code.symm.trans (congrArg Char.toNat percent)
      omega
    have spelled := Spells.plain plain rest
    rw [octet] at spelled
    exact spelled
  · have bound := b.toNat_lt
    have high := (digit_of_value (n := b.toNat / 16) (by omega)).1
    have low := (digit_of_value (n := b.toNat % 16) (by omega)).1
    have whole : 16 * (b.toNat / 16) + b.toNat % 16 = b.toNat := Nat.div_add_mod ..
    have spelled := Spells.escape high low rest
    rw [whole, UInt8.ofNat_toNat, ← (halves b).1, ← (halves b).2] at spelled
    exact spelled

/-- A component is spelled by its canonical spelling. -/
theorem spells_toChars (component : Component) : Spells component.toChars component.octets := by
  obtain ⟨octets⟩ := component
  induction octets with
  | nil => exact .nil
  | cons b octets ih =>
    have spelled := spells_escapeOctet b ih
    simpa [toChars, escape] using spelled

/-- Nothing but an empty text spells no octets. -/
theorem Spells.eq_nil_iff {text : List Char} {octets : Bytes} (spells : Spells text octets) :
    octets = [] ↔ text = [] := by
  cases spells with
  | nil => exact ⟨fun _ => rfl, fun _ => rfl⟩
  | plain => simp [utf8_singleton, String.utf8EncodeChar_ne_nil]
  | escape => simp

end Component

end NamedData
