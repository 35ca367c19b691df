import NamedData.Proofs.Name.Escaping

/-!
Escapes, octet by octet.

An octet of a component is written as itself or as `%` and two hexadecimal digits (`Component.WrittenAs`).
Reading undoes this and refuses everything else (`unescape_eq_some_iff_writtenAs`), wherever the octets of
one character are written in different ways. What is behind a spelling is read as if it stood alone
(`WrittenAs.unescape_append`), so spellings can be put together and an incomplete escape is not completed by
what stands before it (`escapes_are_read_octet_by_octet`).
-/
namespace NamedData.Component

/-- The hexadecimal digits in upper case. -/
def upperDigits : Bytes := ascii "0123456789ABCDEF".toList

/-- The hexadecimal digits in lower case. -/
def lowerDigits : Bytes := ascii "0123456789abcdef".toList

/-- How a string of octets is written: those that may be kept as themselves, and any as `%` and its two
digits, each from one of the given sets of digits. -/
inductive WrittenAs (kept : UInt8 → Prop) (digits : List Bytes) : Bytes → Bytes → Prop where
  | nil : WrittenAs kept digits [] []
  | bare {b : UInt8} {octets written : Bytes} (keeps : kept b)
      (rest : WrittenAs kept digits octets written) : WrittenAs kept digits (b :: octets) (b :: written)
  | escape {b high low : UInt8} {octets written : Bytes}
      (first : ∃ set ∈ digits, set[b.toNat / 16]? = some high)
      (second : ∃ set ∈ digits, set[b.toNat % 16]? = some low)
      (rest : WrittenAs kept digits octets written) :
      WrittenAs kept digits (b :: octets) (percent :: high :: low :: written)

/-- Written in any way: digits may be of either case, and only `%` has to be escaped. -/
abbrev Written : Bytes → Bytes → Prop := WrittenAs (· ≠ percent) [upperDigits, lowerDigits]

/-- Written with unreserved characters and escapes in upper case. -/
abbrev WrittenPlainly : Bytes → Bytes → Prop := WrittenAs (isUnreserved · = true) [upperDigits]

variable {octets text : Bytes}

theorem WrittenPlainly.written (plainly : WrittenPlainly octets text) : Written octets text := by
  have either : ∀ {place : Nat} {digit : UInt8}, (∃ set ∈ [upperDigits], set[place]? = some digit) →
      ∃ set ∈ [upperDigits, lowerDigits], set[place]? = some digit := by
    rintro place digit ⟨set, member, found⟩
    exact ⟨set, List.mem_cons.mpr (.inl (List.mem_singleton.mp member)), found⟩
  induction plainly with
  | nil => exact .nil
  | bare keeps _ ih =>
    refine .bare ?_ ih
    rintro rfl
    exact absurd keeps (by decide)
  | escape first second _ ih => exact .escape (either first) (either second) ih

/-! ## Digits -/

/-- The value of a digit is its place among the digits of its case. -/
theorem hexValue?_of_digit {value : Nat} {digit : UInt8} (small : value < 16)
    (found : ∃ set ∈ [upperDigits, lowerDigits], set[value]? = some digit) :
    hexValue? digit = some (UInt8.ofNat value) := by
  have table : ∀ set ∈ [upperDigits, lowerDigits], ∀ value < 16,
      set[value]?.bind hexValue? = some (UInt8.ofNat value) := by decide
  obtain ⟨set, member, found⟩ := found
  have read := table set member value small
  rwa [found] at read

/-- In a run of digits whose octets follow each other, a digit is found at what is left of its octet. -/
theorem digit_of_run {set : Bytes} {first count : Nat} {digit shift : UInt8}
    (run : ∀ n < count, set[first - shift.toNat + n]? = some (UInt8.ofNat (first + n)))
    (below : shift.toNat ≤ first) (least : first ≤ digit.toNat) (most : digit.toNat < first + count) :
    (digit - shift).toNat = digit.toNat - shift.toNat ∧ set[(digit - shift).toNat]? = some digit := by
  have value : (digit - shift).toNat = digit.toNat - shift.toNat :=
    UInt8.toNat_sub_of_le _ _ (UInt8.le_iff_toNat_le.mpr (Nat.le_trans below least))
  have place : digit.toNat - shift.toNat = first - shift.toNat + (digit.toNat - first) := by omega
  have found := run (digit.toNat - first) (by omega)
  rw [Nat.add_sub_cancel' least, UInt8.ofNat_toNat] at found
  exact ⟨value, by rw [value, place, found]⟩

/-- What has a value is a digit for it. -/
theorem digit_of_hexValue? {value digit : UInt8} (valued : hexValue? digit = some value) :
    value.toNat < 16 ∧ ∃ set ∈ [upperDigits, lowerDigits], set[value.toNat]? = some digit := by
  have numerals : ∀ n < 10, upperDigits[48 - 48 + n]? = some (UInt8.ofNat (48 + n)) := by decide
  have capitals : ∀ n < 6, upperDigits[65 - 55 + n]? = some (UInt8.ofNat (65 + n)) := by decide
  have smalls : ∀ n < 6, lowerDigits[97 - 87 + n]? = some (UInt8.ofNat (97 + n)) := by decide
  simp only [hexValue?, Bool.and_eq_true, decide_eq_true_eq, UInt8.le_iff_toNat_le,
    UInt8.reduceToNat] at valued
  split_ifs at valued with numeral upper lower
  all_goals
    rw [Option.some_inj] at valued
    subst valued
  · obtain ⟨shifted, found⟩ : (digit - 48).toNat = digit.toNat - 48 ∧
        upperDigits[(digit - 48).toNat]? = some digit :=
      digit_of_run numerals (by decide) numeral.1 (by omega)
    exact ⟨by omega, upperDigits, by simp, found⟩
  · obtain ⟨shifted, found⟩ : (digit - 55).toNat = digit.toNat - 55 ∧
        upperDigits[(digit - 55).toNat]? = some digit :=
      digit_of_run capitals (by decide) upper.1 (by omega)
    exact ⟨by omega, upperDigits, by simp, found⟩
  · obtain ⟨shifted, found⟩ : (digit - 87).toNat = digit.toNat - 87 ∧
        lowerDigits[(digit - 87).toNat]? = some digit :=
      digit_of_run smalls (by decide) lower.1 (by omega)
    exact ⟨by omega, lowerDigits, by simp, found⟩

/-- The digit that is written for a value is in upper case. -/
theorem upperDigits_getElem? {value : Nat} (small : value < 16) :
    upperDigits[value]? = some (hexDigit (UInt8.ofNat value)) := by
  have table : ∀ value < 16, upperDigits[value]? = some (hexDigit (UInt8.ofNat value)) := by decide
  exact table value small

/-- Two digits have the value of the octet they are written for. -/
theorem value_of_digits (b : UInt8) :
    16 * UInt8.ofNat (b.toNat / 16) + UInt8.ofNat (b.toNat % 16) = b := by
  have whole : 16 * (b.toNat / 16) + b.toNat % 16 = b.toNat := Nat.div_add_mod ..
  calc 16 * UInt8.ofNat (b.toNat / 16) + UInt8.ofNat (b.toNat % 16)
      = UInt8.ofNat (16 * (b.toNat / 16) + b.toNat % 16) := by
        rw [UInt8.ofNat_add, UInt8.ofNat_mul]
        rfl
    _ = b := by rw [whole, UInt8.ofNat_toNat]

/-- An octet is made of the values of its two digits only. -/
theorem digits_of_value {high low : UInt8} (first : high.toNat < 16) (second : low.toNat < 16) :
    (16 * high + low).toNat / 16 = high.toNat ∧ (16 * high + low).toNat % 16 = low.toNat := by
  rw [UInt8.toNat_add, UInt8.toNat_mul]
  change (16 * high.toNat % 256 + low.toNat) % 256 / 16 = high.toNat ∧
    (16 * high.toNat % 256 + low.toNat) % 256 % 16 = low.toNat
  omega

/-! ## Reading what is written -/

/-- What is written is read, whatever stands behind it. -/
theorem WrittenAs.unescape_append (written : Written octets text) (behind : Bytes) :
    unescape (text ++ behind) = (unescape behind).map (octets ++ ·) := by
  induction written with
  | nil => simp
  | @bare b octets text keeps _ ih =>
    rw [List.cons_append, unescape.eq_def]
    simp only [if_neg keeps, ih, Option.map_map]
    rfl
  | @escape b high low octets text first second _ ih =>
    have bound := b.toNat_lt
    have high := hexValue?_of_digit (by omega) first
    have low := hexValue?_of_digit (by omega) second
    simp only [List.cons_append, unescape, if_true, high, low, ih, Option.map_map, value_of_digits]
    rfl

/-- What is read was written, for nothing but an octet other than `%` and a complete escape is read. -/
theorem written_of_unescape (read : unescape text = some octets) : Written octets text := by
  fun_induction unescape text generalizing octets with
  | case1 =>
    cases read
    exact .nil
  | case2 high low tail h l second first ih =>
    obtain ⟨later, tailRead, rfl⟩ := Option.map_eq_some_iff.mp read
    obtain ⟨small, found⟩ := digit_of_hexValue? first
    obtain ⟨small', found'⟩ := digit_of_hexValue? second
    obtain ⟨value, value'⟩ := digits_of_value small small'
    exact .escape (value.symm ▸ found) (value'.symm ▸ found') (ih tailRead)
  | case3 => cases read
  | case4 => cases read
  | case5 b rest other ih =>
    obtain ⟨later, restRead, rfl⟩ := Option.map_eq_some_iff.mp read
    exact .bare other (ih restRead)

theorem unescape_eq_some_iff_written : unescape text = some octets ↔ Written octets text := by
  constructor
  · exact written_of_unescape
  · intro written
    have read := written.unescape_append []
    rwa [List.append_nil, unescape, Option.map_some, List.append_nil] at read

/-- A component is read from a text if and only if the octets of the text are a way to write it. -/
theorem ofEscaped?_eq_ok_iff_written {text : List Char} {c : Component} :
    ofEscaped? text = .ok c ↔ Written c.octets (utf8 text) := by
  obtain ⟨octets⟩ := c
  rw [← unescape_eq_some_iff_written, ofEscaped?]
  cases unescape (utf8 text) with
  | none => simp
  | some octets => simp

/-- Behind a text that is read, another one is read as if it stood alone. -/
theorem ofEscaped?_append {text behind : List Char} {c : Component} (read : ofEscaped? text = .ok c) :
    ofEscaped? (text ++ behind) =
      match ofEscaped? behind with
      | .ok later => .ok ⟨c.octets ++ later.octets⟩
      | .error _ => .error (.invalidEscape (String.ofList (text ++ behind))) := by
  have written := ofEscaped?_eq_ok_iff_written.mp read
  rw [ofEscaped?, utf8_append, written.unescape_append, ofEscaped?]
  cases unescape (utf8 behind) with
  | none => rfl
  | some octets => rfl

/-! ## The canonical spelling -/

/-- ASCII octets are those of the text they spell. -/
theorem utf8_map_ofNat (ascii : ∀ b ∈ octets, b.toNat < 128) :
    utf8 (octets.map fun b => Char.ofNat b.toNat) = octets := by
  induction octets with
  | nil => rfl
  | cons b octets ih =>
    rw [List.forall_mem_cons] at ascii
    have code := toNat_ofNat_ascii ascii.1
    rw [List.map_cons, utf8_cons, utf8EncodeChar_ascii (by omega), code, UInt8.ofNat_toNat, ih ascii.2]
    rfl

/-- The octets of the canonical spelling are those it was made from, for they are all ASCII. -/
theorem utf8_toChars (c : Component) : utf8 c.toChars = escape c.octets := by
  refine utf8_map_ofNat fun octet member => ?_
  obtain ⟨b, -, spelled⟩ := List.mem_flatMap.mp member
  rcases mem_escapeOctet spelled with rfl | unreserved
  · decide
  · exact (toNat_of_isUnreserved unreserved).2.1

/-- The canonical spelling keeps the unreserved octets and escapes the others. -/
theorem writtenPlainly_escape (octets : Bytes) : WrittenPlainly octets (escape octets) := by
  induction octets with
  | nil => exact .nil
  | cons b octets ih =>
    rw [escape, List.flatMap_cons, escapeOctet]
    split
    · next unreserved => exact .bare unreserved ih
    · have bound := b.toNat_lt
      have first := @upperDigits_getElem? (b.toNat / 16) (by omega)
      have second := @upperDigits_getElem? (b.toNat % 16) (by omega)
      rw [← (halves b).1] at first
      rw [← (halves b).2] at second
      exact .escape ⟨_, List.mem_singleton_self _, first⟩ ⟨_, List.mem_singleton_self _, second⟩ ih

/-- **Escapes are read octet by octet.** A text is read as a component if and only if the octets of the text
are those of the component in order, each written as itself, unless it is `%`, or as `%` and two hexadecimal
digits of either case. The canonical spelling is one of these texts, and is written with unreserved characters
and escapes in upper case alone. Behind a text that is read, another text is read as if it stood alone: the
octets of the two are put together, and if the other one is ill-escaped then the whole text is. -/
theorem escapes_are_read_octet_by_octet :
    (∀ (octets : Bytes) (text : List Char),
      ofEscaped? text = .ok ⟨octets⟩ ↔ Written octets (utf8 text)) ∧
    (∀ c : Component, Written c.octets (utf8 c.toChars) ∧ WrittenPlainly c.octets (utf8 c.toChars)) ∧
    ∀ (a b : List Char) (x : Component), ofEscaped? a = .ok x →
      (∀ y : Component, ofEscaped? b = .ok y → ofEscaped? (a ++ b) = .ok ⟨x.octets ++ y.octets⟩) ∧
      ∀ e : NameError, ofEscaped? b = .error e →
        ofEscaped? (a ++ b) = .error (.invalidEscape (String.ofList (a ++ b))) := by
  refine ⟨fun octets text => ofEscaped?_eq_ok_iff_written, fun c => ?_, fun a b x read => ⟨?_, ?_⟩⟩
  · rw [utf8_toChars]
    have plainly := writtenPlainly_escape c.octets
    exact ⟨plainly.written, plainly⟩
  · intro y other
    rw [ofEscaped?_append read, other]
  · intro e refused
    rw [ofEscaped?_append read, refused]

/-- A character may be escaped or not, the digits of its octets may differ in case, and a `%` that was
escaped does not begin an escape with what stands behind it. -/
theorem percent_is_not_read_twice :
    let a : List Char := ['%', 'c', '3', '%', 'A', '9', 'é', '%', '2', '5']
    let x : Component := ⟨[195, 169, 195, 169, 37]⟩
    (ofEscaped? a = .ok x ∧ ofEscaped? ['2', 'F'] = .ok ⟨[50, 70]⟩ ∧
      ofEscaped? (a ++ ['2', 'F']) = .ok ⟨[195, 169, 195, 169, 37, 50, 70]⟩) ∧
    ofEscaped? ['%', '2'] = .error (.invalidEscape (String.ofList ['%', '2'])) ∧
      ofEscaped? (a ++ ['%', '2']) = .error (.invalidEscape (String.ofList (a ++ ['%', '2']))) := by
  intro a x
  have read : ofEscaped? a = .ok x := by decide
  have plain : ofEscaped? ['2', 'F'] = .ok ⟨[50, 70]⟩ := by decide
  have refused : ofEscaped? ['%', '2'] = .error (.invalidEscape (String.ofList ['%', '2'])) := rfl
  obtain ⟨-, -, together⟩ := escapes_are_read_octet_by_octet
  exact ⟨⟨read, plain, (together a _ x read).1 _ plain⟩, refused, (together a _ x read).2 _ refused⟩

end NamedData.Component
