import NamedData.Program
import NamedData.Proofs.Yaml.Mapping

/-!
Settings files.

A settings file is written one tunable to a line, in any order, with lines for other programs in between
(`Setting`). Each number is read back from its decimal digits (`uint64OfPlain?_decimal`), a tunable that is
set keeps its value and the others their defaults (`overlay?_settings`). So what is printed for a
configuration describes that configuration, whatever its numbers are (`settings_are_read_as_written`).
-/
namespace NamedData

/-! ## Decimal numbers -/

namespace Text

/-- The decimal digits of a number of 64 bits. -/
def decimal (value : UInt64) : List Char := Nat.toDigits 10 value.toNat

theorem toList_toString (value : UInt64) : (toString value.toNat).toList = decimal value := by
  rw [Nat.toString_eq_repr, Nat.toList_repr, decimal]

theorem isDigit_of_mem_decimal {value : UInt64} {c : Char} (member : c ∈ decimal value) :
    c.isDigit = true :=
  Nat.isDigit_of_mem_toDigits (by decide) (by decide) member

theorem decimal_ne_nil (value : UInt64) : decimal value ≠ [] := Nat.toDigits_ne_nil

theorem toNat_of_isDigit {c : Char} (digit : c.isDigit = true) : 48 ≤ c.toNat ∧ c.toNat ≤ 57 :=
  Char.isDigit_iff_toNat.mp digit

/-- A decimal digit has its place among the digits as its value. -/
theorem digitValue?_of_isDigit {c : Char} (digit : c.isDigit = true) :
    digitValue? 10 c = some (c.toNat - '0'.toNat) := by
  obtain ⟨least, most⟩ := toNat_of_isDigit digit
  simp only [digitValue?, least, most, decide_true, Bool.and_self, if_true]
  have small : c.toNat - 48 < 10 := by omega
  simp [Option.filter, small]

/-- Decimal digits are read as the number they spell. -/
theorem digitsValue?_eq {digits : List Char} (decimal : ∀ c ∈ digits, c.isDigit = true) (value : Nat) :
    digitsValue? 10 value digits = some (Nat.ofDigitChars 10 digits value) := by
  induction digits generalizing value with
  | nil => rfl
  | cons c digits ih =>
    rw [List.forall_mem_cons] at decimal
    rw [digitsValue?, digitValue?_of_isDigit decimal.1, Nat.ofDigitChars_cons]
    exact ih decimal.2 _

theorem uint64OfDigits?_decimal (value : UInt64) : uint64OfDigits? 10 (decimal value) = some value := by
  have digits : ∀ c ∈ decimal value, c.isDigit = true := fun c member => isDigit_of_mem_decimal member
  have nonempty : (decimal value).isEmpty = false := by simp [decimal_ne_nil]
  have spelled : Nat.ofDigitChars 10 (decimal value) 0 = value.toNat := Nat.ofDigitChars_ten_toDigits
  rw [uint64OfDigits?, nonempty, digitsValue?_eq digits, spelled]
  simp [value.toNat_lt_size]

/-- A number does not begin with a zero, unless it is zero. -/
theorem toDigits_zero_cons {n : Nat} {digits : List Char} (spelled : Nat.toDigits 10 n = '0' :: digits) :
    digits = [] := by
  induction n using Nat.strongRecOn generalizing digits with
  | _ n ih =>
    by_cases small : n < 10
    · rw [Nat.toDigits_of_lt_base small] at spelled
      exact (List.cons.inj spelled).2.symm
    · -- The number without its last digit would begin with the zero too, and then be zero.
      obtain ⟨c, front, split⟩ := List.exists_cons_of_ne_nil (@Nat.toDigits_ne_nil (n / 10) 10)
      rw [Nat.toDigits_of_base_le (by decide) (by omega), split, List.cons_append] at spelled
      obtain ⟨rfl, -⟩ := List.cons.inj spelled
      obtain rfl := ih (n / 10) (by omega) split
      have value := @Nat.ofDigitChars_ten_toDigits (n / 10)
      rw [split] at value
      have zero : n / 10 = 0 := value.symm
      omega

end Text

theorem uint64OfPlain?_decimal (value : UInt64) : Yaml.uint64OfPlain? (Text.decimal value) = some value := by
  have read := Text.uint64OfDigits?_decimal value
  obtain ⟨c, digits, spelled⟩ := List.exists_cons_of_ne_nil (Text.decimal_ne_nil value)
  have digit : c.isDigit = true := Text.isDigit_of_mem_decimal (spelled ▸ List.mem_cons_self)
  have lone : ∀ d more, c :: digits ≠ '0' :: d :: more := by
    intro d more same
    obtain ⟨rfl, same⟩ := List.cons.inj same
    rw [Text.toDigits_zero_cons spelled] at same
    cases same
  have unsigned : Text.dropPlus (c :: digits) = c :: digits := by
    rw [Text.dropPlus]
    rintro rest same
    obtain ⟨rfl, -⟩ := List.cons.inj same
    exact absurd digit (by decide)
  rw [spelled] at read ⊢
  rw [Yaml.uint64OfPlain?, unsigned]
  split
  · next based => exact absurd based (lone _ _)
  · next based => exact absurd based (lone _ _)
  · next based => exact absurd based (lone _ _)
  · next zero => exact absurd zero (lone _ _)
  · exact read

/-! ## Words -/

namespace Yaml

/-- The characters that names of tunables and numbers are made of. -/
def wordChars : List Char := "abcdefghijklmnopqrstuvwxyz0123456789_".toList

theorem isContent_of_mem_wordChars {c : Char} (member : c ∈ wordChars) :
    IsContent c ∧ isGap c = false ∧ c ∉ indicators ∧ c ∉ marks := by
  have table : wordChars.all (fun c => isPrintable c && !lineEnds.contains c && c != byteOrderMark &&
      !isGap c && !indicators.contains c && !marks.contains c) = true := by decide
  have row := List.all_eq_true.mp table c member
  simp only [Bool.and_eq_true, Bool.not_eq_true', bne_iff_ne, ← Bool.not_eq_true,
    List.contains_iff_mem] at row
  obtain ⟨⟨⟨⟨⟨printable, inLine⟩, noMark⟩, solid⟩, plain⟩, joined⟩ := row
  exact ⟨⟨printable, inLine, noMark⟩, Bool.not_eq_true _ ▸ solid, plain, joined⟩

/-- A word is a plain scalar, whatever stands behind it. -/
theorem isPlain_of_word {text : List Char} (nonempty : text ≠ []) (word : ∀ c ∈ text, c ∈ wordChars)
    (next : List Char) : IsPlain next text where
  nonempty := nonempty
  content c member := (isContent_of_mem_wordChars (word c member)).1
  begins := by
    obtain ⟨c, rest, rfl⟩ := List.exists_cons_of_ne_nil nonempty
    obtain ⟨content, solid, plain, joined⟩ := isContent_of_mem_wordChars (word c List.mem_cons_self)
    exact .cons content solid plain fun mark => absurd mark joined
  colon before after split := by
    have member := word ':' (split ▸ by simp)
    exact absurd member (by decide)
  comment before c after split := by
    have member := word '#' (split ▸ by simp)
    exact absurd member (by decide)
  ends c last := (isContent_of_mem_wordChars (word c (List.mem_of_getLast? last))).2.1

/-- A word that is not too long may be a key. -/
theorem isKey_of_word {text : List Char} (nonempty : text ≠ []) (word : ∀ c ∈ text, c ∈ wordChars)
    (short : text.length ≤ 1024) : IsKey text where
  plain := isPlain_of_word nonempty word _
  short := short
  noMarker mark known c rest split := by
    have member := word mark (split ▸ List.mem_cons_self)
    rcases List.mem_pair.mp known with rfl | rfl <;> exact absurd member (by decide)

end Yaml

theorem mem_wordChars_of_isDigit {c : Char} (digit : c.isDigit = true) : c ∈ Yaml.wordChars := by
  have table : ∀ n < 10, Char.ofNat (48 + n) ∈ Yaml.wordChars := by decide
  obtain ⟨least, most⟩ := Text.toNat_of_isDigit digit
  have member := table (c.toNat - 48) (by omega)
  rwa [Nat.add_sub_cancel' least, Char.ofNat_toNat] at member

theorem isPlain_decimal (value : UInt64) (next : List Char) : Yaml.IsPlain next (Text.decimal value) :=
  Yaml.isPlain_of_word (Text.decimal_ne_nil value)
    (fun _ member => mem_wordChars_of_isDigit (Text.isDigit_of_mem_decimal member)) next

/-! ## The lines of a settings file -/

namespace Tunable

theorem isKey (t : Tunable) : Yaml.IsKey t.key.toList := by
  have word : t.key.toList ≠ [] ∧ t.key.toList.all Yaml.wordChars.contains = true ∧
      t.key.toList.length ≤ 1024 := by
    cases t <;> decide
  refine Yaml.isKey_of_word word.1 (fun c member => ?_) word.2.2
  exact List.contains_iff_mem.mp (List.all_eq_true.mp word.2.1 c member)

/-- A tunable is found by its name. -/
theorem ofKey?_key (t : Tunable) : ofKey? t.key.toList = some t := by
  cases t <;> decide

theorem ofKey?_eq_none {name : List Char} (unknown : ∀ t : Tunable, t.key.toList ≠ name) :
    ofKey? name = none := by
  rw [ofKey?, List.find?_eq_none]
  intro t _
  simp [unknown t]

theorem mem_all (t : Tunable) : t ∈ all := by
  cases t <;> decide

end Tunable

/-- A line of a settings file: a tunable with its value, or a key that is none of the tunables. -/
inductive Setting where
  | tunable (t : Tunable) (value : UInt64)
  | unknown (key value : List Char)

namespace Setting

variable {settings : List Setting}

/-- What is written for a setting. A tunable has its value in decimal digits. -/
def entry : Setting → Yaml.Entry
  | tunable t value => ⟨t.key.toList, Text.decimal value⟩
  | unknown key value => ⟨key, value⟩

/-- The tunable that is set, if it is one. -/
def tunable? : Setting → Option Tunable
  | tunable t _ => some t
  | unknown _ _ => none

/-- Whether a setting can be written on a line. A key that is unknown may have any plain value, or none. -/
def IsWritten : Setting → Prop
  | tunable _ _ => True
  | unknown key value => (⟨key, value⟩ : Yaml.Entry).IsWritten ∧ ∀ t : Tunable, t.key.toList ≠ key

theorem IsWritten.entry {s : Setting} (written : s.IsWritten) : s.entry.IsWritten := by
  cases s with
  | tunable t value => exact ⟨t.isKey, .inr (isPlain_decimal value [])⟩
  | unknown key value => exact written.1

theorem mem_tunables_iff {t : Tunable} :
    t ∈ settings.filterMap tunable? ↔ ∃ value, tunable t value ∈ settings := by
  rw [List.mem_filterMap]
  constructor
  · rintro ⟨s, member, same⟩
    cases s with
    | tunable other value =>
      obtain rfl := Option.some.inj same
      exact ⟨value, member⟩
    | unknown => cases same
  · rintro ⟨value, member⟩
    exact ⟨_, member, rfl⟩

end Setting

/-- Every text is read back from its octets. -/
theorem utf8Text?_utf8 (text : List Char) : utf8Text? (utf8 text) = some (String.ofList text) := by
  have octets : (⟨(utf8 text).toArray⟩ : ByteArray) = text.utf8Encode :=
    ByteArray.ext List.data_toByteArray.symm
  rw [utf8Text?, octets, String.fromUTF8?, dif_pos ByteArray.isValidUTF8_utf8Encode]
  exact congrArg some (String.toByteArray_inj.mp String.toByteArray_ofList.symm)

namespace FaceConfig

/-- A tunable that is given a value has it, and the others keep theirs. -/
theorem get_set (c : FaceConfig) (t other : Tunable) (value : UInt64) :
    (c.set t value).get other = if other = t then value else c.get other := by
  cases t <;> cases other <;> rfl

/-- A configuration is known by the values of its tunables. -/
theorem ext_get {c other : FaceConfig} (same : ∀ t, c.get t = other.get t) : c = other := by
  obtain ⟨process, stop, lifetime, packet⟩ := c
  have process := same .processEventsInterval
  have stop := same .stopWhenInterval
  have lifetime := same .interestLifetime
  have packet := same .packetSize
  simp only [get] at process stop lifetime packet
  rw [process, stop, lifetime, packet]

/-- Settings that name each tunable once at most, and none of those given already, are all carried out. -/
theorem overlay?_settings {settings : List Setting} (written : ∀ s ∈ settings, s.IsWritten)
    (once : (settings.filterMap Setting.tunable?).Nodup) {given : List Tunable}
    (fresh : ∀ t ∈ given, t ∉ settings.filterMap Setting.tunable?) (c : FaceConfig) :
    ∃ config, c.overlay? given (settings.map fun s => s.entry.nodes) = some config ∧
      (∀ t value, .tunable t value ∈ settings → config.get t = value) ∧
      ∀ t, t ∉ settings.filterMap Setting.tunable? → config.get t = c.get t := by
  induction settings generalizing given c with
  | nil => exact ⟨c, rfl, fun t value never => (List.not_mem_nil never).elim, fun t _ => rfl⟩
  | cons s settings ih =>
    rw [List.forall_mem_cons] at written
    cases s with
    | unknown key value =>
      obtain ⟨config, read, set, kept⟩ := ih written.2 once fresh c
      refine ⟨config, ?_, ?_, kept⟩
      · simp only [List.map_cons, Setting.entry, Yaml.Entry.nodes, overlay?,
          Tunable.ofKey?_eq_none written.1.2]
        exact read
      · rintro t value (_ | ⟨_, member⟩)
        exact set t value member
    | tunable t value =>
      rw [List.filterMap_cons_some (by rfl), List.nodup_cons] at once
      rw [List.filterMap_cons_some (by rfl)] at fresh ⊢
      have new : given.contains t = false := by
        rw [← Bool.not_eq_true, List.contains_iff_mem]
        exact fun member => fresh t member List.mem_cons_self
      -- What is given already grows by this tunable, and the settings behind it name none of that.
      have others : ∀ other ∈ t :: given, other ∉ settings.filterMap Setting.tunable? := by
        rw [List.forall_mem_cons]
        exact ⟨once.1, fun other member again => fresh other member (List.mem_cons_of_mem t again)⟩
      obtain ⟨config, read, set, kept⟩ := ih written.2 once.2 others (c.set t value)
      refine ⟨config, ?_, ?_, ?_⟩
      · simp only [List.map_cons, Setting.entry, Yaml.Entry.nodes, overlay?, Tunable.ofKey?_key, new,
          Yaml.Node.uint64?, uint64OfPlain?_decimal]
        exact read
      · rintro other number (_ | ⟨_, member⟩)
        · rw [kept t once.1, get_set, if_pos rfl]
        · exact set other number member
      · intro other absent
        rw [List.mem_cons, not_or] at absent
        rw [kept other absent.2, get_set, if_neg absent.1]

/-- A text of some entries describes the configuration that they overlay. -/
theorem ofNode?_document (entries : List Yaml.Entry) :
    ofNode? (Yaml.Entry.document entries) = overlay? {} [] (entries.map Yaml.Entry.nodes) := by
  cases entries <;> rfl

/-- A file of settings is loaded: what it sets has its value, and everything else its default. -/
theorem load_settings {settings : List Setting} {text : List Char}
    (lines : Yaml.Lines (settings.map Setting.entry) text) (written : ∀ s ∈ settings, s.IsWritten)
    (once : (settings.filterMap Setting.tunable?).Nodup) :
    ∃ config, load (.octets (utf8 text)) = .ok config ∧
      (∀ t value, .tunable t value ∈ settings → config.get t = value) ∧
      ∀ t, (∀ value, .tunable t value ∉ settings) → config.get t = ({} : FaceConfig).get t := by
  have entries : ∀ e ∈ settings.map Setting.entry, e.IsWritten := by
    rw [List.forall_mem_map]
    exact fun s member => (written s member).entry
  have none : ∀ t ∈ ([] : List Tunable), t ∉ settings.filterMap Setting.tunable? :=
    fun t never => (List.not_mem_nil never).elim
  obtain ⟨config, read, set, kept⟩ := overlay?_settings written once none {}
  refine ⟨config, ?_, set, fun t absent => kept t ?_⟩
  · have described : ofYaml? text = some config := by
      rw [ofYaml?, Yaml.ofChars?_lines lines entries, Option.bind_some, ofNode?_document, List.map_map]
      exact read
    simp only [load, utf8Text?_utf8, String.toList_ofList, described]
  · rw [Setting.mem_tunables_iff, not_exists]
    exact absent

/-! ## Printing -/

/-- The text that some lines are printed as. -/
def printed (lines : List String) : List Char := lines.flatMap fun line => line.toList ++ ['\n']

/-- The settings that name every tunable of a configuration. -/
def settings (c : FaceConfig) : List Setting := Tunable.all.map fun t => .tunable t (c.get t)

theorem toList_yamlLine (c : FaceConfig) (t : Tunable) :
    (c.yamlLine t).toList = (Setting.tunable t (c.get t)).entry.chars := by
  have given : (Setting.tunable t (c.get t)).entry.value ≠ [] := Text.decimal_ne_nil (c.get t)
  rw [yamlLine, String.toList_append, String.toList_append, Text.toList_toString, Yaml.Entry.chars,
    Yaml.Entry.tail_of_ne_nil given, List.append_assoc]
  rfl

theorem lines_printed (c : FaceConfig) :
    Yaml.Lines (c.settings.map Setting.entry) (printed c.yamlLines) := by
  have lines := Yaml.lines_flatMap (c.settings.map Setting.entry)
  simp only [settings, List.map_map, List.flatMap_map, Function.comp_apply, ← toList_yamlLine] at lines ⊢
  rw [printed, yamlLines, List.flatMap_map]
  exact lines

/-- What is printed for a configuration describes it. -/
theorem load_printed (c : FaceConfig) : load (.octets (utf8 (printed c.yamlLines))) = .ok c := by
  have written : ∀ s ∈ c.settings, s.IsWritten := by
    rw [settings, List.forall_mem_map]
    exact fun t _ => trivial
  have once : (c.settings.filterMap Setting.tunable?).Nodup := by
    have named : c.settings.filterMap Setting.tunable? = Tunable.all := rfl
    rw [named]
    decide
  obtain ⟨config, read, set, -⟩ := load_settings c.lines_printed written once
  have same : config = c := ext_get fun t => set t _ (List.mem_map_of_mem t.mem_all)
  rw [read, same]

end FaceConfig

/-- **Settings are read as they are written.** What is printed for a configuration is loaded as that
configuration, whatever the numbers in it are, and it is printed when the program is asked for the configuration
in effect. A file that sets some of the tunables, in any order and each once, on lines of their own and among
lines for keys that are unknown, is loaded as the configuration with these values and the defaults for the
others. The last line may do without its break. -/
theorem settings_are_read_as_written :
    (∀ c : FaceConfig, FaceConfig.load (.octets (utf8 (FaceConfig.printed c.yamlLines))) = .ok c) ∧
    (∀ (fuel : Nat) (host : Host) (file : String → SettingsFile) (path : Option String)
      (notes : List String) (c : FaceConfig), Program.configure path file = .ok (notes, c) →
      Program.run fuel host file ⟨path, .config⟩ = { lines := notes ++ c.yamlLines ++ ["Bye :)"] }) ∧
    ∀ (settings : List Setting) (text : List Char), Yaml.Lines (settings.map Setting.entry) text →
      (∀ s ∈ settings, s.IsWritten) → (settings.filterMap Setting.tunable?).Nodup →
      ∃ config, FaceConfig.load (.octets (utf8 text)) = .ok config ∧
        (∀ t value, .tunable t value ∈ settings → config.get t = value) ∧
        ∀ t, (∀ value, .tunable t value ∉ settings) → config.get t = ({} : FaceConfig).get t := by
  refine ⟨FaceConfig.load_printed, ?_, ?_⟩
  · intro fuel host file path notes c effect
    simp only [Program.run, effect]
  · intro settings text lines written once
    exact FaceConfig.load_settings lines written once

/-- Two tunables are set, the later one first, around a key that begins with a colon and has no value, and
there is no break behind the last line. Without a file the defaults are printed. -/
theorem set_around_an_unknown_key :
    let settings : List Setting :=
      [.tunable .packetSize 1024, .unknown [':', 'x'] [], .tunable .stopWhenInterval 50]
    let text := "max_ndn_packet_size: 1024\n:x:\nstop_when_interval_ms: 50".toList
    (Yaml.Lines (settings.map Setting.entry) text ∧ (∀ s ∈ settings, s.IsWritten) ∧
      (settings.filterMap Setting.tunable?).Nodup ∧
      ∃ config, FaceConfig.load (.octets (utf8 text)) = .ok config ∧ config.get .packetSize = 1024 ∧
        config.get .stopWhenInterval = 50 ∧ config.get .interestLifetime = 4000) ∧
    (Program.configure none (fun _ => .missing) = .ok ([], {}) ∧
      (Program.run 0 { now := default, nonces := fun _ => 0 } (fun _ => .missing) ⟨none, .config⟩).lines =
        (({} : FaceConfig).yamlLines ++ ["Bye :)"])) := by
  intro settings text
  have lines : Yaml.Lines (settings.map Setting.entry) text :=
    .line _ (.broken _) (.line _ (.broken _) (.line _ .last .nil))
  have colon : Yaml.IsContent ':' := ⟨by decide, by decide, by decide⟩
  have letter : Yaml.IsContent 'x' := ⟨by decide, by decide, by decide⟩
  have content : ∀ c ∈ [':', 'x'], Yaml.IsContent c := by simp [colon, letter]
  have begins : Yaml.BeginsPlain [':', 'x', ':'] := .cons colon (by decide) (by decide) fun _ => by decide
  have plain : Yaml.IsPlain [':'] [':', 'x'] := by
    refine ⟨by decide, content, begins, ?_, ?_, by rintro c ⟨⟩; rfl⟩
    · rintro (_ | ⟨_, _ | ⟨_, before⟩⟩) after split
      · obtain ⟨-, rfl⟩ := List.cons.inj split
        rfl
      · simp at split
      · simp at split
    · intro before c after split
      have member : '#' ∈ [':', 'x'] := split ▸ by simp
      exact absurd member (by decide)
  have key : Yaml.IsKey [':', 'x'] := by
    refine ⟨plain, by decide, fun mark known c rest split => ?_⟩
    simp at split
  have written : ∀ s ∈ settings, s.IsWritten := by
    simp only [settings, List.forall_mem_cons, List.not_mem_nil, false_imp_iff, implies_true, and_true]
    exact ⟨trivial, ⟨⟨key, .inl rfl⟩, fun t => by cases t <;> decide⟩, trivial⟩
  have once : (settings.filterMap Setting.tunable?).Nodup := by decide
  obtain ⟨-, run, load⟩ := settings_are_read_as_written
  obtain ⟨config, read, set, kept⟩ := load settings text lines written once
  refine ⟨⟨lines, written, once, config, read, ?_, ?_, ?_⟩, rfl, ?_⟩
  · exact set .packetSize 1024 (by simp [settings])
  · exact set .stopWhenInterval 50 (by simp [settings])
  · exact kept .interestLifetime (by simp [settings])
  · exact congrArg Program.Output.lines (run 0 _ _ none [] {} rfl)

end NamedData
