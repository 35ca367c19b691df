import NamedData.Proofs.Json.Spelling

/-!
Decimal numbers.

The digits of a number, read from left to right, give its value, and every beginning of them spells a
smaller number (`prefix_decimal`). So a number that is cut short is read as that smaller number, with no
text left.
-/
namespace NamedData.Json

variable {n limit : Nat} {rest : Bytes}

/-- The value of digits that continue a number. -/
def digitsValue (value : Nat) (digits : Bytes) : Nat :=
  digits.foldl (fun n d => n * 10 + digitValue d) value

theorem digitValue_digit (small : n < 10) : digitValue (48 + UInt8.ofNat n) = n := by
  simp only [digitValue, UInt8.toNat_add, UInt8.toNat_ofNat, UInt8.toNat_ofNat']
  omega

theorem isDigit_digit (small : n < 10) : isDigit (48 + UInt8.ofNat n) = true := by
  simp only [isDigit, Bool.and_eq_true, decide_eq_true_eq, UInt8.le_iff_toNat_le, UInt8.toNat_add,
    UInt8.toNat_ofNat, UInt8.toNat_ofNat']
  omega

theorem decimal_of_lt (small : n < 10) : decimal n = [48 + UInt8.ofNat n] := by
  rw [decimal, if_pos small]

/-- A number of several digits is spelled by the number without its last digit, and that digit. -/
theorem decimal_of_le (large : 10 ≤ n) :
    decimal n = decimal (n / 10) ++ [48 + UInt8.ofNat (n % 10)] := by
  rw [decimal, if_neg (by omega)]

theorem isDigit_of_mem_decimal {b : UInt8} (member : b ∈ decimal n) : isDigit b = true := by
  induction n using Nat.strong_induction_on with
  | _ n ih =>
    by_cases small : n < 10
    · rw [decimal_of_lt small, List.mem_singleton] at member
      rw [member]
      exact isDigit_digit small
    · rw [decimal_of_le (by omega), List.mem_append, List.mem_singleton] at member
      rcases member with earlier | rfl
      · exact ih (n / 10) (by omega) earlier
      · exact isDigit_digit (Nat.mod_lt _ (by omega))

/-- The digits of a number give its value. -/
theorem digitsValue_decimal (n : Nat) : digitsValue 0 (decimal n) = n := by
  induction n using Nat.strong_induction_on with
  | _ n ih =>
    by_cases small : n < 10
    · simp [decimal_of_lt small, digitsValue, digitValue_digit small]
    · have higher := ih (n / 10) (by omega)
      rw [digitsValue] at higher
      rw [decimal_of_le (by omega), digitsValue, List.foldl_append, higher]
      simp only [List.foldl_cons, List.foldl_nil, digitValue_digit (Nat.mod_lt n (by omega : 0 < 10))]
      omega

/-- Only zero is spelled with a leading zero. -/
theorem head_decimal (n : Nat) :
    ∃ d digits, decimal n = d :: digits ∧ isDigit d = true ∧
      (d = Sign.zero → n = 0 ∧ digits = []) := by
  induction n using Nat.strong_induction_on with
  | _ n ih =>
    by_cases small : n < 10
    · refine ⟨_, [], decimal_of_lt small, isDigit_digit small, ?_⟩
      intro zero
      have value := digitValue_digit small
      rw [zero] at value
      exact ⟨value.symm, rfl⟩
    · obtain ⟨d, digits, spelled, digit, leading⟩ := ih (n / 10) (by omega)
      refine ⟨d, digits ++ [48 + UInt8.ofNat (n % 10)], ?_, digit, ?_⟩
      · rw [decimal_of_le (by omega), spelled, List.cons_append]
      · intro zero
        have none := (leading zero).1
        omega

/-- Every beginning of the digits of a number spells a number that is no larger. -/
theorem prefix_decimal {start : Bytes} (part : start <+: decimal n) :
    start = [] ∨ ∃ m ≤ n, start = decimal m := by
  induction n using Nat.strong_induction_on with
  | _ n ih =>
    by_cases small : n < 10
    · rw [decimal_of_lt small] at part
      rcases List.prefix_concat_iff.mp (show start <+: [] ++ [_] from part) with whole | none
      · exact .inr ⟨n, le_rfl, by rw [whole, decimal_of_lt small, List.nil_append]⟩
      · exact .inl (List.prefix_nil.mp none)
    · rw [decimal_of_le (by omega)] at part
      rcases List.prefix_concat_iff.mp part with whole | shorter
      · exact .inr ⟨n, le_rfl, by rw [whole, ← decimal_of_le (by omega)]⟩
      · rcases ih (n / 10) (by omega) shorter with none | ⟨m, less, spelled⟩
        · exact .inl none
        · exact .inr ⟨m, by omega, spelled⟩

/-! ## Reading -/

theorem le_digitsValue (value : Nat) (digits : Bytes) : value ≤ digitsValue value digits := by
  induction digits generalizing value with
  | nil => exact le_rfl
  | cons d digits ih =>
    have further := ih (value * 10 + digitValue d)
    change value ≤ digitsValue (value * 10 + digitValue d) digits
    omega

/-- Digits whose value fits 64 bits are all absorbed. -/
theorem absorb_eq (value : Nat) (digits : Bytes) (fits : digitsValue value digits < UInt64.size) :
    absorb value digits = (digitsValue value digits, []) := by
  induction digits generalizing value with
  | nil => rfl
  | cons d digits ih =>
    change digitsValue (value * 10 + digitValue d) digits < _ at fits
    have next := le_digitsValue (value * 10 + digitValue d) digits
    rw [absorb]
    simp only [if_pos (show value * 10 + digitValue d < UInt64.size by omega), ih _ fits]
    rfl

theorem afterWhole_of_ends (ends : Ends rest) (value : Nat) :
    afterWhole true value 0 rest = .ok (.whole value, rest) := by
  cases rest with
  | nil => rfl
  | cons b rest =>
    obtain ⟨-, undotted, unscaled⟩ := ends b rfl
    simp [afterWhole, undotted, unscaled]

theorem takeWhile_isDigit (ends : Ends rest) :
    (decimal n ++ rest).takeWhile isDigit = decimal n ∧
      (decimal n ++ rest).dropWhile isDigit = rest := by
  have digits : ∀ b ∈ decimal n, isDigit b = true := fun _ member => isDigit_of_mem_decimal member
  rw [List.takeWhile_append_of_pos digits, List.dropWhile_append_of_pos digits]
  cases rest with
  | nil => simp
  | cons b rest => simp [(ends b rfl).1]

/-- A number is read off its digits. -/
theorem number_decimal (fits : n < UInt64.size) (ends : Ends rest) :
    number true (decimal n ++ rest) = .ok (.whole n, rest) := by
  obtain ⟨d, digits, spelled, digit, leading⟩ := head_decimal n
  have value := digitsValue_decimal n
  have split := takeWhile_isDigit (n := n) ends
  rw [spelled, List.cons_append] at split ⊢
  by_cases zero : d = Sign.zero
  · obtain ⟨rfl, rfl⟩ := leading zero
    subst zero
    cases rest with
    | nil => rfl
    | cons b rest => simp [number, (ends b rfl).1, afterWhole_of_ends ends]
  · have absorbed := absorb_eq 0 (decimal n) (by rwa [value])
    rw [value, spelled] at absorbed
    simp [number, zero, digit, split.1, split.2, absorbed, afterWhole_of_ends ends]

/-- A digit is no blank and no other sign. -/
theorem solid_of_isDigit {b : UInt8} (digit : isDigit b = true) :
    isBlank b = false ∧ b ≠ Sign.minus ∧ b ≠ Sign.closeBracket ∧ b ≠ 110 := by
  refine ⟨?_, ?_, ?_, ?_⟩
  · rw [← Bool.not_eq_true]
    intro blank
    simp only [isBlank, Bool.or_eq_true, beq_iff_eq] at blank
    rcases blank with ((rfl | rfl) | rfl) | rfl <;> exact absurd digit (by decide)
  all_goals
    rintro rfl
    exact absurd digit (by decide)

theorem natural_decimal (within : limit ≤ UInt64.size) (small : n < limit) (ends : Ends rest) :
    natural limit (decimal n ++ rest) = .ok (n, rest) := by
  have read := number_decimal (by omega : n < UInt64.size) ends
  obtain ⟨d, digits, spelled, digit, -⟩ := head_decimal n
  obtain ⟨solid, unsigned, -⟩ := solid_of_isDigit digit
  rw [spelled, List.cons_append] at read ⊢
  simp only [natural, skipBlanks_cons solid, if_neg unsigned, digit, if_true, read, if_pos small]

/-- A whole number is spelled in decimal. -/
theorem spells_decimal (within : limit ≤ UInt64.size) (small : n < limit) :
    Spells (natural limit) (decimal n) n where
  starts := by
    obtain ⟨d, digits, spelled, digit, -⟩ := head_decimal n
    obtain ⟨solid, -, other, -⟩ := solid_of_isDigit digit
    exact ⟨d, digits, spelled, solid, other⟩
  reads rest ends := natural_decimal within small ends
  cut start part other := by
    rcases prefix_decimal part with rfl | ⟨m, less, rfl⟩
    · exact .inl rfl
    · have read := natural_decimal within (by omega : m < limit) ends_nil
      rw [List.append_nil] at read
      exact .inr ⟨m, read⟩

theorem head_decimal_ne_null (n : Nat) : ∀ b ∈ (decimal n).head?, b ≠ 110 := by
  obtain ⟨d, digits, spelled, digit, -⟩ := head_decimal n
  obtain ⟨-, -, -, other⟩ := solid_of_isDigit digit
  rw [spelled]
  rintro b ⟨⟩
  exact other

end NamedData.Json
