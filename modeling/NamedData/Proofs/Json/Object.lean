import NamedData.Proofs.Json.Spelling

/-!
Objects.

A record is written as an object with its fields in order. `Members` follows the reader through such an
object: every key leads to a slot that spells the value behind the colon, and takes the fields met so far
to the next state. The keys need no escapes (`Plain`).
-/
namespace NamedData.Json

variable {σ α : Type} {layout : Layout σ α} {rest : Bytes}

/-! ## Keys -/

/-- A key that is written as it is: it needs no escapes. -/
def Plain (key : Bytes) : Prop :=
  (∀ b ∈ key, b ≠ Sign.quote ∧ b ≠ Sign.backslash ∧ ¬ b < 32) ∧ (utf8Text? key).isSome

instance : DecidablePred Plain := fun key =>
  @instDecidableAnd _ _ (List.decidableBAll _ key) inferInstance

theorem stringOctets_append {key : Bytes}
    (plain : ∀ b ∈ key, b ≠ Sign.quote ∧ b ≠ Sign.backslash ∧ ¬ b < 32) (rest : Bytes) :
    stringOctets (key ++ Sign.quote :: rest) = .ok (key, rest) := by
  induction key with
  | nil =>
    rw [List.nil_append, stringOctets.eq_def]
    rfl
  | cons b key ih =>
    obtain ⟨unquoted, unescaped, printed⟩ := plain b List.mem_cons_self
    have tail := ih fun c member => plain c (List.mem_cons_of_mem b member)
    rw [List.cons_append, stringOctets.eq_def]
    simp only [if_neg unquoted, if_neg unescaped, if_neg printed, tail, prepend, List.cons_append,
      List.nil_append]

/-- A key without its closing quote is wanting. -/
theorem stringOctets_cut {key : Bytes}
    (plain : ∀ b ∈ key, b ≠ Sign.quote ∧ b ≠ Sign.backslash ∧ ¬ b < 32) :
    stringOctets key = .error .truncated := by
  induction key with
  | nil => rfl
  | cons b key ih =>
    obtain ⟨unquoted, unescaped, printed⟩ := plain b List.mem_cons_self
    have tail := ih fun c member => plain c (List.mem_cons_of_mem b member)
    rw [stringOctets.eq_def]
    simp only [if_neg unquoted, if_neg unescaped, if_neg printed, tail, prepend]

theorem Plain.reads {key : Bytes} (plain : Plain key) (rest : Bytes) :
    string (key ++ Sign.quote :: rest) = .ok (key, rest) := by
  simp [string, stringOctets_append plain.1, plain.2]

/-- Where a key with its closing quote is cut short, the cut is in the key or behind the quote. -/
theorem Plain.split {key start : Bytes} (plain : Plain key)
    (part : start <+: key ++ Sign.quote :: rest) :
    string start = .error .truncated ∨
      ∃ left, left <+: rest ∧ string start = .ok (key, left) := by
  have wanting : ∀ {start : Bytes}, start <+: key → string start = .error .truncated := by
    intro start inside
    have cut := stringOctets_cut fun b member => plain.1 b (inside.subset member)
    simp only [string, cut]
  rcases prefix_append_cases part with inside | ⟨left, beyond, rfl⟩
  · exact .inl (wanting inside)
  · cases left with
    | nil =>
      rw [List.append_nil]
      exact .inl (wanting (List.prefix_refl key))
    | cons b left =>
      obtain ⟨rfl, inner⟩ := List.cons_prefix_cons.mp beyond
      exact .inr ⟨left, inner, plain.reads left⟩

/-! ## Members -/

theorem moreMembers_close (first : Bool) (rest : Bytes) :
    moreMembers first (Sign.closeBrace :: rest) = .ok (false, Sign.closeBrace :: rest) := rfl

theorem moreMembers_lead (first : Bool) (rest : Bytes) :
    moreMembers first (lead first ++ Sign.quote :: rest) = .ok (true, rest) := by
  cases first <;> rfl

theorem separated_writeMember (first : Bool) (key : String) (value : Bytes) (written : List Bytes)
    (rest : Bytes) :
    separated first (writeMember key value :: written) ++ rest =
      lead first ++ Sign.quote :: (ascii key.toList ++ Sign.quote ::
        (Sign.colon :: value ++ (separated false written ++ rest))) := by
  simp [separated_cons, writeMember]

/-- An object that is cut short in front of a key is wanting. -/
theorem moreMembers_cut {first : Bool} {start : Bytes} (part : start <+: lead first) :
    moreMembers first start = .error .truncated := by
  cases start with
  | nil => rfl
  | cons b start =>
    cases first with
    | true => simp [lead] at part
    | false =>
      obtain ⟨rfl, inner⟩ := List.cons_prefix_cons.mp part
      rw [List.prefix_nil.mp inner]
      rfl

theorem members_nil (layout : Layout σ α) (bound : Bytes) (s : σ) :
    members layout bound false s [] = .error .truncated := by
  cases bound <;> rfl

/-- A slot that is still free takes the value that is spelled behind the colon. -/
theorem spells_slot {β : Type} {get : σ → Option β} {set : σ → β → σ} {value : Reader β}
    {spelling : Bytes} {b : β} {s : σ} (free : get s = none) (spells : Spells value spelling b) :
    Spells (slot get set value s) (Sign.colon :: spelling) (set s b) where
  starts := ⟨Sign.colon, spelling, rfl, by decide⟩
  reads rest ends := by
    simp only [slot, free, List.cons_append, colon, skipBlanks_cons (b := Sign.colon) rfl, if_true,
      mapRead, spells.reads rest ends]
  cut start part other := by
    cases start with
    | nil => exact .inl (by simp [slot, free, colon])
    | cons c start =>
      obtain ⟨rfl, inner⟩ := List.cons_prefix_cons.mp part
      have different : start ≠ spelling := fun same => other (by rw [same])
      simp only [RunsOut, slot, free, colon, skipBlanks_cons (b := Sign.colon) rfl, if_true]
      exact (spells.map (set s)).cut start inner different

/-- The written members of an object take the fields met so far from one state to another. -/
inductive Members (layout : Layout σ α) : List Bytes → σ → σ → Prop
  | nil (s : σ) : Members layout [] s s
  | cons {key : String} {value : Bytes} {written : List Bytes} {read : σ → Reader σ} {s next last : σ}
      (plain : Plain (ascii key.toList)) (known : layout.member (ascii key.toList) = some read)
      (spells : Spells (read s) (Sign.colon :: value) next) (others : Members layout written next last) :
      Members layout (writeMember key value :: written) s last

namespace Members

variable {written : List Bytes} {s last : σ}

theorem solid (fields : Members layout written s last) : ∀ item ∈ written, item ≠ [] := by
  induction fields with
  | nil s => simp
  | cons plain known spells others ih =>
    intro item member
    rcases List.mem_cons.mp member with rfl | member
    · simp [writeMember]
    · exact ih item member

/-- The members of an object are read up to its closing brace. -/
theorem reads (fields : Members layout written s last) (bound : Bytes)
    (enough : written.length < bound.length) (first : Bool) (rest : Bytes) :
    members layout bound first s (separated first written ++ Sign.closeBrace :: rest) =
      .ok (last, Sign.closeBrace :: rest) := by
  induction fields generalizing bound first with
  | nil s =>
    cases bound with
    | nil => simp at enough
    | cons c bound => simp [members, moreMembers_close]
  | @cons key value written read s next last plain known spells others ih =>
    cases bound with
    | nil => simp at enough
    | cons c bound =>
      have fewer : written.length < bound.length := by simpa using enough
      have found := spells.reads (separated false written ++ Sign.closeBrace :: rest)
        (ends_separated written (ends_cons (by decide) rest))
      rw [separated_writeMember]
      simp only [members, moreMembers_lead, plain.reads, known, found, ih bound fewer]

/-- Members that are cut short are wanting. -/
theorem cut (fields : Members layout written s last) (bound : Bytes) {first : Bool} {start : Bytes}
    (part : start <+: separated first written) :
    members layout bound first s start = .error .truncated := by
  induction fields generalizing bound first start with
  | nil s =>
    rw [separated_nil, List.prefix_nil] at part
    subst part
    cases bound <;> rfl
  | @cons key value written read s next last plain known spells others ih =>
    cases bound with
    | nil => rfl
    | cons c bound =>
      have text := separated_writeMember first key value written []
      rw [List.append_nil, List.append_nil] at text
      rw [text] at part
      rcases prefix_append_cases part with short | ⟨left, inside, rfl⟩
      · simp only [members, moreMembers_cut short]
      · cases left with
        | nil =>
          rw [List.append_nil]
          simp only [members, moreMembers_cut (List.prefix_refl _)]
        | cons b left =>
          obtain ⟨rfl, behind⟩ := List.cons_prefix_cons.mp inside
          simp only [members, moreMembers_lead]
          rcases plain.split behind with wanting | ⟨left, inside, taken⟩
          · simp only [wanting]
          · have ends : Ends (separated false written) := by
              simpa using ends_separated written ends_nil
            simp only [taken, known]
            rcases spells.split ends inside with (wanting | ⟨other, taken⟩) | ⟨left, more, found⟩
            · simp only [wanting]
            · have none := members_nil layout bound other
              simp only [taken, none]
            · simp only [found, ih bound more]

end Members

/-! ## Records -/

section records

variable {written : List Bytes} {last : σ} {a : α}

/-- A record is read off the object it is written as, whatever follows it. -/
theorem record_reads (fields : Members layout written layout.blank last)
    (complete : layout.complete last = .ok a) (rest : Bytes) :
    record layout (writeObject written ++ rest) = .ok (a, rest) := by
  have enough := length_le_separated fields.solid true
  have text : writeObject written ++ rest =
      Sign.openBrace :: (separated true written ++ Sign.closeBrace :: rest) := by
    simp [writeObject, separated]
  have other : Sign.openBrace ≠ Sign.openBracket := by decide
  have read := fields.reads
    (Sign.openBrace :: (separated true written ++ Sign.closeBrace :: rest))
    (by simp; omega) true rest
  rw [text]
  simp [record, skipBlanks_cons (b := Sign.openBrace) rfl, other, read, complete, closeObject,
    skipBlanks_cons (b := Sign.closeBrace) rfl]

/-- An object that is cut short is wanting. -/
theorem record_cut (fields : Members layout written layout.blank last) {start : Bytes}
    (part : start <+: writeObject written) (other : start ≠ writeObject written) :
    record layout start = .error .truncated := by
  rcases prefix_enclosed part other with rfl | ⟨first, inside, rfl⟩
  · rfl
  · have list : Sign.openBrace ≠ Sign.openBracket := by decide
    have cut : members layout (Sign.openBrace :: first) true layout.blank first =
        .error .truncated := fields.cut _ inside
    simp [record, skipBlanks_cons (b := Sign.openBrace) rfl, list, cut]

theorem spells_record (fields : Members layout written layout.blank last)
    (complete : layout.complete last = .ok a) :
    Spells (record layout) (writeObject written) a where
  starts := ⟨Sign.openBrace, _, rfl, by decide⟩
  reads rest _ := record_reads fields complete rest
  cut start part other := .inl (record_cut fields part other)

end records

end NamedData.Json
