import Mathlib.Data.List.TakeWhile
import NamedData.Packet.Codec
import NamedData.Proofs.Json.Decimal
import NamedData.Proofs.Json.Object

/-!
The JSON packet format read back.

Every packet is spelled by what it is written as. So an element that was written is read back as the
same packet, and only as a whole: cut short it is wanting, and behind it nothing but blanks may stand.
-/
namespace NamedData

open Json

/-! ## Values -/

namespace Json

theorem spells_uint8 (n : UInt8) : Spells uint8 (decimal n.toNat) n := by
  have spells : Spells (natural UInt8.size) (decimal n.toNat) n.toNat :=
    spells_decimal (by decide) n.toNat_lt
  have read := spells.map UInt8.ofNat
  rw [UInt8.ofNat_toNat] at read
  exact read

theorem spells_uint32 (n : UInt32) : Spells uint32 (decimal n.toNat) n := by
  have spells : Spells (natural UInt32.size) (decimal n.toNat) n.toNat :=
    spells_decimal (by decide) n.toNat_lt
  have read := spells.map UInt32.ofNat
  rw [UInt32.ofNat_toNat] at read
  exact read

theorem spells_uint64 (n : UInt64) : Spells uint64 (decimal n.toNat) n := by
  have spells : Spells (natural UInt64.size) (decimal n.toNat) n.toNat :=
    spells_decimal le_rfl n.toNat_lt
  have read := spells.map UInt64.ofNat
  rw [UInt64.ofNat_toNat] at read
  exact read

theorem spells_octets (content : Bytes) : Spells octets (writeOctets content) content :=
  spells_writeArray spells_uint8 content

theorem spells_component (c : Component) : Spells component c.toJson c :=
  (spells_octets c.octets).map Component.mk

theorem spells_components (cs : List Component) :
    Spells (array component) (writeArray (cs.map Component.toJson)) cs :=
  spells_writeArray spells_component cs

/-- A span whose fraction is less than a second has no seconds to carry over. -/
theorem spanOf_parts (d : Duration) : spanOf d.secs d.nanos = .ok d := by
  have fraction := d.nanos_lt
  have whole : d.nanos.toNat / 1000000000 = 0 := Nat.div_eq_of_lt fraction
  have left : d.nanos.toNat % 1000000000 = d.nanos.toNat := Nat.mod_eq_of_lt fraction
  simp [spanOf, required, Duration.ofParts?, whole, left, d.secs.toNat_lt]

theorem members_duration (d : Duration) :
    Members durationLayout
      [writeMember "secs" (decimal d.secs.toNat), writeMember "nanos" (decimal d.nanos.toNat)]
      {} ⟨some d.secs, some d.nanos⟩ := by
  refine .cons (by decide) rfl (spells_slot rfl (spells_uint64 d.secs)) ?_
  refine .cons (by decide) rfl (spells_slot rfl (spells_uint32 d.nanos)) ?_
  exact .nil _

theorem spells_duration (d : Duration) : Spells duration d.toJson d :=
  spells_record (members_duration d) (spanOf_parts d)

theorem spells_name (n : Name) : Spells name n.toJson n := by
  have fields : Members nameLayout
      [writeMember "components" (writeArray (n.components.map Component.toJson))]
      none (some n.components) :=
    .cons (by decide) rfl (spells_slot rfl (spells_components n.components)) (.nil _)
  exact spells_record fields rfl

theorem spells_optional_duration (d : Option Duration) :
    Spells (optional duration) (writeOption Duration.toJson d) d := by
  refine spells_writeOption rfl spells_duration (fun d b first => ?_) d
  cases first
  decide

theorem spells_optional_uint8 (n : Option UInt8) :
    Spells (optional uint8) (writeOption (decimal ·.toNat) n) n :=
  spells_writeOption rfl spells_uint8 (fun n => head_decimal_ne_null n.toNat) n

theorem spells_optional_uint32 (n : Option UInt32) :
    Spells (optional uint32) (writeOption (decimal ·.toNat) n) n :=
  spells_writeOption rfl spells_uint32 (fun n => head_decimal_ne_null n.toNat) n

theorem spells_optional_uint64 (n : Option UInt64) :
    Spells (optional uint64) (writeOption (decimal ·.toNat) n) n :=
  spells_writeOption rfl spells_uint64 (fun n => head_decimal_ne_null n.toNat) n

theorem members_interest (i : Interest) :
    Members interestLayout [
      writeMember "name" i.name.toJson,
      writeMember "min_suffix_components" (writeOption (decimal ·.toNat) i.minSuffix),
      writeMember "max_suffix_components" (writeOption (decimal ·.toNat) i.maxSuffix),
      writeMember "exclude" (writeArray (i.exclude.map Component.toJson)),
      writeMember "child_selector" (writeOption (decimal ·.toNat) i.childSelector),
      writeMember "must_be_fresh" (writeBool i.mustBeFresh),
      writeMember "interest_lifetime" (writeOption Duration.toJson i.lifetime),
      writeMember "nonce" (writeOption (decimal ·.toNat) i.nonce)]
      {} ⟨some i.name, some i.minSuffix, some i.maxSuffix, some i.exclude, some i.childSelector,
        some i.mustBeFresh, some i.lifetime, some i.nonce⟩ := by
  refine .cons (by decide) rfl (spells_slot rfl (spells_name i.name)) ?_
  refine .cons (by decide) rfl (spells_slot rfl (spells_optional_uint64 i.minSuffix)) ?_
  refine .cons (by decide) rfl (spells_slot rfl (spells_optional_uint64 i.maxSuffix)) ?_
  refine .cons (by decide) rfl (spells_slot rfl (spells_components i.exclude)) ?_
  refine .cons (by decide) rfl (spells_slot rfl (spells_optional_uint8 i.childSelector)) ?_
  refine .cons (by decide) rfl (spells_slot rfl (spells_writeBool i.mustBeFresh)) ?_
  refine .cons (by decide) rfl (spells_slot rfl (spells_optional_duration i.lifetime)) ?_
  refine .cons (by decide) rfl (spells_slot rfl (spells_optional_uint32 i.nonce)) ?_
  exact .nil _

theorem spells_interest (i : Interest) : Spells interest i.toJson i :=
  spells_record (members_interest i) rfl

theorem members_data (d : Data) :
    Members dataLayout [
      writeMember "name" d.name.toJson,
      writeMember "content" (writeOctets d.content),
      writeMember "freshness_period" (writeOption Duration.toJson d.freshness)]
      {} ⟨some d.name, some d.content, some d.freshness⟩ := by
  refine .cons (by decide) rfl (spells_slot rfl (spells_name d.name)) ?_
  refine .cons (by decide) rfl (spells_slot rfl (spells_octets d.content)) ?_
  refine .cons (by decide) rfl (spells_slot rfl (spells_optional_duration d.freshness)) ?_
  exact .nil _

theorem spells_data (d : Data) : Spells data d.toJson d :=
  spells_record (members_data d) rfl

/-! ## Packets -/

/-- How the body of a packet is read, by the packet's kind. -/
def bodyOf (kind : Bytes) : Option (Reader Packet) :=
  if kind = ascii "Interest".toList then some (mapRead .interest interest)
  else if kind = ascii "Data".toList then some (mapRead .data data)
  else none

section packets

variable {kind : String} {body : Reader Packet} {value : Bytes} {p : Packet}

/-- A packet behind the opening quote of its kind. -/
theorem packet_quote (text : Bytes) :
    packet (Sign.openBrace :: Sign.quote :: text) =
      match string text with
      | .error fault => .error fault
      | .ok (kind, text) =>
        match bodyOf kind with
        | none => .error .mismatched
        | some body =>
          match colon text with
          | .error fault => .error fault
          | .ok ((), text) =>
            match body text with
            | .error fault => .error fault
            | .ok (p, text) =>
              match closeObject text with
              | .error fault => .error fault
              | .ok ((), text) => .ok (p, text) := by
  rfl

theorem writeObject_kind (kind : String) (value rest : Bytes) :
    writeObject [writeMember kind value] ++ rest =
      Sign.openBrace :: Sign.quote :: (ascii kind.toList ++ Sign.quote :: Sign.colon ::
        (value ++ Sign.closeBrace :: rest)) := by
  simp [writeObject, writeMember, commaSeparated]

/-- A packet is read off the object that holds it under its kind. -/
theorem packet_of_kind (plain : Plain (ascii kind.toList))
    (known : bodyOf (ascii kind.toList) = some body) (spells : Spells body value p) (rest : Bytes) :
    packet (writeObject [writeMember kind value] ++ rest) = .ok (p, rest) := by
  have read := spells.reads (Sign.closeBrace :: rest) (ends_cons (by decide) rest)
  rw [writeObject_kind, packet_quote]
  simp only [plain.reads, known, colon, skipBlanks_cons (b := Sign.colon) rfl, if_true, read,
    closeObject, skipBlanks_cons (b := Sign.closeBrace) rfl]

/-- A packet that is cut short is wanting. -/
theorem packet_cut (plain : Plain (ascii kind.toList))
    (known : bodyOf (ascii kind.toList) = some body) (spells : Spells body value p) {start : Bytes}
    (part : start <+: writeObject [writeMember kind value])
    (other : start ≠ writeObject [writeMember kind value]) : packet start = .error .truncated := by
  rcases prefix_enclosed part other with rfl | ⟨left, inside, rfl⟩
  · rfl
  · cases left with
    | nil => rfl
    | cons b left =>
      obtain ⟨rfl, named⟩ := List.cons_prefix_cons.mp inside
      rw [packet_quote]
      rcases plain.split named with wanting | ⟨left, behind, taken⟩
      · simp only [wanting]
      · cases left with
        | nil => simp [taken, known, colon]
        | cons b left =>
          obtain ⟨rfl, body⟩ := List.cons_prefix_cons.mp behind
          rcases spells.runsOut body with wanting | ⟨other, all⟩
          · simp [taken, known, colon, skipBlanks_cons (b := Sign.colon) rfl, wanting]
          · simp [taken, known, colon, skipBlanks_cons (b := Sign.colon) rfl, all, closeObject]

end packets

theorem plain_interest : Plain (ascii "Interest".toList) := by decide

theorem plain_data : Plain (ascii "Data".toList) := by decide

/-- Every packet is read back whatever follows it. -/
theorem packet_reads (p : Packet) (rest : Bytes) : packet (p.toJson ++ rest) = .ok (p, rest) := by
  cases p with
  | interest i => exact packet_of_kind plain_interest rfl ((spells_interest i).map Packet.interest) rest
  | data d => exact packet_of_kind plain_data rfl ((spells_data d).map Packet.data) rest

/-- Every packet that is cut short is wanting. -/
theorem packet_truncated (p : Packet) {start : Bytes} (part : start <+: p.toJson)
    (other : start ≠ p.toJson) : packet start = .error .truncated := by
  cases p with
  | interest i => exact packet_cut plain_interest rfl ((spells_interest i).map Packet.interest) part other
  | data d => exact packet_cut plain_data rfl ((spells_data d).map Packet.data) part other

theorem skipBlanks_eq_nil_iff (text : Bytes) : skipBlanks text = [] ↔ ∀ b ∈ text, isBlank b := by
  rw [skipBlanks, List.dropWhile_eq_nil_iff]

end Json

/-! ## Elements -/

namespace Packet

/-- An element with blanks behind it is its packet. -/
theorem decode_blank (p : Packet) {rest : Bytes} (blank : ∀ b ∈ rest, isBlank b) :
    jsonFormat.decode (p.toJson ++ rest) = .ok p := by
  have none := (skipBlanks_eq_nil_iff rest).mpr blank
  simp [jsonFormat, document, packet_reads, none]

/-- An element with anything else behind it is no packet. -/
theorem decode_followed (p : Packet) {rest : Bytes} (followed : ∃ b ∈ rest, isBlank b = false) :
    jsonFormat.decode (p.toJson ++ rest) = .error (.undecodable .malformed) := by
  have some : skipBlanks rest ≠ [] := by
    intro none
    obtain ⟨b, member, solid⟩ := followed
    simp [(skipBlanks_eq_nil_iff rest).mp none b member] at solid
  simp [jsonFormat, document, packet_reads, some]

theorem decode_toJson (p : Packet) : jsonFormat.decode p.toJson = .ok p := by
  have whole := p.decode_blank (List.forall_mem_nil _)
  rwa [List.append_nil] at whole

theorem decode_cut (p : Packet) {start : Bytes} (part : start <+: p.toJson)
    (other : start ≠ p.toJson) : jsonFormat.decode start = .error (.undecodable .truncated) := by
  simp only [jsonFormat, document, packet_truncated p part other]

/-- Packets that are written alike are the same packet. -/
theorem toJson_injective {p q : Packet} (same : p.toJson = q.toJson) : p = q := by
  have read := p.decode_toJson
  rw [same, q.decode_toJson] at read
  exact (Except.ok.inj read).symm

/-- **Encoding a packet never fails and decoding undoes it.** So no two packets share an element, and
whatever element a packet was decoded from, the one it is encoded to is decoded to the same packet. -/
theorem encoding_is_undone :
    (∀ p, ∃ element, jsonFormat.encode p = .ok element ∧ jsonFormat.decode element = .ok p) ∧
      (∀ p q, jsonFormat.encode p = jsonFormat.encode q → p = q) ∧
      ∀ element p, jsonFormat.decode element = .ok p →
        ∃ canonical, jsonFormat.encode p = .ok canonical ∧ jsonFormat.decode canonical = .ok p := by
  have undone : ∀ p, ∃ element,
      jsonFormat.encode p = .ok element ∧ jsonFormat.decode element = .ok p :=
    fun p => ⟨p.toJson, rfl, p.decode_toJson⟩
  refine ⟨undone, ?_, fun _ p _ => undone p⟩
  intro p q same
  exact toJson_injective (Except.ok.inj same)

/-- Data written in arrays, with blanks, is the data that is encoded with its fields named. -/
theorem recoded_from_arrays :
    ∃ canonical, jsonFormat.encode (.data ⟨⟨[⟨[9]⟩]⟩, [7, 8], none⟩) = .ok canonical ∧
      jsonFormat.decode canonical =
        jsonFormat.decode (ascii "\x7b \"Data\" : [[[[9]]], [7, 8], null] \x7d".toList) := by
  have written : jsonFormat.decode (ascii "\x7b \"Data\" : [[[[9]]], [7, 8], null] \x7d".toList) =
      .ok (.data ⟨⟨[⟨[9]⟩]⟩, [7, 8], none⟩) := by decide +kernel
  obtain ⟨canonical, encoded, decoded⟩ := encoding_is_undone.2.2 _ _ written
  exact ⟨canonical, encoded, decoded.trans written.symm⟩

/-- **An element stands for itself alone.** Every element that is cut short is wanting, the empty one
included. With more text behind it, an element is read as its packet if that text is blank, and is
malformed otherwise, so also with another element behind it. -/
theorem elements_are_delimited (p : Packet) :
    ∃ element, jsonFormat.encode p = .ok element ∧
      (∀ start, start <+: element → start ≠ element →
        jsonFormat.decode start = .error (.undecodable .truncated)) ∧
      (∀ rest, (∀ b ∈ rest, isBlank b) → jsonFormat.decode (element ++ rest) = .ok p) ∧
      (∀ rest, (∃ b ∈ rest, isBlank b = false) →
        jsonFormat.decode (element ++ rest) = .error (.undecodable .malformed)) ∧
      ∀ q next, jsonFormat.encode q = .ok next →
        jsonFormat.decode (element ++ next) = .error (.undecodable .malformed) := by
  refine ⟨p.toJson, rfl, fun start part other => p.decode_cut part other,
    fun rest blank => p.decode_blank blank, fun rest followed => p.decode_followed followed, ?_⟩
  rintro q next ⟨⟩
  apply p.decode_followed
  refine ⟨Sign.openBrace, ?_, rfl⟩
  cases q <;> exact List.mem_cons_self

/-- An element without its last character, and one that stands twice, are no packet. -/
theorem neither_cut_nor_doubled :
    ∃ element, jsonFormat.encode (.data default) = .ok element ∧
      jsonFormat.decode element.dropLast = .error (.undecodable .truncated) ∧
      jsonFormat.decode (element ++ [10]) = .ok (.data default) ∧
      jsonFormat.decode (element ++ element) = .error (.undecodable .malformed) := by
  obtain ⟨element, encoded, cut, blank, -, doubled⟩ := elements_are_delimited (.data default)
  have some : element ≠ [] := by
    rintro rfl
    simp [jsonFormat, toJson, writeObject] at encoded
  have shorter : element.dropLast ≠ element := by
    intro same
    have length := congrArg List.length same
    have positive := List.length_pos_iff.mpr some
    rw [List.length_dropLast] at length
    omega
  refine ⟨element, encoded, cut _ (List.dropLast_prefix element) shorter, blank [10] ?_, ?_⟩
  · simp [isBlank]
  · exact doubled _ element encoded

end Packet

end NamedData
