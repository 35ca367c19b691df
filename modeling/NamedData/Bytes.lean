/-!
Octet strings. Components, contents and encoded packets are plain lists of octets, so every codec
below is a function on lists and can be reasoned about by recursion.
-/
namespace NamedData

/-- A string of octets. -/
abbrev Bytes := List UInt8

/-- The UTF-8 encoding of a text. -/
def utf8 (text : List Char) : Bytes := text.flatMap String.utf8EncodeChar

/-- The octets of a text that is known to be ASCII: one octet per character. -/
def ascii (text : List Char) : Bytes := text.map fun c => UInt8.ofNat c.toNat

/-- The text that a string of octets encodes, if it is well-formed UTF-8. -/
def utf8Text? (octets : Bytes) : Option String := String.fromUTF8? ⟨octets.toArray⟩

@[simp] theorem utf8_nil : utf8 [] = [] := rfl

@[simp] theorem utf8_append (s t : List Char) : utf8 (s ++ t) = utf8 s ++ utf8 t := by
  simp [utf8]

@[simp] theorem ascii_nil : ascii [] = [] := rfl

@[simp] theorem ascii_append (s t : List Char) : ascii (s ++ t) = ascii s ++ ascii t := by
  simp [ascii]

end NamedData
