import NamedData.Interest.Basic
import NamedData.Data

/-!
Packets and the formats that carry them.
-/
namespace NamedData

/-- What travels over a link: a request or an answer. -/
inductive Packet where
  | interest (interest : Interest)
  | data (data : Data)
deriving DecidableEq, Inhabited

/-- How a text fails to be the encoding of a value.

Reading goes from left to right and the first fault met is the one reported. -/
inductive Fault where
  /-- The text stops being well-formed here. -/
  | malformed
  /-- The text is well-formed so far but spells no value of the expected type. -/
  | mismatched
  /-- The text ends too early. -/
  | truncated
deriving DecidableEq, Inhabited

/-- Why a packet could not be encoded, or an element not decoded. -/
inductive WireError where
  | unencodable (reason : String)
  | undecodable (fault : Fault)
deriving DecidableEq

/-- The wording of a wire error. What a reader says about a fault is left to the reader. -/
def WireError.message : WireError → String
  | .unencodable reason => "Could not encode packet. " ++ reason
  | .undecodable _ => "Could not decode element."

/-- A packet format: packets to octets and back. -/
structure WireFormat where
  encode : Packet → Except WireError Bytes
  decode : Bytes → Except WireError Packet

end NamedData
