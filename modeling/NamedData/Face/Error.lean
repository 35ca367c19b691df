import NamedData.Link.Transport
import NamedData.Packet.Basic

/-!
Why an operation of a face or its node failed.
-/
namespace NamedData

/-- Why an operation of a face or its node failed. -/
inductive FaceError where
  | loopClosed
  | packetTooLarge (size max : Nat)
  | transport (cause : TransportError)
  | wire (cause : WireError)
deriving DecidableEq

/-- The wording of a face error. -/
def FaceError.message : FaceError → String
  | .loopClosed => "The event loop is no longer running."
  | .packetTooLarge size max =>
    "The encoding is " ++ toString size ++ " bytes, which exceeds the maximum NDN packet size of " ++
      toString max ++ "."
  | .transport cause => "Transport error. " ++ cause.message
  | .wire cause => "Wire format error. " ++ cause.message

end NamedData
