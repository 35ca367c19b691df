import NamedData.Link.Basic
import NamedData.Name.Basic

/-!
What a node needs from its link to a forwarder.
-/
namespace NamedData

/-- Why a transport did not do what it was asked. -/
inductive TransportError where
  | closed
  | io (reason : String)
  | registrationRefused (root : Name) (reason : String)
deriving DecidableEq

/-- The wording of a transport error. -/
def TransportError.message : TransportError → String
  | .closed => "The transport is closed."
  | .io reason => "I/O error. " ++ reason
  | .registrationRefused root reason =>
    "Registration of prefix " ++ root.toUri ++ " was refused. " ++ reason

/-- Flags sent along with a registration. -/
structure RegistrationOptions where
  /-- Interests for longer names are forwarded as well. -/
  childInherit : Bool := true
  /-- Interests are not forwarded to faces registered for shorter prefixes. -/
  capture : Bool := false
deriving DecidableEq, Inhabited

/-- The link between a node and its forwarder, as the node uses it. -/
class Transport (τ : Type) where
  /-- Send one encoded element. -/
  send : τ → Bytes → Except TransportError Unit × τ
  /-- The next element that has arrived, if any. -/
  receive : τ → Except TransportError (Option Bytes) × τ
  /-- Ask for the interests under a prefix. -/
  register : τ → Name → RegistrationOptions → Except TransportError Unit × τ
  /-- Take leave. -/
  close : τ → τ

/-- What an outside hand may do to one end of a link. -/
structure Faults where
  /-- Registrations are refused for this reason. -/
  refuse : Option String := none
  /-- Registrations fail because the transport is closed. -/
  refuseClosed : Bool := false
  /-- Sending fails for this reason. -/
  failSend : Option String := none
  /-- The next attempt to receive fails for this reason. -/
  failReceive : Option String := none
deriving DecidableEq, Inhabited

/-- One end of a link, with the faults that strike it. -/
structure LinkEnd where
  link : Link := {}
  side : Side := .left
  faults : Faults := {}
deriving DecidableEq, Inhabited

namespace LinkEnd

def send (e : LinkEnd) (element : Bytes) : Except TransportError Unit × LinkEnd :=
  match e.faults.failSend with
  | some reason => (.error (.io reason), e)
  | none =>
    match e.link.send? e.side element with
    | some link => (.ok (), { e with link })
    | none => (.error .closed, e)

def receive (e : LinkEnd) : Except TransportError (Option Bytes) × LinkEnd :=
  match e.faults.failReceive with
  | some reason => (.error (.io reason), { e with faults := { e.faults with failReceive := none } })
  | none =>
    match e.link.receive e.side with
    | (.element octets, link) => (.ok (some octets), { e with link })
    | (.nothing, link) => (.ok none, { e with link })
    | (.closed, link) => (.error .closed, { e with link })

def register (e : LinkEnd) (root : Name) (_ : RegistrationOptions) :
    Except TransportError Unit × LinkEnd :=
  match e.faults.refuse with
  | some reason => (.error (.registrationRefused root reason), e)
  | none => (if e.faults.refuseClosed then .error .closed else .ok (), e)

def close (e : LinkEnd) : LinkEnd := { e with link := e.link.close e.side }

instance : Transport LinkEnd := ⟨send, receive, register, close⟩

end LinkEnd

/-- A transport that takes everything and never delivers anything. -/
structure Sink where

instance : Transport Sink where
  send t _ := (.ok (), t)
  receive t := (.ok none, t)
  register t _ _ := (.ok (), t)
  close t := t

end NamedData
