import NamedData.EntryId
import NamedData.Face.Error

/-!
What application callbacks return, and the log records that dispatchers write.

A failing callback is written to the log and changes nothing else.
-/
namespace NamedData

/-- An error handed back by an application callback. -/
inductive CallbackError where
  /-- A text of the application's own. -/
  | message (text : String)
  /-- Another error, known by its wording. -/
  | cause (text : String)
deriving DecidableEq

/-- The wording of a callback's error. -/
def CallbackError.text : CallbackError → String
  | .message text => text
  | .cause text => text

/-- What a callback returns when it has nothing to decide. -/
abbrev CallbackResult := Except CallbackError Unit

/-- What happened when a dispatcher invoked an optional callback. -/
inductive CallbackOutcome where
  | skipped
  | completed
  | failed
deriving DecidableEq

/-- The places callbacks are invoked from, as the log calls them. -/
inductive CallbackPlace where
  | onData
  | onTimeout
  | onInterest
  | onRegisterFailed
  | callLater
deriving DecidableEq

def CallbackPlace.text : CallbackPlace → String
  | .onData => "onData"
  | .onTimeout => "onTimeout"
  | .onInterest => "onInterest"
  | .onRegisterFailed => "onRegisterFailed"
  | .callLater => "call_later callback"

/-- The weight of a log record. -/
inductive Level where
  | debug
  | warn
  | error
deriving DecidableEq

/-- What a log record is about. -/
inductive Notice where
  | callbackFailed (place : CallbackPlace) (error : CallbackError)
  | predicateFailed (error : CallbackError)
  | registrationFailed (root : Name) (error : TransportError)
  | unreadable (error : TransportError)
  | undecodable (error : WireError)
  | expressFailed (id : EntryId) (error : FaceError)
  | putFailed (name : Name) (error : FaceError)
  | sendFailed (size : Nat) (error : FaceError)
  | unknownPendingInterest (id : EntryId)
  | unknownFilter (id : EntryId)
  | unknownRegistration (id : EntryId)
deriving DecidableEq

namespace Notice

def level : Notice → Level
  | .callbackFailed .. | .predicateFailed .. | .registrationFailed .. | .unreadable ..
  | .undecodable .. => .warn
  | .expressFailed .. | .putFailed .. | .sendFailed .. => .error
  | .unknownPendingInterest .. | .unknownFilter .. | .unknownRegistration .. => .debug

/-- The wording of a log record. -/
def message : Notice → String
  | .callbackFailed place e => "Error in " ++ place.text ++ ": " ++ e.text
  | .predicateFailed e => "Error in stop_when predicate. " ++ e.text
  | .registrationFailed root e => "Register prefix failed for " ++ root.toUri ++ ". " ++ e.message
  | .unreadable e => "Could not read from the transport. " ++ e.message
  | .undecodable _ => "Dropping an element that could not be decoded."
  | .expressFailed id e => "Could not express interest " ++ id.toText ++ ". " ++ e.message
  | .putFailed name e => "Could not put data " ++ name.toUri ++ ". " ++ e.message
  | .sendFailed size e => "Could not send " ++ toString size ++ " bytes. " ++ e.message
  | .unknownPendingInterest id => "remove_by_id: Didn't find pending interest id " ++ id.toText
  | .unknownFilter id => "unset_interest_filter: Didn't find interest filter id " ++ id.toText
  | .unknownRegistration id =>
    "remove_registered_prefix: Didn't find registered prefix id " ++ id.toText

/-- What is logged of a removal that drops whatever it finds: that it has found nothing, if so. -/
def unlessFound (found : Bool) (notice : Notice) : List Notice := if found then [] else [notice]

@[simp] theorem mem_unlessFound {found : Bool} {notice other : Notice} :
    other ∈ unlessFound found notice ↔ found = false ∧ other = notice := by
  cases found <;> simp [unlessFound]

end Notice

/-- `CallbackOutcome::inspect`: turn the result of a callback into an outcome, with a log record if it
failed. -/
def CallbackOutcome.inspect (place : CallbackPlace) :
    CallbackResult → CallbackOutcome × List Notice
  | .ok () => (.completed, [])
  | .error e => (.failed, [.callbackFailed place e])

end NamedData
