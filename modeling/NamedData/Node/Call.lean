import NamedData.Table.Pending
import NamedData.Table.Filters
import NamedData.Data
import NamedData.Callback.Outcome

/-!
The calls a node makes into the application, and the record of what it does.

Callbacks are opaque to a node: it stores whatever stands for them and says when one is called, with
which arguments. What a callback then does is up to the application.
-/
namespace NamedData

/-- `NodeCallback`: work a node has armed for later. -/
inductive NodeCall (κ : Type) where
  /-- The lifetime of an expressed interest is over. -/
  | timeout (entry : PendingInterest κ)
  /-- The application asked to be called. -/
  | callback (callback : κ)

/-- A call into the application. -/
inductive Call (κ : Type) where
  /-- Data has arrived for a pending interest. -/
  | data (entry : PendingInterest κ) (data : Data)
  /-- A pending interest has timed out. -/
  | timeout (entry : PendingInterest κ) (callback : κ)
  /-- An interest has arrived that a filter selects. -/
  | interest (entry : FilterEntry κ) (interest : Interest)
  /-- The transport has refused a registration. -/
  | registerFailed (callback : κ) (root : Name)
  /-- A delay asked for at the node is over. -/
  | nodeDelay (callback : κ)
  /-- A delay asked for at a face is over. -/
  | faceDelay (callback : κ)
  /-- The stop predicate is polled; polls are counted from zero. -/
  | poll (predicate : κ) (index : Nat)

namespace Call

variable {κ : Type}

/-- The callback that is called. -/
def callback : Call κ → κ
  | .data entry _ => entry.onData
  | .timeout _ callback | .registerFailed callback _ | .nodeDelay callback
  | .faceDelay callback | .poll callback _ => callback
  | .interest entry _ => entry.onInterest

/-- Whether the callback is handed the node that calls it. -/
def handsNode : Call κ → Bool
  | .interest .. | .nodeDelay .. => true
  | _ => false

/-- The place an error returned by the callback is logged against. Delayed calls of a node return
nothing, and the result of a poll is for the loop to judge. -/
def place? : Call κ → Option CallbackPlace
  | .data .. => some .onData
  | .timeout .. => some .onTimeout
  | .interest .. => some .onInterest
  | .registerFailed .. => some .onRegisterFailed
  | .faceDelay .. => some .callLater
  | .nodeDelay .. | .poll .. => none

end Call

/-- The answer to a question that was queued behind other work. -/
inductive Answer where
  /-- The number of interests still pending. -/
  | pending (count : Nat)
  /-- Everything queued earlier has run. -/
  | flushed
deriving DecidableEq

/-- What a node or its loop does, as seen from outside. -/
inductive Event (κ : Type) where
  | called (call : Call κ)
  | logged (notice : Notice)
  /-- An element is handed to the transport, whether or not the transport takes it. -/
  | sent (element : Bytes)
  /-- The transport is asked for a registration, whether or not it grants it. -/
  | registering (root : Name) (options : RegistrationOptions)
  /-- The transport is closed. -/
  | closed
  /-- Work is armed for a delay from now. -/
  | armed (delay : Duration) (call : NodeCall κ)
  | answered (ticket : Option Nat) (answer : Answer)

end NamedData
