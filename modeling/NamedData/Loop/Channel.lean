import NamedData.Node.Engine

/-!
The queue between faces and their event loop.

A face can be used from anywhere: its operations never wait, they put a command at the end of one
queue that all faces of a loop share. Shutting down also clears a flag, and only the first shutdown
does anything.
-/
namespace NamedData

/-- `FaceCommand`: work handed from a face to the event loop. -/
inductive Command (κ : Type) where
  | request (request : Request κ)
  /-- Replace the predicate that stops the loop, or remove it. -/
  | stopWhen (predicate : Option κ)
  | callLater (delay : Duration) (callback : κ)
  /-- Ask how many interests are pending. The ticket says who is listening, if anyone is. -/
  | countPending (ticket : Option Nat)
  /-- Ask to be told when everything queued earlier has run. -/
  | flush (ticket : Option Nat)
  | shutdown

/-- What faces and their loop share. -/
structure Channel (κ : Type) where
  /-- Commands not yet executed, oldest first. -/
  queue : List (Command κ) := []
  /-- Whether no face has been shut down yet. -/
  active : Bool := true
  /-- Whether some face still exists. -/
  hasFace : Bool := true
  /-- Whether the loop still exists. -/
  hasLoop : Bool := true

namespace Channel

variable {κ : Type}

/-- `ThreadsafeFace::hand_off`: queue a command, if the loop still exists. -/
def handOff (c : Channel κ) (command : Command κ) : Except FaceError (Channel κ) :=
  if c.hasLoop then .ok { c with queue := c.queue ++ [command] } else .error .loopClosed

/-- `ThreadsafeFace::shutdown`: shut the face down. Only the first call has an effect. -/
def shutdown (c : Channel κ) : Channel κ :=
  if c.active then
    match handOff { c with active := false } .shutdown with
    | .ok c => c
    | .error _ => { c with active := false }
  else c

/-- The last face is gone. -/
def dropFace (c : Channel κ) : Channel κ := { c with hasFace := false }

/-- The loop is gone, and with it everything that was queued. -/
def dropLoop (c : Channel κ) : Channel κ := { c with hasLoop := false, queue := [] }

end Channel

end NamedData
