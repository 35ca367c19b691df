import NamedData.Bytes

/-!
A link in one process: two ends, each receiving what the other sends.

Each direction is a queue with a flag that says whether it still takes elements. Closing an end
closes both directions; what was sent before is still delivered, except to an end that was itself
closed.
-/
namespace NamedData

/-- The two ends of a link. -/
inductive Side where
  | left
  | right
deriving DecidableEq, Inhabited

/-- The end across. -/
def Side.other : Side → Side
  | .left => .right
  | .right => .left

/-- One direction of a link: the elements under way, oldest first. -/
structure Lane where
  queue : List Bytes := []
  isOpen : Bool := true
deriving DecidableEq, Inhabited

/-- A link, as `LoopbackTransport::pair` makes it. The lane of a side holds what that side has sent; a
closed end neither sends nor receives. -/
structure Link where
  leftLane : Lane := {}
  rightLane : Lane := {}
  leftClosed : Bool := false
  rightClosed : Bool := false
deriving DecidableEq, Inhabited

namespace Link

/-- The elements a side has sent. -/
def lane (l : Link) : Side → Lane
  | .left => l.leftLane
  | .right => l.rightLane

def setLane (l : Link) (side : Side) (lane : Lane) : Link :=
  match side with
  | .left => { l with leftLane := lane }
  | .right => { l with rightLane := lane }

/-- `LoopbackTransport::is_closed`: whether an end was closed, or has reported that the other end is
gone. -/
def isClosed (l : Link) : Side → Bool
  | .left => l.leftClosed
  | .right => l.rightClosed

def setClosed (l : Link) : Side → Link
  | .left => { l with leftClosed := true }
  | .right => { l with rightClosed := true }

/-- Let a direction take no more elements. -/
def shutLane (l : Link) (side : Side) : Link :=
  l.setLane side { l.lane side with isOpen := false }

/-- `LoopbackTransport::send`: send an element; `none` if the link takes no more. -/
def send? (l : Link) (side : Side) (element : Bytes) : Option Link :=
  let lane := l.lane side
  if l.isClosed side || !lane.isOpen then none
  else some (l.setLane side { lane with queue := lane.queue ++ [element] })

/-- What an end finds when it looks for the next element. -/
inductive Arrival where
  | element (octets : Bytes)
  | nothing
  /-- The other end is gone and everything it sent has been received. Reported once. -/
  | closed
deriving DecidableEq

/-- `LoopbackTransport::receive`: look for the next element sent by the other end. -/
def receive (l : Link) (side : Side) : Arrival × Link :=
  if l.isClosed side then (.nothing, l)
  else
    let lane := l.lane side.other
    match lane.queue with
    | element :: rest => (.element element, l.setLane side.other { lane with queue := rest })
    | [] => if lane.isOpen then (.nothing, l) else (.closed, l.setClosed side)

/-- `LoopbackTransport::close`: close an end. -/
def close (l : Link) (side : Side) : Link :=
  ((l.shutLane .left).shutLane .right).setClosed side

/-- Destroy an end: like closing it, as far as the other end can tell. -/
def drop (l : Link) (side : Side) : Link := l.close side

end Link

end NamedData
