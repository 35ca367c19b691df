import NamedData.Loop.Basic

/-!
Applications written down as scripts.

A callback of a script is a list of steps and a verdict to return. The steps are what an application
can do from where the callback runs: operations of the node it is handed, operations of the face, and
what the far end of the link does. A script is data, so a whole exchange can be described, played and
compared without any code of the application's own.
-/
namespace NamedData.Script

/-- What a callback returns. -/
inductive Verdict where
  | ok
  | message (text : String)
  | cause (text : String)
  /-- The first face error met in the callback's steps, if there was one. -/
  | propagate
deriving DecidableEq

/-- What a poll of the stop predicate returns. -/
abbrev PollVerdict := Except CallbackError Bool

/-- The name of data to be put. -/
inductive NameShape where
  | fixed (name : Name)
  /-- The name of the interest being answered, continued. -/
  | echo (suffix : List Component)
deriving DecidableEq

/-- Data to be put. -/
structure DataShape where
  name : NameShape
  content : Bytes
  freshness : Option Duration

/-- The data a shape stands for while an interest of some name is being answered. -/
def DataShape.resolve (shape : DataShape) (incoming : Option Name) : Data :=
  let name := match shape.name with
    | .fixed name => name
    | .echo suffix => (incoming.getD .empty).extend suffix
  { name, content := shape.content, freshness := shape.freshness }

mutual

/-- Something that is done. -/
inductive Act where
  | peerSend (element : Bytes)
  | peerReceive
  | peerDrain
  | peerClose
  | peerIsClosed
  | peerDrop
  /-- Set the faults of a node's end of the link. -/
  | setFaults (node : Nat) (faults : Faults)
  | express (id : Option EntryId) (interest : Interest) (onData : Reaction)
      (onTimeout : Option Reaction)
  | removePending (id : EntryId)
  | register (id : Option EntryId) (root : Name) (onInterest : Option Reaction)
      (onFailed : Reaction) (options : RegistrationOptions)
  | removeRegistered (id : EntryId)
  | setFilter (id : Option EntryId) (root : Name) (onInterest : Reaction)
  | unsetFilter (id : EntryId)
  | putData (data : DataShape)
  | send (element : Bytes)
  | callLater (delay : Duration) (callback : Reaction)
  | processEvents
  | receive (element : Bytes)
  | shutdown
  | config
  | counts
  | isActive
  | stopWhen (predicate : Reaction)
  | clearStopWhen
  | count (forget : Bool)
  | flush (forget : Bool)
  | advance (millis : Nat)
  | fire (index : Nat)
  | run (limit : Nat)
  | dropFace
  | dropLoop
  /-- A step that names something by an ill-formed name; only the error comes of it. -/
  | misnamed (error : NameError)
  | unknown

/-- A step: what is done, on which node, and whether through the face although a node is at hand. -/
inductive Step where
  | mk (node : Nat) (viaFace : Bool) (act : Act)

/-- What an application does when it is called. -/
inductive Reaction where
  | callback (label : Option String) (steps : List Step) (verdict : Verdict)
  /-- A stop predicate: what it does at each poll, the last poll being repeated for ever. -/
  | predicate (label : Option String) (polls : List Poll)

/-- One poll of a stop predicate. -/
inductive Poll where
  | mk (steps : List Step) (verdict : PollVerdict)

end

instance : Inhabited Act := ⟨.unknown⟩

instance : Inhabited Step := ⟨.mk 0 false .unknown⟩

instance : Inhabited Reaction := ⟨.callback none [] .ok⟩

instance : Inhabited Poll := ⟨.mk [] (.ok false)⟩

/-- What came of a step. -/
inductive Reply where
  | nothing
  | id (id : EntryId)
  | counts (pending filters registrations : Nat)
  | config (config : FaceConfig)
  | flag (value : Bool)
  | element (octets : Option Bytes)
  /-- All elements that waited, and how the queue ended. -/
  | drained (elements : List Bytes) (last : Option TransportError)
  /-- A question was queued; the answer comes later, unless the queue was closed. -/
  | ticket (index : Nat) (refused : Option FaceError)
  | exited (exit : LoopExit)
  /-- A run was ended by its time limit. -/
  | limit
  | nameError (error : NameError)
  | transportError (error : TransportError)
  | faceError (error : FaceError)
  | noPeer
  | noFace
  | noLoop
  | notArmed
  | unknown
  | collapsed

/-- What an observer notes while a script is played. -/
inductive Note where
  | event (event : Event Reaction)
  /-- A call was armed with a scheduler that leaves the running to the script. -/
  | armed (index : Nat) (delay : Duration)
  /-- A step of the callback on top has been done. -/
  | acted (index : Nat) (reply : Reply)

/-- A callback being played. -/
structure Activation where
  /-- The steps to come. -/
  steps : List Step
  /-- The steps done. -/
  done : Nat := 0
  /-- What came of the step whose consequences are still being worked off. -/
  report : Option Reply := none
  /-- The first face error met in the steps. -/
  firstError : Option FaceError := none
  /-- The name of the interest being answered. -/
  incoming : Option Name := none
  /-- Whether the callback has been handed its node. -/
  handsNode : Bool
  /-- What will be returned. -/
  verdict : Verdict ⊕ PollVerdict

namespace Activation

/-- The poll of a stop predicate. Without polls the predicate never holds. -/
def pollAt (polls : List Poll) (index : Nat) : Poll :=
  (polls[index]?.or polls.getLast?).getD (.mk [] (.ok false))

/-- Begin to play a callback. -/
def ofCall (call : Call Reaction) : Activation :=
  let incoming := match call with
    | .interest _ interest => some interest.name
    | _ => none
  match call.callback, call with
  | .predicate _ polls, .poll _ index =>
    let .mk steps verdict := pollAt polls index
    { steps, handsNode := false, verdict := .inr verdict }
  | .predicate .., _ => { steps := [], handsNode := false, verdict := .inl .ok }
  | .callback _ steps verdict, _ =>
    { steps, incoming, handsNode := call.handsNode, verdict := .inl verdict }

/-- What the callback returns when its steps are done. -/
def result (a : Activation) : PollVerdict :=
  match a.verdict with
  | .inr verdict => verdict
  | .inl .ok => .ok false
  | .inl (.message text) => .error (.message text)
  | .inl (.cause text) => .error (.cause text)
  | .inl .propagate =>
    match a.firstError with
    | some error => .error (.cause error.message)
    | none => .ok false

/-- Note that a step has been started, with what came of it. -/
def started (a : Activation) (rest : List Step) (reply : Reply) : Activation :=
  { a with
    steps := rest
    report := some reply
    firstError := match reply with
      | .faceError error => a.firstError.or (some error)
      | _ => a.firstError }

/-- Note that the consequences of a step have been worked off. -/
def settled (a : Activation) : Activation := { a with report := none, done := a.done + 1 }

end Activation

/-! ## What the steps mean -/

/-- The transport of a node in a script: one end of a link, or a sink. -/
inductive Port where
  | wired (wire : LinkEnd)
  | sink
deriving DecidableEq

namespace Port

instance : Transport Port where
  send
    | .wired e, element => let (r, e) := e.send element; (r, .wired e)
    | .sink, _ => (.ok (), .sink)
  receive
    | .wired e => let (r, e) := e.receive; (r, .wired e)
    | .sink => (.ok none, .sink)
  register
    | .wired e, root, options => let (r, e) := e.register root options; (r, .wired e)
    | .sink, _, _ => (.ok (), .sink)
  close
    | .wired e => .wired e.close
    | .sink => .sink

/-- Change the link, if there is one. -/
def updateLink (p : Port) (f : Link → Link) : Port :=
  match p with
  | .wired e => .wired { e with link := f e.link }
  | .sink => .sink

/-- Set the faults, if there is a link. -/
def setFaults (p : Port) (faults : Faults) : Port :=
  match p with
  | .wired e => .wired { e with faults }
  | .sink => .sink

/-- The link, if there is one. -/
def link? : Port → Option Link
  | .wired e => some e.link
  | .sink => none

end Port

/-- Take everything that waits at an end of a link. -/
def drain (link : Link) (side : Side) : Nat → List Bytes × Option TransportError × Link
  | 0 => ([], none, link)
  | fuel + 1 =>
    match link.receive side with
    | (.element octets, link) =>
      let (elements, last, link) := drain link side fuel
      (octets :: elements, last, link)
    | (.nothing, link) => ([], none, link)
    | (.closed, link) => ([], some .closed, link)

/-- What the far end of the link does. The flag says whether the far end still exists. -/
def peerAct? (act : Act) (peer : Bool) (port : Port) : Option (Bool × Port × Reply) :=
  let side := Side.right
  let onLink (f : Link → Bool × Link × Reply) : Bool × Port × Reply :=
    match peer, port with
    | true, .wired e =>
      let (peer, link, reply) := f e.link
      (peer, .wired { e with link }, reply)
    | _, _ => (peer, port, .noPeer)
  match act with
  | .peerSend element => some <| onLink fun link =>
    match link.send? side element with
    | some link => (true, link, .nothing)
    | none => (true, link, .transportError .closed)
  | .peerReceive => some <| onLink fun link =>
    match link.receive side with
    | (.element octets, link) => (true, link, .element (some octets))
    | (.nothing, link) => (true, link, .element none)
    | (.closed, link) => (true, link, .transportError .closed)
  | .peerDrain => some <| onLink fun link =>
    let (elements, last, link) := drain link side ((link.lane side.other).queue.length + 1)
    (true, link, .drained elements last)
  | .peerClose => some <| onLink fun link => (true, link.close side, .nothing)
  | .peerIsClosed => some <| onLink fun link => (true, link, .flag (link.isClosed side))
  | .peerDrop => some <| onLink fun link => (false, link.drop side, .nothing)
  | _ => none

/-- The operation of a node that a step asks for, with the identifier the step answers with. A step
that gives no identifier draws the next one. -/
def operation? (act : Act) (incoming : Option Name) (host : Host) :
    Option (Operation Reaction × Option EntryId × Host) :=
  let draw (given : Option EntryId) : EntryId × Host :=
    match given with
    | some id => (id, host)
    | none => host.drawId
  match act with
  | .express id interest onData onTimeout =>
    let (id, host) := draw id
    some (.request (.express id interest onData onTimeout), some id, host)
  | .removePending id => some (.request (.removePending id), none, host)
  | .register id root onInterest onFailed options =>
    let (id, host) := draw id
    some (.request (.register id root onInterest onFailed options), some id, host)
  | .removeRegistered id => some (.request (.removeRegistered id), none, host)
  | .setFilter id root onInterest =>
    let (id, host) := draw id
    some (.request (.setFilter id ⟨root⟩ onInterest), some id, host)
  | .unsetFilter id => some (.request (.unsetFilter id), none, host)
  | .putData data => some (.request (.putData (data.resolve incoming)), none, host)
  | .send element => some (.request (.send element), none, host)
  | .callLater delay callback => some (.callLater delay callback, none, host)
  | .processEvents => some (.processEvents, none, host)
  | .receive element => some (.receive element, none, host)
  | .shutdown => some (.shutdown, none, host)
  | _ => none

/-- A step on a node. -/
def nodeAct {σ : Type → Type} [Scheduler σ] (act : Act) (incoming : Option Name)
    (e : Engine Reaction σ Port) :
    Engine Reaction σ Port × Reply × List (Event Reaction) :=
  match act with
  | .config => (e, .config e.node.config, [])
  | .counts =>
    (e, .counts e.node.pending.size e.node.filters.size e.node.registrations.size, [])
  | .misnamed error => (e, .nameError error, [])
  | _ =>
    match operation? act incoming e.host with
    | none => (e, .unknown, [])
    | some (operation, id, host) =>
      let (e, result, events) := Engine.perform { e with host } operation
      let reply : Reply := match result, id with
        | .collapsed, _ => .collapsed
        | .failed error, _ => .faceError error
        | .done, some id => .id id
        | .done, none => .nothing
      (e, reply, events)

end NamedData.Script
