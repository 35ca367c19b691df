import NamedData.Node.Basic

/-!
The node at work.

A callback may call back into the node that called it, so the work in progress is a stack: each frame
is something the node has begun and not finished, and a callback that is running is a frame too. The
engine moves in three ways. `perform` starts an operation, at rest or from inside a callback;
`advance` does the next bit of the topmost unfinished work; `resume` ends the callback on top with
what it returned. No move is recursive: whatever an operation leads to is put on the stack.

An operation whose deadline lies beyond the clock's range does not return. It leaves the tables as
they are at that moment and abandons everything in progress.
-/
namespace NamedData

/-- Something a node has begun and not finished. -/
inductive Frame (κ : Type) where
  /-- Reading what waits on the transport, to be followed by the delayed calls that are due. -/
  | reading
  /-- Running delayed calls that were due, in this order. -/
  | running (calls : List (NodeCall κ))
  /-- Offering an interest to the filters that selected it when it arrived. -/
  | offering (interest : Interest) (entries : List (FilterEntry κ))
  /-- Delivering data to the entries that were taken out for it. -/
  | delivering (data : Data) (entries : List (PendingInterest κ))
  /-- A callback is running. -/
  | inside (call : Call κ)

/-- Operations of a node that a face can ask for. -/
inductive Request (κ : Type) where
  | express (id : EntryId) (interest : Interest) (onData : κ) (onTimeout : Option κ)
  | removePending (id : EntryId)
  | register (id : EntryId) (root : Name) (onInterest : Option κ) (onFailed : κ)
      (options : RegistrationOptions)
  | removeRegistered (id : EntryId)
  | setFilter (id : EntryId) (filter : InterestFilter) (onInterest : κ)
  | unsetFilter (id : EntryId)
  | putData (data : Data)
  | send (element : Bytes)

/-- Operations of a node. -/
inductive Operation (κ : Type) where
  | request (request : Request κ)
  | callLater (delay : Duration) (callback : κ)
  /-- Read everything waiting on the transport, then run the delayed calls that are due. -/
  | processEvents
  /-- Dispatch one element. -/
  | receive (element : Bytes)
  /-- Run one armed call. -/
  | run (call : NodeCall κ)
  /-- Close the transport and forget every entry and armed call. -/
  | shutdown

/-- How an operation ended, as far as its caller can tell at once. -/
inductive Result where
  | done
  | failed (error : FaceError)
  /-- The operation did not return. -/
  | collapsed
deriving DecidableEq

/-- A node with its transport, its host, and the work in progress, innermost first. -/
structure Engine (κ : Type) (σ : Type → Type) (τ : Type) where
  node : Node κ σ
  transport : τ
  host : Host
  frames : List (Frame κ) := []

namespace Engine

variable {κ τ : Type} {σ : Type → Type} [Scheduler σ] [Transport τ]

/-- `WireFormat::encode` and `Node::check_size`: encode a packet for sending, unless the encoding is too
long. -/
def encode (e : Engine κ σ τ) (p : Packet) : Except FaceError Bytes :=
  match e.node.format.encode p with
  | .error cause => .error (.wire cause)
  | .ok element =>
    if e.node.config.maxPacketSize.toNat < element.length then
      .error (.packetTooLarge element.length e.node.config.maxPacketSize.toNat)
    else .ok element

/-- Begin some work. -/
def push (e : Engine κ σ τ) (frame : Frame κ) : Engine κ σ τ :=
  { e with frames := frame :: e.frames }

/-- Call into the application. -/
def invoke (e : Engine κ σ τ) (call : Call κ) : Engine κ σ τ × List (Event κ) :=
  (e.push (.inside call), [.called call])

/-- Abandon the work in progress. -/
def collapse (e : Engine κ σ τ) : Engine κ σ τ × Result × List (Event κ) :=
  ({ e with frames := [] }, .collapsed, [])

/-- `Transport::send`: hand an element to the transport. -/
def transmit (e : Engine κ σ τ) (element : Bytes) : Engine κ σ τ × Result × List (Event κ) :=
  let (outcome, transport) := Transport.send e.transport element
  let result := match outcome with
    | .ok () => .done
    | .error cause => .failed (.transport cause)
  ({ e with transport }, result, [.sent element])

/-- `Node::express_interest`: send an interest and remember it until data arrives or its lifetime is
over. -/
def express (e : Engine κ σ τ) (id : EntryId) (interest : Interest) (onData : κ)
    (onTimeout : Option κ) : Engine κ σ τ × Result × List (Event κ) :=
  let (interest, lifetime, host) := interest.completed e.node.config e.host
  match e.encode (.interest interest) with
  | .error error => ({ e with host }, .failed error, [])
  | .ok element =>
    let (entry, pending, marks) := e.node.pending.add host.marks id interest onData onTimeout
    let e := { e with host := { host with marks }, node := { e.node with pending } }
    match Scheduler.callLater? e.node.scheduler host.now lifetime (.timeout entry) with
    | none => e.collapse
    | some scheduler =>
      let (e, result, events) := transmit { e with node := { e.node with scheduler } } element
      (e, result, .armed lifetime (.timeout entry) :: events)

/-- `Node::register_prefix`: register a prefix with the forwarder, installing a filter for it if a
callback is given. When the transport refuses, the filter is removed, which it is sure to find, and the
caller's failure callback is called. -/
def register (e : Engine κ σ τ) (id : EntryId) (root : Name) (onInterest : Option κ) (onFailed : κ)
    (options : RegistrationOptions) : Engine κ σ τ × Result × List (Event κ) :=
  let (filterId, e) := match onInterest with
    | none => (none, e)
    | some onInterest =>
      let (filterId, host) := e.host.drawId
      (some filterId,
        { e with
          host
          node := { e.node with filters := e.node.filters.add filterId ⟨root⟩ onInterest } })
  let (outcome, transport) := Transport.register e.transport root options
  let e := { e with transport }
  match outcome with
  | .ok () =>
    ({ e with node :=
        { e.node with registrations := e.node.registrations.add id root filterId } },
      .done, [.registering root options])
  | .error cause =>
    let filters := match filterId with
      | none => e.node.filters
      | some filterId => e.node.filters.removeById filterId
    let (e, events) :=
      invoke { e with node := { e.node with filters } } (.registerFailed onFailed root)
    (e, .done,
      .registering root options :: .logged (.registrationFailed root cause) :: events)

/-- Carry out an operation that a face can ask for: `Node::express_interest`,
`Node::remove_pending_interest`, `Node::register_prefix`, `Node::remove_registered_prefix`,
`Node::set_interest_filter`, `Node::unset_interest_filter`, `Node::put_data` or `Node::send`. -/
def request (e : Engine κ σ τ) : Request κ → Engine κ σ τ × Result × List (Event κ)
  | .express id interest onData onTimeout => e.express id interest onData onTimeout
  | .removePending id =>
    let notices := e.node.pending.removalNotices id
    let (pending, marks) := e.node.pending.removeById e.host.marks id
    ({ e with node := { e.node with pending }, host := { e.host with marks } }, .done,
      notices.map .logged)
  | .register id root onInterest onFailed options =>
    e.register id root onInterest onFailed options
  | .removeRegistered id =>
    let (related, registrations) := e.node.registrations.removeById id
    let notices := e.node.registrations.removalNotices id ++ e.node.filters.removalsNotices related
    let filters := related.foldl FilterTable.removeById e.node.filters
    ({ e with node := { e.node with registrations, filters } }, .done, notices.map .logged)
  | .setFilter id filter onInterest =>
    ({ e with node := { e.node with filters := e.node.filters.add id filter onInterest } },
      .done, [])
  | .unsetFilter id =>
    ({ e with node := { e.node with filters := e.node.filters.removeById id } }, .done,
      (e.node.filters.removalNotices id).map .logged)
  | .putData data =>
    match e.encode (.data data) with
    | .error error => (e, .failed error, [])
    | .ok element => e.transmit element
  | .send element =>
    if e.node.config.maxPacketSize.toNat < element.length then
      (e, .failed (.packetTooLarge element.length e.node.config.maxPacketSize.toNat), [])
    else e.transmit element

/-- `Node::on_received_element`: dispatch one element that has arrived. What `Node::dispatch_interest`
and `Node::dispatch_data` go through one by one is put on the stack. -/
def dispatch (e : Engine κ σ τ) (element : Bytes) : Engine κ σ τ × List (Event κ) :=
  match e.node.format.decode element with
  | .ok (.interest interest) =>
    (e.push (.offering interest (e.node.filters.matching interest.name)), [])
  | .ok (.data data) =>
    let (taken, pending, marks) := e.node.pending.extractMatching e.host.marks data.name
    (push { e with node := { e.node with pending }, host := { e.host with marks } }
      (.delivering data taken), [])
  | .error error => (e, [.logged (.undecodable error)])

/-- Run an armed call. For a timeout this is `Node::process_interest_timeout`: an interest that was
resolved in the meantime does not time out. -/
def run (e : Engine κ σ τ) : NodeCall κ → Engine κ σ τ × List (Event κ)
  | .callback callback => e.invoke (.nodeDelay callback)
  | .timeout entry =>
    let (removed, pending, marks) := e.node.pending.removeEntry e.host.marks entry.handle
    let e := { e with node := { e.node with pending }, host := { e.host with marks } }
    match removed, entry.onTimeout with
    | true, some onTimeout => e.invoke (.timeout entry onTimeout)
    | _, _ => (e, [])

/-- `Node::shutdown`: close the transport and forget every entry and armed call. -/
def shutdown (e : Engine κ σ τ) : Engine κ σ τ × List (Event κ) :=
  let (pending, marks) := e.node.pending.clear e.host.marks
  ({ e with
      transport := Transport.close e.transport
      host := { e.host with marks }
      node := { e.node with
        pending
        filters := {}
        registrations := {}
        scheduler := Scheduler.clear e.node.scheduler } },
    [.closed])

/-- Start an operation: one that a face can ask for, `Node::call_later`, `Node::process_events`,
`Node::on_received_element` or `Node::shutdown`. -/
def perform (e : Engine κ σ τ) : Operation κ → Engine κ σ τ × Result × List (Event κ)
  | .request request => e.request request
  | .callLater delay callback =>
    match Scheduler.callLater? e.node.scheduler e.host.now delay (.callback callback) with
    | none => e.collapse
    | some scheduler =>
      ({ e with node := { e.node with scheduler } }, .done, [.armed delay (.callback callback)])
  | .processEvents => (e.push .reading, .done, [])
  | .receive element =>
    let (e, events) := e.dispatch element
    (e, .done, events)
  | .run call =>
    let (e, events) := e.run call
    (e, .done, events)
  | .shutdown =>
    let (e, events) := e.shutdown
    (e, .done, events)

/-- Do the next bit of the topmost unfinished work, a round of one of the loops in
`Node::process_events`, `Node::dispatch_interest` and `Node::dispatch_data`. There is none when the
engine is at rest or a callback is on top. -/
def advance (e : Engine κ σ τ) : Option (Engine κ σ τ × List (Event κ)) :=
  match e.frames with
  | [] => none
  | .inside _ :: _ => none
  | .reading :: outer =>
    let (arrival, transport) := Transport.receive e.transport
    let e := { e with transport }
    match arrival with
    | .ok (some element) => some (e.dispatch element)
    | _ =>
      let (due, scheduler) := Scheduler.takeDue e.node.scheduler e.host.now
      let events := match arrival with
        | .error cause => [.logged (.unreadable cause)]
        | .ok _ => []
      some ({ e with node := { e.node with scheduler }, frames := .running due :: outer }, events)
  | .running [] :: outer | .offering _ [] :: outer | .delivering _ [] :: outer =>
    some ({ e with frames := outer }, [])
  | .running (call :: calls) :: outer =>
    some (run { e with frames := .running calls :: outer } call)
  | .offering interest (entry :: entries) :: outer =>
    some (invoke { e with frames := .offering interest entries :: outer }
      (.interest entry interest))
  | .delivering data (entry :: entries) :: outer =>
    some (invoke { e with frames := .delivering data entries :: outer } (.data entry data))

/-- The callback that is running, if one is on top. -/
def current? (e : Engine κ σ τ) : Option (Call κ) :=
  match e.frames with
  | .inside call :: _ => some call
  | _ => none

/-- End the callback on top with its result. A failure is logged and has no other effect. -/
def resume (e : Engine κ σ τ) (result : CallbackResult) : Engine κ σ τ × List (Event κ) :=
  match e.frames with
  | .inside call :: outer =>
    let notices := match call.place? with
      | some place => (CallbackOutcome.inspect place result).2
      | none => []
    ({ e with frames := outer }, notices.map .logged)
  | _ => (e, [])

end Engine

end NamedData
