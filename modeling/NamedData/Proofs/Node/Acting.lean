import NamedData.Proofs.Node.Moves

/-!
What each move of a node comes to.

`Engine.Does` has one case for every way in which a move can end, with the node as it is then and what is seen
of it. Whatever is to hold of all that a node does is proved by cases on it (`Engine.does_of_act?`), and no
proof of that kind has to look into the functions of the engine.
-/
namespace NamedData

/-- What is logged about a callback that returns. -/
def Call.notices {κ : Type} (call : Call κ) (result : CallbackResult) : List Notice :=
  match call.place? with
  | some place => (CallbackOutcome.inspect place result).2
  | none => []

namespace Interest

@[simp] theorem marks_completed (i : Interest) (config : FaceConfig) (host : Host) :
    (i.completed config host).2.2.marks = host.marks := by
  cases given : i.nonce <;> simp [completed, given, Host.drawNonce]

@[simp] theorem now_completed (i : Interest) (config : FaceConfig) (host : Host) :
    (i.completed config host).2.2.now = host.now := by
  cases given : i.nonce <;> simp [completed, given, Host.drawNonce]

/-- An interest is sent with the lifetime that it waits for. -/
theorem lifetime_completed (i : Interest) (config : FaceConfig) (host : Host) :
    (i.completed config host).1.lifetime = some (i.completed config host).2.1 := by
  cases given : i.nonce <;> simp [completed, given, Host.drawNonce]

end Interest

namespace Engine

section requests

variable {κ τ : Type} {σ : Type → Type}

/-- How long a node waits for an answer to an interest. -/
def lifetimeOf (e : Engine κ σ τ) (interest : Interest) : Duration :=
  interest.lifetime.getD e.node.config.defaultLifetime

/-- An interest as a node sends it: with a lifetime and a nonce, its own or those that the node gives it. -/
def completion (e : Engine κ σ τ) (interest : Interest) : Interest :=
  { interest with
    lifetime := some (e.lifetimeOf interest)
    nonce := some (interest.nonce.getD (e.host.nonces e.host.noncesDrawn)) }

/-- The host of a node that has completed an interest: if that had no nonce, one was drawn. -/
def hostAsking (e : Engine κ σ τ) (interest : Interest) : Host :=
  match interest.nonce with
  | some _ => e.host
  | none => e.host.drawNonce.2

/-- The entry of an interest. -/
def entryFor (e : Engine κ σ τ) (id : EntryId) (interest : Interest) (onData : κ) (onTimeout : Option κ) :
    PendingInterest κ :=
  { handle := e.host.marks.next, id, interest := e.completion interest, onData, onTimeout }

theorem completed_eq (e : Engine κ σ τ) (interest : Interest) :
    interest.completed e.node.config e.host =
      (e.completion interest, e.lifetimeOf interest, e.hostAsking interest) := by
  cases given : interest.nonce <;>
    simp [Interest.completed, completion, lifetimeOf, hostAsking, Host.drawNonce, given]

/-- To complete an interest draws a nonce from a host and leaves everything else of it alone. -/
theorem hostAsking_eq (e : Engine κ σ τ) (interest : Interest) :
    e.hostAsking interest = { e.host with noncesDrawn := (e.hostAsking interest).noncesDrawn } := by
  cases given : interest.nonce <;> simp [hostAsking, Host.drawNonce, given]

theorem hostAsking_marks (e : Engine κ σ τ) (interest : Interest) :
    (e.hostAsking interest).marks = e.host.marks := by
  rw [hostAsking_eq]

theorem hostAsking_now (e : Engine κ σ τ) (interest : Interest) :
    (e.hostAsking interest).now = e.host.now := by
  rw [hostAsking_eq]

/-- The filters of a node to which one may be added for a registration. -/
def filtersWith (e : Engine κ σ τ) (root : Name) (onInterest : Option κ) : FilterTable κ :=
  match onInterest with
  | none => e.node.filters
  | some onInterest => e.node.filters.add e.host.nextId ⟨root⟩ onInterest

/-- The host of a node for which an identifier may be drawn. -/
def hostWith (e : Engine κ σ τ) (onInterest : Option κ) : Host :=
  match onInterest with
  | none => e.host
  | some _ => e.host.drawId.2

end requests

variable {κ τ : Type} {σ : Type → Type}

section callbacks

variable {e : Engine κ σ τ} {call : Call κ}

theorem frames_of_current? (inside : e.current? = some call) : ∃ outer, e.frames = .inside call :: outer := by
  rw [current?] at inside
  split at inside
  · next other outer frames =>
    cases inside
    exact ⟨outer, frames⟩
  · cases inside

theorem resume_of_frames {outer : List (Frame κ)} (frames : e.frames = .inside call :: outer)
    (result : CallbackResult) :
    e.resume result = ({ e with frames := outer }, (call.notices result).map .logged) := by
  rw [resume, frames]
  rfl

theorem resume_of_none (none : e.current? = none) (result : CallbackResult) : e.resume result = (e, []) := by
  rw [resume.eq_def]
  split
  · next frames => simp [current?, frames] at none
  · rfl

end callbacks

/-- Where a node has a call from that it runs, and what is in progress apart from that. -/
inductive Takes (e : Engine κ σ τ) (call : NodeCall κ) : Move κ → List (Frame κ) → Prop
  /-- It is handed to the node. -/
  | given : Takes e call (.perform (.run call)) e.frames
  /-- It was due. -/
  | due {calls : List (NodeCall κ)} {outer : List (Frame κ)}
      (frames : e.frames = .running (call :: calls) :: outer) : Takes e call .advance (.running calls :: outer)

variable [Transport τ]

/-- Where a node has an element from that it dispatches, and its transport after that. -/
inductive Brings (e : Engine κ σ τ) (element : Bytes) : Move κ → τ → Prop
  /-- It is handed to the node. -/
  | receive : Brings e element (.perform (.receive element)) e.transport
  /-- It is read. -/
  | read {outer : List (Frame κ)} {transport : τ} (frames : e.frames = .reading :: outer)
      (received : Transport.receive e.transport = (.ok (some element), transport)) :
      Brings e element .advance transport

variable [Scheduler σ]

/-- What a move of a node comes to: what is seen of it, and the node after that. -/
inductive Does (e : Engine κ σ τ) : Move κ → List (Event κ) → Engine κ σ τ → Prop
  /-- An interest cannot be sent. A nonce may have been drawn for it. -/
  | unsent {id : EntryId} {interest : Interest} {onData : κ} {onTimeout : Option κ} {error : FaceError}
      (refused : e.encode (.interest (e.completion interest)) = .error error) :
      Does e (.perform (.request (.express id interest onData onTimeout))) []
        { e with host := { e.host with noncesDrawn := (e.hostAsking interest).noncesDrawn } }
  /-- The timeout of an interest cannot be armed. It is kept all the same. -/
  | overrun {id : EntryId} {interest : Interest} {onData : κ} {onTimeout : Option κ} {element : Bytes}
      (encoded : e.encode (.interest (e.completion interest)) = .ok element)
      (unarmed : Scheduler.callLater? e.node.scheduler e.host.now (e.lifetimeOf interest)
        (.timeout (e.entryFor id interest onData onTimeout)) = none)
      (collapsed : (e.express id interest onData onTimeout).2.1 = .collapsed) :
      Does e (.perform (.request (.express id interest onData onTimeout))) []
        { e with
          node := { e.node with
            pending := ⟨e.node.pending.entries ++ [e.entryFor id interest onData onTimeout]⟩ }
          host := { e.host with
            noncesDrawn := (e.hostAsking interest).noncesDrawn
            marks := e.host.marks.issue }
          frames := [] }
  /-- An interest is kept, its timeout is armed, and it is sent. -/
  | express {id : EntryId} {interest : Interest} {onData : κ} {onTimeout : Option κ} {element : Bytes}
      {scheduler : σ (NodeCall κ)} (encoded : e.encode (.interest (e.completion interest)) = .ok element)
      (armed : Scheduler.callLater? e.node.scheduler e.host.now (e.lifetimeOf interest)
        (.timeout (e.entryFor id interest onData onTimeout)) = some scheduler) :
      Does e (.perform (.request (.express id interest onData onTimeout)))
        [.armed (e.lifetimeOf interest) (.timeout (e.entryFor id interest onData onTimeout)), .sent element]
        { e with
          transport := (Transport.send e.transport element).2
          node := { e.node with
            pending := ⟨e.node.pending.entries ++ [e.entryFor id interest onData onTimeout]⟩
            scheduler }
          host := { e.host with
            noncesDrawn := (e.hostAsking interest).noncesDrawn
            marks := e.host.marks.issue } }
  | removePending {id : EntryId} :
      Does e (.perform (.request (.removePending id))) ((e.node.pending.removalNotices id).map .logged)
        { e with
          node := { e.node with pending := (e.node.pending.removeById e.host.marks id).1 }
          host := { e.host with marks := (e.node.pending.removeById e.host.marks id).2 } }
  /-- A registration is granted. -/
  | granted {id : EntryId} {root : Name} {onInterest : Option κ} {onFailed : κ}
      {options : RegistrationOptions} {transport : τ}
      (granted : Transport.register e.transport root options = (.ok (), transport)) :
      Does e (.perform (.request (.register id root onInterest onFailed options)))
        [.registering root options]
        { e with
          transport
          node := { e.node with
            filters := e.filtersWith root onInterest
            registrations := e.node.registrations.add id root (onInterest.map fun _ => e.host.nextId) }
          host := { e.host with nextId := (e.hostWith onInterest).nextId } }
  /-- A registration is refused, its filter is taken out again, and its callback is called. -/
  | refused {id : EntryId} {root : Name} {onInterest : Option κ} {onFailed : κ}
      {options : RegistrationOptions} {cause : TransportError} {transport : τ}
      (refused : Transport.register e.transport root options = (.error cause, transport)) :
      Does e (.perform (.request (.register id root onInterest onFailed options)))
        [.registering root options, .logged (.registrationFailed root cause),
          .called (.registerFailed onFailed root)]
        { e with
          transport
          node := { e.node with
            filters := onInterest.elim e.node.filters fun _ =>
              (e.filtersWith root onInterest).removeById e.host.nextId }
          host := { e.host with nextId := (e.hostWith onInterest).nextId }
          frames := .inside (.registerFailed onFailed root) :: e.frames }
  | removeRegistered {id : EntryId} :
      Does e (.perform (.request (.removeRegistered id)))
        ((e.node.registrations.removalNotices id ++
          e.node.filters.removalsNotices (e.node.registrations.removeById id).1).map .logged)
        { e with node := { e.node with
            registrations := (e.node.registrations.removeById id).2
            filters := (e.node.registrations.removeById id).1.foldl FilterTable.removeById
              e.node.filters } }
  | setFilter {id : EntryId} {filter : InterestFilter} {onInterest : κ} :
      Does e (.perform (.request (.setFilter id filter onInterest))) []
        { e with node := { e.node with filters := e.node.filters.add id filter onInterest } }
  | unsetFilter {id : EntryId} :
      Does e (.perform (.request (.unsetFilter id))) ((e.node.filters.removalNotices id).map .logged)
        { e with node := { e.node with filters := e.node.filters.removeById id } }
  /-- Data cannot be sent. -/
  | unput {data : Data} {error : FaceError} (refused : e.encode (.data data) = .error error) :
      Does e (.perform (.request (.putData data))) [] e
  | put {data : Data} {element : Bytes} (encoded : e.encode (.data data) = .ok element) :
      Does e (.perform (.request (.putData data))) [.sent element]
        { e with transport := (Transport.send e.transport element).2 }
  /-- An element is too long to be sent. -/
  | tooLong {element : Bytes} (long : e.node.config.maxPacketSize.toNat < element.length) :
      Does e (.perform (.request (.send element))) [] e
  | send {element : Bytes} (short : element.length ≤ e.node.config.maxPacketSize.toNat) :
      Does e (.perform (.request (.send element))) [.sent element]
        { e with transport := (Transport.send e.transport element).2 }
  /-- A call of the application cannot be armed. -/
  | stuck {delay : Duration} {callback : κ}
      (unarmed : Scheduler.callLater? e.node.scheduler e.host.now delay (.callback callback) = none)
      (collapsed : (e.perform (.callLater delay callback)).2.1 = .collapsed) :
      Does e (.perform (.callLater delay callback)) [] { e with frames := [] }
  /-- A call of the application is armed. -/
  | arm {delay : Duration} {callback : κ} {scheduler : σ (NodeCall κ)}
      (armed : Scheduler.callLater? e.node.scheduler e.host.now delay (.callback callback) =
        some scheduler) :
      Does e (.perform (.callLater delay callback)) [.armed delay (.callback callback)]
        { e with node := { e.node with scheduler } }
  | processEvents : Does e (.perform .processEvents) [] { e with frames := .reading :: e.frames }
  | shutdown :
      Does e (.perform .shutdown) [.closed]
        { e with
          transport := Transport.close e.transport
          node := { e.node with
            pending := (e.node.pending.clear e.host.marks).1
            filters := {}
            registrations := {}
            scheduler := Scheduler.clear e.node.scheduler }
          host := { e.host with marks := (e.node.pending.clear e.host.marks).2 } }
  /-- An element is no packet. -/
  | undecodable {move : Move κ} {element : Bytes} {transport : τ} {error : WireError}
      (brings : e.Brings element move transport)
      (decoded : e.node.format.decode element = .error error) :
      Does e move [.logged (.undecodable error)] { e with transport }
  /-- An element is an interest, which is to be offered. -/
  | interest {move : Move κ} {element : Bytes} {transport : τ} {interest : Interest}
      (brings : e.Brings element move transport)
      (decoded : e.node.format.decode element = .ok (.interest interest)) :
      Does e move []
        { e with
          transport
          frames := .offering interest (e.node.filters.matching interest.name) :: e.frames }
  /-- An element is data, which is to be delivered. -/
  | data {move : Move κ} {element : Bytes} {transport : τ} {data : Data}
      (brings : e.Brings element move transport)
      (decoded : e.node.format.decode element = .ok (.data data)) :
      Does e move []
        { e with
          transport
          node := { e.node with
            pending := (e.node.pending.extractMatching e.host.marks data.name).2.1 }
          host := { e.host with
            marks := (e.node.pending.extractMatching e.host.marks data.name).2.2 }
          frames :=
            .delivering data (e.node.pending.extractMatching e.host.marks data.name).1 :: e.frames }
  /-- Nothing more has arrived, and the calls that are due are taken. -/
  | drained {outer : List (Frame κ)} {transport : τ} (frames : e.frames = .reading :: outer)
      (received : Transport.receive e.transport = (.ok none, transport)) :
      Does e .advance []
        { e with
          transport
          node := { e.node with scheduler := (Scheduler.takeDue e.node.scheduler e.host.now).2 }
          frames := .running (Scheduler.takeDue e.node.scheduler e.host.now).1 :: outer }
  /-- The transport fails, and the calls that are due are taken. -/
  | unreadable {outer : List (Frame κ)} {cause : TransportError} {transport : τ}
      (frames : e.frames = .reading :: outer)
      (received : Transport.receive e.transport = (.error cause, transport)) :
      Does e .advance [.logged (.unreadable cause)]
        { e with
          transport
          node := { e.node with scheduler := (Scheduler.takeDue e.node.scheduler e.host.now).2 }
          frames := .running (Scheduler.takeDue e.node.scheduler e.host.now).1 :: outer }
  /-- A call of the application is made. -/
  | delayed {move : Move κ} {callback : κ} {left : List (Frame κ)}
      (takes : e.Takes (.callback callback) move left) :
      Does e move [.called (.nodeDelay callback)]
        { e with frames := .inside (.nodeDelay callback) :: left }
  /-- An interest times out. -/
  | expire {move : Move κ} {entry : PendingInterest κ} {onTimeout : κ} {left : List (Frame κ)}
      (takes : e.Takes (.timeout entry) move left)
      (removed : (e.node.pending.removeEntry e.host.marks entry.handle).1 = true)
      (given : entry.onTimeout = some onTimeout) :
      Does e move [.called (.timeout entry onTimeout)]
        { e with
          node := { e.node with
            pending := (e.node.pending.removeEntry e.host.marks entry.handle).2.1 }
          host := { e.host with
            marks := (e.node.pending.removeEntry e.host.marks entry.handle).2.2 }
          frames := .inside (.timeout entry onTimeout) :: left }
  /-- A timeout comes too late, or nobody is to be told of it. -/
  | lapse {move : Move κ} {entry : PendingInterest κ} {left : List (Frame κ)}
      (takes : e.Takes (.timeout entry) move left)
      (untold : (e.node.pending.removeEntry e.host.marks entry.handle).1 = true →
        entry.onTimeout = none) :
      Does e move []
        { e with
          node := { e.node with
            pending := (e.node.pending.removeEntry e.host.marks entry.handle).2.1 }
          host := { e.host with
            marks := (e.node.pending.removeEntry e.host.marks entry.handle).2.2 }
          frames := left }
  /-- An interest is taken to a filter that selected it. -/
  | offer {interest : Interest} {filter : FilterEntry κ} {filters : List (FilterEntry κ)}
      {outer : List (Frame κ)} (frames : e.frames = .offering interest (filter :: filters) :: outer) :
      Does e .advance [.called (.interest filter interest)]
        { e with frames := .inside (.interest filter interest) :: .offering interest filters :: outer }
  /-- Data is taken to an entry that it answers. -/
  | deliver {data : Data} {entry : PendingInterest κ} {entries : List (PendingInterest κ)}
      {outer : List (Frame κ)} (frames : e.frames = .delivering data (entry :: entries) :: outer) :
      Does e .advance [.called (.data entry data)]
        { e with frames := .inside (.data entry data) :: .delivering data entries :: outer }
  /-- Some work is finished. -/
  | finish {frame : Frame κ} {outer : List (Frame κ)} (frames : e.frames = frame :: outer)
      (finished : frame.finished = true) : Does e .advance [] { e with frames := outer }
  /-- The callback on top returns. -/
  | resume {call : Call κ} {outer : List (Frame κ)} {result : CallbackResult}
      (frames : e.frames = .inside call :: outer) :
      Does e (.resume result) ((call.notices result).map .logged) { e with frames := outer }
  /-- There is no callback on top that could return. -/
  | unheard {result : CallbackResult} (none : e.current? = none) : Does e (.resume result) [] e

variable {e after : Engine κ σ τ} {events : List (Event κ)} {move : Move κ}

/-- An element is dispatched, wherever it comes from. -/
theorem Brings.does {element : Bytes} {transport : τ} (brings : e.Brings element move transport) :
    e.Does move (dispatch { e with transport } element).2 (dispatch { e with transport } element).1 := by
  simp only [dispatch]
  cases decoded : e.node.format.decode element with
  | error error => exact .undecodable brings decoded
  | ok packet =>
    cases packet with
    | interest interest => exact .interest brings decoded
    | data data => exact .data brings decoded

/-- A call is run, wherever it comes from. -/
theorem Takes.does {call : NodeCall κ} {left : List (Frame κ)} (takes : e.Takes call move left) :
    e.Does move (Engine.run { e with frames := left } call).2
      (Engine.run { e with frames := left } call).1 := by
  cases call with
  | callback callback => exact .delayed takes
  | timeout entry =>
    simp only [run]
    split
    · next removed given => exact .expire takes removed given
    · next other =>
      apply Does.lapse takes
      intro removed
      cases given : entry.onTimeout with
      | none => rfl
      | some onTimeout => exact absurd given (other onTimeout removed)

theorem express_does (e : Engine κ σ τ) (id : EntryId) (interest : Interest) (onData : κ)
    (onTimeout : Option κ) :
    e.Does (.perform (.request (.express id interest onData onTimeout)))
      (e.express id interest onData onTimeout).2.2 (e.express id interest onData onTimeout).1 := by
  have host := e.hostAsking_eq interest
  cases encoded : e.encode (.interest (e.completion interest)) with
  | error error =>
    simp only [express, completed_eq, encoded]
    rw [host]
    exact .unsent encoded
  | ok element =>
    have added : e.node.pending.add (e.hostAsking interest).marks id (e.completion interest) onData onTimeout =
        (e.entryFor id interest onData onTimeout,
          ⟨e.node.pending.entries ++ [e.entryFor id interest onData onTimeout]⟩, e.host.marks.issue) := by
      rw [hostAsking_marks]
      rfl
    cases armed : Scheduler.callLater? e.node.scheduler e.host.now (e.lifetimeOf interest)
        (.timeout (e.entryFor id interest onData onTimeout) : NodeCall κ) with
    | none =>
      have overrun := Does.overrun encoded armed (by
        simp only [express, completed_eq, encoded, added, hostAsking_now, armed, collapse])
      simp only [express, completed_eq, encoded, added, hostAsking_now, armed, collapse]
      rw [host]
      exact overrun
    | some scheduler =>
      simp only [express, completed_eq, encoded, added, hostAsking_now, armed, transmit]
      rw [host]
      exact .express encoded armed

theorem register_does (e : Engine κ σ τ) (id : EntryId) (root : Name) (onInterest : Option κ) (onFailed : κ)
    (options : RegistrationOptions) :
    e.Does (.perform (.request (.register id root onInterest onFailed options)))
      (e.register id root onInterest onFailed options).2.2
      (e.register id root onInterest onFailed options).1 := by
  rcases answered : Transport.register e.transport root options with ⟨cause | ⟨⟩, transport⟩
  · cases onInterest <;> simp only [register, answered, invoke] <;> exact .refused answered
  · cases onInterest <;> simp only [register, answered] <;> exact .granted answered

/-- Whatever operation is started, it comes to one of these. -/
theorem perform_does (e : Engine κ σ τ) (operation : Operation κ) :
    e.Does (.perform operation) (e.perform operation).2.2 (e.perform operation).1 := by
  cases operation with
  | request request =>
    cases request with
    | express id interest onData onTimeout => exact e.express_does id interest onData onTimeout
    | removePending => exact .removePending
    | register id root onInterest onFailed options =>
      exact e.register_does id root onInterest onFailed options
    | removeRegistered => exact .removeRegistered
    | setFilter => exact .setFilter
    | unsetFilter => exact .unsetFilter
    | putData data =>
      simp only [perform, request]
      cases encoded : e.encode (.data data) with
      | error error => exact .unput encoded
      | ok element => exact .put encoded
    | send element =>
      simp only [perform, request]
      split
      · next long => exact .tooLong long
      · next short => exact .send (Nat.not_lt.mp short)
  | callLater delay callback =>
    cases armed : Scheduler.callLater? e.node.scheduler e.host.now delay
        (.callback callback : NodeCall κ) with
    | none =>
      have stuck := Does.stuck armed (by simp only [perform, armed, collapse])
      simpa only [perform, armed, collapse] using stuck
    | some scheduler =>
      simp only [perform, armed]
      exact .arm armed
  | processEvents => exact .processEvents
  | receive element => exact (Brings.receive (e := e)).does
  | run call => exact (Takes.given (e := e)).does
  | shutdown => exact .shutdown

/-- So does the next bit of the innermost work. -/
theorem advance_does (advanced : e.advance = some (after, events)) : e.Does .advance events after := by
  obtain ⟨node, transport, host, frames⟩ := e
  cases frames with
  | nil => cases advanced
  | cons frame outer =>
    cases frame with
    | inside call => cases advanced
    | reading =>
      rcases received : Transport.receive transport with ⟨arrival, transport'⟩
      simp only [advance, received] at advanced
      rcases arrival with cause | _ | element
      · cases advanced
        exact .unreadable rfl received
      · cases advanced
        exact .drained rfl received
      · have does := (Brings.read (e := ⟨node, transport, host, .reading :: outer⟩) rfl received).does
        rwa [show dispatch _ element = (after, events) from Option.some.inj advanced] at does
    | running calls =>
      cases calls with
      | nil =>
        cases advanced
        exact .finish rfl rfl
      | cons call calls =>
        have does := (Takes.due (e := ⟨node, transport, host, .running (call :: calls) :: outer⟩) rfl).does
        rwa [show Engine.run _ call = (after, events) from Option.some.inj advanced] at does
    | offering interest filters =>
      cases filters with
      | nil =>
        cases advanced
        exact .finish rfl rfl
      | cons filter filters =>
        cases advanced
        exact .offer rfl
    | delivering data entries =>
      cases entries with
      | nil =>
        cases advanced
        exact .finish rfl rfl
      | cons entry entries =>
        cases advanced
        exact .deliver rfl

/-- So does the end of a callback. -/
theorem resume_does (e : Engine κ σ τ) (result : CallbackResult) :
    e.Does (.resume result) (e.resume result).2 (e.resume result).1 := by
  cases inside : e.current? with
  | some call =>
    obtain ⟨outer, frames⟩ := frames_of_current? inside
    rw [resume_of_frames frames]
    exact .resume frames
  | none =>
    rw [resume_of_none inside]
    exact .unheard inside

/-- **A move of a node comes to one of these.** -/
theorem does_of_act? (acted : e.act? move = some (after, events)) : e.Does move events after := by
  cases move with
  | perform operation =>
    rw [act?] at acted
    split at acted
    · cases acted
      exact e.perform_does operation
    · cases acted
  | advance => exact advance_does acted
  | resume result =>
    rw [act?] at acted
    split at acted
    · have does := e.resume_does result
      rwa [show e.resume result = (after, events) from Option.some.inj acted] at does
    · cases acted
  | drift => cases acted

end Engine

end NamedData
