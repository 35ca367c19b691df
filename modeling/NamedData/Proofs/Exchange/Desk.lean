import NamedData.Exchange.Run
import NamedData.Proofs.Loop.Calls
import NamedData.Proofs.Packet.RoundTrip

/-!
What a loop at one end of a link does with its work.

A loop has commands in its queue, entries and filters in its tables, timeouts to come, calls to make, and
a link and a host that it shares with others: its desk. Of all that the loop does only little changes
what is on it (`Desk.Step`), and every step of a loop is of one of these kinds
(`EventLoop.Works.stepBy?`, `EventLoop.Works.resume`).
-/
namespace NamedData

variable {κ : Type}

/-- The calls that a frame has still to make, or is making. -/
def Frame.work : Frame κ → List (Call κ)
  | .reading | .running _ => []
  | .offering interest entries => entries.map fun entry => .interest entry interest
  | .delivering data entries => entries.map fun entry => .data entry data
  | .inside call => [call]

/-- What a loop at one end of a link has to work on. -/
structure Desk (κ : Type) where
  queue : List (Command κ)
  table : List (PendingInterest κ)
  filters : List (FilterEntry κ)
  /-- The timeouts to come. -/
  calls : Multiset (NodeCall κ)
  /-- The calls that are made or to be made, the next first. -/
  work : List (Call κ)
  link : Link
  host : Host

/-- What is on the desk of a loop. -/
def EventLoop.desk (l : EventLoop κ LinkEnd) : Desk κ where
  queue := l.channel.queue
  table := l.engine.node.pending.entries
  filters := l.engine.node.filters.entries
  calls := l.calls
  work := l.engine.frames.flatMap Frame.work
  link := l.engine.transport.link
  host := l.engine.host

/-- What a loop does in a step, as far as others can tell. -/
inductive Deed (κ : Type) where
  | rest
  /-- An interest is refused because it is too long. -/
  | refuse
  /-- So many interests are found to be pending. -/
  | count (pending : Nat)
  /-- An entry leaves the table because its lifetime is over. -/
  | expire (entry : PendingInterest κ)
  /-- A callback returns. -/
  | tell (call : Call κ)
  /-- The node is shut down. -/
  | leave

/-- The link after an element has been sent, if the link takes it. -/
def Link.handed (l : Link) (side : Side) (element : Bytes) : Link := (l.send? side element).getD l

/-- The commands that an exchange is made of, all interests being waited for. -/
def Command.ofExchange : Command κ → Bool
  | .request (.express _ _ _ (some _)) | .request (.register _ _ (some _) _ _) => true
  | .stopWhen _ | .countPending _ | .flush _ | .shutdown => true
  | _ => false

/-- Whether a command is neither for the node nor a question. -/
def Command.forLoop : Command κ → Bool
  | .stopWhen _ | .flush _ => true
  | _ => false

/-- What a step of a loop can do to its desk. -/
inductive Desk.Step (config : FaceConfig) (side : Side) (d : Desk κ) : Deed κ → Desk κ → Prop where
  | rest : Step config side d .rest d
  /-- The stop predicate is polled. -/
  | poll {predicate : κ} {index : Nat} (quiet : d.queue = []) (idle : d.work = []) :
      Step config side d .rest { d with work := [.poll predicate index] }
  | skip {command : Command κ} {queue : List (Command κ)} (first : d.queue = command :: queue)
      (other : command.forLoop = true) : Step config side d .rest { d with queue }
  | count {ticket : Option Nat} {queue : List (Command κ)}
      (first : d.queue = .countPending ticket :: queue) :
      Step config side d (.count d.table.length) { d with queue }
  | refuse {id : EntryId} {interest : Interest} {onData : κ} {onTimeout : Option κ}
      {queue : List (Command κ)}
      (first : d.queue = .request (.express id interest onData onTimeout) :: queue)
      (long : config.maxPacketSize.toNat <
        (Packet.interest (interest.completed config d.host).1).toJson.length) :
      Step config side d .refuse { d with queue, host := (interest.completed config d.host).2.2 }
  | express {id : EntryId} {interest : Interest} {onData : κ} {onTimeout : Option κ}
      {queue : List (Command κ)} {entry : PendingInterest κ} {host : Host}
      (first : d.queue = .request (.express id interest onData onTimeout) :: queue)
      (fits : (Packet.interest (interest.completed config d.host).1).toJson.length ≤
        config.maxPacketSize.toNat)
      (entry_eq : entry = ⟨d.host.marks.next, id, (interest.completed config d.host).1, onData, onTimeout⟩)
      (host_eq : host = { (interest.completed config d.host).2.2 with marks := d.host.marks.issue }) :
      Step config side d .rest
        { d with
          queue, host
          table := d.table ++ [entry]
          calls := d.calls + {.timeout entry}
          link := d.link.handed side (Packet.interest entry.interest).toJson }
  | register {id filterId : EntryId} {root : Name} {onInterest onFailed : κ}
      {options : RegistrationOptions} {queue : List (Command κ)}
      (first : d.queue = .request (.register id root (some onInterest) onFailed options) :: queue) :
      Step config side d .rest
        { d with
          queue
          filters := d.filters ++ [⟨filterId, ⟨root⟩, onInterest⟩]
          host := d.host.drawId.2 }
  | shutdown {queue : List (Command κ)} {marks : Marks} (first : d.queue = .shutdown :: queue)
      (idle : d.work = []) (issued : marks.next = d.host.marks.next) :
      Step config side d .leave
        { d with
          queue
          table := []
          filters := []
          link := d.link.close side
          host := { d.host with marks } }
  /-- Nothing that can be decoded is found on the link. -/
  | look (nothing : ∀ element, (d.link.receive side).1 = .element element →
        ∃ error, jsonFormat.decode element = .error error) :
      Step config side d .rest { d with link := (d.link.receive side).2 }
  | read {element : Bytes} {link : Link} {data : Data} {marks : Marks} (idle : d.work = [])
      (arrived : d.link.receive side = (.element element, link))
      (decoded : jsonFormat.decode element = .ok (.data data))
      (issued : marks.next = d.host.marks.next) :
      Step config side d .rest
        { d with
          link
          table := d.table.filter fun entry => !entry.interest.matchesName data.name
          work := (d.table.filter fun entry => entry.interest.matchesName data.name).reverse.map
            fun entry => .data entry data
          host := { d.host with marks } }
  | take {element : Bytes} {link : Link} {interest : Interest} (idle : d.work = [])
      (arrived : d.link.receive side = (.element element, link))
      (decoded : jsonFormat.decode element = .ok (.interest interest)) :
      Step config side d .rest
        { d with
          link
          work := (d.filters.filter fun entry => entry.filter.matchesName interest.name).map
            fun entry => .interest entry interest }
  /-- A timeout comes too late. -/
  | lapse {entry : PendingInterest κ} {calls : Multiset (NodeCall κ)}
      (due : d.calls = .timeout entry ::ₘ calls) : Step config side d .rest { d with calls }
  | expire {entry : PendingInterest κ} {calls : Multiset (NodeCall κ)} {onTimeout : κ} {marks : Marks}
      (idle : d.work = []) (due : d.calls = .timeout entry ::ₘ calls) (own : entry.onTimeout = some onTimeout)
      (waits : ∃ other ∈ d.table, other.handle = entry.handle)
      (issued : marks.next = d.host.marks.next) :
      Step config side d (.expire entry)
        { d with
          calls
          table := d.table.eraseP fun other => other.handle == entry.handle
          work := [.timeout entry onTimeout]
          host := { d.host with marks } }
  | tell {call : Call κ} {work : List (Call κ)} (first : d.work = call :: work) :
      Step config side d (.tell call) { d with work }

/-- What a step does to the commands and the filters. -/
theorem Desk.Step.queued {config : FaceConfig} {side : Side} {d after : Desk κ} {deed : Deed κ}
    (step : d.Step config side deed after) :
    after.queue = d.queue ∧ after.filters = d.filters ∨
      ∃ command, d.queue = command :: after.queue ∧ ∀ id root onInterest onFailed options,
        command = .request (.register id root (some onInterest) onFailed options) →
          ∃ filterId, after.filters = d.filters ++ [⟨filterId, ⟨root⟩, onInterest⟩] := by
  cases step with
  | rest | poll quiet idle | look nothing | read idle arrived decoded issued | take idle arrived decoded
  | lapse due | expire idle due own waits issued | tell first => exact .inl ⟨rfl, rfl⟩
  | skip first other =>
    refine .inr ⟨_, first, ?_⟩
    rintro id root onInterest onFailed options rfl
    cases other
  | count first => exact .inr ⟨_, first, nofun⟩
  | refuse first long => exact .inr ⟨_, first, nofun⟩
  | express first short entry_eq host_eq => exact .inr ⟨_, first, nofun⟩
  | shutdown first idle issued => exact .inr ⟨_, first, nofun⟩
  | register first =>
    refine .inr ⟨_, first, ?_⟩
    rintro id root onInterest onFailed options same
    cases same
    exact ⟨_, rfl⟩

/-! ## What is seen of a step -/

/-- Whether an event is that an interest is refused because it is too long. -/
def Event.isRefusal : Event κ → Bool
  | .logged (.expressFailed _ (.packetTooLarge ..)) => true
  | _ => false

/-- The number of interests that are found to be pending. -/
def Event.pending? : Event κ → Option Nat
  | .answered _ (.pending count) => some count
  | _ => none

/-- How many interests were refused because they are too long. -/
def refusals (events : List (Event κ)) : Nat := events.countP Event.isRefusal

/-- How many are refused in a step. -/
def Deed.refusals : Deed κ → Nat
  | .refuse => 1
  | _ => 0

/-- What is found to be pending in a step. -/
def Deed.counts : Deed κ → List Nat
  | .count pending => [pending]
  | _ => []

/-- The callback that returns in a step. -/
def Deed.told? : Deed κ → Option (Call κ)
  | .tell call => some call
  | _ => none

/-- What a loop has done whose run ends. -/
inductive Deed.Ends : Deed κ → LoopExit → Prop
  | leave : Ends .leave .shutdown
  | stop (predicate : κ) (index : Nat) : Ends (.tell (.poll predicate index)) .stopped

namespace EventLoop

variable {l : EventLoop κ LinkEnd} {config : FaceConfig} {side : Side}

/-- A loop of an exchange. -/
structure Tame (config : FaceConfig) (side : Side) (l : EventLoop κ LinkEnd) : Prop where
  config : l.engine.node.config = config
  format : l.engine.node.format = jsonFormat
  side : l.engine.transport.side = side
  faults : l.engine.transport.faults = {}
  batches : l.engine.frames.flatMap Frame.calls = []
  /-- The node reads only when it has nothing else to do. -/
  below : ∀ outer, .reading :: outer <:+ l.engine.frames → outer = []
  calls : ∀ call ∈ l.calls, ∃ entry, call = .timeout entry ∧ entry.onTimeout.isSome = true
  tasks : ∀ timer ∈ l.timers, ∀ callback, timer.task ≠ .callback callback
  queue : ∀ command ∈ l.channel.queue, command.ofExchange = true
  face : l.channel.hasFace = true
  loopExists : l.channel.hasLoop = true
  commandsOpen : l.commandsOpen = true

/-- What a loop of an exchange does in a step. -/
structure Works (config : FaceConfig) (side : Side) (l : EventLoop κ LinkEnd) (deed : Deed κ)
    (outcome : EventLoop κ LinkEnd × List (Event κ) × Turn) : Prop where
  step : l.desk.Step config side deed outcome.1.desk
  tame : outcome.1.Tame config side
  refusals : refusals outcome.2.1 = deed.refusals
  counts : outcome.2.1.filterMap Event.pending? = deed.counts
  expires : ∀ entry, deed = .expire entry → ∃ onTimeout, .called (.timeout entry onTimeout) ∈ outcome.2.1
  ends : ∀ exit, outcome.2.2 = .exited exit → deed.Ends exit

end EventLoop

end NamedData
